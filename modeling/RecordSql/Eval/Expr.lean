import RecordSql.Eval.Function
import RecordSql.Eval.Like
import RecordSql.Regex.Standard
import RecordSql.Sql.ExprText
import RecordSql.Value.Compare

/-!
# Evaluating expressions

An expression is evaluated against a row, given as a function from column names to values.  A
condition evaluates to one of three truth values; conjunctions and disjunctions stop as soon as
their value is settled, so that later members can no longer fail.
-/

namespace RecordSql
namespace Eval

open Sql (Literal Column Arithmetic Comparison Truth Scalar Predicate)

/-!
# Operators
-/

def compareTruth (caseSensitive : Bool) (a : Value) (op : Comparison) (b : Value) : Truth :=
  match a.compare caseSensitive b with
  | some order => .ofBool (op.accepts order)
  | none => .unknown

def wordArithmetic (op : Arithmetic) (a b : Int) : Option Int :=
  match op with
  | .add => Number.checked (a + b)
  | .sub => Number.checked (a - b)
  | .mul => Number.checked (a * b)
  | .div => Number.checked (a.tdiv b)
  | .mod => (Number.checked (a.tdiv b)).map fun _ => a.tmod b

def floatArithmetic (op : Arithmetic) (x y : Float) : Float :=
  match op with
  | .add => x + y
  | .sub => x - y
  | .mul => x * y
  | .div => x / y
  | .mod => Number.remainder x y

def dividesBy (op : Arithmetic) : Bool :=
  op == .div || op == .mod

/-- A time moved by a number of days, to the nearest millisecond. -/
def moveDays (op : Arithmetic) (t : Calendar.DateTime) (days : Float) : Option Calendar.DateTime :=
  let milliseconds := Number.toWord (days * 86400000.0).round
  let span := milliseconds * 1000000
  t.shift (if op == .sub then -span else span)

def isText : Value -> Bool
  | .str _ => true
  | _ => false

/--
The value of an operation on values that are there: texts are joined by `+`, days are added to a
time, whole numbers stay whole, and all else is computed with doubles.
-/
def operate (a : Value) (op : Arithmetic) (b : Value) : Except EvalError Value :=
  let invalid := EvalError.invalidValue op.sign (a.text ++ ", " ++ b.text)
  let orInvalid (v : Option Value) : Except EvalError Value :=
    match v with
    | some v => .ok v
    | none => .error invalid
  if op == .add && (isText a || isText b) then .ok (.str (a.text ++ b.text))
  else
    match a, b with
    | .dateTime t, b =>
        if op == .add || op == .sub then
          orInvalid ((b.asFloat >>= moveDays op t).map .dateTime)
        else .error invalid
    | .int i, .int j =>
        if j == 0 && dividesBy op then .error .divideByZero
        else orInvalid ((wordArithmetic op i j).map .int)
    | a, b =>
        match a.asFloat, b.asFloat with
        | some x, some y =>
            if y == 0.0 && dividesBy op then .error .divideByZero
            else .ok (.float (floatArithmetic op x y))
        | _, _ => .error invalid

def arithmetic (a : Value) (op : Arithmetic) (b : Value) : Except EvalError Value :=
  if a.isNull || b.isNull then .ok .null else operate a op b

def negate (v : Value) : Except EvalError Value :=
  match v with
  | .null => .ok .null
  | .int i => .ok (.int (Number.wrap (-i)))
  | .float x => .ok (.float (-x))
  | v => .error (.invalidValue "-" v.text)

def likeTruth (engine : Regex.Engine) (v pattern : Value) : Except EvalError Truth :=
  if v.isNull || pattern.isNull then .ok .unknown
  else
    match Like.compile engine pattern.text with
    | some accepts => .ok (.ofBool (accepts v.text))
    | none => .error (.invalidPattern pattern.text)

/-- The words of a full-text search: separated by commas or by `OR`. -/
def searchWords (wanted : String) : List String :=
  let pieces := (Text.splitOn "," wanted).flatMap fun piece =>
    (Text.splitOn " OR " piece).flatMap (Text.splitOn " or ")
  (pieces.map Text.trim).filter (· ≠ "")

/-- One of the members of a stored list is one of the words. -/
def containsTruth (stored wanted : Value) : Truth :=
  if stored.isNull || wanted.isNull then .unknown
  else
    let members := Text.members stored.text
    .ofBool ((searchWords wanted.text).any fun w => members.any (Text.sameName · w))

/-!
# Expressions
-/

mutual

def scalar (clock : Clock) (read : String -> Value) : Scalar -> Except EvalError Value
  | .literal l => .ok (.ofLiteral l)
  | .column c => .ok (read c.rowKey)
  | .call name _ args => do
      let values <- scalars clock read args
      Function.call clock name values
  | .binary l op r => do
      let a <- scalar clock read l
      let b <- scalar clock read r
      arithmetic a op b
  | .negate e => do
      let v <- scalar clock read e
      negate v
  | .searchedCase whens otherwise => do
      match <- branches clock read whens with
      | some v => .ok v
      | none => elseValue clock read otherwise
  | .simpleCase input whens otherwise => do
      let v <- scalar clock read input
      match <- matching clock read v whens with
      | some v => .ok v
      | none => elseValue clock read otherwise
  | .collate e _ => scalar clock read e
  | .star => .error (.invalidValue "SELECT" (Scalar.text .star))
  | .starOf table => .error (.invalidValue "SELECT" (Scalar.text (.starOf table)))

def predicate (clock : Clock) (read : String -> Value) : Predicate -> Except EvalError Truth
  | .and items => allOf clock read .isTrue items
  | .or items => anyOf clock read .isFalse items
  | .not p => do
      let t <- predicate clock read p
      .ok t.not
  | .compare l op r => do
      let a <- scalar clock read l
      let b <- scalar clock read r
      .ok (compareTruth (l.isCaseSensitive || r.isCaseSensitive) a op b)
  | .isNull e negated => do
      let v <- scalar clock read e
      .ok (Truth.negateIf negated (.ofBool v.isNull))
  | .inList e items negated => do
      let v <- scalar clock read e
      let t <- memberOf clock read v .isFalse items
      .ok (Truth.negateIf negated t)
  | .like e pattern negated => do
      let v <- scalar clock read e
      let p <- scalar clock read pattern
      let t <- likeTruth .standard v p
      .ok (Truth.negateIf negated t)
  | .contains c wanted => do
      let w <- scalar clock read wanted
      .ok (containsTruth (read c.rowKey) w)
  | .const t => .ok t

def scalars (clock : Clock) (read : String -> Value) : List Scalar -> Except EvalError (List Value)
  | [] => .ok []
  | e :: rest => do
      let v <- scalar clock read e
      let vs <- scalars clock read rest
      .ok (v :: vs)

/-- The value of the first branch whose condition is true. -/
def branches (clock : Clock) (read : String -> Value) :
    List (Predicate × Scalar) -> Except EvalError (Option Value)
  | [] => .ok none
  | (p, e) :: rest => do
      let t <- predicate clock read p
      if t.holds then
        let v <- scalar clock read e
        .ok (some v)
      else branches clock read rest

/-- The value of the first branch that is equal to the input. -/
def matching (clock : Clock) (read : String -> Value) (input : Value) :
    List (Scalar × Scalar) -> Except EvalError (Option Value)
  | [] => .ok none
  | (w, e) :: rest => do
      let candidate <- scalar clock read w
      if input.equals false candidate == some true then
        let v <- scalar clock read e
        .ok (some v)
      else matching clock read input rest

def elseValue (clock : Clock) (read : String -> Value) : Option Scalar -> Except EvalError Value
  | none => .ok .null
  | some e => scalar clock read e

def allOf (clock : Clock) (read : String -> Value) (sofar : Truth) :
    List Predicate -> Except EvalError Truth
  | [] => .ok sofar
  | p :: rest => do
      let t <- predicate clock read p
      let now := sofar.and t
      if now == .isFalse then .ok now else allOf clock read now rest

def anyOf (clock : Clock) (read : String -> Value) (sofar : Truth) :
    List Predicate -> Except EvalError Truth
  | [] => .ok sofar
  | p :: rest => do
      let t <- predicate clock read p
      let now := sofar.or t
      if now == .isTrue then .ok now else anyOf clock read now rest

def memberOf (clock : Clock) (read : String -> Value) (v : Value) (sofar : Truth) :
    List Scalar -> Except EvalError Truth
  | [] => .ok sofar
  | e :: rest => do
      let candidate <- scalar clock read e
      let now := sofar.or (compareTruth false v .eq candidate)
      if now == .isTrue then .ok now else memberOf clock read v now rest

end

/-- The value of an expression without columns. -/
def constant (clock : Clock) (e : Scalar) : Except EvalError Value :=
  scalar clock (fun _ => .null) e

end Eval
end RecordSql
