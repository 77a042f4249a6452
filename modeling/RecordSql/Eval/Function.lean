import RecordSql.Calendar.Part
import RecordSql.Eval.Error
import RecordSql.Number.Binary
import RecordSql.Text.Ascii
import RecordSql.Text.Pieces
import RecordSql.Value.Basic

/-!
# Functions

The functions that an expression can call.  A missing argument makes most results missing; a wrong
number of arguments, or an argument of the wrong kind, is a failure.
-/

namespace RecordSql

/-- The present moment, by the clock on the wall and in universal time. -/
structure Clock where
  wall : Calendar.DateTime
  universal : Calendar.DateTime

namespace Function

/-!
# Arguments
-/

def intArgument (function : String) (v : Value) : Except EvalError (Option Int) :=
  if v.isNull then .ok none
  else
    match v.asInt.or (v.asFloat.map Number.toWord) with
    | some i => .ok (some i)
    | none => .error (.invalidValue (Text.upper function) v.text)

def dateArgument (function : String) (v : Value) : Except EvalError (Option Calendar.DateTime) :=
  if v.isNull then .ok none
  else
    match v.asDateTime with
    | some t => .ok (some t)
    | none => .error (.invalidValue (Text.upper function) v.text)

def partArgument (v : Value) : Except EvalError Calendar.Part :=
  match v with
  | .str s =>
      let name := Text.lowerAscii s
      match Calendar.Part.ofName? name with
      | some part => .ok part
      | none => .error (.invalidValue "date part" name)
  | v => .error (.invalidValue "date part" v.text)

/-- A function of the text of its argument. -/
def onText (f : String -> Value) (v : Value) : Value :=
  match v.text? with
  | some s => f s
  | none => .null

/-!
# Texts

Characters are counted from one.
-/

/-- The characters of a text after the first `skip`, at most `take` of them. -/
def cut (s : String) (skip take : Nat) : String :=
  String.ofList ((s.toList.drop skip).take take)

def left (s : String) (n : Int) : String :=
  cut s 0 n.toNat

def right (s : String) (n : Int) : String :=
  let length := s.toList.length
  let n := min n.toNat length
  cut s (length - n) n

/--
The characters from position `start` on, `length` of them; positions before one use up length.
-/
def substring (s : String) (start length : Int) : String :=
  let stop := max 1 (Number.saturate (start + length))
  let first := max 1 start
  cut s (first - 1).toNat (stop - first).toNat

def replace (s target replacement : String) : String :=
  if target.isEmpty then s
  else
    String.ofList
      (Text.replaceFrom Text.sameLetter target.toList replacement.toList 0 s.toList)

/-- The first position, from `start` on, where the lower-case text continues with `target`. -/
def charIndex (target s : String) (start : Int) : Int :=
  let needle := (Text.lower target).toList
  let text := (Text.lower s).toList
  let skip := (max 1 start - 1).toNat
  if needle.isEmpty then 0
  else
    match Text.firstWhere (Text.startsWith (· == ·) needle) (text.drop skip) with
    | some n => skip + n + 1
    | none => 0

def charIndexOf (target v : Value) (start : Int) : Value :=
  match target.text?, v.text? with
  | some t, some s => .int (charIndex t s start)
  | _, _ => .null

/-!
# Numbers
-/

def absolute (v : Value) : Except EvalError Value :=
  match v with
  | .null => .ok .null
  | .int i =>
      match Number.checked i.natAbs with
      | some n => .ok (.int n)
      | none => .error (.invalidValue "ABS" (Number.intText i))
  | v =>
      match v.asFloat with
      | some x => .ok (.float x.abs)
      | none => .error (.invalidValue "ABS" v.text)

/-- The number of places as a signed word of 32 bits. -/
def places (digits : Int) : Int :=
  digits.bmod 4294967296

def roundTo (x : Float) (digits : Int) : Float :=
  let factor := Number.powInt 10.0 (places digits)
  (x * factor).round / factor

def round (v : Value) (digits : Int) : Except EvalError Value :=
  match v with
  | .null => .ok .null
  | .int i =>
      if 0 ≤ digits then .ok (.int i) else .ok (.float (roundTo (Float.ofInt i) digits))
  | v =>
      match v.asFloat with
      | some x => .ok (.float (roundTo x digits))
      | none => .error (.invalidValue "ROUND" v.text)

/-!
# Dates
-/

def datePartOf (function : String) (part : Calendar.Part) (v : Value) : Except EvalError Value := do
  match <- dateArgument function v with
  | some t => .ok (.int (part.extract t))
  | none => .ok .null

def dateAdd (part : Calendar.Part) (n : Int) (t : Calendar.DateTime) : Except EvalError Value :=
  match part.add n t with
  | some t => .ok (.dateTime t)
  | none => .error (.invalidValue "DATEADD" (Number.intText n))

/-!
# Calling
-/

/-- The number of arguments of each function, in words. -/
def arities : List (String × String) := [
  ("upper", "1"), ("lower", "1"), ("trim", "1"), ("ltrim", "1"), ("rtrim", "1"), ("len", "1"),
  ("left", "2"), ("right", "2"), ("substring", "3"), ("replace", "3"), ("charindex", "2 or 3"),
  ("concat", "at least 2"), ("isnull", "2"), ("coalesce", "at least 1"), ("abs", "1"),
  ("round", "2"), ("getdate", "no"), ("getutcdate", "no"), ("year", "1"), ("month", "1"),
  ("day", "1"), ("dateadd", "3"), ("datediff", "3"), ("datepart", "2")]

def isFunction (name : String) : Bool :=
  arities.any (·.1 == name)

def wrongArguments (name : String) : EvalError :=
  match arities.find? (·.1 == Text.lowerAscii name) with
  | some (_, arity) => .invalidArguments (Text.upper name) (arity ++ " arguments")
  | none => .unknownFunction (Text.upper name)

def call (clock : Clock) (name : String) (args : List Value) : Except EvalError Value :=
  match Text.lowerAscii name, args with
  | "upper", [v] => .ok (onText (fun s => .str (Text.upper s)) v)
  | "lower", [v] => .ok (onText (fun s => .str (Text.lower s)) v)
  | "trim", [v] => .ok (onText (fun s => .str (Text.trim s)) v)
  | "ltrim", [v] => .ok (onText (fun s => .str (Text.trimStart s)) v)
  | "rtrim", [v] => .ok (onText (fun s => .str (Text.trimEnd s)) v)
  | "len", [v] => .ok (onText (fun s => .int (Text.trimEnd s).toList.length) v)
  | "left", [v, n] => do
      match <- intArgument "left" n, v.text? with
      | some n, some s => .ok (.str (left s n))
      | _, _ => .ok .null
  | "right", [v, n] => do
      match <- intArgument "right" n, v.text? with
      | some n, some s => .ok (.str (right s n))
      | _, _ => .ok .null
  | "substring", [v, start, length] => do
      let start <- intArgument "substring" start
      let length <- intArgument "substring" length
      match v.text?, start, length with
      | some s, some start, some length =>
          if length < 0 then .error (.invalidValue "SUBSTRING" (Number.intText length))
          else .ok (.str (substring s start length))
      | _, _, _ => .ok .null
  | "replace", [v, target, replacement] =>
      match v.text?, target.text?, replacement.text? with
      | some s, some t, some r => .ok (.str (replace s t r))
      | _, _, _ => .ok .null
  | "charindex", [target, v] => .ok (charIndexOf target v 1)
  | "charindex", [target, v, start] => do
      match <- intArgument "charindex" start with
      | some start => .ok (charIndexOf target v start)
      | none => .ok .null
  | "concat", a :: b :: rest =>
      .ok (.str (((a :: b :: rest).filterMap Value.text?).foldl (· ++ ·) ""))
  | "isnull", [v, fallback] => .ok (if v.isNull then fallback else v)
  | "coalesce", v :: rest => .ok (((v :: rest).find? (!·.isNull)).getD .null)
  | "abs", [v] => absolute v
  | "round", [v, digits] => do
      match <- intArgument "round" digits with
      | some digits => round v digits
      | none => .ok .null
  | "getdate", [] => .ok (.dateTime clock.wall)
  | "getutcdate", [] => .ok (.dateTime clock.universal)
  | "year", [v] => datePartOf "year" .year v
  | "month", [v] => datePartOf "month" .month v
  | "day", [v] => datePartOf "day" .day v
  | "dateadd", [part, n, date] => do
      let part <- partArgument part
      let n <- intArgument "dateadd" n
      let date <- dateArgument "dateadd" date
      match n, date with
      | some n, some t => dateAdd part n t
      | _, _ => .ok .null
  | "datediff", [part, start, stop] => do
      let part <- partArgument part
      let start <- dateArgument "datediff" start
      let stop <- dateArgument "datediff" stop
      match start, stop with
      | some a, some b => .ok (.int (part.diff a b))
      | _, _ => .ok .null
  | "datepart", [part, date] => do
      let part <- partArgument part
      datePartOf "datepart" part date
  | _, _ => .error (wrongArguments name)

end Function
end RecordSql
