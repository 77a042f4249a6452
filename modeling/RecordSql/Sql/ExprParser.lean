import RecordSql.Sql.Cursor
import RecordSql.Sql.Expr

/-!
# Parsing expressions

Sums are made of products, products of signed operands.  An operand may hold whole expressions and
conditions again: in parentheses, in the arguments of a function and in a `CASE`.  Those inner
parsers are handed in; since an operand takes a token before it uses one of them, tying the knot
once per token is enough.
-/

namespace RecordSql
namespace Sql

/-- The parsers for what may stand inside an operand. -/
structure Inner where
  scalar : Parser Scalar
  predicate : Parser Predicate

namespace Parser

/-!
# Operands
-/

/-- A number, after its token was taken. -/
def numberLiteral (text : String) (pivot : Nat) : Parser Scalar :=
  let digits := text.toList
  if digits.contains '.' then
    match Number.readFloat digits with
    | some x => return .literal (.ofFloat x)
    | none => fail .invalidNumber pivot
  else
    match Number.readInt digits with
    | some i => return .literal (.int i)
    | none => fail .invalidNumber pivot

/-- A column, or all columns of a table; of a name with many parts the last two count. -/
def columnReference : Parser Scalar := do
  let (first, quoted) <- identifier
  if <- eatSymbol "." then
    if <- eatSymbol "*" then return .starOf first
    else
      let second <- name
      let others <- many (eatSymbol ".") name
      match (first :: second :: others).reverse with
      | last :: before :: _ => return .column (.inCollection before last)
      | _ => return .column (.inCollection first second)
  else return .column ⟨none, first, quoted⟩

/-- The functions whose first argument is the bare name of a part of a date. -/
def takesDatePart (function : String) : Bool :=
  ["dateadd", "datediff", "datepart"].contains (Text.lowerAscii function)

/-- A bare name as first argument of a date function is the name of a part, not a column. -/
def withDatePart (function : String) (args : List Scalar) : List Scalar :=
  if takesDatePart function then
    match args with
    | .column ⟨none, part, _⟩ :: rest => .literal (.str (Text.lowerAscii part)) :: rest
    | args => args
  else args

def argument (inner : Inner) : Parser Scalar := do
  if <- eatSymbol "*" then return .star else inner.scalar

/-- The arguments of a function, from the opening parenthesis on. -/
def callArguments (inner : Inner) (function : String) : Parser Scalar := do
  expectSymbol "("
  let distinct <- eatKeyword "DISTINCT"
  let args <-
    if (<- get).isSymbol ")" then pure [] else commaList (argument inner)
  expectSymbol ")"
  return .call function distinct (withDatePart function args)

def caseElse (inner : Inner) : Parser (Option Scalar) := do
  let otherwise <- if <- eatKeyword "ELSE" then some <$> inner.scalar else pure none
  expectKeyword "END"
  return otherwise

def caseBranch {α : Type} (inner : Inner) (condition : Parser α) : Parser (α × Scalar) := do
  let c <- condition
  expectKeyword "THEN"
  let e <- inner.scalar
  return (c, e)

def caseExpression (inner : Inner) : Parser Scalar := do
  expectKeyword "CASE"
  if (<- get).isKeyword "WHEN" then
    let whens <- many (eatKeyword "WHEN") (caseBranch inner inner.predicate)
    let otherwise <- caseElse inner
    return .searchedCase whens otherwise
  else
    let input <- inner.scalar
    let whens <- many (eatKeyword "WHEN") (caseBranch inner inner.scalar)
    if whens.isEmpty then failHere .expectedWhen
    else
      let otherwise <- caseElse inner
      return .simpleCase input whens otherwise

def parenthesized (inner : Inner) : Parser Scalar := do
  skip
  let e <- inner.scalar
  expectSymbol ")"
  return e

/--
A word that is not a keyword of its own: a function when a parenthesis follows, else a column.
-/
def wordOperand (inner : Inner) (t : Token) (pivot : Nat) : Parser Scalar := do
  if t.isWord "NULL" then
    skip
    return .literal .null
  else if t.isWord "CASE" then caseExpression inner
  else if (<- get).isSymbolAt 1 "(" then
    skip
    callArguments inner t.text
  else if t.isIdentifier then columnReference
  else fail .invalidScalar pivot

def primary (inner : Inner) : Parser Scalar := do
  let pivot := (<- get).pivot
  match (<- get).current with
  | none => fail .invalidScalar pivot
  | some t =>
      match t.kind with
      | .number =>
          skip
          numberLiteral t.text pivot
      | .text =>
          skip
          return .literal (.str t.text)
      | .symbol =>
          if t.text == "(" then parenthesized inner
          else if t.text == "*" then
            skip
            return .star
          else fail .invalidScalar pivot
      | .word => wordOperand inner t pivot
      | .quotedName => columnReference

/-!
# Signs, products and sums
-/

/-- A minus in front of a number is part of the number. -/
def negative : Scalar -> Scalar
  | .literal (.int i) => .literal (.int (-i))
  | .literal (.float x) => .literal (.ofFloat (-x))
  | e => .negate e

/-- An operand with its signs; a collation belongs to the operand alone. -/
def signedOperand (inner : Inner) : Parser Scalar := do
  let minuses <- many (eatSymbol "-") (pure ())
  let _ <- eatSymbol "+"
  let e <- primary inner
  let e <-
    if <- eatKeyword "COLLATE" then
      let collation <- name
      pure (.collate e collation)
    else pure e
  return minuses.foldl (fun e _ => negative e) e

/-- The operator at the cursor, if it is one of those that `known` recognises. -/
def operator (known : String -> Option Arithmetic) : Parser (Option Arithmetic) := do
  match (<- get).current with
  | some t =>
      match if t.kind == .symbol then known t.text else none with
      | some op =>
          skip
          return some op
      | none => return none
  | none => return none

/-- Operators and operands that follow a left operand, grouped to the left. -/
def chain (known : String -> Option Arithmetic) (operand : Parser Scalar) :
    List Token -> Scalar -> Parser Scalar
  | [], left => return left
  | _ :: tokens, left => do
      match <- operator known with
      | some op =>
          let right <- operand
          chain known operand tokens (.binary left op right)
      | none => return left

def product (inner : Inner) : Parser Scalar := do
  let left <- signedOperand inner
  chain Arithmetic.ofMultiplicative? (signedOperand inner) (<- get).ahead left

def sum (inner : Inner) : Parser Scalar := do
  let left <- product inner
  chain Arithmetic.ofAdditive? (product inner) (<- get).ahead left

/-!
# Conditions
-/

/-- Conditions joined by one word, those inside joined by the same word drawn up into them. -/
def joined (items : List Predicate) (isAnd : Bool) : Predicate :=
  match items with
  | [p] => p
  | items =>
      let lifted := items.flatMap fun p =>
        match p with
        | .and inner => if isAnd then inner else [p]
        | .or inner => if isAnd then [p] else inner
        | p => [p]
      if isAnd then .and lifted else .or lifted

/-- After a closing parenthesis, an operator shows that an operand was enclosed, not a condition. -/
def continuesOperand (c : Cursor) : Bool :=
  match c.current with
  | none => false
  | some t =>
      if t.kind == .symbol then
        (Arithmetic.ofAdditive? t.text).isSome || (Arithmetic.ofMultiplicative? t.text).isSome ||
          (Comparison.ofSign? t.text).isSome
      else
        t.isWord "IS" || t.isWord "IN" || t.isWord "LIKE" || t.isWord "BETWEEN" ||
          (t.isWord "NOT" &&
            (c.isKeywordAt 1 "IN" || c.isKeywordAt 1 "LIKE" || c.isKeywordAt 1 "BETWEEN"))

/-- A condition in parentheses, if that is what the parenthesis at the cursor opens. -/
def enclosed (inner : Inner) : Parser (Option Predicate) := do
  let start <- get
  if start.isSymbol "(" then
    skip
    match <- attempt inner.predicate with
    | some p =>
        if (<- eatSymbol ")") && !continuesOperand (<- get) then return some p
        else
          set start
          return none
    | none =>
        set start
        return none
  else return none

def containsCondition (inner : Inner) : Parser Predicate := do
  let pivot := (<- get).pivot
  expectKeyword "CONTAINS"
  expectSymbol "("
  match <- sum inner with
  | .column c =>
      expectSymbol ","
      let wanted <- sum inner
      expectSymbol ")"
      return .contains c wanted
  | _ => fail .containsWithoutColumn pivot

def comparisonSign : Parser (Option Comparison) := do
  match (<- get).current with
  | some t =>
      match if t.kind == .symbol then Comparison.ofSign? t.text else none with
      | some op =>
          skip
          return some op
      | none => return none
  | none => return none

/-- What may follow the first operand of a condition. -/
def conditionTail (inner : Inner) (left : Scalar) : Parser Predicate := do
  let pivot := (<- get).pivot
  match <- comparisonSign with
  | some op =>
      let right <- sum inner
      return .compare left op right
  | none =>
      if <- eatKeyword "IS" then
        let negated <- eatKeyword "NOT"
        expectKeyword "NULL"
        return .isNull left negated
      else
        let negated <- eatKeyword "NOT"
        if <- eatKeyword "IN" then
          expectSymbol "("
          let items <- commaList (sum inner)
          expectSymbol ")"
          return .inList left items negated
        else if <- eatKeyword "LIKE" then
          let pattern <- sum inner
          return .like left pattern negated
        else if <- eatKeyword "BETWEEN" then
          let low <- sum inner
          expectKeyword "AND"
          let high <- sum inner
          let range := Predicate.and [.compare left .ge low, .compare left .le high]
          return if negated then .not range else range
        else fail .invalidPredicate pivot

/-- A condition without `AND`, `OR` and `NOT` around it. -/
def condition (inner : Inner) : Parser Predicate := do
  match <- enclosed inner with
  | some p => return p
  | none =>
      let c <- get
      if c.isKeyword "CONTAINS" && c.isSymbolAt 1 "(" then containsCondition inner
      else
        let left <- sum inner
        conditionTail inner left

def negation (inner : Inner) : Parser Predicate := do
  let nots <- many (eatKeyword "NOT") (pure ())
  let p <- condition inner
  return nots.foldl (fun p _ => .not p) p

def conjunction (inner : Inner) : Parser Predicate := do
  let first <- negation inner
  let rest <- many (eatKeyword "AND") (negation inner)
  return joined (first :: rest) true

def disjunction (inner : Inner) : Parser Predicate := do
  let first <- conjunction inner
  let rest <- many (eatKeyword "OR") (conjunction inner)
  return joined (first :: rest) false

/-!
# Tying the knot

`innerAt tokens` parses what is at most as long as `tokens`.  Without tokens there is no operand,
and the parsers say so.
-/

def innerAt : List Token -> Inner
  | [] => ⟨failHere .invalidScalar, failHere .invalidScalar⟩
  | _ :: tokens => ⟨fun c => sum (innerAt tokens) c, fun c => disjunction (innerAt tokens) c⟩

def scalar : Parser Scalar := do
  (innerAt (<- get).ahead).scalar

def predicate : Parser Predicate := do
  (innerAt (<- get).ahead).predicate

end Parser

end Sql
end RecordSql
