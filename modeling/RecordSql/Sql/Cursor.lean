import RecordSql.Number.Read
import RecordSql.Sql.Token

/-!
# A position among tokens

A cursor stands between the tokens already taken and those still to come.  A parser moves the
cursor and either returns a value or fails; after a failure the cursor stays where it was reached,
so that a reader can tell how far the input was understood.
-/

namespace RecordSql
namespace Sql

structure Cursor where
  source : String
  /-- The tokens taken so far, the last one first. -/
  behind : List Token
  ahead : List Token

namespace Cursor

def ofSource (source : String) : Except ParseFailure Cursor :=
  (tokenize source).map fun tokens => ⟨source, [], tokens⟩

def position (c : Cursor) : Nat :=
  c.behind.length

def atEnd (c : Cursor) : Bool :=
  c.ahead.isEmpty

def current (c : Cursor) : Option Token :=
  c.ahead.head?

def peek (c : Cursor) (n : Nat) : Option Token :=
  c.ahead[n]?

def advance (c : Cursor) : Cursor :=
  match c.ahead with
  | t :: rest => { c with behind := t :: c.behind, ahead := rest }
  | [] => c

/-- Where the current token starts, or the end of the source. -/
def pivot (c : Cursor) : Nat :=
  match c.current with
  | some t => t.start
  | none => byteSize c.source.toList

/-- Where the current token ends, or the last one if there is no current one. -/
def currentEnd (c : Cursor) : Nat :=
  match c.current.or c.behind.head? with
  | some t => t.stop
  | none => 0

/-- Where the last token taken ends. -/
def previousEnd (c : Cursor) : Nat :=
  match c.behind.head? with
  | some t => t.stop
  | none => 0

def textBetween (c : Cursor) (start stop : Nat) : String :=
  slice c.source start (min stop (byteSize c.source.toList))

def failure (c : Cursor) (cause : ParseCause) (pivot : Nat) : ParseFailure :=
  ⟨cause, pivot, c.currentEnd, c.textBetween pivot c.currentEnd⟩

def isKeyword (c : Cursor) (word : String) : Bool :=
  c.current.any (·.isWord word)

def isKeywordAt (c : Cursor) (n : Nat) (word : String) : Bool :=
  (c.peek n).any (·.isWord word)

def isSymbol (c : Cursor) (symbol : String) : Bool :=
  c.current.any (·.isSymbol symbol)

def isSymbolAt (c : Cursor) (n : Nat) (symbol : String) : Bool :=
  (c.peek n).any (·.isSymbol symbol)

end Cursor

/-!
# Names

A word that belongs to the grammar is not a name unless it is quoted.
-/

def reservedWords : List String := [
  "SELECT", "FROM", "WHERE", "GROUP", "BY", "HAVING", "ORDER", "TOP", "DISTINCT", "AS", "ON",
  "JOIN", "INNER", "LEFT", "RIGHT", "FULL", "OUTER", "CROSS", "AND", "OR", "NOT", "IS", "NULL",
  "IN", "LIKE", "BETWEEN", "CASE", "WHEN", "THEN", "ELSE", "END", "UPDATE", "SET", "DELETE",
  "WITH", "OFFSET", "FETCH", "ROWS", "ROW", "ONLY", "NEXT", "ASC", "DESC", "UNION",
  "COLLATE", "EXISTS", "INSERT", "INTO", "VALUES"]

def isReserved (word : String) : Bool :=
  reservedWords.any (Text.sameName · word)

def Token.isIdentifier (t : Token) : Bool :=
  match t.kind with
  | .quotedName => true
  | .word => !isReserved t.text
  | _ => false

/-- The current token can name a column, a table or an alias. -/
def Cursor.isIdentifier (c : Cursor) : Bool :=
  c.current.any Token.isIdentifier

/-!
# Parsers
-/

abbrev Parser (α : Type) := EStateM ParseFailure Cursor α

namespace Parser

variable {α : Type}

def fail (cause : ParseCause) (pivot : Nat) : Parser α := do
  throw ((<- get).failure cause pivot)

/-- Fails at the current token. -/
def failHere (cause : ParseCause) : Parser α := do
  fail cause (<- get).pivot

def next : Parser (Option Token) := do
  let c <- get
  set c.advance
  return c.current

def skip : Parser Unit :=
  modify Cursor.advance

def eatKeyword (word : String) : Parser Bool := do
  if (<- get).isKeyword word then
    skip
    return true
  else return false

def eatSymbol (symbol : String) : Parser Bool := do
  if (<- get).isSymbol symbol then
    skip
    return true
  else return false

def expectKeyword (word : String) : Parser Unit := do
  unless <- eatKeyword word do failHere (.expectedKeyword word)

def expectSymbol (symbol : String) : Parser Unit := do
  unless <- eatSymbol symbol do failHere (.expectedSymbol symbol)

/-- A name and whether it was quoted. -/
def identifier : Parser (String × Bool) := do
  match (<- get).current with
  | some t =>
      if t.isIdentifier then
        skip
        return (t.text, t.kind == .quotedName)
      else failHere .expectedIdentifier
  | none => failHere .expectedIdentifier

def name : Parser String := do
  return (<- identifier).1

/-- An alias, after `AS` or on its own; after `AS` it may be written as a text. -/
def «alias» : Parser (Option String) := do
  let explicit <- eatKeyword "AS"
  match (<- get).current with
  | some t =>
      if explicit && t.kind == .text then
        skip
        return some t.text
      else if t.isIdentifier then return some (<- name)
      else if explicit then failHere .expectedAlias
      else return none
  | none => if explicit then failHere .expectedAlias else return none

/-- A whole number without a sign, which may stand in parentheses. -/
def integer : Parser Int := do
  let pivot := (<- get).pivot
  let wrapped <- eatSymbol "("
  let value :=
    match (<- get).current with
    | some t => if t.kind == .number then Number.readInt t.text.toList else none
    | none => none
  match value with
  | none => fail .expectedInteger pivot
  | some i =>
      skip
      if wrapped then expectSymbol ")"
      return i

/-!
# Repetition

The tokens that are left bound every repetition: there is at most one round for each of them, since
a round takes at least one.
-/

/-- Further items, each after `more` has said that there is one. -/
def repeated (more : Parser Bool) (item : Parser α) : List Token -> Parser (List α)
  | [] => return []
  | _ :: left => do
      if <- more then
        let first <- item
        let rest <- repeated more item left
        return first :: rest
      else return []

/-- Items for as long as `more` says so. -/
def many (more : Parser Bool) (item : Parser α) : Parser (List α) := do
  repeated more item (<- get).ahead

/-- One item or several, separated by commas. -/
def commaList (item : Parser α) : Parser (List α) := do
  let first <- item
  let rest <- many (eatSymbol ",") item
  return first :: rest

/-- The value of a parser that may fail; the cursor stays where the parser left it. -/
def attempt (p : Parser α) : Parser (Option α) := fun c =>
  match p c with
  | .ok a c' => .ok (some a) c'
  | .error _ c' => .ok none c'

end Parser

end Sql
end RecordSql
