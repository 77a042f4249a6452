import RecordSql.Sql.ExprParser
import RecordSql.Sql.Statement

/-!
# Parsing statements

A source is a list of statements.  Semicolons between them may be left out, since each kind of
statement begins with a word of its own.
-/

namespace RecordSql
namespace Sql
namespace Parser

/-!
# Tables and joins
-/

def hint : Parser Unit := do
  let pivot := (<- get).pivot
  let word <- name
  unless Text.sameName word "NOLOCK" do fail (.unsupportedHint word) pivot

/-- The hints after a table, if there are any: whether it is read without locks. -/
def tableHints : Parser Bool := do
  let c <- get
  let afterWith := c.isKeyword "WITH" && c.isSymbolAt 1 "("
  if afterWith || (c.isSymbol "(" && c.isKeywordAt 1 "NOLOCK") then
    if afterWith then skip
    expectSymbol "("
    let _ <- commaList hint
    expectSymbol ")"
    return true
  else return false

/-- A table; of a name with several parts the last one counts. -/
def tableReference : Parser TableRef := do
  let first <- name
  let others <- many (eatSymbol ".") name
  let aliasName <- Parser.alias
  let noLock <- tableHints
  return ⟨others.getLast?.getD first, aliasName, noLock⟩

/-- The kind of the join at the cursor, with its words taken. -/
def joinKind : Parser (Option JoinKind) := do
  let outer (kind : JoinKind) : Parser (Option JoinKind) := do
    let _ <- eatKeyword "OUTER"
    expectKeyword "JOIN"
    return some kind
  if <- eatKeyword "JOIN" then return some .inner
  else if <- eatKeyword "INNER" then
    expectKeyword "JOIN"
    return some .inner
  else if <- eatKeyword "LEFT" then outer .leftOuter
  else if <- eatKeyword "RIGHT" then outer .rightOuter
  else if <- eatKeyword "FULL" then outer .fullOuter
  else if (<- get).isKeyword "CROSS" then failHere .crossJoin
  else return none

def joins : List Token -> Parser (List Join)
  | [] => return []
  | _ :: left => do
      match <- joinKind with
      | none => return []
      | some kind =>
          let table <- tableReference
          expectKeyword "ON"
          let on <- predicate
          let rest <- joins left
          return ⟨kind, table, on⟩ :: rest

def source : Parser Source := do
  let table <- tableReference
  let joined <- joins (<- get).ahead
  return ⟨table, joined⟩

/-!
# Selecting
-/

def selectItem : Parser SelectItem := do
  let e <- scalar
  let aliasName <- if e.isStar then pure none else Parser.alias
  return ⟨e, aliasName⟩

def orderKey : Parser OrderKey := do
  let e <- scalar
  if <- eatKeyword "DESC" then return ⟨e, true⟩
  else
    let _ <- eatKeyword "ASC"
    return ⟨e, false⟩

def rowsWord : Parser Unit := do
  unless <- eatKeyword "ROWS" do expectKeyword "ROW"

def offsetClause : Parser Offset := do
  let skipped <- integer
  rowsWord
  if <- eatKeyword "FETCH" then
    unless <- eatKeyword "NEXT" do expectKeyword "FIRST"
    let taken <- integer
    rowsWord
    expectKeyword "ONLY"
    return ⟨skipped, some taken⟩
  else return ⟨skipped, none⟩

/-- What follows a keyword, if the keyword is there. -/
def clause {α : Type} (word : String) (body : Parser α) : Parser (Option α) := do
  if <- eatKeyword word then
    let a <- body
    return some a
  else return none

def byList {α : Type} (item : Parser α) : Parser (List α) := do
  expectKeyword "BY"
  commaList item

def select : Parser Select := do
  expectKeyword "SELECT"
  let distinct <- eatKeyword "DISTINCT"
  unless distinct do
    let _ <- eatKeyword "ALL"
  let top <- clause "TOP" integer
  let items <- commaList selectItem
  let sources <- clause "FROM" (commaList source)
  let criteria <- clause "WHERE" predicate
  let groupBy <- clause "GROUP" (byList scalar)
  let having <- clause "HAVING" predicate
  let orderBy <- clause "ORDER" (byList orderKey)
  let offset <- clause "OFFSET" offsetClause
  return {
    distinct, top, items, sources := sources.getD [], criteria, groupBy := groupBy.getD [],
    having, orderBy := orderBy.getD [], offset }

/-!
# Changing
-/

def assignment : Parser Assignment := do
  let pivot := (<- get).pivot
  match <- scalar with
  | .column c =>
      expectSymbol "="
      let value <- scalar
      return ⟨c, value⟩
  | _ => fail .setWithoutColumn pivot

def update : Parser Update := do
  expectKeyword "UPDATE"
  let target <- tableReference
  expectKeyword "SET"
  let assignments <- commaList assignment
  let source <- clause "FROM" source
  let criteria <- clause "WHERE" predicate
  return ⟨target, assignments, source, criteria⟩

def delete : Parser Delete := do
  expectKeyword "DELETE"
  let _ <- eatKeyword "FROM"
  let target <- tableReference
  let source <- clause "FROM" source
  let criteria <- clause "WHERE" predicate
  return ⟨target, source, criteria⟩

/-!
# Statements and batches
-/

def startsStatement (c : Cursor) : Bool :=
  c.isKeyword "SELECT" || c.isKeyword "UPDATE" || c.isKeyword "DELETE"

def statement : Parser Statement := do
  let c <- get
  if c.isKeyword "SELECT" then return .select (<- select)
  else if c.isKeyword "UPDATE" then return .update (<- update)
  else if c.isKeyword "DELETE" then return .delete (<- delete)
  else failHere .unsupportedStatement

/-- A statement, which must end where the source ends or another statement can begin. -/
def written : Parser Written := do
  let start := (<- get).pivot
  let parsed <- statement
  let c <- get
  if !c.atEnd && !c.isSymbol ";" && !startsStatement c then failHere .unexpectedToken
  else return ⟨parsed, c.textBetween start c.previousEnd⟩

def batch : List Token -> Parser (List Written)
  | [] => return []
  | _ :: left => do
      if (<- get).atEnd then return []
      else if <- eatSymbol ";" then batch left
      else
        let first <- written
        let rest <- batch left
        return first :: rest

end Parser

/-- Runs a parser over a whole source and returns its value with the cursor it left. -/
def Parser.run {α : Type} (p : Parser α) (source : String) :
    Except ParseFailure (α × Cursor) := do
  let c <- Cursor.ofSource source
  match p c with
  | .ok a c' => .ok (a, c')
  | .error e _ => .error e

/-- The statements of a source. -/
def parseBatch (source : String) : Except ParseFailure (List Written) := do
  let c <- Cursor.ofSource source
  match Parser.batch c.ahead c with
  | .ok statements _ => .ok statements
  | .error e _ => .error e

end Sql
end RecordSql
