import RecordSql.Plan.Statement
import RecordSql.Run.Query
import RecordSql.Sql.StatementParser

/-!
# Sessions

A session plans and executes statements on a platform, and remembers the definitions of the tables
that they use.
-/

namespace RecordSql

inductive Failure where
  | parse (cause : Sql.ParseFailure)
  | plan (cause : PlanError)
  | run (cause : RunError)

def Failure.message : Failure -> String
  | parse cause => cause.message
  | plan cause => cause.message
  | run cause => cause.message

structure Session (σ : Type) where
  catalog : Catalog
  host : σ

namespace Session

variable {σ : Type}

def ofHost (host : σ) : Session σ :=
  ⟨.empty, host⟩

def part : Part (Session σ) σ :=
  ⟨fun s => s.host, fun host s => { s with host }⟩

/-!
# Definitions
-/

def fetchDefinition (inner : Client σ) (name : String) :
    EStateM ResolutionError (Session σ) TableDef := do
  let t <- (part.run (inner.tableDef name)).adaptExcept (.ofLookup name)
  modify fun s => { s with catalog := s.catalog.remember name t }
  return t

/-- The definition of a table: a virtual one, a remembered one, or the platform's. -/
def lookup (inner : Client σ) : Lookup (Session σ) := fun name => do
  match VirtualTable.ofName? name with
  | some t => return t.definition
  | none =>
      match (<- get).catalog.cached? name with
      | some t => return t
      | none => fetchDefinition inner (Text.lowerAscii name)

/-!
# Statements
-/

/-- A client with the way in which statements are planned for it. -/
structure Connection (σ : Type) where
  client : Client σ
  options : Plan.Options
  clock : Clock

def planAll (c : Connection σ) : List Sql.Written -> EStateM PlanError (Session σ) (List Query)
  | [] => pure []
  | w :: rest => do
      let task <- Plan.planStatement (lookup c.client) c.options c.clock w.statement
      let more <- planAll c rest
      return .ofTask w.sql task :: more

/-- The queries of a source; the first failure ends the planning of all of them. -/
def plan (c : Connection σ) (sql : String) : EStateM Failure (Session σ) (List Query) := do
  match Sql.parseBatch sql with
  | .ok statements => (planAll c statements).adaptExcept .plan
  | .error e => throw (.parse e)

def hostOf (c : Connection σ) (inner : RunOptions σ) : Host (Session σ) where
  client := c.client.within part
  lookup := lookup c.client
  options := inner.within part
  clock := c.clock

/-- Executes queries in order up to the first that fails. -/
def executeAll (h : Host (Session σ)) : List Query -> EStateM RunError (Session σ) (List Query)
  | [] => pure []
  | q :: rest => do
      match <- modifyGet (q.execute h) with
      | (_, some e) => throw e
      | (done, none) =>
          let more <- executeAll h rest
          return done :: more

/-- Plans all statements of a source and then executes them in order. -/
def run (c : Connection σ) (inner : RunOptions σ) (sql : String) :
    EStateM Failure (Session σ) (List Query) := do
  let queries <- plan c sql
  (executeAll (hostOf c inner) queries).adaptExcept .run

end Session

end RecordSql
