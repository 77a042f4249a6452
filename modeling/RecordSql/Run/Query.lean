import RecordSql.Fetch.Evaluate
import RecordSql.Run.Change

/-!
# Queries

A query is a planned statement that can be executed once.  It then holds its result or the message
of its failure.
-/

namespace RecordSql

namespace Run

variable {σ : Type}

/-!
# Virtual tables
-/

/-- The rows of the virtual tables that a query reads. -/
def virtualRows (host : Host σ) (task : Plan.SchemaTask) :
    EStateM PlatformError σ (List (VirtualTable × List Record)) := do
  if task.ofOptionSets then
    let all <- host.client.allOptionSets
    return task.tables.map fun t => (t, t.rowsOfOptionSets all)
  else
    let all <- host.client.allTables
    return task.tables.map fun t => (t, t.rowsOfTables all)

def virtualDatabase (clock : Clock) (rows : List (VirtualTable × List Record)) :
    Fetch.Database where
  tables := fun name => (rows.find? (·.1.name == name)).map (·.2)
  pageSize := (rows.flatMap (·.2)).length
  aggregateLimit := none
  now := clock.universal

def runSchema (host : Host σ) (task : Plan.SchemaTask) : EStateM PlatformError σ Page := do
  let rows <- virtualRows host task
  liftExcept (Fetch.evaluate (virtualDatabase host.clock rows) task.fetch)

/-!
# Executing
-/

inductive Outcome where
  | rows (page : Page)
  | affected (a : Affected)

def runTask (host : Host σ) : Plan.Task -> EStateM RunError σ Outcome
  | .select plan alternative => do
      let records <- runSelect host plan alternative
      return .rows ⟨records, false, none⟩
  | .update task => do
      let done <- runUpdate host task
      return .affected done
  | .delete task => do
      let done <- runDelete host task
      return .affected done
  | .schema task => do
      let page <- (runSchema host task).adaptExcept .platform
      return .rows page

end Run

inductive QueryState where
  | created
  | completed (outcome : Run.Outcome)
  | failed (message : String)

def QueryState.name : QueryState -> String
  | created => "Created"
  | completed _ => "Completed"
  | failed _ => "Failed"

structure Query where
  sql : String
  task : Plan.Task
  state : QueryState

namespace Query

def ofTask (sql : String) (task : Plan.Task) : Query :=
  ⟨sql, task, .created⟩

/-- The query after an attempt to execute it, and what went wrong with the attempt. -/
def execute {σ : Type} (host : Host σ) (q : Query) (s : σ) : (Query × Option RunError) × σ :=
  match q.state with
  | .created =>
      match Run.runTask host q.task s with
      | .ok outcome s' => (({ q with state := .completed outcome }, none), s')
      | .error e s' => (({ q with state := .failed e.message }, some e), s')
  | state => ((q, some (.invalidState state.name)), s)

def outcome? (q : Query) : Option Run.Outcome :=
  match q.state with
  | .completed outcome => some outcome
  | _ => none

def columns? (q : Query) : Option (List String) :=
  match q.task with
  | .select plan _ => some plan.columns
  | .schema task => some task.columns
  | _ => none

/-- The rows that a completed query shows. -/
def resultSet? (q : Query) : Option ResultSet :=
  match q.columns?, q.outcome? with
  | some columns, some (.rows page) => some ⟨columns, page.records⟩
  | _, _ => none

end Query

end RecordSql
