import RecordSql.Fetch.Query
import RecordSql.Plan.Error
import RecordSql.Step.Basic

/-!
# Plans

A plan is a native query and the local steps that turn its rows into the columns of a statement.
-/

namespace RecordSql

structure Plan where
  fetch : Fetch.Query
  steps : List Step
  columns : List String

namespace Plan

/-- A value for an attribute of the record that is changed. -/
structure Change where
  name : String
  value : Sql.Scalar

/-- A change of the records that a plan selects. -/
structure UpdateTask where
  source : Plan
  table : String
  /-- The column that holds the identifiers of the selected records. -/
  idColumn : String
  changes : List Change
  hasWhere : Bool

structure DeleteTask where
  source : Plan
  table : String
  idColumn : String
  hasWhere : Bool
  /-- The table is the root of the native query. -/
  targetIsRoot : Bool

/-- The whole selection can be handed to the platform for deletion. -/
def DeleteTask.canBulkDelete (d : DeleteTask) : Bool :=
  d.targetIsRoot && d.source.steps.isEmpty

/-- A query over virtual tables, of table definitions or of option sets. -/
structure SchemaTask where
  ofOptionSets : Bool
  tables : List VirtualTable
  fetch : Fetch.Query
  columns : List String

/-- What a statement asks for. -/
inductive Task where
  /-- An aggregate that the platform can answer has another plan, which groups its rows locally. -/
  | select (plan : Plan) (alternative : Option Plan)
  | update (task : UpdateTask)
  | delete (task : DeleteTask)
  | schema (task : SchemaTask)

namespace Task

/-- The native query that runs first. -/
def fetch : Task -> Fetch.Query
  | select plan _ => plan.fetch
  | update task => task.source.fetch
  | delete task => task.source.fetch
  | schema task => task.fetch

/--
An aggregate is left to its alternative when local steps follow it, since they need rows that the
platform does not return.
-/
def requiresAlternative : Task -> Bool
  | select plan alternative => alternative.isSome && !plan.steps.isEmpty
  | _ => false

end Task

end Plan

end RecordSql
