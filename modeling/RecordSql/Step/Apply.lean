import RecordSql.Eval.Expr
import RecordSql.Grouping
import RecordSql.Record
import RecordSql.Sorting
import RecordSql.Step.Basic

/-!
# Running local steps

A row carries, beside the record it shows, the keys by which some of its columns are compared.
The first expression that cannot be evaluated ends the run.
-/

namespace RecordSql

open Sql (Column OrderKey Predicate Scalar)

structure Row where
  record : Record
  /-- The keys of the columns that are compared without regard to case. -/
  keys : Dict Value

namespace Row

def ofRecord (r : Record) : Row :=
  ⟨r, .empty⟩

def get (r : Row) (name : String) : Value :=
  r.record.get name

/-- The value by which the row is compared, sorted or grouped on a column. -/
def keyOf (r : Row) (c : Column) : Value :=
  (r.keys.get? c.rowKey).getD (r.get c.rowKey)

def insert (r : Row) (name : String) (value : Value) : Row :=
  { r with record := r.record.insert name value }

theorem get_insert (r : Row) (name other : String) (value : Value) :
    (r.insert name value).get other = if other = name then value else r.get other :=
  Record.get_insert r.record name other value

end Row

namespace Step

/-!
# Computing, filtering and limiting
-/

def computeRows (clock : Clock) (expr : Scalar) (output : String) (rows : List Row) :
    Except EvalError (List Row) :=
  rows.mapM fun row => do
    let value <- Eval.scalar clock row.get expr
    return row.insert output value

def filterRows (clock : Clock) (p : Predicate) : List Row -> Except EvalError (List Row)
  | [] => .ok []
  | row :: rest => do
      let t <- Eval.predicate clock row.get p
      let kept <- filterRows clock p rest
      return if t.holds then row :: kept else kept

def limitRows (skip : Nat) (take : Option Nat) (rows : List Row) : List Row :=
  match take with
  | some n => (rows.drop skip).take n
  | none => rows.drop skip

def foldRows (column : Column) (rows : List Row) : List Row :=
  rows.map fun row =>
    { row with keys := row.keys.insert column.rowKey (row.get column.rowKey).key }

/-!
# Sorting
-/

/-- A column is sorted by its key, any other expression by its value. -/
def sortValue (clock : Clock) (expr : Scalar) (row : Row) : Except EvalError Value :=
  match expr with
  | .column c => .ok (row.keyOf c)
  | expr => Eval.scalar clock row.get expr

/-- The order of two rows by the values of their keys. -/
def compareKeys (keys : List OrderKey) (a b : List Value) : Ordering :=
  Sorting.lexicographic <| (keys.zip (a.zip b)).map fun (key, x, y) =>
    Sorting.directed key.descending (x.compareForSort key.expr.isCaseSensitive y)

def sortRows (clock : Clock) (keys : List OrderKey) (rows : List Row) :
    Except EvalError (List Row) := do
  let keyed <- rows.mapM fun row => do
    let values <- keys.mapM fun key => sortValue clock key.expr row
    return (values, row)
  let sorted := Sorting.stable (fun x y => compareKeys keys x.1 y.1 == .lt) keyed
  return sorted.map (·.2)

/-!
# Grouping and distinct rows
-/

/-- The value that a group shows for a row and the key that it is grouped by. -/
def groupValue (clock : Clock) (row : Row) (group : GroupKey) : Except EvalError (Value × Value) :=
  match group.expr with
  | .column c => .ok (row.get c.rowKey, row.keyOf c)
  | expr => do
      let v <- Eval.scalar clock row.get expr
      return (v, v.keyIf expr.isCaseSensitive)

def argValues (clock : Clock) (arg : Option Scalar) (row : Row) : Except EvalError (List Value) :=
  match arg with
  | none => .ok []
  | some arg => do
      let v <- Eval.scalar clock row.get arg
      return [v]

def summary (clock : Clock) (column : AggregateColumn) : Summary Row where
  function := column.function
  args := argValues clock column.arg
  distinct :=
    if column.distinct then some (Value.keyIf (column.arg.any Scalar.isCaseSensitive)) else none

def grouping (clock : Clock) (groups : List GroupKey) (columns : List AggregateColumn) :
    Grouping Row where
  keys := fun row => groups.mapM (groupValue clock row)
  summaries := columns.map (summary clock)

def showGroup (table : String) (groups : List GroupKey) (columns : List AggregateColumn)
    (group : Group) : Row :=
  let entries := (groups.map (·.output)).zip group.values ++
    (columns.map (·.output)).zip group.results
  .ofRecord ⟨table, none, .ofList entries⟩

/-- One row per group; without group keys there is one group, even of no rows. -/
def aggregateRows (clock : Clock) (groups : List GroupKey) (columns : List AggregateColumn)
    (rows : List Row) : Except EvalError (List Row) := do
  let table := (rows.head?.map (·.record.table)).getD ""
  let found <- (grouping clock groups columns).groups groups.isEmpty rows
  return found.map (showGroup table groups columns)

def distinctKey (columns : List DistinctColumn) (row : Row) : String :=
  Value.tupleText (columns.map fun c => (row.get c.name).keyIf c.caseSensitive)

/-!
# Runs
-/

def apply (clock : Clock) (step : Step) (rows : List Row) : Except EvalError (List Row) :=
  match step with
  | compute expr output => computeRows clock expr output rows
  | filter p => filterRows clock p rows
  | having p => filterRows clock p rows
  | sort keys => sortRows clock keys rows
  | limit skip take => .ok (limitRows skip take rows)
  | foldCase column => .ok (foldRows column rows)
  | aggregate groups columns => aggregateRows clock groups columns rows
  | distinct columns => .ok (firstOfEach (distinctKey columns) [] rows)

/-- The records that are left after all steps. -/
def run (clock : Clock) (steps : List Step) (records : List Record) :
    Except EvalError (List Record) := do
  let rows <- steps.foldlM (fun rows step => step.apply clock rows) (records.map .ofRecord)
  return rows.map (·.record)

end Step

end RecordSql
