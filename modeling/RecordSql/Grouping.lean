import RecordSql.Dict
import RecordSql.Eval.Aggregate

/-!
# Grouping

Rows belong to one group when the texts of their key tuples are the same.  A group shows the values
of its first row, and groups stand in the order of their first rows.
-/

namespace RecordSql

/-- An aggregate over rows of a given type. -/
structure Summary (α : Type) where
  function : String
  /-- The arguments that a row contributes; a row that is only counted contributes none. -/
  args : α -> Except EvalError (List Value)
  /-- The key of a value, if values of one key count only once. -/
  distinct : Option (Value -> Value)

/-- What rows are grouped by and what is summarised of each group. -/
structure Grouping (α : Type) where
  /-- The values that the group of a row shows, each with the key that it is grouped by. -/
  keys : α -> Except EvalError (List (Value × Value))
  summaries : List (Summary α)

/-- A group as it is shown: the values of its keys and the results of its summaries. -/
structure Group where
  values : List Value
  results : List Value

namespace Grouping

variable {α : Type}

/-- The total of a summary, and the keys of the values it has counted if each counts only once. -/
structure Tally where
  total : Aggregate.Total
  seen : List String

structure Pending where
  values : List Value
  tallies : List Tally

def Pending.group (p : Pending) : Group :=
  ⟨p.values, p.tallies.map (·.total.result)⟩

def start (summary : Summary α) : Except EvalError Tally :=
  match Aggregate.ofName? summary.function with
  | some f => .ok ⟨f.start, []⟩
  | none => .error (.unknownFunction (Text.upper summary.function))

def begin (g : Grouping α) (values : List Value) : Except EvalError Pending := do
  let tallies <- g.summaries.mapM start
  return ⟨values, tallies⟩

def count (row : α) (summary : Summary α) (t : Tally) : Except EvalError Tally := do
  let args <- summary.args row
  match summary.distinct with
  | some key =>
      let text := Value.tupleText (args.map key)
      if t.seen.contains text then return t
      else
        let total <- t.total.update args
        return ⟨total, text :: t.seen⟩
  | none =>
      let total <- t.total.update args
      return ⟨total, t.seen⟩

def add (g : Grouping α) (sofar : Dict Pending) (row : α) : Except EvalError (Dict Pending) := do
  let keys <- g.keys row
  let text := Value.tupleText (keys.map (·.2))
  let pending <-
    match sofar.get? text with
    | some pending => pure pending
    | none => g.begin (keys.map (·.1))
  let tallies <- (g.summaries.zip pending.tallies).mapM fun (summary, t) => count row summary t
  return sofar.insert text ⟨pending.values, tallies⟩

/-- The groups of the rows; `ungrouped` asks for one group even of no rows. -/
def groups (g : Grouping α) (ungrouped : Bool) (rows : List α) : Except EvalError (List Group) := do
  let found <- rows.foldlM g.add .empty
  if ungrouped && found.entries.isEmpty then
    let pending <- g.begin []
    return [pending.group]
  else return found.values.map Pending.group

end Grouping

/-!
# Distinct rows
-/

/-- The items whose keys have not been seen before. -/
def firstOfEach {α : Type} (key : α -> String) (seen : List String) : List α -> List α
  | [] => []
  | a :: rest =>
      if seen.contains (key a) then firstOfEach key seen rest
      else a :: firstOfEach key (key a :: seen) rest

end RecordSql
