import RecordSql.Run.Retrieve

/-!
# Changing records

The records to change are selected first, each of them once.  After the options have confirmed the
change it is applied record by record, in batches; a failure stops it and undoes nothing.
-/

namespace RecordSql
namespace Run

variable {σ : Type}

/-- What a change did, in numbers and in words. -/
structure Affected where
  count : Nat
  message : String

/-!
# The selected records
-/

def invalidId (idColumn : String) : RunError :=
  .platform (.fault ("Selected record has an invalid " ++ idColumn ++ " value"))

/-- The identifier of every row that has one. -/
def identifiedRows (idColumn : String) : List Record -> Except RunError (List (Guid × Record))
  | [] => .ok []
  | row :: rest =>
      if (row.get idColumn).isNull then identifiedRows idColumn rest
      else
        match (row.get idColumn).asGuid with
        | none => .error (invalidId idColumn)
        | some id => do
            let more <- identifiedRows idColumn rest
            return (id, row) :: more

/-- The first row of every identifier. -/
def onePerId (seen : List Guid) : List (Guid × Record) -> List (Guid × Record)
  | [] => []
  | (id, row) :: rest =>
      if seen.contains id then onePerId seen rest else (id, row) :: onePerId (id :: seen) rest

def recordIds (idColumn : String) (rows : List Record) :
    Except RunError (List (Guid × Record)) :=
  (identifiedRows idColumn rows).map (onePerId [])

/-!
# Batches
-/

/-- Lists of the given length, with the rest in the last one. -/
def chunks {α : Type} (size : Nat) (items : List α) : List (List α) :=
  (List.range ((items.length + size - 1) / size)).map fun i => (items.drop (i * size)).take size

/-- Changes items one after the other; `applied` items were changed before. -/
def applyItems {α : Type} (change : α -> EStateM PlatformError σ Unit) :
    Nat -> List α -> EStateM RunError σ Nat
  | applied, [] => pure applied
  | applied, item :: rest => do
      (change item).adaptExcept fun cause =>
        if applied = 0 then .platform cause else .stopped applied cause
      applyItems change (applied + 1) rest

def applyBatches {α : Type} (host : Host σ) (describe : Nat -> String)
    (change : α -> EStateM PlatformError σ Unit) :
    Nat -> List (List α) -> EStateM RunError σ Nat
  | applied, [] => pure applied
  | applied, batch :: rest => do
      if host.options.cancelled (<- get) then throw (.cancelled applied)
      else
        let now <- applyItems change applied batch
        modify (host.options.progress (describe now))
        applyBatches host describe change now rest

/-- Changes all items and counts them. -/
def applyAll {α : Type} (host : Host σ) (describe : Nat -> String)
    (change : α -> EStateM PlatformError σ Unit) (items : List α) : EStateM RunError σ Nat :=
  applyBatches host describe change 0 (chunks (max host.options.batchSize 1) items)

/-!
# Values to store
-/

/-- A text as the attribute stores it. -/
def storeText (s : String) (a : AttributeDef) : Value :=
  if a.type.isIdentifier then
    match Guid.read s, a.targets.head? with
    | some id, some target => if a.type.isLookup then .ref ⟨target, id⟩ else .guid id
    | some id, none => .guid id
    | none, _ => .str s
  else if a.type == .dateTime then ((Calendar.DateTime.read s).map Value.dateTime).getD (.str s)
  else .str s

def storeInt (i : Int) (a : AttributeDef) : Value :=
  if a.type == .boolean then .bool (i != 0)
  else if a.type == .double || a.type == .decimal || a.type == .money then .float (Float.ofInt i)
  else .int i

/-- A computed value as the attribute stores it. -/
def storeValue (v : Value) (a : AttributeDef) : Value :=
  match v with
  | .guid id =>
      match a.targets.head? with
      | some target => if a.type.isLookup then .ref ⟨target, id⟩ else .guid id
      | none => .guid id
  | .str s => storeText s a
  | .int i => storeInt i a
  | v => v

def changedValue (host : Host σ) (target : TableDef) (row : Record) (c : Plan.Change) :
    Except EvalError (String × Value) := do
  let v <- Eval.scalar host.clock row.get c.value
  match target.attribute? c.name with
  | some a => return (c.name, storeValue v a)
  | none => return (c.name, v)

/-- The record that is written over a selected one. -/
def changedRecord (host : Host σ) (target : TableDef) (task : Plan.UpdateTask)
    (selected : Guid × Record) : Except EvalError Record := do
  let values <- task.changes.mapM (changedValue host target selected.2)
  return ⟨task.table, some selected.1, .ofList values⟩

/-!
# Updates and deletions
-/

def definition (host : Host σ) (table : String) : EStateM RunError σ TableDef :=
  (host.lookup table).adaptExcept .unresolved

def nothing (table verb : String) : Affected :=
  ⟨0, "No " ++ table ++ " records to " ++ verb⟩

/-- How far a change has come, as in `Updated 2 of 3 account records`. -/
def progressText (verb table : String) (total done : Nat) : String :=
  verb ++ " " ++ Number.intText done ++ " of " ++ Number.intText total ++ " " ++ table ++
    " records"

def doneText (n : Nat) (table verb : String) : String :=
  Number.intText n ++ " " ++ table ++ " records " ++ verb

def selectRecords (host : Host σ) (source : Plan) (idColumn : String) :
    EStateM RunError σ (List (Guid × Record)) := do
  let rows <- runPlan host source
  liftExcept (recordIds idColumn rows)

def runUpdate (host : Host σ) (task : Plan.UpdateTask) : EStateM RunError σ Affected := do
  if !task.hasWhere && host.options.blockUpdateWithoutWhere then throw (.blocked "UPDATE")
  else
    let target <- definition host task.table
    let selected <- selectRecords host task.source task.idColumn
    if selected.isEmpty then return nothing task.table "update"
    else if !(<- modifyGet (host.options.confirmUpdate selected.length target)) then
      return ⟨0, "Update cancelled by user"⟩
    else
      let changes <-
        match selected.mapM (changedRecord host target task) with
        | .ok changes => pure changes
        | .error e => throw (.eval e)
      let n <- applyAll host (progressText "Updated" task.table changes.length)
        host.client.update changes
      return ⟨n, doneText n task.table "updated"⟩

def bulkDelete (host : Host σ) (task : Plan.DeleteTask) (n : Nat) :
    EStateM RunError σ Affected := do
  let job <- (host.client.bulkDelete task.source.fetch).adaptExcept .platform
  return ⟨n, "Bulk delete job " ++ job.text ++ " started for " ++ Number.intText n ++ " " ++
    task.table ++ " records"⟩

def runDelete (host : Host σ) (task : Plan.DeleteTask) : EStateM RunError σ Affected := do
  if !task.hasWhere && host.options.blockDeleteWithoutWhere then throw (.blocked "DELETE")
  else
    let target <- definition host task.table
    let selected <- selectRecords host task.source task.idColumn
    if selected.isEmpty then return nothing task.table "delete"
    else if !(<- modifyGet (host.options.confirmDelete selected.length target)) then
      return ⟨0, "Delete cancelled by user"⟩
    else if host.options.useBulkDelete && task.canBulkDelete then
      bulkDelete host task selected.length
    else
      let n <- applyAll host (progressText "Deleted" task.table selected.length)
        (fun (id, _) => host.client.delete task.table id) selected
      return ⟨n, doneText n task.table "deleted"⟩

end Run
end RecordSql
