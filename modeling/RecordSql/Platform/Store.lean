import RecordSql.Eval.Function
import RecordSql.Fetch.Evaluate
import RecordSql.Platform.Client

/-!
# A platform in memory

The store holds tables of records, the definitions of the tables, and option sets.  Every stored
record has an identifier, which is also the value of the attribute that identifies it.
-/

namespace RecordSql

structure Store where
  tables : Dict (List Record)
  definitions : Dict TableDef
  optionSets : List OptionSet
  pageSize : Nat
  aggregateLimit : Option Nat
  /-- How many identifiers the store has given out. -/
  issued : Nat

namespace Store

def defaultPageSize : Nat := 5000

/-- Beyond this number of rows the platform refuses to aggregate. -/
def defaultAggregateLimit : Nat := 50000

def empty : Store :=
  ⟨.empty, .empty, [], defaultPageSize, some defaultAggregateLimit, 0⟩

/-- Adds a table without records; a table of this name keeps the records it has. -/
def register (s : Store) (t : TableDef) : Store :=
  { s with
    tables := if s.tables.contains t.name then s.tables else s.tables.insert t.name []
    definitions := s.definitions.insert t.name t }

def addOptionSet (s : Store) (o : OptionSet) : Store :=
  { s with optionSets := s.optionSets ++ [o] }

def records (s : Store) (table : String) : List Record :=
  (s.tables.get? table).getD []

def record? (s : Store) (table : String) (id : Guid) : Option Record :=
  (s.records table).find? (·.id == some id)

/-- The identifiers that a store gives out count up from this one. -/
def idBase : Nat := 0xf0000000000000000000000000000000

/-- An identifier that the store has not given out before. -/
def fresh (s : Store) : Guid × Store :=
  (.ofNat (idBase + s.issued + 1), { s with issued := s.issued + 1 })

def setTable (s : Store) (table : String) (records : List Record) : Store :=
  { s with tables := s.tables.insert table records }

/-!
# Retrieving
-/

def database (s : Store) (clock : Clock) : Fetch.Database where
  tables := s.tables.get?
  pageSize := s.pageSize
  aggregateLimit := s.aggregateLimit
  now := clock.universal

def retrieve (clock : Clock) (q : Fetch.Query) : EStateM PlatformError Store Page := do
  liftExcept (Fetch.evaluate ((<- get).database clock) q)

/-!
# Changing
-/

/-- The record as it is stored under an identifier. -/
def identified (r : Record) (primaryId : String) (id : Guid) : Record :=
  { r with id := some id }.insert primaryId (.guid id)

def create (r : Record) : EStateM PlatformError Store Guid := do
  let s <- get
  match s.definitions.get? r.table with
  | none => throw (.unknownTable r.table)
  | some definition =>
      let id <-
        match r.id.or (r.get definition.primaryId).asGuid with
        | some id => pure id
        | none => modifyGet fresh
      modify fun s =>
        s.setTable r.table (s.records r.table ++ [identified r definition.primaryId id])
      return id

/-- The record with the attributes of another one written over its own. -/
def overwrite (stored changes : Record) : Record :=
  { stored with attributes := stored.attributes.insertAll changes.attributes.entries }

/-- Changes the first record that has an identifier. -/
def updateFirst (id : Guid) (f : Record -> Record) : List Record -> Option (List Record)
  | [] => none
  | r :: rest =>
      if r.id == some id then some (f r :: rest) else (updateFirst id f rest).map (r :: ·)

def update (r : Record) : EStateM PlatformError Store Unit := do
  let s <- get
  let changed := do
    let id <- r.id
    let records <- s.tables.get? r.table
    updateFirst id (overwrite · r) records
  match changed with
  | some records => set (s.setTable r.table records)
  | none => throw (.notFound r.table (r.id.getD .zero))

def delete (table : String) (id : Guid) : EStateM PlatformError Store Unit := do
  let s <- get
  match s.tables.get? table with
  | none => throw (.unknownTable table)
  | some records =>
      let kept := records.filter (·.id != some id)
      if kept.length == records.length then throw (.notFound table id)
      else set (s.setTable table kept)

/-- The records that a query returns when it asks for all of them. -/
def selected (s : Store) (clock : Clock) (q : Fetch.Query) : Except PlatformError (List Record) :=
  Fetch.allRecords { s.database clock with aggregateLimit := none } q

def bulkDelete (clock : Clock) (q : Fetch.Query) : EStateM PlatformError Store Guid := do
  let s <- get
  let found <- liftExcept (s.selected clock q)
  let ids := found.filterMap (·.id)
  let table := q.root.table
  match s.tables.get? table with
  | some records => set (s.setTable table (records.filter fun r => !r.id.any ids.contains))
  | none => pure ()
  modifyGet fresh

/-!
# Definitions
-/

def tableDef (name : String) : EStateM PlatformError Store TableDef := do
  match (<- get).definitions.get? (Text.lowerAscii name) with
  | some t => return t
  | none => throw (.unknownTable name)

def allTables (s : Store) : List TableDef :=
  Sorting.stable (fun a b => decide (a.name < b.name)) s.definitions.values

/-- The store as a platform. -/
def client (clock : Clock) : Client Store where
  retrieve := retrieve clock
  create := create
  update := update
  delete := delete
  bulkDelete := bulkDelete clock
  tableDef := tableDef
  allTables := do return (<- get).allTables
  allOptionSets := do return (<- get).optionSets

end Store

end RecordSql
