import RecordSql.Platform.Client

/-!
# Recording clients

A recording client passes its calls on to another one and keeps a list of them.  It can be told to
refuse calls beyond a number, or for a table, as a platform does that is not available.
-/

namespace RecordSql

/-- A call to the platform. -/
inductive Call where
  | retrieve (q : Fetch.Query)
  | update (r : Record)
  | delete (table : String) (id : Guid)
  | bulkDelete (q : Fetch.Query)
  | tableDef (name : String)
  | allTables
  | allOptionSets

structure Recorded (σ : Type) where
  host : σ
  /-- The calls so far, the last one first. -/
  calls : List Call
  /-- How many more retrievals are let through, if they are limited. -/
  retrievals : Option Nat
  /-- How many more changes are let through, if they are limited. -/
  changes : Option Nat
  /-- The table whose definition cannot be read. -/
  hidden : Option String

namespace Recorded

variable {σ : Type}

def ofHost (host : σ) : Recorded σ :=
  ⟨host, [], none, none, none⟩

def part : Part (Recorded σ) σ :=
  ⟨fun s => s.host, fun host s => { s with host }⟩

def record (call : Call) : EStateM PlatformError (Recorded σ) Unit :=
  modify fun s => { s with calls := call :: s.calls }

def unavailable : PlatformError :=
  .fault "Service unavailable"

/-- One call less, or a failure if none is left. -/
def spend : Option Nat -> Except PlatformError (Option Nat)
  | none => .ok none
  | some 0 => .error unavailable
  | some (n + 1) => .ok (some n)

def spendRetrieval : EStateM PlatformError (Recorded σ) Unit := do
  let left <- liftExcept (spend (<- get).retrievals)
  modify fun s => { s with retrievals := left }

def spendChange : EStateM PlatformError (Recorded σ) Unit := do
  let left <- liftExcept (spend (<- get).changes)
  modify fun s => { s with changes := left }

def client (inner : Client σ) : Client (Recorded σ) where
  retrieve q := do
    record (.retrieve q)
    spendRetrieval
    part.run (inner.retrieve q)
  create r := part.run (inner.create r)
  update r := do
    record (.update r)
    spendChange
    part.run (inner.update r)
  delete table id := do
    record (.delete table id)
    spendChange
    part.run (inner.delete table id)
  bulkDelete q := do
    record (.bulkDelete q)
    spendChange
    part.run (inner.bulkDelete q)
  tableDef name := do
    record (.tableDef name)
    if (<- get).hidden == some name then throw (.fault "Metadata unavailable")
    else part.run (inner.tableDef name)
  allTables := do
    record .allTables
    part.run inner.allTables
  allOptionSets := do
    record .allOptionSets
    part.run inner.allOptionSets

end Recorded

end RecordSql
