import RecordSql.Fetch.Query
import RecordSql.Platform.Error
import RecordSql.Record
import RecordSql.Schema.Basic

/-!
# Clients of the platform

A client makes round trips to the platform.  Each of them may fail and may change the state of the
world, which a failure does not undo.
-/

namespace RecordSql

/-!
# Parts of a state

A state may contain another one.  What is done to the smaller one is then done to its place in the
larger one.
-/

/-- The place of a state `σ` in a state `τ`. -/
structure Part (τ σ : Type) where
  get : τ -> σ
  put : σ -> τ -> τ

namespace Part

variable {τ σ ε α : Type}

def run (part : Part τ σ) (action : EStateM ε σ α) : EStateM ε τ α := fun t =>
  match action (part.get t) with
  | .ok a s => .ok a (part.put s t)
  | .error e s => .error e (part.put s t)

def ask (part : Part τ σ) (question : σ -> α × σ) (t : τ) : α × τ :=
  let (a, s) := question (part.get t)
  (a, part.put s t)

def modify (part : Part τ σ) (f : σ -> σ) (t : τ) : τ :=
  part.put (f (part.get t)) t

end Part

/-!
# Clients
-/

structure Client (σ : Type) where
  /-- One page of the answer to a native query. -/
  retrieve : Fetch.Query -> EStateM PlatformError σ Page
  create : Record -> EStateM PlatformError σ Guid
  update : Record -> EStateM PlatformError σ Unit
  delete : String -> Guid -> EStateM PlatformError σ Unit
  /-- Deletes every record that a query returns, and names the job that does it. -/
  bulkDelete : Fetch.Query -> EStateM PlatformError σ Guid
  tableDef : String -> EStateM PlatformError σ TableDef
  allTables : EStateM PlatformError σ (List TableDef)
  allOptionSets : EStateM PlatformError σ (List OptionSet)

/-- The client that does on a part of a larger world what another one does. -/
def Client.within {τ σ : Type} (part : Part τ σ) (inner : Client σ) : Client τ where
  retrieve q := part.run (inner.retrieve q)
  create r := part.run (inner.create r)
  update r := part.run (inner.update r)
  delete table id := part.run (inner.delete table id)
  bulkDelete q := part.run (inner.bulkDelete q)
  tableDef name := part.run (inner.tableDef name)
  allTables := part.run inner.allTables
  allOptionSets := part.run inner.allOptionSets

end RecordSql
