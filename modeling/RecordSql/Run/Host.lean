import RecordSql.Eval.Function
import RecordSql.Run.Error

/-!
# What a query runs on

A query is executed with a client of the platform, a catalog, a clock, and options.  The options
are asked while the query runs, and asking them may change the state of the world.
-/

namespace RecordSql

structure RunOptions (σ : Type) where
  /-- How many records are changed between two looks at the options. -/
  batchSize : Nat
  blockUpdateWithoutWhere : Bool
  blockDeleteWithoutWhere : Bool
  /-- Deletions are handed to the platform as a whole where that is possible. -/
  useBulkDelete : Bool
  cancelled : σ -> Bool
  progress : String -> σ -> σ
  /-- Whether to go on retrieving, given the number of rows so far. -/
  continueRetrieve : Nat -> σ -> Bool × σ
  confirmUpdate : Nat -> TableDef -> σ -> Bool × σ
  confirmDelete : Nat -> TableDef -> σ -> Bool × σ

namespace RunOptions

variable {σ : Type}

def defaultBatchSize : Nat := 100

/-- The options of a host that asks for nothing: changes without a condition are blocked. -/
def standard : RunOptions σ where
  batchSize := defaultBatchSize
  blockUpdateWithoutWhere := true
  blockDeleteWithoutWhere := true
  useBulkDelete := false
  cancelled := fun _ => false
  progress := fun _ s => s
  continueRetrieve := fun _ s => (true, s)
  confirmUpdate := fun _ _ s => (true, s)
  confirmDelete := fun _ _ s => (true, s)

/-- The options of a part of a larger world. -/
def within {τ : Type} (part : Part τ σ) (inner : RunOptions σ) : RunOptions τ where
  batchSize := inner.batchSize
  blockUpdateWithoutWhere := inner.blockUpdateWithoutWhere
  blockDeleteWithoutWhere := inner.blockDeleteWithoutWhere
  useBulkDelete := inner.useBulkDelete
  cancelled := fun t => inner.cancelled (part.get t)
  progress := fun message => part.modify (inner.progress message)
  continueRetrieve := fun n => part.ask (inner.continueRetrieve n)
  confirmUpdate := fun n table => part.ask (inner.confirmUpdate n table)
  confirmDelete := fun n table => part.ask (inner.confirmDelete n table)

end RunOptions

structure Host (σ : Type) where
  client : Client σ
  lookup : Lookup σ
  options : RunOptions σ
  clock : Clock

end RecordSql
