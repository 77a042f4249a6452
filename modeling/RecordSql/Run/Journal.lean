import RecordSql.Run.Host

/-!
# Journals

A host that writes down what a running query reports and asks, and answers as it was told to.
-/

namespace RecordSql

inductive JournalEntry where
  | progress (message : String)
  | confirmUpdate (count : Nat) (table : String)
  | confirmDelete (count : Nat) (table : String)
deriving DecidableEq, Repr

structure Journal (σ : Type) where
  host : σ
  /-- What was written down, the last entry first. -/
  entries : List JournalEntry
  cancelled : Bool

/-- How to answer the questions of a running query. -/
structure Answers where
  confirm : Bool
  /-- Retrieval goes on while there are fewer rows than this. -/
  continueBelow : Option Nat
  /-- The number of the message after which the query is cancelled. -/
  cancelAt : Option Nat

namespace Journal

variable {σ : Type}

def ofHost (host : σ) : Journal σ :=
  ⟨host, [], false⟩

def part : Part (Journal σ) σ :=
  ⟨fun s => s.host, fun host s => { s with host }⟩

def isProgress : JournalEntry -> Bool
  | .progress _ => true
  | _ => false

def messages (j : Journal σ) : Nat :=
  j.entries.countP isProgress

def write (entry : JournalEntry) (j : Journal σ) : Journal σ :=
  { j with entries := entry :: j.entries }

def report (answers : Answers) (message : String) (j : Journal σ) : Journal σ :=
  let written := j.write (.progress message)
  { written with cancelled := j.cancelled || answers.cancelAt == some written.messages }

/-- Options that write down what is asked and otherwise are the standard ones. -/
def options (answers : Answers) : RunOptions (Journal σ) :=
  { (RunOptions.standard : RunOptions (Journal σ)) with
    cancelled := fun j => j.cancelled
    progress := report answers
    continueRetrieve := fun n j => (answers.continueBelow.all (n < ·), j)
    confirmUpdate := fun n t j => (answers.confirm, j.write (.confirmUpdate n t.name))
    confirmDelete := fun n t j => (answers.confirm, j.write (.confirmDelete n t.name)) }

end Journal

end RecordSql
