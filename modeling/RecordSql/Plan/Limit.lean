import RecordSql.Plan.Basic

/-!
# Limits

A limit is native unless an earlier local step can change which rows there are, or the platform
cannot express it; then it is the last local step.
-/

namespace RecordSql
namespace Plan

/-- The largest number of rows that the platform accepts as a limit. -/
def maxNativeTop : Nat := 5000

/-- Page numbers are words of 32 bits. -/
def pageNumbers : Nat := 4294967296

def count (what : String) (n : Int) : Except PlanError Nat :=
  if 0 ≤ n then .ok n.toNat else .error (.notSupported (what ++ " " ++ Number.intText n))

def applyTop (rowsChange : Bool) (fetch : Fetch.Query) (steps : List Step) (top : Option Int) :
    Except PlanError (Fetch.Query × List Step) :=
  match top with
  | none => .ok (fetch, steps)
  | some top => do
      let n <- count "TOP" top
      if !rowsChange && n ≤ maxNativeTop then return ({ fetch with top := some n }, steps)
      else return (fetch, steps ++ [.limit 0 (some n)])

/-- Rows are passed over natively if they fill whole pages. -/
def applyOffset (rowsChange : Bool) (fetch : Fetch.Query) (steps : List Step)
    (offset : Option Sql.Offset) : Except PlanError (Fetch.Query × List Step) :=
  match offset with
  | none => .ok (fetch, steps)
  | some ⟨skip, take⟩ => do
      let skipped <- count "OFFSET" skip
      let taken <- take.mapM (count "FETCH NEXT")
      match taken with
      | some n =>
          if 0 < n && skipped % n == 0 && !rowsChange && n ≤ maxNativeTop then
            let page := (skipped / n + 1) % pageNumbers
            return ({ fetch with count := some n, page := some page }, steps)
          else return (fetch, steps ++ [.limit skipped (some n)])
      | none => return (fetch, steps ++ [.limit skipped none])

def applyLimits (fetch : Fetch.Query) (steps : List Step) (top : Option Int)
    (offset : Option Sql.Offset) : Except PlanError (Fetch.Query × List Step) := do
  let rowsChange := steps.any Step.changesRows
  let (fetch, steps) <- applyTop rowsChange fetch steps top
  applyOffset rowsChange fetch steps offset

end Plan
end RecordSql
