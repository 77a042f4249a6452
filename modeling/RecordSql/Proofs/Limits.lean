import RecordSql.Plan.Limit
import RecordSql.Proofs.Outcome

/-!
# Planning a limit

A limit asks for a run of rows.  It becomes a bound of the native query, a page of it, or the last
local step.
-/

namespace RecordSql

namespace Plan

variable {rowsChange : Bool} {q q' : Fetch.Query} {steps steps' : List Step}

theorem count_eq_ok {what : String} {n : Int} {k : Nat} (h : count what n = .ok k) :
    k = n.toNat := by
  unfold count at h
  split at h
  · cases h
    rfl
  · cases h

theorem mapM_count_eq_ok {what : String} {n : Option Int} {k : Option Nat}
    (h : n.mapM (count what) = .ok k) : k = n.map Int.toNat := by
  cases n with
  | none =>
      cases h
      rfl
  | some n =>
      rw [Option.mapM_some] at h
      cases hk : count what n with
      | error e =>
          rw [hk] at h
          cases h
      | ok k =>
          rw [hk] at h
          cases h
          rw [count_eq_ok hk, Option.map_some]

/-- The number and the size of the page that holds the rows of an offset, where there is one. -/
def page? (rowsChange : Bool) (skip : Int) (take : Option Int) : Option (Nat × Nat) :=
  take.bind fun n =>
    if 0 < n.toNat && skip.toNat % n.toNat == 0 && !rowsChange && n.toNat ≤ maxNativeTop then
      some (skip.toNat / n.toNat + 1, n.toNat)
    else none

/-- The rows of an offset are the page of a number, in pages of a size. -/
structure IsPage (skip : Int) (take : Option Int) (number size : Nat) : Prop where
  rows : take.map Int.toNat = some size
  positive : 0 < size
  numbered : number = skip.toNat / size + 1
  skipped : skip.toNat = (number - 1) * size

theorem isPage_of_page? {skip : Int} {take : Option Int} {number size : Nat}
    (h : page? rowsChange skip take = some (number, size)) :
    rowsChange = false ∧ IsPage skip take number size := by
  cases take with
  | none =>
      cases h
  | some n =>
      simp only [page?, Option.bind_some] at h
      split at h
      · rename_i hpage
        simp only [Bool.and_eq_true, decide_eq_true_eq, beq_iff_eq, Bool.not_eq_true'] at hpage
        rcases hpage with ⟨⟨⟨hpositive, hwhole⟩, hchange⟩, _⟩
        cases h
        refine ⟨hchange, rfl, hpositive, rfl, ?_⟩
        rw [Nat.add_sub_cancel]
        exact (Nat.div_mul_cancel (Nat.dvd_of_mod_eq_zero hwhole)).symm
      · cases h

/-- The platform skips as many pages as are asked for if the number of the page is a word. -/
theorem word_eq_iff (number : Nat) :
    max (number % pageNumbers) 1 - 1 = number - 1 <-> number < pageNumbers := by
  unfold pageNumbers
  omega

theorem applyTop_cases {n : Int} (h : applyTop rowsChange q steps (some n) = .ok (q', steps')) :
    (rowsChange = false ∧ q' = { q with top := some n.toNat } ∧ steps' = steps) ∨
      (q' = q ∧ steps' = steps ++ [.limit 0 (some n.toNat)]) := by
  simp only [applyTop, Outcome.bind_eq_ok] at h
  rcases h with ⟨k, hk, h⟩
  rw [<- count_eq_ok hk]
  split at h
  · rename_i hnative
    cases h
    exact .inl ⟨by simpa using (Bool.and_eq_true_iff.mp hnative).1, rfl, rfl⟩
  · cases h
    exact .inr ⟨rfl, rfl⟩

theorem applyOffset_cases {skip : Int} {take : Option Int}
    (h : applyOffset rowsChange q steps (some ⟨skip, take⟩) = .ok (q', steps')) :
    (exists number size, page? rowsChange skip take = some (number, size) ∧
        q' = { q with count := some size, page := some (number % pageNumbers) } ∧
        steps' = steps) ∨
      (page? rowsChange skip take = none ∧ q' = q ∧
        steps' = steps ++ [.limit skip.toNat (take.map Int.toNat)]) := by
  simp only [applyOffset, Outcome.bind_eq_ok] at h
  rcases h with ⟨skipped, hskipped, taken, htaken, h⟩
  cases count_eq_ok hskipped
  cases mapM_count_eq_ok htaken
  cases take with
  | none =>
      cases h
      exact .inr ⟨rfl, rfl, rfl⟩
  | some n =>
      simp only [Option.map_some] at h
      split at h
      · rename_i hnative
        cases h
        refine .inl ⟨_, _, ?_, rfl, rfl⟩
        rw [page?, Option.bind_some, if_pos hnative]
      · rename_i hnative
        cases h
        refine .inr ⟨?_, rfl, rfl⟩
        rw [page?, Option.bind_some, if_neg hnative]

end Plan

end RecordSql
