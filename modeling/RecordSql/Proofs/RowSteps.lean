import RecordSql.Proofs.GroupSteps

/-!
# Steps that work row by row

Steps that compute, filter or sort make of each row what they make of it alone.  So what they can do
with some rows they can do with fewer of them, and every row of their result comes from one row.
Steps that drop duplicates keep one row of each key.
-/

namespace RecordSql

/-!
# The first of each key
-/

section

variable {α : Type} {key : α -> String}

theorem firstOfEach_sublist (key : α -> String) (seen : List String) (l : List α) :
    (firstOfEach key seen l).Sublist l := by
  induction l generalizing seen with
  | nil =>
      exact List.Sublist.refl _
  | cons a rest ih =>
      rw [firstOfEach]
      split
      · exact (ih seen).cons a
      · exact (ih (key a :: seen)).cons_cons a

theorem key_not_mem_seen {seen : List String} {l : List α} {a : α}
    (h : a ∈ firstOfEach key seen l) : key a ∉ seen := by
  induction l generalizing seen with
  | nil =>
      cases h
  | cons b rest ih =>
      rw [firstOfEach] at h
      split at h
      · exact ih h
      · rename_i hb
        rcases List.mem_cons.mp h with rfl | h
        · rw [List.contains_iff_mem] at hb
          exact hb
        · exact fun hmem => ih h (List.mem_cons_of_mem _ hmem)

theorem pairwise_firstOfEach (key : α -> String) (seen : List String) (l : List α) :
    (firstOfEach key seen l).Pairwise fun a b => key a ≠ key b := by
  induction l generalizing seen with
  | nil =>
      exact .nil
  | cons a rest ih =>
      rw [firstOfEach]
      split
      · exact ih seen
      · refine .cons (fun b hb heq => ?_) (ih (key a :: seen))
        exact key_not_mem_seen hb (heq ▸ List.mem_cons_self)

theorem mem_seen_or_firstOfEach {seen : List String} {l : List α} {a : α} (h : a ∈ l) :
    key a ∈ seen ∨ exists b, b ∈ firstOfEach key seen l ∧ key b = key a := by
  induction l generalizing seen with
  | nil =>
      cases h
  | cons b rest ih =>
      rw [firstOfEach]
      by_cases hb : seen.contains (key b) = true
      · rw [if_pos hb]
        rcases List.mem_cons.mp h with rfl | h
        · exact Or.inl (List.contains_iff_mem.mp hb)
        · exact ih h
      · rw [if_neg hb]
        rcases List.mem_cons.mp h with rfl | h
        · exact Or.inr ⟨a, List.mem_cons_self, rfl⟩
        · rcases @ih (key b :: seen) h with hseen | ⟨c, hc, hkey⟩
          · rcases List.mem_cons.mp hseen with heq | hseen
            · exact Or.inr ⟨b, List.mem_cons_self, heq.symm⟩
            · exact Or.inl hseen
          · exact Or.inr ⟨c, List.mem_cons_of_mem _ hc, hkey⟩

/-- Of every key that there is, one item is kept. -/
theorem exists_mem_firstOfEach {l : List α} {a : α} (h : a ∈ l) :
    exists b, b ∈ firstOfEach key [] l ∧ key b = key a := by
  rcases @mem_seen_or_firstOfEach α key [] l a h with hseen | hfound
  · cases hseen
  · exact hfound

end

namespace Step

open Outcome (Agree)
open Sql (OrderKey Predicate Scalar)

variable {clock : Clock} {rows rows' out : List Row}

/-!
# One step
-/

theorem flatten_of_singletons {α β : Type} {g : α -> β} {l : List α} {parts : List (List β)}
    (h : List.Forall₂ (fun a part => part = [g a]) l parts) : parts.flatten = l.map g := by
  induction h with
  | nil =>
      rfl
  | cons hfirst _ ih =>
      rw [List.flatten_cons, hfirst, ih]
      rfl

/-- The result of an item by itself is a list of one. -/
theorem agree_mapM_singleton {α β γ : Type} (f : α -> Except EvalError β) (g : β -> γ)
    (l : List α) :
    Agree (fun bs parts => parts.flatten = bs.map g) (l.mapM f)
      (l.mapM fun a => f a >>= fun b => .ok [g b]) := by
  have hitems : List.Forall₂ (fun a a' => Agree (fun b part => part = [g b]) (f a)
      (f a' >>= fun b => .ok [g b])) l l := by
    refine List.forall₂_same.mpr fun a _ => ?_
    cases f a with
    | error e =>
        trivial
    | ok b =>
        rfl
  exact (Outcome.agree_mapM hitems).mono fun bs parts h => flatten_of_singletons h

theorem stable_singleton {α : Type} (precedes : α -> α -> Bool) (a : α) :
    Sorting.stable precedes [a] = [a] :=
  List.perm_singleton.mp (Sorting.stable_perm precedes [a])

theorem computeRows_singleton (clock : Clock) (expr : Scalar) (output : String) (row : Row) :
    computeRows clock expr output [row] =
      (Eval.scalar clock row.get expr >>= fun value => .ok (row.insert output value)) >>= fun r =>
        .ok [r] := by
  rw [computeRows, List.mapM_cons, List.mapM_nil]
  cases Eval.scalar clock row.get expr <;> rfl

theorem filterRows_singleton (clock : Clock) (p : Predicate) (row : Row) :
    filterRows clock p [row] =
      Eval.predicate clock row.get p >>= fun t => .ok (if t.holds then [row] else []) := by
  rw [filterRows, filterRows]
  cases Eval.predicate clock row.get p <;> rfl

theorem sortRows_singleton (clock : Clock) (keys : List OrderKey) (row : Row) :
    sortRows clock keys [row] =
      ((keys.mapM fun key => sortValue clock key.expr row) >>= fun values => .ok (values, row)) >>=
        fun keyed => .ok [keyed.2] := by
  rw [sortRows, List.mapM_cons, List.mapM_nil]
  cases keys.mapM fun key => sortValue clock key.expr row with
  | error e =>
      rfl
  | ok values =>
      exact congrArg (fun sorted => Except.ok (sorted.map Prod.snd))
        (stable_singleton (fun x y => compareKeys keys x.1 y.1 == .lt) (values, row))

/-- The result of a step is, in some order, what it makes of each row by itself. -/
theorem agree_apply_parts (clock : Clock) {step : Step} (hstep : step.isRowwise = true)
    (rows : List Row) :
    Agree (fun out parts => out.Perm parts.flatten) (step.apply clock rows)
      (rows.mapM fun row => step.apply clock [row]) := by
  have hfilter : forall p, Agree (fun out parts => List.Perm out parts.flatten)
      (filterRows clock p rows) (rows.mapM fun row => filterRows clock p [row]) := by
    intro p
    simp only [filterRows_singleton]
    rw [filterRows_eq]
    exact (Outcome.agree_refl _).map_left fun parts _ heq => List.Perm.of_eq (congrArg _ heq)
  cases step with
  | compute expr output =>
      simp only [apply, computeRows_singleton]
      refine (agree_mapM_singleton _ id rows).mono fun out parts h => ?_
      rw [h, List.map_id]
  | filter p =>
      exact hfilter p
  | having p =>
      exact hfilter p
  | sort keys =>
      simp only [apply, sortRows_singleton]
      refine (agree_mapM_singleton _ Prod.snd rows).map_left fun keyed parts hflat => ?_
      rw [hflat]
      exact (Sorting.stable_perm _ keyed).map Prod.snd
  | _ =>
      cases hstep

theorem apply_subset {step : Step} (hstep : step.isRowwise = true) (hsubset : rows' ⊆ rows)
    (h : step.apply clock rows = .ok out) :
    exists out', step.apply clock rows' = .ok out' ∧ out' ⊆ out := by
  have hparts := agree_apply_parts clock hstep rows
  rw [h] at hparts
  rcases hparts.ok_right with ⟨parts, hparts, hperm⟩
  rcases Outcome.mapM_subset hsubset hparts with ⟨parts', hparts', hfewer⟩
  have hsome := (agree_apply_parts clock hstep rows').symm
  rw [hparts'] at hsome
  rcases hsome.ok_right with ⟨out', hout', hperm'⟩
  refine ⟨out', hout', fun row hrow => ?_⟩
  rcases List.mem_flatten.mp (hperm'.mem_iff.mp hrow) with ⟨part, hpart, hmem⟩
  exact hperm.mem_iff.mpr (List.mem_flatten.mpr ⟨part, hfewer hpart, hmem⟩)

theorem apply_origin {step : Step} (hstep : step.isRowwise = true)
    (h : step.apply clock rows = .ok out) {row : Row} (hrow : row ∈ out) :
    exists origin part, origin ∈ rows ∧ step.apply clock [origin] = .ok part ∧ row ∈ part := by
  have hparts := agree_apply_parts clock hstep rows
  rw [h] at hparts
  rcases hparts.ok_right with ⟨parts, hparts, hperm⟩
  rcases List.mem_flatten.mp (hperm.mem_iff.mp hrow) with ⟨part, hpart, hmem⟩
  rcases Outcome.exists_of_forall₂ (Outcome.mapM_eq_ok.mp hparts) hpart with ⟨origin, horigin, hone⟩
  exact ⟨origin, part, horigin, hone, hmem⟩

/-!
# Runs
-/

theorem run_eq_ok {steps : List Step} {records found : List Record} :
    run clock steps records = .ok found <-> exists out,
      steps.foldlM (fun rows step => step.apply clock rows) (records.map Row.ofRecord) = .ok out ∧
      out.map (·.record) = found := by
  rw [run, Outcome.bind_eq_ok]
  constructor
  · rintro ⟨out, hout, hfound⟩
    cases hfound
    exact ⟨out, hout, rfl⟩
  · rintro ⟨out, hout, rfl⟩
    exact ⟨out, hout, rfl⟩

theorem foldlM_subset {steps : List Step} (hsteps : forall step, step ∈ steps -> step.isRowwise = true)
    (hsubset : rows' ⊆ rows)
    (h : steps.foldlM (fun rows step => step.apply clock rows) rows = .ok out) :
    exists out', steps.foldlM (fun rows step => step.apply clock rows) rows' = .ok out' ∧
      out' ⊆ out := by
  induction steps generalizing rows rows' with
  | nil =>
      cases h
      exact ⟨rows', rfl, hsubset⟩
  | cons step rest ih =>
      rw [List.foldlM_cons, Outcome.bind_eq_ok] at h
      rcases h with ⟨next, hnext, h⟩
      rcases apply_subset (hsteps step List.mem_cons_self) hsubset hnext with ⟨next', hnext', hfewer⟩
      rcases ih (fun s hs => hsteps s (List.mem_cons_of_mem _ hs)) hfewer h with ⟨out', hout', hless⟩
      refine ⟨out', ?_, hless⟩
      rw [List.foldlM_cons, hnext', Outcome.ok_bind, hout']

theorem foldlM_origin {steps : List Step} (hsteps : forall step, step ∈ steps -> step.isRowwise = true)
    (h : steps.foldlM (fun rows step => step.apply clock rows) rows = .ok out) {row : Row}
    (hrow : row ∈ out) :
    exists origin part, origin ∈ rows ∧
      steps.foldlM (fun rows step => step.apply clock rows) [origin] = .ok part ∧ row ∈ part := by
  induction steps generalizing rows with
  | nil =>
      cases h
      exact ⟨row, [row], hrow, rfl, List.mem_singleton_self row⟩
  | cons step rest ih =>
      rw [List.foldlM_cons, Outcome.bind_eq_ok] at h
      rcases h with ⟨next, hnext, h⟩
      have hrest := fun s hs => hsteps s (List.mem_cons_of_mem step hs)
      rcases ih hrest h with ⟨middle, part, hmiddle, hpart, hmem⟩
      rcases apply_origin (hsteps step List.mem_cons_self) hnext hmiddle with
        ⟨origin, middles, horigin, hmiddles, hmiddle'⟩
      -- The rest of the steps succeed on what the first makes of the origin, since they do on more.
      have hone := apply_subset (hsteps step List.mem_cons_self)
        (List.cons_subset.mpr ⟨horigin, List.nil_subset rows⟩) hnext
      rcases hone with ⟨middles', hmiddles', hfewer⟩
      cases hmiddles.symm.trans hmiddles'
      rcases foldlM_subset hrest hfewer h with ⟨part', hpart', _⟩
      rcases foldlM_subset hrest (List.cons_subset.mpr ⟨hmiddle', List.nil_subset middles⟩) hpart'
        with ⟨part'', hpart'', hless⟩
      cases hpart.symm.trans hpart''
      refine ⟨origin, part', horigin, ?_, hless hmem⟩
      rw [List.foldlM_cons, hmiddles, Outcome.ok_bind, hpart']

theorem sortRows_perm {keys : List OrderKey} (h : sortRows clock keys rows = .ok out) :
    out.Perm rows := by
  have hparts := @agree_apply_parts clock (.sort keys) rfl rows
  rw [show (Step.sort keys).apply clock rows = .ok out from h] at hparts
  rcases hparts.ok_right with ⟨parts, hparts, hperm⟩
  have hones : List.Forall₂ (fun row part => part = [id row]) rows parts := by
    refine (Outcome.mapM_eq_ok.mp hparts).imp fun row part hpart => ?_
    rw [apply, sortRows_singleton, Outcome.bind_eq_ok] at hpart
    rcases hpart with ⟨keyed, hkeyed, hpart⟩
    rcases Outcome.bind_eq_ok.mp hkeyed with ⟨values, _, hvalues⟩
    cases hvalues
    cases hpart
    rfl
  rw [flatten_of_singletons hones, List.map_id] at hperm
  exact hperm

/-!
# Runs with a step that drops duplicates
-/

/-- The steps only sort rows. -/
def OnlySort (steps : List Step) : Prop :=
  forall step, step ∈ steps -> exists keys, step = .sort keys

theorem OnlySort.isRowwise {steps : List Step} (h : OnlySort steps) (step : Step)
    (hstep : step ∈ steps) : step.isRowwise = true := by
  rcases h step hstep with ⟨keys, rfl⟩
  rfl

theorem OnlySort.perm {steps : List Step} (h : OnlySort steps) {rows out : List Row}
    (hrun : steps.foldlM (fun rows step => step.apply clock rows) rows = .ok out) :
    out.Perm rows := by
  induction steps generalizing rows with
  | nil =>
      cases hrun
      exact List.Perm.refl _
  | cons step rest ih =>
      rw [List.foldlM_cons, Outcome.bind_eq_ok] at hrun
      rcases hrun with ⟨next, hnext, hrun⟩
      rcases h step List.mem_cons_self with ⟨keys, rfl⟩
      exact (ih (fun s hs => h s (List.mem_cons_of_mem _ hs)) hrun).trans (sortRows_perm hnext)

variable {columns : List DistinctColumn} {steps sorts : List Step}

theorem foldlM_distinct_sorts (hsorts : OnlySort sorts) {rows out part : List Row}
    (hrun : sorts.foldlM (fun rows step => step.apply clock rows) rows = .ok out)
    (hpart : part ⊆ rows) :
    exists out', (.distinct columns :: sorts : List Step).foldlM
        (fun rows step => step.apply clock rows) part = .ok out' ∧
      out'.Perm (firstOfEach (distinctKey columns) [] part) ∧ out' ⊆ out := by
  have hsubset : firstOfEach (distinctKey columns) [] part ⊆ rows := fun row hrow =>
    hpart ((firstOfEach_sublist _ _ _).subset hrow)
  rcases foldlM_subset hsorts.isRowwise hsubset hrun with ⟨out', hout', hfewer⟩
  refine ⟨out', ?_, hsorts.perm hout', hfewer⟩
  rw [List.foldlM_cons, apply, Outcome.ok_bind, hout']

/-- What the steps make of one row, by the keys of the rows. -/
def keysOf (clock : Clock) (columns : List DistinctColumn) (steps : List Step) (row : Row) :
    Except EvalError (List String) := do
  let rows <- steps.foldlM (fun rows step => step.apply clock rows) [row]
  return rows.map (distinctKey columns)

/--
If only rows are left out that the steps make the same of as of another row, then one row of each
key is left of all rows.
-/
theorem foldlM_distinct (hsteps : forall step, step ∈ steps -> step.isRowwise = true)
    (hsorts : OnlySort sorts) {rows rows' out : List Row} (hsubset : rows' ⊆ rows)
    (hrun : (steps ++ sorts).foldlM (fun rows step => step.apply clock rows) rows = .ok out)
    (halike : forall row, row ∈ rows -> exists row', row' ∈ rows' ∧
      keysOf clock columns (steps ++ .distinct columns :: sorts) row =
        keysOf clock columns (steps ++ .distinct columns :: sorts) row') :
    exists out', (steps ++ .distinct columns :: sorts).foldlM
        (fun rows step => step.apply clock rows) rows' = .ok out' ∧
      out'.Pairwise (fun a b => distinctKey columns a ≠ distinctKey columns b) ∧ out' ⊆ out ∧
      forall row, row ∈ out -> exists row', row' ∈ out' ∧
        distinctKey columns row' = distinctKey columns row := by
  rw [List.foldlM_append, Outcome.bind_eq_ok] at hrun
  rcases hrun with ⟨middle, hmiddle, hsorted⟩
  -- Whatever part of the rows the steps work on, what is left of it has one row of each key.
  have hpart : forall {some : List Row}, some ⊆ rows -> exists part out',
      steps.foldlM (fun rows step => step.apply clock rows) some = .ok part ∧
      (steps ++ .distinct columns :: sorts).foldlM (fun rows step => step.apply clock rows) some =
        .ok out' ∧ out'.Perm (firstOfEach (distinctKey columns) [] part) ∧ out' ⊆ out := by
    intro some hsome
    rcases foldlM_subset hsteps hsome hmiddle with ⟨part, hrun, hfewer⟩
    rcases @foldlM_distinct_sorts clock columns sorts hsorts _ _ _ hsorted hfewer with
      ⟨out', hout', hperm, hless⟩
    refine ⟨part, out', hrun, ?_, hperm, hless⟩
    rw [List.foldlM_append, hrun, Outcome.ok_bind, hout']
  rcases hpart hsubset with ⟨part, out', hrun', hout', hperm, hless⟩
  refine ⟨out', hout', ?_, hless, ?_⟩
  · exact (hperm.pairwise_iff fun h heq => h heq.symm).mpr (pairwise_firstOfEach _ [] part)
  · intro row hrow
    rcases foldlM_origin hsteps hmiddle ((hsorts.perm hsorted).mem_iff.mp hrow) with
      ⟨origin, own, horigin, hown, hmem⟩
    rcases halike origin horigin with ⟨other, hother, hsame⟩
    rcases hpart (List.cons_subset.mpr ⟨horigin, List.nil_subset rows⟩) with
      ⟨own', left, hown', hleft, hperm₁, _⟩
    cases hown.symm.trans hown'
    rcases hpart (List.cons_subset.mpr ⟨hsubset hother, List.nil_subset rows⟩) with
      ⟨theirs, left', htheirs, hleft', hperm₂, _⟩
    rw [keysOf, keysOf, hleft, hleft'] at hsame
    have hkeys : left.map (distinctKey columns) = left'.map (distinctKey columns) :=
      Except.ok.inj hsame
    rcases @exists_mem_firstOfEach _ (distinctKey columns) _ _ hmem with ⟨first, hfirst, hkey₁⟩
    have hlisted : distinctKey columns first ∈ left'.map (distinctKey columns) := by
      rw [<- hkeys]
      exact List.mem_map_of_mem (hperm₁.mem_iff.mpr hfirst)
    rcases List.mem_map.mp hlisted with ⟨second, hsecond, hkey₂⟩
    rcases foldlM_subset hsteps (List.cons_subset.mpr ⟨hother, List.nil_subset rows'⟩) hrun' with
      ⟨theirs', htheirs', hfewer⟩
    cases htheirs.symm.trans htheirs'
    have hkept : second ∈ part :=
      hfewer ((firstOfEach_sublist _ _ _).subset (hperm₂.mem_iff.mp hsecond))
    rcases @exists_mem_firstOfEach _ (distinctKey columns) _ _ hkept with ⟨third, hthird, hkey₃⟩
    exact ⟨third, hperm.mem_iff.mpr hthird, hkey₃.trans (hkey₂.trans hkey₁)⟩

end Step
end RecordSql
