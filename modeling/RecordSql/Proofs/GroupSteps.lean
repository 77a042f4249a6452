import RecordSql.Proofs.Outcome
import RecordSql.Step.Apply

/-!
# Steps on groups

The groups of an aggregate query are filtered, sorted and shown like any other rows.  These steps
read a row only through its values and keys, and treat every row by itself; so they give the same
rows whatever the order in which the groups come.
-/

namespace RecordSql

open Outcome (Agree)
open Sql (OrderKey Predicate Scalar)

/-- What steps read of a row. -/
def Row.view (r : Row) : (String -> Value) × Dict Value :=
  (r.get, r.keys)

/-- The rows are the same to later steps, in any order. -/
def SameRows (rows rows' : List Row) : Prop :=
  (rows.map Row.view).Perm (rows'.map Row.view)

theorem Row.get_eq_of_view {r r' : Row} (h : r.view = r'.view) : r.get = r'.get :=
  congrArg Prod.fst h

theorem Row.keys_eq_of_view {r r' : Row} (h : r.view = r'.view) : r.keys = r'.keys :=
  congrArg Prod.snd h

theorem Row.view_insert {r r' : Row} (h : r.view = r'.view) (name : String) (value : Value) :
    (r.insert name value).view = (r'.insert name value).view := by
  have hget : (r.insert name value).get = (r'.insert name value).get := by
    funext other
    change (r.record.insert name value).get other = (r'.record.insert name value).get other
    rw [Record.get_insert, Record.get_insert]
    exact congrArg (fun v => if other = name then value else v)
      (congrFun (Row.get_eq_of_view h) other)
  have hkeys : r.keys = r'.keys := Row.keys_eq_of_view h
  exact congrArg₂ Prod.mk hget hkeys

namespace Step

variable {rows rows' : List Row}

/-!
# One step
-/

theorem agree_computeRows (h : SameRows rows rows') (clock : Clock) (expr : Scalar)
    (output : String) :
    Agree SameRows (computeRows clock expr output rows) (computeRows clock expr output rows') := by
  refine Outcome.agree_mapM_views ?_ h
  intro r r' hview
  rw [Row.get_eq_of_view hview]
  refine (Outcome.agree_refl _).bind ?_
  rintro value _ rfl
  exact Row.view_insert hview output value

/-- Filtering, as a decision about each row and the collection of what is kept. -/
theorem filterRows_eq (clock : Clock) (p : Predicate) (rows : List Row) :
    filterRows clock p rows =
      (rows.mapM fun row => Eval.predicate clock row.get p >>= fun t =>
        .ok (if t.holds then [row] else [])) >>= fun parts => .ok parts.flatten := by
  induction rows with
  | nil =>
      rfl
  | cons row rest ih =>
      rw [filterRows, ih, List.mapM_cons]
      cases Eval.predicate clock row.get p with
      | error e =>
          rfl
      | ok t =>
          cases rest.mapM fun row => Eval.predicate clock row.get p >>= fun t =>
              Except.ok (if t.holds then [row] else []) with
          | error e =>
              rfl
          | ok parts =>
              cases ht : t.holds <;> simp [ht]

theorem agree_filterRows (h : SameRows rows rows') (clock : Clock) (p : Predicate) :
    Agree SameRows (filterRows clock p rows) (filterRows clock p rows') := by
  rw [filterRows_eq, filterRows_eq]
  refine (@Outcome.agree_mapM_views _ _ _ _ _ _ Row.view (List.map Row.view) ?_ _ _ h).bind ?_
  · intro r r' hview
    rw [Row.get_eq_of_view hview]
    refine (Outcome.agree_refl _).bind ?_
    rintro t _ rfl
    cases t.holds with
    | false =>
        rfl
    | true =>
        exact congrArg (fun v => [v]) hview
  · intro parts parts' hparts
    have hflat := hparts.flatten
    rw [<- List.map_flatten, <- List.map_flatten] at hflat
    exact hflat

theorem sortValue_congr {r r' : Row} (h : r.view = r'.view) (clock : Clock) (expr : Scalar) :
    sortValue clock expr r = sortValue clock expr r' := by
  have hkey : r.keyOf = r'.keyOf := by
    unfold Row.keyOf
    rw [Row.get_eq_of_view h, Row.keys_eq_of_view h]
  unfold sortValue
  rw [hkey, Row.get_eq_of_view h]

theorem agree_sortRows (h : SameRows rows rows') (clock : Clock) (keys : List OrderKey) :
    Agree SameRows (sortRows clock keys rows) (sortRows clock keys rows') := by
  unfold sortRows
  refine (@Outcome.agree_mapM_views _ _ _ _ _ _ Row.view (fun keyed => Row.view keyed.2) ?_
    _ _ h).bind ?_
  · intro r r' hview
    simp only [sortValue_congr hview clock]
    refine (Outcome.agree_refl _).bind ?_
    rintro values _ rfl
    exact hview
  · intro keyed keyed' hkeyed
    have hsorted := fun list : List (List Value × Row) =>
      (Sorting.stable_perm (fun x y => compareKeys keys x.1 y.1 == .lt) list).map
        fun keyed => Row.view keyed.2
    have hall := ((hsorted keyed).trans hkeyed).trans (hsorted keyed').symm
    change (List.map Row.view (List.map _ _)).Perm (List.map Row.view (List.map _ _))
    rw [List.map_map, List.map_map]
    exact hall

/-!
# Runs
-/

/-- The step computes, filters or sorts rows. -/
def isRowwise : Step -> Bool
  | compute _ _ => true
  | filter _ => true
  | having _ => true
  | sort _ => true
  | _ => false

theorem agree_apply (h : SameRows rows rows') (clock : Clock) {step : Step}
    (hstep : step.isRowwise = true) :
    Agree SameRows (step.apply clock rows) (step.apply clock rows') := by
  cases step with
  | compute expr output =>
      exact agree_computeRows h clock expr output
  | filter p =>
      exact agree_filterRows h clock p
  | having p =>
      exact agree_filterRows h clock p
  | sort keys =>
      exact agree_sortRows h clock keys
  | limit skip take =>
      cases hstep
  | foldCase column =>
      cases hstep
  | aggregate groups columns =>
      cases hstep
  | distinct columns =>
      cases hstep

theorem agree_foldlM_apply (h : SameRows rows rows') (clock : Clock) {steps : List Step}
    (hsteps : forall step, step ∈ steps -> step.isRowwise = true) :
    Agree SameRows (steps.foldlM (fun rows step => step.apply clock rows) rows)
      (steps.foldlM (fun rows step => step.apply clock rows) rows') := by
  induction steps generalizing rows rows' with
  | nil =>
      exact h
  | cons step rest ih =>
      rw [List.foldlM_cons, List.foldlM_cons]
      refine (agree_apply h clock (hsteps step List.mem_cons_self)).bind ?_
      intro next next' hnext
      exact ih hnext fun other hother => hsteps other (List.mem_cons_of_mem _ hother)

/-- Sorting by columns cannot fail, and only changes the order of the rows. -/
theorem sortRows_columns (clock : Clock) {keys : List OrderKey}
    (hkeys : forall key, key ∈ keys -> exists c, key.expr = .column c) (rows : List Row) :
    exists sorted, sortRows clock keys rows = .ok sorted ∧ sorted.Perm rows := by
  have hvalues : forall row : Row, exists values,
      (keys.mapM fun key => sortValue clock key.expr row) = .ok values := by
    intro row
    induction keys with
    | nil =>
        exact ⟨[], rfl⟩
    | cons key rest ih =>
        rcases hkeys key List.mem_cons_self with ⟨c, hc⟩
        rcases ih fun k hk => hkeys k (List.mem_cons_of_mem _ hk) with ⟨values, hrest⟩
        refine ⟨row.keyOf c :: values, ?_⟩
        rw [List.mapM_cons, hrest, hc]
        rfl
  have hkeyed : exists keyed : List (List Value × Row),
      (rows.mapM fun row => (keys.mapM fun key => sortValue clock key.expr row) >>= fun values =>
        pure (values, row)) = .ok keyed ∧ keyed.map (·.2) = rows := by
    induction rows with
    | nil =>
        exact ⟨[], rfl, rfl⟩
    | cons row rest ih =>
        rcases hvalues row with ⟨values, hrow⟩
        rcases ih with ⟨keyed, hrest, hmap⟩
        refine ⟨(values, row) :: keyed, ?_, ?_⟩
        · rw [List.mapM_cons, hrow, hrest]
          rfl
        · rw [List.map_cons, hmap]
  rcases hkeyed with ⟨keyed, hrows, hmap⟩
  have hsorted := (Sorting.stable_perm (fun x y => compareKeys keys x.1 y.1 == .lt) keyed).map
    fun keyed => keyed.2
  rw [hmap] at hsorted
  refine ⟨_, ?_, hsorted⟩
  rw [sortRows, hrows]
  rfl

end Step
end RecordSql
