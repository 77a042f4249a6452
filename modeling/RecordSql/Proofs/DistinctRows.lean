import RecordSql.Proofs.DistinctPlans
import RecordSql.Proofs.EqualRows
import RecordSql.Proofs.Execution
import RecordSql.Proofs.RowSteps
import RecordSql.Proofs.StoredValues

/-!
# Distinct rows

A query of distinct rows shows one row for each class of equal rows of the same query of all rows.
The platform may drop duplicates before the local steps run, and it compares whatever it returns
without regard to case.  So the result holds if the local steps do not tell apart what the platform
does not, and if the platform returns no more than what is shown wherever it alone drops duplicates.
-/

namespace RecordSql

open Fetch (Joined Placed placedAttributes project)
open Sql (Scalar Select SelectItem)

/-!
# Plans
-/

/-- The second rows are the first ones without duplicates. -/
structure WithoutDuplicates (marks : List Bool) (all once : List (List Value)) : Prop where
  distinct : once.Pairwise fun a b => ¬ SameRow marks a b
  subset : forall row, row ∈ once -> row ∈ all
  covers : forall row, row ∈ all -> exists row', row' ∈ once ∧ SameRow marks row row' ∧
    (List.Forall₂ Value.Alike row row' -> foldRow marks row = foldRow marks row')

def Step.isDistinct : Step -> Bool
  | .distinct _ => true
  | _ => false

namespace Plan

/-- A local step drops duplicates. -/
def dropsLocally (plan : Plan) : Bool :=
  plan.steps.any Step.isDistinct

/-- What the local steps make of one record, as far as case counts in the columns. -/
def showsOf (plan : Plan) (clock : Clock) (marks : List Bool) (r : Record) :
    Except EvalError (List (List Value)) := do
  let rows <- Step.run clock plan.steps [r]
  return rows.map fun r => foldRow marks (plan.columns.map r.get)

/-- The platform drops no record that would show a row of its own. -/
structure DropsDuplicates (plan : Plan) (clock : Clock) (marks : List Bool) (all : List Record) :
    Prop where
  /-- Attributes that are returned under one name are one attribute. -/
  retrieved : forall p, p ∈ placedAttributes "" plan.fetch.root ->
    forall p', p' ∈ placedAttributes "" plan.fetch.root -> p.output = p'.output -> p.key = p'.key
  /-- No other column is shown under the name of a computed one. -/
  shown : forall entry, entry ∈ plan.computed -> plan.columns.count entry.2 = 1
  /-- If the platform alone drops duplicates, everything that it returns is shown. -/
  covered : plan.dropsLocally = false -> forall p, p ∈ placedAttributes "" plan.fetch.root ->
    exists p', p' ∈ placedAttributes "" plan.fetch.root ∧ p'.key = p.key ∧ p'.output ∈ plan.columns
  /-- If both drop duplicates, the local steps make the same of what the platform takes as equal. -/
  alike : plan.dropsLocally = true -> plan.fetch.distinct = true -> forall r, r ∈ all ->
    forall r', r' ∈ all -> Fetch.distinctKey r = Fetch.distinctKey r' ->
      plan.showsOf clock marks r = plan.showsOf clock marks r'

/-- What a select list becomes after the steps of a condition. -/
structure Listed (ctx : Context) (items : List SelectItem) (parts : List Part) (listed : Projection) :
    Prop where
  becomes : List.Forall₂ (Becomes ctx) items parts
  columns : listed.columns = parts.map (Part.output ctx.scopes)
  computed : listed.steps.filterMap Step.entry? = parts.filterMap Part.entry?
  /-- Every step computes a column or filters rows. -/
  steps : forall step, step ∈ listed.steps -> step.entry? = none -> exists p, step = .filter p

variable {ctx : Context} {items : List SelectItem} {parts : List Part} {listed : Projection}

theorem Listed.isRowwise (h : Listed ctx items parts listed) (step : Step)
    (hstep : step ∈ listed.steps) : step.isRowwise = true := by
  cases hentry : step.entry? with
  | none =>
      rcases h.steps step hstep hentry with ⟨p, rfl⟩
      rfl
  | some entry =>
      cases step with
      | compute expr output =>
          rfl
      | _ =>
          cases hentry

theorem Listed.mem_caseSensitive (h : Listed ctx items parts listed) {name : String} :
    name ∈ listed.caseSensitive <-> exists part entry, part ∈ parts ∧
      part.entry? = some entry ∧ entry.1.isCaseSensitive = true ∧ entry.2 = name := by
  have hentries : forall step : Step, step.caseSensitiveOutput? = some name <->
      exists entry, step.entry? = some entry ∧ entry.1.isCaseSensitive = true ∧ entry.2 = name := by
    intro step
    cases step with
    | compute expr output =>
        simp [Step.caseSensitiveOutput?, Step.entry?]
    | _ =>
        simp [Step.caseSensitiveOutput?, Step.entry?]
  rw [Projection.caseSensitive, List.mem_filterMap]
  constructor
  · rintro ⟨step, hstep, hname⟩
    rcases (hentries step).mp hname with ⟨entry, hentry, hcase, hname⟩
    have hmem : entry ∈ parts.filterMap Part.entry? := by
      rw [<- h.computed]
      exact List.mem_filterMap.mpr ⟨step, hstep, hentry⟩
    rcases List.mem_filterMap.mp hmem with ⟨part, hpart, hsome⟩
    exact ⟨part, entry, hpart, hsome, hcase, hname⟩
  · rintro ⟨part, entry, hpart, hsome, hcase, hname⟩
    have hmem : entry ∈ listed.steps.filterMap Step.entry? := by
      rw [h.computed]
      exact List.mem_filterMap.mpr ⟨part, hpart, hsome⟩
    rcases List.mem_filterMap.mp hmem with ⟨step, hstep, hentry⟩
    exact ⟨step, hstep, (hentries step).mpr ⟨entry, hentry, hcase, hname⟩⟩

/-- A column is compared with regard to case exactly if its item asks for it. -/
theorem Listed.marks_eq (h : Listed ctx items parts listed)
    (hshown : forall entry, entry ∈ parts.filterMap Part.entry? ->
      listed.columns.count entry.2 = 1) :
    listed.columns.map (fun name => listed.caseSensitive.contains name) =
      items.map fun item => item.expr.isCaseSensitive := by
  rw [h.columns, List.map_map, eq_comm, <- List.forall₂_eq_eq_eq, List.forall₂_map_left_iff,
    List.forall₂_map_right_iff]
  refine (Outcome.forall₂_and_mem h.becomes).imp fun item part hpart => ?_
  rcases hpart with ⟨hbecomes, hpart⟩
  -- Only the part itself is shown under the name of a computed part.
  have hunique : forall part' entry, part' ∈ parts -> part'.entry? = some entry ->
      entry.2 = part.output ctx.scopes -> part' = part := by
    intro part' entry hpart' hentry hname
    have houtput := part'.output_of_entry ctx.scopes hentry
    have hcount := hshown entry (List.mem_filterMap.mpr ⟨part', hpart', hentry⟩)
    rw [h.columns, <- houtput] at hcount
    exact eq_of_count_eq_one hpart' hpart (houtput.trans hname) hcount
  rw [Function.comp_apply, Bool.eq_iff_iff, List.contains_iff_mem, h.mem_caseSensitive]
  constructor
  · intro hcase
    cases hbecomes with
    | retrieved _ =>
        cases hcase
    | @computed item q output hq =>
        rw [<- Context.isCaseSensitive_qualify hq] at hcase
        exact ⟨_, (q, output), hpart, rfl, hcase, rfl⟩
  · rintro ⟨part', entry, hpart', hentry, hcase, hname⟩
    cases hunique part' entry hpart' hentry hname
    cases hbecomes with
    | retrieved _ =>
        cases hentry
    | @computed item q output hq =>
        cases hentry
        rw [<- Context.isCaseSensitive_qualify hq]
        exact hcase

theorem ofItems_listed {residual : Residual}
    (hitems : forall item, item ∈ items -> item.expr.isStar = false)
    (h : Projection.ofItems ctx (residual.predicate.map Step.filter).toList items = .ok listed) :
    exists parts, Listed ctx items parts listed ∧ listed.ctx = parts.foldl Part.addTo ctx := by
  rcases foldlM_item_parted hitems h with ⟨parts, hparts, hparted⟩
  refine ⟨parts, ⟨hparts, hparted.columns, ?_, ?_⟩, hparted.ctx⟩
  · rw [hparted.steps, List.filterMap_append, entries_filter, entries_computing]
    rfl
  · intro step hstep hentry
    rw [hparted.steps] at hstep
    rcases List.mem_append.mp hstep with hstep | hstep
    · rcases Option.mem_toList.mp hstep with hstep
      rcases Option.map_eq_some_iff.mp hstep with ⟨p, _, hp⟩
      exact ⟨p, hp.symm⟩
    · rcases List.mem_map.mp hstep with ⟨entry, _, rfl⟩
      cases hentry

/-!
# Runs of plans
-/

variable {clock : Clock} {marks : List Bool} {columns : List String}

theorem distinctKey_ofNames {caseSensitive : List String}
    (hmarks : columns.map (fun name => caseSensitive.contains name) = marks) (row : Row) :
    Step.distinctKey (DistinctColumn.ofNames columns caseSensitive) row =
      Value.tupleText (foldRow marks (columns.map row.record.get)) := by
  rw [Step.distinctKey, DistinctColumn.ofNames, List.map_map, foldRow, <- hmarks, List.zipWith_map,
    List.zipWith_self]
  rfl

theorem sameRow_shown {r r' : Record} :
    SameRow marks (columns.map r.get) (columns.map r'.get) <->
      Value.tupleText (foldRow marks (columns.map r.get)) =
        Value.tupleText (foldRow marks (columns.map r'.get)) :=
  sameRow_iff (by rw [List.length_map, List.length_map])

/-- Records of which one is kept for each class of equal rows, and then sorted. -/
theorem run_sorts_firstOfEach {key : Record -> String} {sorts : List Step} {all rows : List Record}
    (hsorts : Step.OnlySort sorts)
    (hkey : forall r, r ∈ all -> forall r', r' ∈ all ->
      (key r = key r' <-> SameRow marks (columns.map r.get) (columns.map r'.get)))
    (hrun : Step.run clock sorts all = .ok rows) :
    exists once, Step.run clock sorts (firstOfEach key [] all) = .ok once ∧
      WithoutDuplicates marks (rows.map fun r => columns.map r.get)
        (once.map fun r => columns.map r.get) := by
  rcases Step.run_eq_ok.mp hrun with ⟨out, hout, rfl⟩
  have hkept : firstOfEach key [] all ⊆ all := (firstOfEach_sublist key [] all).subset
  rcases Step.foldlM_subset hsorts.isRowwise (List.map_subset Row.ofRecord hkept) hout with
    ⟨out', hout', hfewer⟩
  have hall : (out.map (·.record)).Perm all := by
    have hperm := (hsorts.perm hout).map (·.record)
    rwa [List.map_map, show Row.record ∘ Row.ofRecord = id from rfl, List.map_id] at hperm
  have honce : (out'.map (·.record)).Perm (firstOfEach key [] all) := by
    have hperm := (hsorts.perm hout').map (·.record)
    rwa [List.map_map, show Row.record ∘ Row.ofRecord = id from rfl, List.map_id] at hperm
  refine ⟨_, Step.run_eq_ok.mpr ⟨out', hout', rfl⟩, ?_, ?_, ?_⟩
  · rw [List.pairwise_map]
    refine (honce.pairwise_iff fun h hsame => h (sameRow_shown.mpr (sameRow_shown.mp hsame).symm)).mpr
      ((pairwise_firstOfEach key [] all).imp_of_mem fun hr hr' hne hsame => ?_)
    exact hne ((hkey _ (hkept hr) _ (hkept hr')).mpr hsame)
  · intro row hrow
    rcases List.mem_map.mp hrow with ⟨r, hr, rfl⟩
    exact List.mem_map_of_mem (hall.mem_iff.mpr (hkept (honce.mem_iff.mp hr)))
  · intro row hrow
    rcases List.mem_map.mp hrow with ⟨r, hr, rfl⟩
    have hr' := hall.mem_iff.mp hr
    rcases @exists_mem_firstOfEach _ key _ _ hr' with ⟨first, hfirst, hsame⟩
    have heq := (hkey r hr' first (hkept hfirst)).mp hsame.symm
    exact ⟨_, List.mem_map_of_mem (honce.mem_iff.mpr hfirst), heq, heq.fold_eq⟩

/-- Rows that are dropped by a local step, after some records may have been left out. -/
theorem run_distinct {plan : Plan} {steps sorts : List Step} {told : List DistinctColumn}
    {all some rows : List Record} (hplan : plan.steps = steps ++ .distinct told :: sorts)
    (htold : forall row, Step.distinctKey told row =
      Value.tupleText (foldRow marks (plan.columns.map row.record.get)))
    (hsteps : forall step, step ∈ steps -> step.isRowwise = true) (hsorts : Step.OnlySort sorts)
    (hsome : some ⊆ all)
    (halike : forall r, r ∈ all -> exists r', r' ∈ some ∧
      plan.showsOf clock marks r = plan.showsOf clock marks r')
    (hrun : Step.run clock (steps ++ sorts) all = .ok rows) :
    exists once, Step.run clock plan.steps some = .ok once ∧
      WithoutDuplicates marks (rows.map fun r => plan.columns.map r.get)
        (once.map fun r => plan.columns.map r.get) := by
  rcases Step.run_eq_ok.mp hrun with ⟨out, hout, rfl⟩
  have hkeys : forall r, Step.keysOf clock told plan.steps (.ofRecord r) =
      plan.showsOf clock marks r >>= fun shown => .ok (shown.map Value.tupleText) := by
    intro r
    rw [Step.keysOf, showsOf, Step.run, List.map_cons, List.map_nil]
    cases plan.steps.foldlM (fun rows step => Step.apply clock step rows) [Row.ofRecord r] with
    | error e =>
        rfl
    | ok rows =>
        simp only [Outcome.ok_bind, Outcome.pure_eq, List.map_map]
        exact congrArg Except.ok (List.map_congr_left fun row _ => htold row)
  have hrows : forall row, row ∈ all.map Row.ofRecord -> exists row', row' ∈ some.map Row.ofRecord ∧
      Step.keysOf clock told (steps ++ .distinct told :: sorts) row =
        Step.keysOf clock told (steps ++ .distinct told :: sorts) row' := by
    intro row hrow
    rcases List.mem_map.mp hrow with ⟨r, hr, rfl⟩
    rcases halike r hr with ⟨r', hr', hsame⟩
    refine ⟨_, List.mem_map_of_mem hr', ?_⟩
    rw [<- hplan, hkeys, hkeys, hsame]
  rcases Step.foldlM_distinct hsteps hsorts (List.map_subset Row.ofRecord hsome) hout hrows with
    ⟨out', hout', hdistinct, hsubset, hcovers⟩
  have hsame : forall row row', Step.distinctKey told row = Step.distinctKey told row' <->
      SameRow marks (plan.columns.map row.record.get) (plan.columns.map row'.record.get) := by
    intro row row'
    rw [htold, htold, sameRow_shown]
  refine ⟨_, Step.run_eq_ok.mpr ⟨out', hplan ▸ hout', rfl⟩, ?_, ?_, ?_⟩
  · rw [List.map_map, List.pairwise_map]
    exact hdistinct.imp fun hne heq => hne ((hsame _ _).mpr heq)
  · rw [List.map_map, List.map_map]
    exact List.map_subset _ hsubset
  · intro row hrow
    rw [List.map_map] at hrow
    rcases List.mem_map.mp hrow with ⟨r, hr, rfl⟩
    rcases hcovers r hr with ⟨r', hr', hkey⟩
    have heq := (hsame r r').mp hkey.symm
    rw [List.map_map]
    exact ⟨_, List.mem_map_of_mem hr', heq, heq.fold_eq⟩

theorem onlySort_sortSteps (scopes : Scopes) (targets : List (SortTarget × Bool)) :
    Step.OnlySort (sortSteps scopes targets) := by
  intro step hstep
  rw [sortSteps] at hstep
  split at hstep
  · cases hstep
  · exact ⟨_, List.mem_singleton.mp hstep⟩

theorem allRecords_distinct {db : Fetch.Database} {q : Fetch.Query} (hq : q.Plain)
    {all : List Record} (hall : Fetch.allRecords db q = .ok all) :
    Fetch.allRecords db { q with distinct := true } = .ok (firstOfEach Fetch.distinctKey [] all) ∧
      exists joined : List Joined,
        all = joined.map (project q.root (placedAttributes "" q.root)) := by
  rw [Fetch.allRecords, Outcome.bind_eq_ok] at hall
  rcases hall with ⟨rows, hrows, hall⟩
  simp only [hq.aggregate, hq.distinct, Bool.false_eq_true, if_false] at hall
  cases hall
  refine ⟨?_, _, rfl⟩
  simp only [Fetch.allRecords, hrows, Outcome.ok_bind, hq.aggregate, Bool.false_eq_true, if_false,
    if_true]
  rfl

section

variable {targets : List (SortTarget × Bool)} {plain distinct : Plan}

theorem DistinctPlan.dropsLocally_eq (h : DistinctPlan listed targets plain distinct)
    (hlisted : Listed ctx items parts listed) : distinct.dropsLocally = !listed.steps.isEmpty := by
  have hrowwise : forall {steps : List Step}, (forall step, step ∈ steps -> step.isRowwise = true) ->
      steps.any Step.isDistinct = false := by
    intro steps hsteps
    rw [List.any_eq_false]
    intro step hstep hdistinct
    have hrow := hsteps step hstep
    cases step with
    | distinct columns =>
        cases hrow
    | _ =>
        cases hdistinct
  rw [dropsLocally, h.once]
  simp only [List.any_append, hrowwise hlisted.isRowwise,
    hrowwise (onlySort_sortSteps listed.ctx.scopes targets).isRowwise, Projection.distinctSteps,
    Bool.or_false, Bool.false_or]
  cases listed.steps.isEmpty <;> rfl

/-- Without local steps, the platform drops the duplicates among the rows that are shown. -/
theorem distinctKey_iff_sameRow {q : Fetch.Query} (hq : q.Plain)
    (hone : forall p, p ∈ placedAttributes "" q.root -> forall p', p' ∈ placedAttributes "" q.root ->
      p.output = p'.output -> p.key = p'.key)
    (hshown : forall p, p ∈ placedAttributes "" q.root -> exists p',
      p' ∈ placedAttributes "" q.root ∧ p'.key = p.key ∧ p'.output ∈ columns)
    (row row' : Joined) :
    Fetch.distinctKey (project q.root (placedAttributes "" q.root) row) =
        Fetch.distinctKey (project q.root (placedAttributes "" q.root) row') <->
      SameRow (columns.map fun _ => false)
        (columns.map (project q.root (placedAttributes "" q.root) row).get)
        (columns.map (project q.root (placedAttributes "" q.root) row').get) := by
  rw [Fetch.distinctKey_project_iff hq.named hone hshown, SameRow, foldRow, foldRow,
    List.zipWith_map, List.zipWith_map, List.zipWith_self, List.zipWith_self,
    List.forall₂_map_left_iff, List.forall₂_map_right_iff, List.forall₂_same]
  rfl

theorem DistinctPlan.marks_eq (h : DistinctPlan listed targets plain distinct)
    (hlisted : Listed ctx items parts listed)
    (hshown : forall entry, entry ∈ distinct.computed -> distinct.columns.count entry.2 = 1) :
    listed.columns.map (fun name => listed.caseSensitive.contains name) =
      items.map fun item => item.expr.isCaseSensitive := by
  refine hlisted.marks_eq fun entry hentry => ?_
  rw [computed, h.once] at hshown
  refine hshown entry ?_
  rw [List.filterMap_append, List.filterMap_append, hlisted.computed]
  exact List.mem_append_left _ (List.mem_append_left _ hentry)

section

variable {db : Fetch.Database} {all rows : List Record}

/-- The platform drops duplicates and there is nothing left to do, but to sort. -/
theorem DistinctPlan.exists_once_natively (h : DistinctPlan listed targets plain distinct)
    (hlisted : Listed ctx items parts listed) (hq : plain.fetch.Plain)
    (hnone : listed.steps = []) (hall : Fetch.allRecords db plain.fetch = .ok all)
    (hsafe : distinct.DropsDuplicates clock (items.map fun item => item.expr.isCaseSensitive) all)
    (hrun : Step.run clock plain.steps all = .ok rows) :
    exists some once, Fetch.allRecords db distinct.fetch = .ok some ∧ some.length ≤ all.length ∧
      Step.run clock distinct.steps some = .ok once ∧
      WithoutDuplicates (items.map fun item => item.expr.isCaseSensitive)
        (rows.map fun r => distinct.columns.map r.get)
        (once.map fun r => distinct.columns.map r.get) := by
  rcases allRecords_distinct hq hall with ⟨hfirst, joined, hjoined⟩
  have hcase : listed.caseSensitive = [] := by
    rw [Projection.caseSensitive, hnone]
    rfl
  have hfetch : distinct.fetch = { plain.fetch with distinct := true } := by
    rw [h.once, hcase]
    rfl
  have hsteps : distinct.steps = sortSteps listed.ctx.scopes targets := by
    rw [h.once, Projection.distinctSteps, hnone]
    rfl
  have hmarks : (items.map fun item => item.expr.isCaseSensitive) =
      distinct.columns.map fun _ => false := by
    rw [<- h.marks_eq hlisted hsafe.shown, hcase, h.once]
    rfl
  have hcovered := hsafe.covered (by rw [h.dropsLocally_eq hlisted, hnone]; rfl)
  have hone := hsafe.retrieved
  rw [hfetch] at hcovered hone
  have hkey : forall r, r ∈ all -> forall r', r' ∈ all ->
      (Fetch.distinctKey r = Fetch.distinctKey r' <->
        SameRow (items.map fun item => item.expr.isCaseSensitive) (distinct.columns.map r.get)
          (distinct.columns.map r'.get)) := by
    intro r hr r' hr'
    rw [hjoined] at hr hr'
    rcases List.mem_map.mp hr with ⟨row, _, rfl⟩
    rcases List.mem_map.mp hr' with ⟨row', _, rfl⟩
    rw [hmarks]
    exact distinctKey_iff_sameRow hq hone hcovered row row'
  rw [h.all, hnone, List.nil_append] at hrun
  rcases run_sorts_firstOfEach (onlySort_sortSteps _ _) hkey hrun with ⟨once, honce, hwithout⟩
  refine ⟨_, once, hfetch ▸ hfirst, (firstOfEach_sublist _ _ _).length_le, ?_, hwithout⟩
  rw [hsteps, honce]

/-- A local step drops duplicates, and so may the platform before it. -/
theorem DistinctPlan.exists_once_locally (h : DistinctPlan listed targets plain distinct)
    (hlisted : Listed ctx items parts listed) (hq : plain.fetch.Plain)
    (hsome : listed.steps.isEmpty = false) (hall : Fetch.allRecords db plain.fetch = .ok all)
    (hsafe : distinct.DropsDuplicates clock (items.map fun item => item.expr.isCaseSensitive) all)
    (hrun : Step.run clock plain.steps all = .ok rows) :
    exists some once, Fetch.allRecords db distinct.fetch = .ok some ∧ some.length ≤ all.length ∧
      Step.run clock distinct.steps some = .ok once ∧
      WithoutDuplicates (items.map fun item => item.expr.isCaseSensitive)
        (rows.map fun r => distinct.columns.map r.get)
        (once.map fun r => distinct.columns.map r.get) := by
  have hsorts := onlySort_sortSteps listed.ctx.scopes targets
  have hmarks := h.marks_eq hlisted hsafe.shown
  have hsteps : distinct.steps = listed.steps ++
      .distinct (DistinctColumn.ofNames listed.columns listed.caseSensitive) ::
        sortSteps listed.ctx.scopes targets := by
    rw [h.once, Projection.distinctSteps, hsome, List.append_assoc]
    rfl
  have htold : forall row, Step.distinctKey
      (DistinctColumn.ofNames listed.columns listed.caseSensitive) row =
      Value.tupleText (foldRow (items.map fun item => item.expr.isCaseSensitive)
        (distinct.columns.map row.record.get)) := by
    rw [h.once]
    exact distinctKey_ofNames hmarks
  rw [h.all] at hrun
  cases hflag : distinct.fetch.distinct with
  | true =>
      have hfetch : distinct.fetch = { plain.fetch with distinct := true } := by
        rw [h.once] at hflag ⊢
        rw [show listed.caseSensitive.isEmpty = true from hflag]
      have hkept := firstOfEach_sublist Fetch.distinctKey [] all
      have halike : forall r, r ∈ all -> exists r', r' ∈ firstOfEach Fetch.distinctKey [] all ∧
          distinct.showsOf clock (items.map fun item => item.expr.isCaseSensitive) r =
            distinct.showsOf clock (items.map fun item => item.expr.isCaseSensitive) r' := by
        intro r hr
        rcases @exists_mem_firstOfEach _ Fetch.distinctKey _ _ hr with ⟨r', hr', hsame⟩
        refine ⟨r', hr', hsafe.alike ?_ hflag r hr r' (hkept.subset hr') hsame.symm⟩
        rw [h.dropsLocally_eq hlisted, hsome]
        rfl
      rcases run_distinct hsteps htold hlisted.isRowwise hsorts hkept.subset halike hrun with
        ⟨once, honce, hwithout⟩
      exact ⟨_, once, hfetch ▸ (allRecords_distinct hq hall).1, hkept.length_le, honce, hwithout⟩
  | false =>
      have hfetch : distinct.fetch = plain.fetch := by
        rw [h.once] at hflag ⊢
        rw [show listed.caseSensitive.isEmpty = false from hflag, <- hq.distinct]
      rcases run_distinct hsteps htold hlisted.isRowwise hsorts (List.Subset.refl all)
        (fun r hr => ⟨r, hr, rfl⟩) hrun with ⟨once, honce, hwithout⟩
      exact ⟨all, once, hfetch ▸ hall, Nat.le_refl _, honce, hwithout⟩

/-- What the two plans of one query show. -/
theorem DistinctPlan.exists_once (h : DistinctPlan listed targets plain distinct)
    (hlisted : Listed ctx items parts listed) (hq : plain.fetch.Plain)
    (hall : Fetch.allRecords db plain.fetch = .ok all)
    (hsafe : distinct.DropsDuplicates clock (items.map fun item => item.expr.isCaseSensitive) all)
    (hrun : Step.run clock plain.steps all = .ok rows) :
    exists some once, Fetch.allRecords db distinct.fetch = .ok some ∧ some.length ≤ all.length ∧
      Step.run clock distinct.steps some = .ok once ∧
      WithoutDuplicates (items.map fun item => item.expr.isCaseSensitive)
        (rows.map fun r => plain.columns.map r.get)
        (once.map fun r => distinct.columns.map r.get) := by
  have hcolumns : plain.columns = distinct.columns := by
    rw [h.once, h.all]
  rw [hcolumns]
  cases hempty : listed.steps.isEmpty with
  | true =>
      exact h.exists_once_natively hlisted hq (List.isEmpty_iff.mp hempty) hall hsafe hrun
  | false =>
      exact h.exists_once_locally hlisted hq hempty hall hsafe hrun

end

end

/-!
# Queries
-/

/-- A query of rows without wildcards and limits. -/
structure RowSelect (select : Select) : Prop where
  items : forall item, item ∈ select.items -> item.expr.isStar = false
  aggregates : isAggregateQuery select = false
  top : select.top = none
  offset : select.offset = none

/--
If the query of all rows is executed without an error, so is the query of distinct rows, and it shows
the rows of the former without duplicates.
-/
theorem distinct_rows {σ τ : Type} {host : Host σ} {store : σ -> Store}
    (hserves : Run.Serves host store) {lookup : Lookup τ} {options : Options} {v v' : τ} {w : σ}
    {select : Select} {plan : Plan} {alternative : Option Plan} {all : List Record}
    (hselect : RowSelect select) (hdistinct : select.distinct = true)
    (hplan : (planStatement lookup options host.clock (.select select)).run v =
      .ok (.select plan alternative) v')
    (hall : Fetch.allRecords ((store w).database host.clock) { plan.fetch with distinct := false } =
      .ok all) (hfit : all.length ≤ Run.maxPages * max (store w).pageSize 1)
    (hsafe : plan.DropsDuplicates host.clock
      (select.items.map fun item => item.expr.isCaseSensitive) all) (sql : String) :
    exists plain, (planStatement lookup options host.clock
        (.select { select with distinct := false })).run v = .ok (.select plain alternative) v' ∧
      forall q₀ w₀, (Query.ofTask sql (.select plain alternative)).execute host w =
          ((q₀, none), w₀) ->
        exists q w' rows₀ rows, (Query.ofTask sql (.select plan alternative)).execute host w =
            ((q, none), w') ∧ q₀.resultSet? = some rows₀ ∧ q.resultSet? = some rows ∧
          WithoutDuplicates (select.items.map fun item => item.expr.isCaseSensitive) rows₀.rows
            rows.rows := by
  rcases planStatement_select_iff.mp hplan with ⟨source, ctx, hsource, hvirtual, hctx, htask⟩
  rcases selectTask_of_rows hselect.aggregates htask with ⟨ctx', residual, plan', hwhere, hplan', heq⟩
  cases heq
  rcases selectPlan_distinct hdistinct hselect.top hselect.offset hplan' with
    ⟨listed, targets, plain, hitems, hplain, hboth⟩
  rcases ofItems_listed hselect.items hitems with ⟨parts, hlisted, haddTo⟩
  have hquery : plain.fetch.Plain := by
    rw [hboth.all]
    refine plain_orderedBy ?_ targets
    rw [haddTo]
    exact plain_foldl (fun _ part h => plain_addTo h part)
      (plain_ensureAll (plain_applyWhere (plain_contextOf hctx) hwhere) _) parts
  have htask' : selectTask ctx host.clock { select with distinct := false } =
      .ok (.select plain none) := by
    exact selectTask_eq_ok.mpr
      ⟨ctx', residual, hwhere, Or.inl ⟨hselect.aggregates, plain, hplain, rfl⟩⟩
  refine ⟨plain, planStatement_select_iff.mpr ⟨source, ctx, hsource, hvirtual, hctx, htask'⟩, ?_⟩
  intro q₀ w₀ hexecute
  have hsame : { plan.fetch with distinct := false } = plain.fetch := by
    rw [hboth.once, <- hquery.distinct]
  rw [hsame] at hall
  rcases Query.resultSet_of_execute hexecute with ⟨rows₀, hrows₀, hset₀⟩
  rcases Run.runPlan_eq_ok hrows₀ with ⟨found, hfound, hrun⟩
  rcases Run.retrieveAll_all hserves hquery.top hquery.page hquery.count hall hfit with
    ⟨w₁, hretrieve, _⟩
  cases hretrieve.symm.trans hfound
  rcases hboth.exists_once hlisted hquery hall hsafe hrun with
    ⟨some, once, hsome, hfewer, honce, hwithout⟩
  have hunpaged : plan.fetch.top = none ∧ plan.fetch.page = none ∧ plan.fetch.count = none := by
    rw [hboth.once]
    exact ⟨hquery.top, hquery.page, hquery.count⟩
  rcases Run.retrieveAll_all hserves hunpaged.1 hunpaged.2.1 hunpaged.2.2 hsome
    (Nat.le_trans hfewer hfit) with ⟨w', hretrieve', _⟩
  have hselected : Run.runSelect host plan none w = .ok once w' :=
    TextQuery.runPlan_of_retrieve hretrieve' honce
  exact ⟨_, w', _, _, Query.execute_of_runSelect hselected sql, hset₀, rfl, hwithout⟩

/-!
# Letters by their authors

Two authors that differ in case are one to the platform, and neither the condition nor the shown text
tells them apart.
-/

/-- `author + '!'` -/
def calledAuthor : Scalar :=
  .binary (.column (.ofName "author")) .add (.literal (.str "!"))

/-- `SELECT DISTINCT author + '!' AS called FROM letter WHERE author + '!' <> 'Emmy!'` -/
def calledSelect : Select :=
  { TextQuery.letterSelect with
    distinct := true
    items := [⟨calledAuthor, some "called"⟩]
    criteria := some (.compare calledAuthor .ne (.literal (.str "Emmy!")))
    orderBy := []
    offset := none }

def calledPlan (distinct : Bool) : Plan where
  fetch := { (TextQuery.frameOf TextQuery.letter ⟨"letter", none, false⟩).query [.ofName "author"] []
    with distinct }
  steps := [.filter (.compare calledAuthor .ne (.literal (.str "Emmy!"))),
    .compute calledAuthor "called"] ++ if distinct then [.distinct [⟨"called", false⟩]] else []
  columns := ["called"]

/-- The authors, as they are retrieved. -/
def calledRecords : List Record :=
  (TextQuery.letters.filter fun _ => true).map
    (TextQuery.retrieved TextQuery.letter [.ofName "author"])

theorem calledSelect_rows : RowSelect calledSelect := by
  refine ⟨?_, rfl, rfl, rfl⟩
  decide

theorem calledPlan_dropsDuplicates :
    (calledPlan true).DropsDuplicates TextQuery.letterClock [false] calledRecords where
  retrieved := by
    decide
  shown := by
    decide
  covered := by
    intro h
    cases h
  alike := by
    intro _ _ r hr r' hr' hkey
    have hshows : forall r, r ∈ calledRecords ->
        (calledPlan true).showsOf TextQuery.letterClock [false] r =
          if Fetch.distinctKey r = "[\"ada\"]" then .ok [[.str "ada!"]] else .ok [] := by
      intro r hr
      simp only [calledRecords, TextQuery.letters, List.filter_true, List.map_cons, List.map_nil,
        List.mem_cons, List.not_mem_nil, or_false] at hr
      rcases hr with rfl | rfl | rfl | rfl <;> rfl
    rw [hshows r hr, hshows r' hr', hkey]

theorem letter_distinct_rows :
    exists session plan plain q₀ w₀ q w' rows₀ rows,
      (planStatement TextQuery.letterHost.lookup .standard TextQuery.letterHost.clock
        (.select calledSelect)).run (Session.ofHost TextQuery.letterStore) =
        .ok (.select plan none) session ∧
      (planStatement TextQuery.letterHost.lookup .standard TextQuery.letterHost.clock
        (.select { calledSelect with distinct := false })).run
          (Session.ofHost TextQuery.letterStore) = .ok (.select plain none) session ∧
      plan.DropsDuplicates TextQuery.letterClock [false] calledRecords ∧
      (Query.ofTask "" (.select plain none)).execute TextQuery.letterHost session =
        ((q₀, none), w₀) ∧ q₀.resultSet? = some rows₀ ∧
      rows₀.rows = [[.str "Ada!"], [.str "ada!"], [.str "ada!"]] ∧
      (Query.ofTask "" (.select plan none)).execute TextQuery.letterHost session =
        ((q, none), w') ∧ q.resultSet? = some rows ∧
      WithoutDuplicates [false] rows₀.rows rows.rows := by
  have hplan : exists session, (planStatement TextQuery.letterHost.lookup .standard
      TextQuery.letterHost.clock (.select calledSelect)).run (Session.ofHost TextQuery.letterStore) =
        .ok (.select (calledPlan true) none) session ∧ session.host = TextQuery.letterStore :=
    ⟨_, rfl, rfl⟩
  rcases hplan with ⟨session, hplan, hhost⟩
  have hserves := TextQuery.serves_hostOf TextQuery.letterClock .standard
  have htable : session.host.tables.get? TextQuery.letter.name = some TextQuery.letters := by
    rw [hhost]
    rfl
  have hfit : calledRecords.length ≤ Run.maxPages * max session.host.pageSize 1 := by
    rw [hhost]
    decide
  have hall := @allRecords_unordered (TextQuery.frameOf TextQuery.letter ⟨"letter", none, false⟩)
    [.ofName "author"] (session.host.database TextQuery.letterClock) TextQuery.letters
    (fun _ => true) htable (fun _ _ => rfl)
  rcases distinct_rows hserves calledSelect_rows rfl hplan hall hfit calledPlan_dropsDuplicates ""
    with ⟨plain, hplain, hdistinct⟩
  have hsame : plain = calledPlan false := by
    have hplain' : exists session', (planStatement TextQuery.letterHost.lookup .standard
        TextQuery.letterHost.clock (.select { calledSelect with distinct := false })).run
          (Session.ofHost TextQuery.letterStore) = .ok (.select (calledPlan false) none) session' :=
      ⟨_, rfl⟩
    rcases hplain' with ⟨session', hplain'⟩
    cases hplain.symm.trans hplain'
    rfl
  rcases Run.retrieveAll_all hserves rfl rfl rfl hall hfit with ⟨w₀, hretrieve, _⟩
  have hrun : exists rows, Step.run TextQuery.letterClock plain.steps calledRecords = .ok rows ∧
      rows.map (fun r => plain.columns.map r.get) =
        [[.str "Ada!"], [.str "ada!"], [.str "ada!"]] := by
    rw [hsame]
    exact ⟨_, rfl, rfl⟩
  rcases hrun with ⟨rows, hrun, hrows⟩
  have hselected : Run.runSelect TextQuery.letterHost plain none session = .ok rows w₀ := by
    refine TextQuery.runPlan_of_retrieve ?_ hrun
    rw [hsame]
    exact hretrieve
  have hexecute := Query.execute_of_runSelect hselected ""
  rcases hdistinct _ w₀ hexecute with ⟨q, w', rows₀, once, hexecute', hset₀, hset, hwithout⟩
  cases hset₀
  exact ⟨session, _, plain, _, w₀, q, w', _, once, hplan, hplain, calledPlan_dropsDuplicates, hexecute,
    rfl, hrows, hexecute', hset, hwithout⟩

end Plan

end RecordSql
