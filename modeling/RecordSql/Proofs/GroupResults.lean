import RecordSql.Proofs.DistinctPlans
import RecordSql.Proofs.Execution
import RecordSql.Proofs.GroupRows
import RecordSql.Proofs.RowSteps
import RecordSql.Proofs.TextQuery.Answer
import RecordSql.Proofs.WhereSplit

/-!
# Results of aggregate queries

After grouping, conditions, sorting, distinct rows and limits leave some of the groups, in some
order, and computed columns are added to them.  So every row that an aggregate query shows belongs
to a group of the rows that its condition keeps, and its columns are the values of the select items
on that group.
-/

namespace RecordSql

/-!
# Steps that keep some of the rows
-/

namespace Step

open Plan (isTrueOn)
open Sql (Predicate)

variable {clock : Clock} {rows out : List Row}

/-- The step leaves rows out or moves them, and does nothing else. -/
def picks : Step -> Bool
  | filter _ => true
  | having _ => true
  | sort _ => true
  | limit _ _ => true
  | distinct _ => true
  | _ => false

theorem filterRows_eq_ok {p : Predicate} (h : filterRows clock p rows = .ok out) :
    out = rows.filter fun row => isTrueOn clock row.get p := by
  induction rows generalizing out with
  | nil =>
      cases h
      rfl
  | cons row rest ih =>
      simp only [filterRows, Outcome.bind_eq_ok] at h
      rcases h with ⟨t, ht, kept, hkept, h⟩
      cases h
      rw [List.filter_cons, Plan.isTrueOn_of_ok ht, ih hkept]

theorem limitRows_sublist (skip : Nat) (take : Option Nat) (rows : List Row) :
    (limitRows skip take rows).Sublist rows := by
  unfold limitRows
  split
  · exact (List.take_sublist _ _).trans (List.drop_sublist _ _)
  · exact List.drop_sublist _ _

theorem apply_subperm {step : Step} (hstep : step.picks = true)
    (h : step.apply clock rows = .ok out) : out.Subperm rows := by
  cases step with
  | filter p =>
      rw [filterRows_eq_ok h]
      exact List.filter_sublist.subperm
  | having p =>
      rw [filterRows_eq_ok h]
      exact List.filter_sublist.subperm
  | sort keys =>
      exact (sortRows_perm h).subperm
  | limit skip take =>
      cases h
      exact (limitRows_sublist skip take rows).subperm
  | distinct columns =>
      cases h
      exact (firstOfEach_sublist _ _ _).subperm
  | _ =>
      cases hstep

theorem foldlM_subperm {steps : List Step} (hsteps : forall step, step ∈ steps -> step.picks = true)
    (h : steps.foldlM (fun rows step => step.apply clock rows) rows = .ok out) :
    out.Subperm rows := by
  induction steps generalizing rows with
  | nil =>
      cases h
      exact List.Subperm.refl _
  | cons step rest ih =>
      rw [List.foldlM_cons, Outcome.bind_eq_ok] at h
      rcases h with ⟨next, hnext, h⟩
      exact (ih (fun s hs => hsteps s (List.mem_cons_of_mem _ hs)) h).trans
        (apply_subperm (hsteps step List.mem_cons_self) hnext)

end Step

namespace Plan

open Fetch (Joined Scope)
open Grouping (shownClasses)
open Sql (Predicate Scalar Select)

/-!
# Limits
-/

/-- What limits add to a native query, and the steps that they add after all others. -/
structure Limited (rowsChange : Bool) (fetch fetch' : Fetch.Query) (limits : List Step) :
    Prop where
  picks : forall step, step ∈ limits -> step.picks = true
  root : fetch'.root = fetch.root
  records : forall db, Fetch.allRecords db fetch' = Fetch.allRecords db fetch
  unchanged : rowsChange = true -> fetch' = fetch
  paged : (fetch.page = none -> fetch.count = none) -> fetch'.page = none -> fetch'.count = none

theorem limited_refl (rowsChange : Bool) (fetch : Fetch.Query) :
    Limited rowsChange fetch fetch [] :=
  ⟨fun _ hstep => (List.not_mem_nil hstep).elim, rfl, fun _ => rfl, fun _ => rfl, id⟩

theorem limited_step (rowsChange : Bool) (fetch : Fetch.Query) (skip : Nat) (take : Option Nat) :
    Limited rowsChange fetch fetch [.limit skip take] := by
  refine ⟨fun step hstep => ?_, rfl, fun _ => rfl, fun _ => rfl, id⟩
  rw [List.mem_singleton.mp hstep]
  rfl

theorem Limited.trans {rowsChange : Bool} {fetch fetch' fetch'' : Fetch.Query}
    {limits limits' : List Step} (h : Limited rowsChange fetch fetch' limits)
    (h' : Limited rowsChange fetch' fetch'' limits') :
    Limited rowsChange fetch fetch'' (limits ++ limits') where
  picks := fun step hstep => (List.mem_append.mp hstep).elim (h.picks step) (h'.picks step)
  root := h'.root.trans h.root
  records := fun db => (h'.records db).trans (h.records db)
  unchanged := fun hchange => (h'.unchanged hchange).trans (h.unchanged hchange)
  paged := fun hpaged => h'.paged (h.paged hpaged)

theorem applyTop_limited {rowsChange : Bool} {fetch fetch' : Fetch.Query} {steps steps' : List Step}
    {top : Option Int} (h : applyTop rowsChange fetch steps top = .ok (fetch', steps')) :
    exists limits, steps' = steps ++ limits ∧ Limited rowsChange fetch fetch' limits := by
  cases top with
  | none =>
      cases h
      exact ⟨[], (List.append_nil _).symm, limited_refl _ _⟩
  | some top =>
      rcases applyTop_cases h with ⟨rfl, rfl, rfl⟩ | ⟨rfl, rfl⟩
      · exact ⟨[], (List.append_nil _).symm, fun _ hstep => (List.not_mem_nil hstep).elim, rfl,
          fun _ => rfl, (fun hchange => by cases hchange), id⟩
      · exact ⟨_, rfl, limited_step _ _ _ _⟩

theorem applyOffset_limited {rowsChange : Bool} {fetch fetch' : Fetch.Query}
    {steps steps' : List Step} {offset : Option Sql.Offset}
    (h : applyOffset rowsChange fetch steps offset = .ok (fetch', steps')) :
    exists limits, steps' = steps ++ limits ∧ Limited rowsChange fetch fetch' limits := by
  cases offset with
  | none =>
      cases h
      exact ⟨[], (List.append_nil _).symm, limited_refl _ _⟩
  | some offset =>
      rcases applyOffset_cases h with ⟨number, size, hpage, rfl, rfl⟩ | ⟨_, rfl, rfl⟩
      · rcases (isPage_of_page? hpage).1 with rfl
        exact ⟨[], (List.append_nil _).symm, fun _ hstep => (List.not_mem_nil hstep).elim, rfl,
          fun _ => rfl, (fun hchange => by cases hchange), fun _ hnone => by cases hnone⟩
      · exact ⟨_, rfl, limited_step _ _ _ _⟩

theorem applyLimits_limited {fetch fetch' : Fetch.Query} {steps steps' : List Step}
    {top : Option Int} {offset : Option Sql.Offset}
    (h : applyLimits fetch steps top offset = .ok (fetch', steps')) :
    exists limits, steps' = steps ++ limits ∧
      Limited (steps.any Step.changesRows) fetch fetch' limits := by
  rw [applyLimits, Outcome.bind_eq_ok] at h
  rcases h with ⟨⟨fetch₁, steps₁⟩, htop, hoffset⟩
  rcases applyTop_limited htop with ⟨limits, rfl, hlimits⟩
  rcases applyOffset_limited hoffset with ⟨limits', rfl, hlimits'⟩
  exact ⟨limits ++ limits', List.append_assoc _ _ _, hlimits.trans hlimits'⟩

/-!
# Conditions that are left to local steps
-/

/-- What is left of a condition reads columns that are retrieved for it. -/
theorem reads_residual {ctx ctx' : Context} {clock : Clock} {criteria : Option Predicate}
    {residual : Residual} (h : ctx.applyWhere clock criteria = .ok (ctx', residual))
    {q : Predicate} (hq : residual.predicate = some q) {c : Sql.Column}
    (hc : c ∈ readsOfPredicate q) : exists b, b ∈ residual.used ∧ c = ctx.scopes.qualified b := by
  cases criteria with
  | none =>
      cases h
      cases hq
  | some p =>
      rcases Context.applyWhere_some h with ⟨split, hsplit, rfl, rfl⟩
      rcases mem_reads_andAll hq hc with ⟨q', hq', hc⟩
      rcases Outcome.exists_of_forall₂ (splitAll_qualified hsplit) hq' with ⟨p', hp', hqualified⟩
      rcases Context.readsOfPredicate_qualify p' hqualified c hc with ⟨c', hc', b, hb, rfl⟩
      exact ⟨b, mem_foldl_use.mpr (Or.inr ⟨p', hp', mem_use.mpr (Or.inr ⟨c', hc', hb⟩)⟩), rfl⟩

theorem keptBy_none (clock : Clock) (rows : List Joined) : keptBy clock none rows = rows :=
  List.filter_eq_self.mpr fun _ _ => rfl

/-- A filter keeps the rows on which its condition is true, if they show what it reads. -/
theorem filterRows_shown {clock : Clock} {q : Predicate} {shown : Joined -> Row}
    {rows : List Joined} {out : List Row}
    (hshown : forall row, Eval.SameOn (shown row).get row.get (readsOfPredicate q))
    (h : Step.filterRows clock q (rows.map shown) = .ok out) :
    out = (keptBy clock (some q) rows).map shown := by
  rw [Step.filterRows_eq_ok h, List.filter_map, keptBy]
  refine congrArg (List.map shown) (List.filter_congr fun row _ => ?_)
  rw [Function.comp_apply, Option.all_some, isTrueOn, isTrueOn,
    Eval.predicate_congr q (hshown row)]

namespace GroupPlan

variable {p : GroupPlan} {ctx : Context} {select : Select} {clock : Clock}

/-!
# After grouping
-/

/-- A row shows a group: its computed columns are added to what it holds of the group. -/
def Presents (p : GroupPlan) (clock : Clock) (group : List Joined) (row : Row) : Prop :=
  exists held, p.Holds clock group held ∧ Step.Computed clock p.computed held row

/-- The steps after grouping leave some of the groups and compute their columns. -/
theorem IsOf.presents_steps (hp : p.IsOf ctx select) (hseparate : Step.Separate p.computed)
    {later : List Step} (hlater : forall step, step ∈ later -> step.picks = true)
    {groups : List (List Joined)} {rows out : List Row}
    (hrows : List.Forall₂ (p.Holds clock) groups rows)
    (h : (p.steps ++ later).foldlM (fun rows step => step.apply clock rows) rows = .ok out) :
    exists left, left.Subperm groups ∧ List.Forall₂ (p.Presents clock) left out := by
  rw [hp.shownAs.1, List.append_assoc, List.foldlM_append, Outcome.bind_eq_ok] at h
  rcases h with ⟨kept, hkept, h⟩
  rw [List.foldlM_append, Outcome.bind_eq_ok] at h
  rcases h with ⟨computed, hcomputed, h⟩
  have hhaving : forall step, step ∈ (p.grouped.having.map Step.having).toList ->
      step.picks = true := by
    intro step hstep
    cases hcondition : p.grouped.having with
    | none =>
        rw [hcondition] at hstep
        cases hstep
    | some q =>
        rw [hcondition] at hstep
        rw [List.mem_singleton.mp hstep]
        rfl
  rcases exists_subperm_of_forall₂ hrows (Step.foldlM_subperm hhaving hkept) with
    ⟨some, hsome, hholds⟩
  have hpresents : List.Forall₂ (p.Presents clock) some computed :=
    forall₂_of_common (Step.forall₂_computed hseparate hcomputed) hholds.flip
      fun held _ _ _ hrow hheld => ⟨held, hheld, hrow⟩
  rcases exists_subperm_of_forall₂ hpresents (Step.foldlM_subperm hlater h) with
    ⟨left, hleft, hout⟩
  exact ⟨left, hleft.trans hsome, hout⟩

/-- The groups are classes of the given rows, in some order, by the values of the keys. -/
def GroupsOf (p : GroupPlan) (clock : Clock) (rows : List Joined) (groups : List (List Joined)) :
    Prop :=
  exists ordered exact, ordered.Perm rows ∧ Compares p.ctx p.keys exact ∧
    groups.Subperm (shownClasses p.keys.isEmpty (keyText clock p.keys exact) ordered)

/-- The records show groups of the joined rows that a condition keeps. -/
def PresentsKept (p : GroupPlan) (clock : Clock) (db : Fetch.Database)
    (condition : Option Predicate) (records : List Record) : Prop :=
  exists joined groups rows, Fetch.scopeRows db "" p.ctx.fetch.root = .ok joined ∧
    p.GroupsOf clock (keptBy clock condition joined) groups ∧
    List.Forall₂ (p.Presents clock) groups rows ∧ records = rows.map (·.record)

/-!
# The local plan
-/

theorem localPlan_limited {residual : Residual} {plan : Plan}
    (h : p.localPlan residual = .ok plan) :
    exists later, (forall step, step ∈ later -> step.picks = true) ∧
      plan = ⟨(p.localContext residual.used).fetch,
        (residual.predicate.map Step.filter).toList ++ (p.foldedColumns.map Step.foldCase ++
          ([p.aggregateStep] ++ (p.steps ++ later))), p.columns⟩ := by
  rw [localPlan, Outcome.bind_eq_ok] at h
  rcases h with ⟨⟨fetch, steps⟩, hlimits, h⟩
  rcases applyLimits_limited hlimits with ⟨limits, rfl, hlimited⟩
  have hfetch := hlimited.unchanged (by simp [Step.changesRows])
  subst hfetch
  cases h
  refine ⟨p.localSorts ++ distinctStep p.select p.columns
    (caseSensitiveOutputs p.groups p.steps) ++ limits, ?_, ?_⟩
  · intro step hstep
    rw [List.mem_append, List.mem_append, localSorts, distinctStep] at hstep
    rcases hstep with (hstep | hstep) | hstep
    · split at hstep
      · cases hstep
      · rw [List.mem_singleton.mp hstep]
        rfl
    · split at hstep
      · rw [List.mem_singleton.mp hstep]
        rfl
      · cases hstep
    · exact hlimited.picks step hstep
  · rw [foldedColumns, List.map_map]
    simp only [List.append_assoc]
    rfl

/-- The contexts of both plans ask for attributes by their names. -/
theorem plain_localContext (h : p.ctx.fetch.Plain) (whereUsed : List Bound) :
    (p.localContext whereUsed).fetch.Plain :=
  plain_foldl (fun _ _ h => h.update (Scope.named_addOrder _) _) (plain_ensureAll h _) p.keyColumns

theorem plain_nativeContext (h : p.ctx.fetch.Plain) (orders : List (Nat × Fetch.Order)) :
    (p.nativeContext orders).fetch.Plain :=
  plain_foldl (fun _ _ h => h.update (Scope.named_addOrder _) _)
    (plain_foldl (fun _ _ h => h.update (Scope.named_addAttribute _) _) h p.nativeAttributes) orders

/-- What is left of a condition reads columns that the local plan retrieves. -/
def Needs (p : GroupPlan) (residual : Residual) : Prop :=
  forall q, residual.predicate = some q -> forall c, c ∈ readsOfPredicate q ->
    exists b, b ∈ residual.used ∧ c = p.ctx.scopes.qualified b

/-- The local filter keeps the rows on which the rest of the condition is true. -/
theorem InScope.foldlM_filter {residual : Residual} (h : p.InScope residual.used)
    (hneeds : p.Needs residual) {rows : List Joined} {out : List Row}
    (hrun : (residual.predicate.map Step.filter).toList.foldlM
      (fun rows step => step.apply clock rows)
      ((rows.map (Fetch.project (p.localContext residual.used).fetch.root
        (Fetch.placedAttributes "" (p.localContext residual.used).fetch.root))).map .ofRecord) =
          .ok out) :
    out = ((keptBy clock residual.predicate rows).map
      (Fetch.project (p.localContext residual.used).fetch.root
        (Fetch.placedAttributes "" (p.localContext residual.used).fetch.root))).map .ofRecord := by
  rw [List.map_map] at hrun ⊢
  cases hpredicate : residual.predicate with
  | none =>
      rw [hpredicate] at hrun
      cases hrun
      rw [keptBy_none]
  | some q =>
      rw [hpredicate] at hrun
      rcases Outcome.bind_eq_ok.mp hrun with ⟨kept, hfilter, hkept⟩
      cases hkept
      refine filterRows_shown (fun row c hc => ?_) hfilter
      rcases hneeds q hpredicate c hc with ⟨b, hb, rfl⟩
      -- Columns that are compared without regard to case hold the same values.
      have hread := h.get_shownRow (mem_needed.mpr (Or.inl hb)) row
      rw [Row.get, shownRow, Row.record_foldColumns] at hread
      exact hread

/-- The rows of the local plan present groups of the joined rows that the condition keeps. -/
theorem InScope.local_result {residual : Residual} (h : p.InScope residual.used)
    (hp : p.IsOf ctx select) (hapart : p.KeepsApart clock) (hneeds : p.Needs residual)
    (hplain : p.ctx.fetch.Plain) {plan : Plan} (hplan : p.localPlan residual = .ok plan)
    {db : Fetch.Database} {records rows : List Record}
    (hrecords : Fetch.allRecords db plan.fetch = .ok records)
    (hrun : Step.run clock plan.steps records = .ok rows) :
    p.PresentsKept clock db residual.predicate rows := by
  rcases localPlan_limited hplan with ⟨later, hlater, rfl⟩
  have hquery := plain_localContext hplain residual.used
  cases hjoined : Fetch.scopeRows db "" p.ctx.fetch.root with
  | error e =>
      rw [Fetch.allRecords, scopeRows_localContext, hjoined] at hrecords
      cases hrecords
  | ok joined =>
      rw [<- scopeRows_localContext db p residual.used] at hjoined
      rw [allRecords_plain hquery.aggregate hquery.distinct hjoined] at hrecords
      cases hrecords
      rw [Step.run, Outcome.bind_eq_ok] at hrun
      rcases hrun with ⟨out, hrun, hrows⟩
      cases hrows
      rw [List.foldlM_append, Outcome.bind_eq_ok] at hrun
      rcases hrun with ⟨kept, hkept, hrun⟩
      rw [h.foldlM_filter hneeds hkept, foldlM_localSteps, Outcome.bind_eq_ok] at hrun
      rcases hrun with ⟨grouped, hgrouped, hrun⟩
      rcases h.local_rows hp hapart.outputs hgrouped with ⟨cs, hcs, hholds⟩
      rcases hp.presents_steps hapart.separate hlater hholds hrun with ⟨groups, hgroups, hout⟩
      rw [scopeRows_localContext] at hjoined
      refine ⟨joined, groups, out, hjoined, ⟨_, p.comparesCase, ?_, hp.compares,
        hgroups.trans hcs.subperm⟩, hout, rfl⟩
      exact (Sorting.stable_perm _ joined).filter _

/-!
# The native plan
-/

theorem nativePlan_limited {plan : Plan} (h : p.nativePlan = .ok plan) :
    exists orders limits rowsChange,
      (forall x, x ∈ orders -> p.nativeOrders none p.grouped.orderBy = some orders) ∧
      p.steps.IsPrefix plan.steps ∧ plan.columns = p.columns ∧
      Limited rowsChange { (p.nativeContext orders).fetch with aggregate := true, distinct := false }
        plan.fetch limits := by
  cases horders : p.nativeOrders none p.grouped.orderBy with
  | none =>
      simp only [nativePlan, horders, Outcome.bind_eq_ok] at h
      rcases h with ⟨⟨fetch, steps⟩, hlimits, h⟩
      cases h
      rcases applyLimits_limited hlimits with ⟨limits, rfl, hlimited⟩
      refine ⟨[], limits, _, fun _ hx => (List.not_mem_nil hx).elim, ?_, rfl, hlimited⟩
      simp only [List.append_assoc]
      exact List.prefix_append _ _
  | some orders =>
      simp only [nativePlan, horders, Outcome.bind_eq_ok] at h
      rcases h with ⟨⟨fetch, steps⟩, hlimits, h⟩
      cases h
      rcases applyLimits_limited hlimits with ⟨limits, rfl, hlimited⟩
      refine ⟨orders, limits, _, fun _ _ => rfl, ?_, rfl, hlimited⟩
      simp only [List.append_assoc]
      exact List.prefix_append _ _

/-- The records of a query that aggregates, and does not refuse because of its size. -/
theorem exists_aggregateRows {db : Fetch.Database} {q : Fetch.Query} (haggregate : q.aggregate = true)
    {all : List Record} (h : Fetch.allRecords db q = .ok all) :
    exists joined records, Fetch.scopeRows db "" q.root = .ok joined ∧
      Fetch.aggregateRows q.root.table (Fetch.placedAttributes "" q.root) joined = .ok records ∧
      all.Perm records := by
  rw [Fetch.allRecords, Outcome.bind_eq_ok] at h
  rcases h with ⟨joined, hjoined, h⟩
  simp only [haggregate, if_true] at h
  split at h
  · cases h
  · rcases Outcome.bind_eq_ok.mp h with ⟨records, hrecords, h⟩
    cases h
    exact ⟨joined, records, hjoined, hrecords, Sorting.stable_perm _ _⟩

/-- The records of the native plan present groups of the joined rows. -/
theorem InScope.native_result {whereUsed : List Bound} (h : p.InScope whereUsed)
    (hp : p.IsOf ctx select) (hapart : p.KeepsApart clock) (hnative : p.isNative = true)
    {plan : Plan} (hplan : p.nativePlan = .ok plan) (hsteps : plan.steps = [])
    {db : Fetch.Database} {all records : List Record}
    (hall : Fetch.allRecords db plan.fetch = .ok all) (hrecords : records.Sublist all) :
    p.PresentsKept clock db none records := by
  have hspecified := hp.specified hnative hapart.outputs
  rcases nativePlan_limited hplan with
    ⟨orders, limits, rowsChange, horders, hprefix, _, hlimited⟩
  have hnone : p.computed = [] := by
    rw [hsteps, List.prefix_nil] at hprefix
    rw [computed, hprefix]
    rfl
  rw [hlimited.records] at hall
  rcases exists_aggregateRows rfl hall with ⟨joined, made, hjoined, hmade, hperm⟩
  rw [scopeRows_nativeContext] at hjoined
  have hplaced := placed_nativeContext h.ready
    (fun x hx => hspecified.nativeOrders_lt h.ready (horders x hx) x hx)
    (hspecified.nativeAttributes_lt h.ready)
  rw [hspecified.placed_eq h.ready.nonempty, Context.placed, <- Fetch.placedAttributes_eq] at hplaced
  rcases hspecified.native_rows hp h hplaced hmade with ⟨cs, hcs, hholds⟩
  rcases exists_subperm_of_forall₂ hholds (hrecords.subperm.trans hperm.subperm) with
    ⟨groups, hgroups, hholds⟩
  refine ⟨joined, groups, records.map Row.ofRecord, hjoined,
    ⟨joined, fun _ => false, ?_, ?_, hgroups.trans hcs.subperm⟩, ?_, ?_⟩
  · rw [keptBy_none]
  · intro key hkey
    rcases List.mem_map.mp hkey with ⟨g, hg, rfl⟩
    refine Or.inl ?_
    rw [(hspecified.column_eq hg).2.1]
    rfl
  · refine List.forall₂_map_right_iff.mpr (hholds.imp fun c r hc => ⟨_, hc, ?_⟩)
    rw [hnone]
    exact ⟨fun _ _ => rfl, fun _ hentry => (List.not_mem_nil hentry).elim⟩
  · rw [List.map_map]
    exact (List.map_id _).symm

end GroupPlan

end Plan

/-!
# Retrieved records
-/

namespace Run

variable {σ : Type} {host : Host σ} {store : σ -> Store} {q : Fetch.Query} {w w' : σ}

/-- The pages of a query can be numbered. -/
def Fits (clock : Clock) (s : Store) (q : Fetch.Query) : Prop :=
  forall all, Fetch.allRecords (s.database clock) q = .ok all ->
    all.length ≤ maxPages * max s.pageSize 1

theorem fits_of_length {clock : Clock} {s : Store} {q : Fetch.Query} {n : Nat}
    (h : (Fetch.allRecords (s.database clock) q).map List.length = .ok n)
    (hfit : n ≤ maxPages * max s.pageSize 1) : Fits clock s q := by
  intro all hall
  rw [hall] at h
  cases h
  exact hfit

theorem exists_allRecords (h : Answers host store) (hfit : Fits host.clock (store w) q)
    (hpaged : q.page = none -> q.count = none) {found : List Record}
    (hfound : retrieveAll host q w = .ok found w') :
    exists all, Fetch.allRecords ((store w).database host.clock) q = .ok all ∧
      found.Sublist all ∧ (q.top = none -> q.page = none -> found = all) := by
  cases hall : Fetch.allRecords ((store w).database host.clock) q with
  | error e =>
      rcases retrieveAll_error h hall with ⟨_, herror, _⟩
      cases herror.symm.trans hfound
  | ok all =>
      refine ⟨all, rfl, retrieveAll_sublist h.toServes hpaged hall (hfit all hall) hfound, ?_⟩
      intro htop hpage
      rcases retrieveAll_all h.toServes htop hpage (hpaged hpage) hall (hfit all hall) with
        ⟨_, hwhole, _⟩
      cases hwhole.symm.trans hfound
      rfl

/-- A query is only refused before anything is retrieved. -/
theorem store_of_refused (h : Answers host store) (hfit : Fits host.clock (store w) q)
    (hpaged : q.page = none -> q.count = none) {e : PlatformError}
    (herror : retrieveAll host q w = .error e w') : store w' = store w := by
  cases hall : Fetch.allRecords ((store w).database host.clock) q with
  | error e' =>
      rcases retrieveAll_error h hall with ⟨_, hrefused, hstore⟩
      cases hrefused.symm.trans herror
      exact hstore
  | ok all =>
      cases hsingle : isSinglePage q with
      | true =>
          rcases retrieveAll_single h.toServes hsingle hall with ⟨_, hpage, _⟩
          cases hpage.symm.trans herror
      | false =>
          simp only [isSinglePage, Bool.or_eq_false_iff, Option.isSome_eq_false_iff,
            Option.isNone_iff_eq_none] at hsingle
          rcases retrieveAll_all h.toServes hsingle.1 hsingle.2 (hpaged hsingle.2) hall
            (hfit all hall) with ⟨_, hwhole, _⟩
          cases hwhole.symm.trans herror

/-- A session on a store answers as the store does. -/
theorem answers_hostOf (clock : Clock) (options : Plan.Options) :
    Answers (Session.hostOf ⟨Store.client clock, options, clock⟩ .standard) Session.host where
  toServes := TextQuery.serves_hostOf clock options
  refuses := by
    intro q w e h
    have hretrieve : Store.retrieve clock q (Session.part.get w) = .error e w.host := by
      change (liftExcept (Fetch.evaluate (w.host.database clock) q) : EStateM _ Store Page) w.host =
        _
      have herror : Fetch.evaluate (w.host.database clock) q = .error e := h
      rw [herror]
      rfl
    have hrun : (Session.part.run (Store.retrieve clock q)) w = .error e w := by
      rw [Part.run, hretrieve]
      rfl
    exact ⟨w, hrun, rfl⟩

/-- A plan with an alternative is answered by one of them. -/
theorem runSelect_alternative (h : Answers host store) {plan other : Plan}
    (hfit : Fits host.clock (store w) plan.fetch)
    (hpaged : plan.fetch.page = none -> plan.fetch.count = none) {rows : List Record}
    (hrun : runSelect host plan (some other) w = .ok rows w') :
    (plan.steps = [] ∧ retrieveAll host plan.fetch w = .ok rows w') ∨
      exists w₁, store w₁ = store w ∧ runPlan host other w₁ = .ok rows w' := by
  rw [runSelect] at hrun
  split at hrun
  · rename_i hempty
    rcases RecordSql.Outcome.run_bind_eq_ok.mp hrun with ⟨found, w₁, hfound, hrun⟩
    have hfound := adaptExcept_eq_ok.mp hfound
    unfold retrieveAggregate at hfound
    split at hfound
    · rename_i records w₂ hrecords
      cases hfound
      cases hrun
      exact Or.inl ⟨List.isEmpty_iff.mp hempty, hrecords⟩
    · rename_i w₂ hrefused
      cases hfound
      exact Or.inr ⟨_, store_of_refused h hfit hpaged hrefused, hrun⟩
    · cases hfound
  · exact Or.inr ⟨w, rfl, hrun⟩

end Run

namespace Plan

open Fetch (Joined)
open Sql (Scalar Select)

/-!
# Queries
-/

/-- The plans of an aggregate query. -/
theorem aggregateTask_cases {ctx : Context} {select : Select} {residual : Residual} {plan : Plan}
    {alternative : Option Plan} {p : GroupPlan} (hp : groupPlan ctx select = .ok p)
    (h : aggregateTask ctx select residual = .ok (.select plan alternative)) :
    (alternative = none ∧ p.localPlan residual = .ok plan) ∨
      exists other, alternative = some other ∧ p.localPlan residual = .ok other ∧
        p.nativePlan = .ok plan ∧ residual.predicate = none ∧ p.isNative = true := by
  rcases aggregateTask_eq_ok h with ⟨p', grouped, hp', hlocal, htask⟩
  cases hp.symm.trans hp'
  rcases htask with hgrouped | ⟨native, hboth, hplan⟩
  · cases hgrouped
    exact Or.inl ⟨rfl, hlocal⟩
  · cases hboth
    exact Or.inr ⟨grouped, rfl, hlocal, hplan⟩

section

variable {σ τ : Type} {host : Host σ} {store : σ -> Store} {ctx : Context} {residual : Residual}
  {p : GroupPlan} {select : Select} {plan : Plan} {alternative : Option Plan} {w w' : σ}

/-- Whichever plan answers an aggregate query, its rows present groups of the rows that are kept. -/
theorem runSelect_presents (hanswers : Run.Answers host store) (hinScope : p.InScope residual.used)
    (hp : p.IsOf ctx select) (hapart : p.KeepsApart host.clock) (hneeds : p.Needs residual)
    (hplain : p.ctx.fetch.Plain)
    (hplans : (alternative = none ∧ p.localPlan residual = .ok plan) ∨
      exists other, alternative = some other ∧ p.localPlan residual = .ok other ∧
        p.nativePlan = .ok plan ∧ residual.predicate = none ∧ p.isNative = true)
    (hfit : Run.Fits host.clock (store w) plan.fetch)
    (hfits : forall other, alternative = some other -> Run.Fits host.clock (store w) other.fetch)
    {rows : List Record} (hrun : Run.runSelect host plan alternative w = .ok rows w') :
    p.PresentsKept host.clock ((store w).database host.clock) residual.predicate rows := by
  have hlocal : forall {planned : Plan} {w₁ : σ}, p.localPlan residual = .ok planned ->
      store w₁ = store w -> Run.Fits host.clock (store w) planned.fetch ->
      Run.runPlan host planned w₁ = .ok rows w' ->
      p.PresentsKept host.clock ((store w).database host.clock) residual.predicate rows := by
    intro planned w₁ hplanned hstore hfit hrun
    rw [<- hstore] at hfit ⊢
    rcases Run.runPlan_eq_ok hrun with ⟨found, hfound, hsteps⟩
    have hquery : planned.fetch.Plain := by
      rcases GroupPlan.localPlan_limited hplanned with ⟨_, _, rfl⟩
      exact GroupPlan.plain_localContext hplain residual.used
    rcases Run.exists_allRecords hanswers hfit (fun _ => hquery.count) hfound with
      ⟨all, hall, _, hwhole⟩
    cases hwhole hquery.top hquery.page
    exact hinScope.local_result hp hapart hneeds hplain hplanned hall hsteps
  rcases hplans with ⟨rfl, hplan⟩ | ⟨other, rfl, hother, hplan, hresidual, hnative⟩
  · exact hlocal hplan rfl hfit hrun
  · have hpaged : plan.fetch.page = none -> plan.fetch.count = none := by
      rcases GroupPlan.nativePlan_limited hplan with ⟨orders, _, _, _, _, _, hlimited⟩
      exact hlimited.paged fun _ => (GroupPlan.plain_nativeContext hplain orders).count
    rcases Run.runSelect_alternative hanswers hfit hpaged hrun with ⟨hsteps, hfound⟩ | ⟨w₁, hw₁, hrun⟩
    · rcases Run.exists_allRecords hanswers hfit hpaged hfound with ⟨all, hall, hsome, _⟩
      rw [hresidual]
      exact hinScope.native_result hp hapart hnative hplan hsteps hall hsome
    · exact hlocal hother hw₁ (hfits other rfl) hrun

/--
Each row of an aggregate query that is executed without an error belongs to a group of the joined
rows that its condition keeps: its columns are the values of the select items on that group.
-/
theorem columns_eq_group_values (hanswers : Run.Answers host store) {lookup : Lookup τ}
    {options : Options} {v v' : τ} {source : Sql.Source} {joins filtered : Context} {sql : String}
    {q : Query} (haggregates : isAggregateQuery select = true)
    (hplan : (planStatement lookup options host.clock (.select select)).run v =
      .ok (.select plan alternative) v')
    (hexecute : (Query.ofTask sql (.select plan alternative)).execute host w = ((q, none), w'))
    (hfit : Run.Fits host.clock (store w) plan.fetch)
    (hfits : forall other, alternative = some other -> Run.Fits host.clock (store w) other.fetch)
    (hsource : select.sources = [source])
    (hjoins : (contextOf lookup options source).run v = .ok joins v')
    (hwhere : joins.applyWhere host.clock select.criteria = .ok (filtered, residual))
    (hgroups : groupPlan filtered select = .ok p) (hapart : p.KeepsApart host.clock) :
    exists set joined qs groups, q.resultSet? = some set ∧
      Fetch.scopeRows ((store w).database host.clock) "" filtered.fetch.root = .ok joined ∧
      (select.items.mapM fun item => filtered.qualify item.expr) = .ok qs ∧
      QualifiesOnce filtered select.groupBy p.keys ∧
      p.GroupsOf host.clock (keptBy host.clock residual.predicate joined) groups ∧
      List.Forall₂ (fun group row => qs.mapM (groupValueOf host.clock p.keys group) = .ok row)
        groups set.rows := by
  have hp := GroupPlan.isOf_groupPlan hgroups
  have hplans : aggregateTask filtered select residual = .ok (.select plan alternative) := by
    rcases planStatement_select_iff.mp hplan with ⟨source', ctx', hsource', _, hctx', htask⟩
    cases hsource.symm.trans hsource'
    cases hjoins.symm.trans hctx'
    rcases selectTask_of_groups haggregates htask with ⟨filtered', residual', hwhere', htask⟩
    cases hwhere.symm.trans hwhere'
    exact htask
  rcases applyWhere_updateAll hwhere with ⟨filters, hupdated, _, hused⟩
  have hscopes : filtered.scopes = joins.scopes := by
    rw [hupdated, updateAll_scopes]
  have hready : Ready p.ctx := by
    rw [hp.context]
    exact (ready_contextOf hjoins).applyWhere hwhere
  have hinScope : p.InScope residual.used := by
    refine hp.inScope hready ?_
    rw [hp.context, hscopes]
    exact hused
  have hneeds : p.Needs residual := by
    intro condition hcondition c hc
    rw [hp.context, hscopes]
    exact reads_residual hwhere hcondition hc
  have hplain : p.ctx.fetch.Plain := by
    rw [hp.context]
    exact plain_applyWhere (plain_contextOf hjoins) hwhere
  rcases Query.resultSet_of_execute hexecute with ⟨rows, hrun, hset⟩
  rcases runSelect_presents hanswers hinScope hp hapart hneeds hplain
    (aggregateTask_cases hgroups hplans) hfit hfits hrun with
    ⟨joined, groups, out, hjoined, hclasses, hpresents, rfl⟩
  rcases hp.exists_qualified with ⟨qs, hqs, _⟩
  have hcolumns : plan.columns = p.columns := by
    rcases aggregateTask_cases hgroups hplans with ⟨_, hlocal⟩ | ⟨_, _, _, hnative, _⟩
    · rcases GroupPlan.localPlan_limited hlocal with ⟨_, _, rfl⟩
      rfl
    · rcases GroupPlan.nativePlan_limited hnative with ⟨_, _, _, _, _, hcolumns, _⟩
      exact hcolumns
  refine ⟨_, joined, qs, groups, hset, hp.context ▸ hjoined, hqs, hp.keys, hclasses, ?_⟩
  rw [ResultSet.rows, List.map_map, List.forall₂_map_right_iff]
  refine hpresents.imp fun group row hrow => ?_
  rcases hrow with ⟨held, hholds, hcomputed⟩
  rw [hapart.values hp hqs hholds hcomputed, hcolumns]
  rfl

end

/-!
# Letters by their author

Of an author of more than one letter, the number of places is counted.  Both the author and an
expression of it are shown.
-/

open TextQuery (letter letterClock letterHost letterStore)

/-- Keys and aggregates with texts of their own are not mistaken for one another. -/
theorem GroupPlan.agrees_of_nodup {p : GroupPlan} {clock : Clock} {e : Scalar}
    (h : ((p.keys ++ p.aggregates.map (·.key)).map Scalar.text).Nodup)
    (he : e ∈ p.keys ++ p.aggregates.map (·.key) ∨
      e.text ∉ (p.keys ++ p.aggregates.map (·.key)).map Scalar.text) : p.Agrees clock e := by
  intro k hk htext group
  rcases he with he | he
  · rw [List.inj_on_of_nodup_map h hk he htext]
  · exact absurd (htext ▸ List.mem_map_of_mem hk) he

/-- A plan without native limits is run to its result. -/
theorem runPlan_of_resultOn {σ : Type} {host : Host σ} {store : σ -> Store}
    (h : Run.Serves host store) {plan : Plan} {w : σ}
    (hfit : Run.Fits host.clock (store w) plan.fetch) (htop : plan.fetch.top = none)
    (hpage : plan.fetch.page = none) (hcount : plan.fetch.count = none) {set : ResultSet}
    (hset : plan.resultOn ((store w).database host.clock) host.clock = .ok set) :
    exists rows w', Run.runPlan host plan w = .ok rows w' ∧ set = ⟨plan.columns, rows⟩ := by
  rw [resultOn] at hset
  cases hall : Fetch.allRecords ((store w).database host.clock) plan.fetch with
  | error e =>
      rw [hall] at hset
      cases hset
  | ok all =>
      simp only [hall] at hset
      cases hrun : Step.run host.clock plan.steps all with
      | error e =>
          simp only [hrun] at hset
          cases hset
      | ok rows =>
          simp only [hrun] at hset
          cases hset
          rcases Run.retrieveAll_all h htop hpage hcount hall (hfit all hall) with ⟨w', hfound, _⟩
          exact ⟨rows, w', TextQuery.runPlan_of_retrieve hfound hrun, rfl⟩

/--
`SELECT author, author + '!', COUNT(place) AS places FROM letter GROUP BY author HAVING COUNT(*) > 1`
-/
def authorSelect : Select where
  distinct := false
  top := none
  items := [⟨.column (.ofName "author"), none⟩,
    ⟨.binary (.column (.ofName "author")) .add (.literal (.str "!")), none⟩,
    ⟨.call "COUNT" false [.column (.ofName "place")], some "places"⟩]
  sources := [⟨⟨"letter", none, false⟩, []⟩]
  criteria := none
  groupBy := [.column (.ofName "author")]
  having := some (.compare (.call "COUNT" false [.star]) .gt (.literal (.int 1)))
  orderBy := []
  offset := none

def authorPlan : GroupPlan :=
  let author : Scalar := .column (.ofName "author")
  let called : Scalar := .binary author .add (.literal (.str "!"))
  let many : Sql.Predicate := .compare (.column (.ofName "id_count")) .gt (.literal (.int 1))
  { ctx := rootContext .standard ⟨⟨"letter", none, false⟩, []⟩ letter
    select := authorSelect
    groups := [⟨author, some ⟨0, "author"⟩, [⟨0, "author"⟩], "author"⟩]
    aggregates :=
      [⟨"count", some (.column (.ofName "place")), some ⟨0, "place"⟩, [⟨0, "place"⟩], false,
        "places", .call "COUNT" false [.column (.ofName "place")]⟩,
      ⟨"count", none, some ⟨0, "id"⟩, [], false, "id_count", .call "COUNT" false [.star]⟩]
    grouped := ⟨[⟨author, some "author"⟩, ⟨called, none⟩,
      ⟨.column (.ofName "places"), some "places"⟩], some many, []⟩
    columns := ["author", "Expr1", "places"]
    steps := [.having many, .compute called "Expr1"] }

theorem authorPlan_keepsApart : authorPlan.KeepsApart letterClock where
  outputs := by decide
  separate := by
    unfold Step.Separate
    decide
  shown := by decide
  covered := by
    have htexts : ((authorPlan.keys ++ authorPlan.aggregates.map (·.key)).map
        Scalar.text).Nodup := by decide
    have hauthor : authorPlan.Agrees letterClock (.column (.ofName "author")) :=
      GroupPlan.agrees_of_nodup htexts (Or.inl List.mem_cons_self)
    intro item hitem q hq
    simp only [authorPlan, authorSelect, List.mem_cons, List.not_mem_nil, or_false] at hitem
    rcases hitem with rfl | rfl | rfl
    · cases hq
      exact ⟨hauthor, rfl⟩
    · cases hq
      refine ⟨GroupPlan.agrees_of_nodup htexts (Or.inr (by decide)), fun _ => ⟨⟨hauthor, rfl⟩, ?_⟩⟩
      exact GroupPlan.agrees_of_nodup htexts (Or.inr (by decide))
    · cases hq
      refine ⟨GroupPlan.agrees_of_nodup htexts (Or.inl (List.mem_cons_of_mem _ List.mem_cons_self)),
        fun hnone => ?_⟩
      cases hnone

/-- Two of the letters of an author have a place; the author of one letter is left out. -/
theorem author_group_values :
    exists session plan other w' q set joined groups,
      (planStatement letterHost.lookup .standard letterHost.clock (.select authorSelect)).run
        (Session.ofHost letterStore) = .ok (.select plan (some other)) session ∧
      (Query.ofTask "" (.select plan (some other))).execute letterHost session = ((q, none), w') ∧
      q.resultSet? = some set ∧ set.rows = [[.str "Ada", .str "Ada!", .int 2]] ∧
      authorPlan.GroupsOf letterClock joined groups ∧
      List.Forall₂ (fun group row => (authorSelect.items.map (·.expr)).mapM
        (groupValueOf letterClock authorPlan.keys group) = .ok row) groups set.rows := by
  have hplan : exists plan other session, (planStatement letterHost.lookup .standard
      letterHost.clock (.select authorSelect)).run (Session.ofHost letterStore) =
        .ok (.select plan (some other)) session ∧ session.host = letterStore ∧
      (contextOf letterHost.lookup .standard ⟨⟨"letter", none, false⟩, []⟩).run
        (Session.ofHost letterStore) = .ok authorPlan.ctx session ∧ plan.steps.isEmpty = false ∧
      (Fetch.allRecords (letterStore.database letterClock) plan.fetch).map List.length = .ok 2 ∧
      (Fetch.allRecords (letterStore.database letterClock) other.fetch).map List.length = .ok 4 ∧
      (other.resultOn (letterStore.database letterClock) letterClock).map ResultSet.rows =
        .ok [[.str "Ada", .str "Ada!", .int 2]] ∧ other.columns = plan.columns ∧
      other.fetch.top = none ∧ other.fetch.page = none ∧ other.fetch.count = none :=
    ⟨_, _, _, rfl, rfl, rfl, rfl, by decide +kernel, by decide +kernel, by decide +kernel, rfl, rfl,
      rfl, rfl⟩
  rcases hplan with ⟨plan, other, session, hplan, hhost, hjoins, hsteps, hnative, hlocal, hrows,
    hcolumns, htop, hpage, hcount⟩
  have hanswers := Run.answers_hostOf letterClock .standard
  have hfit : forall {fetch : Fetch.Query} {n : Nat}, (Fetch.allRecords
      (letterStore.database letterClock) fetch).map List.length = .ok n -> n ≤ 4 ->
      Run.Fits letterClock session.host fetch := by
    intro fetch n hrecords hn
    rw [hhost]
    exact Run.fits_of_length hrecords (Nat.le_trans hn (by decide))
  have hfitNative := hfit hnative (by decide)
  have hfitLocal := hfit hlocal (by decide)
  cases hset : other.resultOn (letterStore.database letterClock) letterClock with
  | error e =>
      rw [hset] at hrows
      cases hrows
  | ok set =>
      rw [hset] at hrows
      rw [<- hhost] at hset
      rcases runPlan_of_resultOn hanswers.toServes hfitLocal htop hpage hcount hset with
        ⟨rows, w', hrun, rfl⟩
      have hselect : Run.runSelect letterHost plan (some other) session = .ok rows w' := by
        rw [Run.runSelect, hsteps, if_neg Bool.false_ne_true]
        exact hrun
      have hexecute := Query.execute_of_runSelect hselect ""
      have hwhere : authorPlan.ctx.applyWhere letterClock authorSelect.criteria =
          .ok (authorPlan.ctx, ⟨none, []⟩) := rfl
      have hvalues := columns_eq_group_values hanswers rfl hplan hexecute hfitNative
        (fun other' hother' => Option.some.inj hother' ▸ hfitLocal) rfl hjoins hwhere rfl
        authorPlan_keepsApart
      rcases hvalues with ⟨set, joined, qs, groups, hset, _, hqs, _, hgroups, hvalues⟩
      cases hset
      cases hqs
      rw [hcolumns] at hrows
      exact ⟨session, plan, other, w', _, _, _, groups, hplan, hexecute, rfl, Except.ok.inj hrows,
        hgroups, hvalues⟩

end Plan

end RecordSql
