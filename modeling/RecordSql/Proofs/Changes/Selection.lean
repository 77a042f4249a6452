import RecordSql.Proofs.Changes.Effects
import RecordSql.Proofs.DistinctRows
import RecordSql.Proofs.GroupResults

/-!
# What a change selects

The records to change are found by a query for their identifiers.  The platform drops rows of which
it has returned an equal one; what is left shows, of every joined row or of one that the platform
does not tell from it, the columns that the change reads.
-/

namespace RecordSql
namespace Plan

open Fetch (Database Joined Scope heldKeys scopeRows)
open Sql (Predicate TableRef)

/-!
# Selections
-/

theorem selection_eq_ok {ctx : Context} {clock : Clock} {target : TableRef}
    {criteria : Option Predicate} {s : Selection}
    (h : selection ctx clock target criteria = .ok s) :
    targetScope? ctx.scopes target = some s.target ∧ ctx.scopes[s.target]? = some s.scope ∧
      ctx.applyWhere clock criteria = .ok (s.ctx, s.residual) := by
  unfold selection at h
  simp only at h
  split at h
  · rename_i index scope hindex hscope
    rw [Outcome.bind_eq_ok] at h
    rcases h with ⟨⟨ctx', residual⟩, hwhere, h⟩
    cases h
    rw [hindex, Option.bind_some] at hscope
    exact ⟨hindex, hscope, hwhere⟩
  · cases h

/-- A condition leaves the names of a context alone. -/
theorem sameNames_applyWhere {ctx ctx' : Context} {clock : Clock} {criteria : Option Predicate}
    {residual : Residual} (h : ctx.applyWhere clock criteria = .ok (ctx', residual)) :
    Context.SameNames ctx ctx' := by
  rcases applyWhere_updateAll h with ⟨filters, rfl, _⟩
  exact ⟨updateAll_options _ _ ctx filters, updateAll_scopes _ _ ctx filters⟩

/-- What a query returns for joined rows. -/
structure ShownAs (scopes : Scopes) (columns : List Bound) (shown : Joined -> Record) : Prop where
  id : forall row, (shown row).id = row.id
  keys : forall row row', (shown row).attributes.keys = (shown row').attributes.keys
  get : forall b, b ∈ columns -> forall row,
    (shown row).get (scopes.rowKey b) = row.get (scopes.rowKey b)

theorem sortBy_nil {α : Type} (get : α -> String -> Value) (rows : List α) :
    Fetch.sortBy get [] rows = rows := by
  have hsorted := @Sorting.stableSort_stable α (TextQuery.ranking []) _ rows
  refine hsorted.unique ⟨.refl rows, ?_, fun _ _ => rfl⟩
  exact List.pairwise_of_forall fun _ _ => rfl

/-- The query of a selection asks for nothing but columns, so it is not sorted. -/
theorem sortKeys_ensureAll {ctx : Context} (h : Ready ctx) {columns : List Bound}
    (hcolumns : forall b, b ∈ columns -> b.scope < ctx.scopes.length)
    (attributes : List Fetch.Placed) :
    Fetch.scopeSortKeys false attributes "" (ctx.ensureAll columns).fetch.root = [] := by
  have hperm := @Rooted.gather_updateAll Bound _ (·.scope) (fun b s => s.ensure b.name) ctx
    h.rooted (fun b => Scope.extends_ensure b.name) (heldKeys false attributes)
    (fun _ _ => []) (fun b front s => List.Perm.of_eq (Scope.gather_ensure _ _ _ _ s)) columns hcolumns
  rw [List.flatMap_eq_nil_iff.mpr fun _ _ => rfl, h.bare.orders] at hperm
  rw [Fetch.scopeSortKeys_eq]
  exact hperm.eq_nil

/-- The records that the query of a selection returns. -/
theorem allRecords_selection {ctx : Context} (hready : Ready ctx) (hplain : ctx.fetch.Plain)
    {columns : List Bound} (hcolumns : forall b, b ∈ columns -> b.scope < ctx.scopes.length)
    {db : Database} {rows : List Joined} (hrows : scopeRows db "" ctx.fetch.root = .ok rows) :
    exists shown, ShownAs ctx.scopes columns shown ∧
      Fetch.allRecords db { (ctx.ensureAll columns).fetch with distinct := true } =
        .ok (firstOfEach Fetch.distinctKey [] (rows.map shown)) := by
  rcases placed_ensureAll hready.rooted hready.unnamed hcolumns with ⟨hall, _, hreturns⟩
  have hplain' := plain_ensureAll hplain columns
  have hrows' : scopeRows db "" (ctx.ensureAll columns).fetch.root = .ok rows := by
    rw [<- hrows]
    exact scopeRows_updateAll (fun b front s => Scope.scopeRows_ensure db b.name front s) ctx
      columns
  have hfound := allRecords_plain hplain'.aggregate hplain'.distinct hrows'
  rw [sortKeys_ensureAll hready hcolumns, sortBy_nil] at hfound
  refine ⟨_, ⟨fun _ => rfl, Fetch.keys_project hplain'.named, ?_⟩,
    (allRecords_distinct hplain' hfound).1⟩
  intro b hb row
  rw [Fetch.placedAttributes_eq]
  exact Fetch.get_project hall (hreturns b hb) row

/-- Values that the platform does not tell apart are the same if they are identifiers. -/
theorem guid_eq_of_sameText {id id' : Guid}
    (h : Value.SameText (Value.guid id).key (Value.guid id').key) : id = id' := by
  have hkind : forall g : Guid, Value.OfKind .guid (Value.guid g).key := by
    intro g kind hkind
    cases hkind
    rfl
  have halike : Value.Alike (Value.guid id).key (Value.guid id').key :=
    ⟨.guid, by decide, hkind id, hkind id'⟩
  cases h.eq halike
  rfl

/-!
# Local filters
-/

/-- What a local filter leaves are the rows on which its condition is true. -/
theorem run_residual_eq_ok {clock : Clock} {predicate : Option Predicate}
    {found rows : List Record}
    (h : Step.run clock (predicate.map Step.filter).toList found = .ok rows) :
    rows = found.filter fun r => predicate.all (isTrueOn clock r.get) := by
  rw [Step.run, Outcome.bind_eq_ok] at h
  rcases h with ⟨left, hleft, h⟩
  cases h
  have hmap : forall (kept : List Row) (keep : Record -> Bool),
      kept = (found.map Row.ofRecord).filter (fun row => keep row.record) ->
        kept.map (·.record) = found.filter keep := by
    rintro kept keep rfl
    rw [List.filter_map, List.map_map]
    exact List.map_id _
  cases predicate with
  | none =>
      cases hleft
      exact hmap _ (fun _ => true) (List.filter_eq_self.mpr fun _ _ => rfl).symm
  | some q =>
      rcases Outcome.bind_eq_ok.mp hleft with ⟨kept, hkept, h⟩
      cases h
      exact hmap _ (fun r => isTrueOn clock r.get q) (Step.filterRows_eq_ok hkept)

theorem run_residual_of_decided {clock : Clock} {predicate : Option Predicate}
    {found : List Record}
    (h : forall q, predicate = some q -> forall r, r ∈ found ->
      exists t, Eval.predicate clock r.get q = .ok t) :
    exists rows, Step.run clock (predicate.map Step.filter).toList found = .ok rows := by
  cases predicate with
  | none =>
      exact ⟨_, rfl⟩
  | some q =>
      have hfilter : Step.filterRows clock q (found.map Row.ofRecord) =
          .ok ((found.filter fun r => isTrueOn clock r.get q).map Row.ofRecord) := by
        refine TextQuery.filterRows_map fun r hr => ?_
        rcases h q rfl r hr with ⟨t, ht⟩
        exact ⟨t, ht, (isTrueOn_of_ok ht).symm⟩
      refine ⟨((found.filter fun r => isTrueOn clock r.get q).map Row.ofRecord).map (·.record), ?_⟩
      change ((Step.filterRows clock q (found.map Row.ofRecord) >>= pure) >>= _) = _
      rw [hfilter]
      rfl

/-!
# Planned changes
-/

section

variable {σ : Type} {lookup : Lookup σ} {options : Options} {clock : Clock} {v v' : σ}
  {task : Task}

theorem planStatement_delete {d : Sql.Delete}
    (h : (planStatement lookup options clock (.delete d)).run v = .ok task v') :
    exists ctx s, (contextOf lookup options (d.source.getD ⟨d.target, []⟩)).run v = .ok ctx v' ∧
      selection ctx clock d.target d.criteria = .ok s ∧
      task = .delete ⟨(s.plan s.residual.used).1, s.scope.table.name, (s.plan s.residual.used).2,
        d.criteria.isSome, s.target == 0⟩ := by
  rcases Outcome.run_bind_eq_ok.mp h with ⟨ctx, v₁, hctx, h⟩
  rcases Outcome.run_liftExcept_eq_ok.mp h with ⟨htask, rfl⟩
  simp only [deleteTask, Outcome.bind_eq_ok] at htask
  rcases htask with ⟨s, hs, htask⟩
  cases htask
  exact ⟨ctx, s, hctx, hs, rfl⟩

/-- The columns that an update reads: those of its condition and those of its values. -/
def Selection.usedBy (s : Selection) (u : Sql.Update) : List Bound :=
  u.assignments.foldl (fun used a => s.ctx.use used (reads a.value)) s.residual.used

theorem mem_usedBy {s : Selection} {u : Sql.Update} {b : Bound} :
    b ∈ s.usedBy u <-> b ∈ s.residual.used ∨
      exists a, a ∈ u.assignments ∧ b ∈ s.ctx.used a.value := by
  rw [Selection.usedBy]
  generalize s.residual.used = used
  induction u.assignments generalizing used with
  | nil =>
      simp
  | cons a rest ih =>
      rw [List.foldl_cons, ih, mem_use]
      simp only [List.mem_cons, exists_eq_or_imp, Context.used, mem_use, List.not_mem_nil, false_or,
        or_assoc]

theorem planStatement_update {u : Sql.Update}
    (h : (planStatement lookup options clock (.update u)).run v = .ok task v') :
    exists ctx s changes,
      (contextOf lookup options (u.source.getD ⟨u.target, []⟩)).run v = .ok ctx v' ∧
      selection ctx clock u.target u.criteria = .ok s ∧
      u.assignments.mapM (changeOf s) = .ok changes ∧
      task = .update ⟨(s.plan (s.usedBy u)).1, s.scope.table.name, (s.plan (s.usedBy u)).2,
        changes, u.criteria.isSome⟩ := by
  rcases Outcome.run_bind_eq_ok.mp h with ⟨ctx, v₁, hctx, h⟩
  rcases Outcome.run_liftExcept_eq_ok.mp h with ⟨htask, rfl⟩
  simp only [updateTask, Outcome.bind_eq_ok] at htask
  rcases htask with ⟨s, hs, changes, hchanges, htask⟩
  cases htask
  exact ⟨ctx, s, changes, hctx, hs, hchanges, rfl⟩

end

/-!
# Contexts of changes
-/

/--
The records of the tables in scope have identifiers of their own, under names that no other scope
can write.
-/
def IdentifiedTables (s : Store) (ctx : Context) : Prop :=
  forall scope, scope ∈ ctx.scopes -> '.' ∉ scope.table.primaryId.toList ∧
    forall records, s.tables.get? scope.table.name = some records ->
      Store.Identified scope.table records

/-!
# Selected records
-/

namespace Selection

/-- The column that identifies the records to change. -/
def idBound (s : Selection) : Bound :=
  ⟨s.target, s.scope.table.primaryId⟩

/-- The name of that column in retrieved rows. -/
def idColumn (s : Selection) : String :=
  s.ctx.scopes.rowKey s.idBound

/-- The columns that are retrieved for a change. -/
def columns (s : Selection) (used : List Bound) : List Bound :=
  addBound used s.idBound

theorem plan_idColumn (s : Selection) (used : List Bound) : (s.plan used).2 = s.idColumn := by
  have hscopes := updateAll_scopes (·.scope) (fun (b : Bound) s => s.ensure b.name) s.ctx
    (s.columns used)
  exact congrArg (Scopes.rowKey · s.idBound) hscopes

/-- The local filter, if there is one, keeps the row. -/
def passes (s : Selection) (clock : Clock) (row : Joined) : Bool :=
  s.residual.predicate.all (isTrueOn clock row.get)

/-- The columns in use are there, and the local filter reads no others. -/
structure Provided (s : Selection) (used : List Bound) : Prop where
  ready : Ready s.ctx
  plain : s.ctx.fetch.Plain
  scopes : forall b, b ∈ s.columns used -> b.scope < s.ctx.scopes.length
  reads : forall q, s.residual.predicate = some q -> forall c, c ∈ readsOfPredicate q ->
    exists b, b ∈ used ∧ c.rowKey = s.ctx.scopes.rowKey b

/-- Rows that the platform does not tell apart are decided alike by the local filter. -/
def Blind (s : Selection) (clock : Clock) (used : List Bound) (rows : List Joined) : Prop :=
  forall row, row ∈ rows -> forall row', row' ∈ rows ->
    (forall b, b ∈ s.columns used -> Value.SameText (row.get (s.ctx.scopes.rowKey b)).key
      (row'.get (s.ctx.scopes.rowKey b)).key) ->
    s.passes clock row = s.passes clock row'

/--
What is selected by the local filter among joined rows.  Some of these may be missing if the
platform does not tell them from others.
-/
structure Chosen (s : Selection) (clock : Clock) (used : List Bound) (rows : List Joined)
    (selected : List (Guid × Record)) : Prop where
  distinct : (selected.map (·.1)).Nodup
  /-- Every selected record is that of a row that is kept, and shows the columns in use of it. -/
  sound : forall pair, pair ∈ selected -> exists row, row ∈ rows ∧ s.passes clock row = true ∧
    row.get s.idColumn = .guid pair.1 ∧ forall b, b ∈ used ->
      pair.2.get (s.ctx.scopes.rowKey b) = row.get (s.ctx.scopes.rowKey b)
  complete : s.Blind clock used rows -> forall row, row ∈ rows -> s.passes clock row = true ->
    forall id, row.get s.idColumn = .guid id -> id ∈ selected.map (·.1)

section

variable {σ : Type} {host : Host σ} {store : σ -> Store} {s : Selection} {used : List Bound}
  {rows : List Joined} {w : σ}

/-- The selected identifiers are those of the rows that are kept. -/
theorem Chosen.mem_ids {clock : Clock} {selected : List (Guid × Record)}
    (h : s.Chosen clock used rows selected) (hblind : s.Blind clock used rows) {id : Guid} :
    id ∈ selected.map (·.1) <->
      exists row, row ∈ rows ∧ s.passes clock row = true ∧ row.get s.idColumn = .guid id := by
  constructor
  · intro hid
    rcases List.mem_map.mp hid with ⟨pair, hpair, rfl⟩
    rcases h.sound pair hpair with ⟨row, hrow, hpasses, hguid, _⟩
    exact ⟨row, hrow, hpasses, hguid⟩
  · rintro ⟨row, hrow, hpasses, hguid⟩
    exact h.complete hblind row hrow hpasses id hguid

theorem Provided.passes_shown (h : s.Provided used) {shown : Joined -> Record}
    (hshown : ShownAs s.ctx.scopes (s.columns used) shown) (clock : Clock) (row : Joined) :
    s.residual.predicate.all (isTrueOn clock (shown row).get) = s.passes clock row := by
  rw [passes]
  cases hpredicate : s.residual.predicate with
  | none =>
      rfl
  | some q =>
      have hsame : Eval.SameOn (shown row).get row.get (readsOfPredicate q) := by
        intro c hc
        rcases h.reads q hpredicate c hc with ⟨b, hb, hkey⟩
        rw [hkey]
        exact hshown.get b (mem_addBound.mpr (Or.inl hb)) row
      rw [Option.all_some, Option.all_some, isTrueOn, isTrueOn, Eval.predicate_congr q hsame]

/-- All pages together show every joined row, or one that the platform does not tell from it. -/
theorem Provided.retrieveAll_eq (h : s.Provided used) (hserves : Run.Serves host store)
    (hrows : scopeRows ((store w).database host.clock) "" s.ctx.fetch.root = .ok rows)
    (hfit : rows.length ≤ Run.maxPages * max (store w).pageSize 1) :
    exists shown w', ShownAs s.ctx.scopes (s.columns used) shown ∧ store w' = store w ∧
      Run.retrieveAll host (s.plan used).1.fetch w =
        .ok (firstOfEach Fetch.distinctKey [] (rows.map shown)) w' := by
  rcases allRecords_selection h.ready h.plain h.scopes hrows with ⟨shown, hshown, hall⟩
  have hplain := plain_ensureAll h.plain (s.columns used)
  have hlength : (firstOfEach Fetch.distinctKey [] (rows.map shown)).length ≤
      Run.maxPages * max (store w).pageSize 1 := by
    refine Nat.le_trans (firstOfEach_sublist _ _ _).length_le ?_
    rw [List.length_map]
    exact hfit
  have htop : (s.plan used).1.fetch.top = none := hplain.top
  rcases Run.retrieveAll_all hserves htop hplain.page hplain.count hall hlength with
    ⟨w', hretrieve, hw'⟩
  exact ⟨shown, w', hshown, hw', hretrieve⟩

/-- Rows that show an identifier or nothing where the records to change are identified. -/
def Identifies (s : Selection) (rows : List Joined) : Prop :=
  forall row, row ∈ rows -> row.get s.idColumn = .null ∨ exists id, row.get s.idColumn = .guid id

/-- A selection that succeeds selects the records of the rows that the local filter keeps. -/
theorem Provided.chosen (h : s.Provided used) (hserves : Run.Serves host store)
    (hrows : scopeRows ((store w).database host.clock) "" s.ctx.fetch.root = .ok rows)
    (hfit : rows.length ≤ Run.maxPages * max (store w).pageSize 1)
    (hids : s.Identifies rows) {w' : σ} {selected : List (Guid × Record)}
    (hselected : Run.selectRecords host (s.plan used).1 (s.plan used).2 w = .ok selected w') :
    store w' = store w ∧ s.Chosen host.clock used rows selected := by
  rcases h.retrieveAll_eq hserves hrows hfit with ⟨shown, w₁, hshown, hw₁, hretrieve⟩
  rcases Run.selectRecords_eq_ok.mp hselected with ⟨left, hleft, hrecords⟩
  rcases Run.runPlan_eq_ok hleft with ⟨found, hfound, hrun⟩
  cases hretrieve.symm.trans hfound
  have hkept := run_residual_eq_ok hrun
  have hid : forall row, (shown row).get s.idColumn = row.get s.idColumn :=
    hshown.get s.idBound (mem_addBound.mpr (Or.inr rfl))
  rw [plan_idColumn] at hrecords
  rcases Run.recordIds_eq_ok hrecords with ⟨hdistinct, hpairs, _⟩
  refine ⟨hw₁, ?_, ?_, ?_⟩
  · rw [hdistinct]
    exact Run.nodup_distinctIds _ _
  · intro pair hpair
    rcases hpairs pair hpair with ⟨hmem, hguid⟩
    rw [hkept, List.mem_filter] at hmem
    rcases List.mem_map.mp ((firstOfEach_sublist _ _ _).subset hmem.1) with ⟨row, hrow, heq⟩
    rw [<- heq, h.passes_shown hshown] at hmem
    rw [<- heq, hid] at hguid
    refine ⟨row, hrow, hmem.2, ?_, fun b hb => ?_⟩
    · rcases hids row hrow with hnull | ⟨id, hrowId⟩
      · rw [hnull] at hguid
        cases hguid
      · rw [hrowId] at hguid
        cases hguid
        exact hrowId
    · rw [<- heq]
      exact hshown.get b (mem_addBound.mpr (Or.inl hb)) row
  · intro hblind row hrow hpasses id hrowId
    -- The platform returns the row, or another one in its place, which is then kept as well.
    rcases exists_mem_firstOfEach (List.mem_map_of_mem hrow) with ⟨r, hr, hkey⟩
    rcases List.mem_map.mp ((firstOfEach_sublist _ _ _).subset hr) with ⟨row', hrow', rfl⟩
    have hsame := (Fetch.distinctKey_eq_iff (hshown.keys row' row)).mp hkey
    have hlike : s.passes host.clock row' = s.passes host.clock row := by
      refine hblind row' hrow' row hrow fun b hb => ?_
      rw [<- hshown.get b hb row', <- hshown.get b hb row]
      exact hsame _
    have hrowId' : (shown row').get s.idColumn = .guid id := by
      rw [hid]
      rcases hids row' hrow' with hnull | ⟨id', hid'⟩
      · have hnone := hsame s.idColumn
        rw [hid, hid, hnull, hrowId] at hnone
        cases hnone
      · have hguids := hsame s.idColumn
        rw [hid, hid, hid', hrowId] at hguids
        rw [hid', guid_eq_of_sameText hguids]
    rw [hdistinct, Run.mem_distinctIds]
    refine ⟨shown row', ?_, by rw [hrowId']; rfl⟩
    rw [hkept, List.mem_filter]
    exact ⟨hr, by rw [h.passes_shown hshown, hlike, hpasses]⟩

/-- A selection succeeds if the local filter can be evaluated on all rows. -/
theorem Provided.exists_selected (h : s.Provided used) (hserves : Run.Serves host store)
    (hrows : scopeRows ((store w).database host.clock) "" s.ctx.fetch.root = .ok rows)
    (hfit : rows.length ≤ Run.maxPages * max (store w).pageSize 1)
    (hids : forall row, row ∈ rows -> exists id, row.get s.idColumn = .guid id)
    (hdecides : Decides host.clock s.residual.predicate rows) :
    exists selected w',
      Run.selectRecords host (s.plan used).1 (s.plan used).2 w = .ok selected w' := by
  rcases h.retrieveAll_eq hserves hrows hfit with ⟨shown, w₁, hshown, hw₁, hretrieve⟩
  have hmem : forall r, r ∈ firstOfEach Fetch.distinctKey [] (rows.map shown) ->
      exists row, row ∈ rows ∧ shown row = r :=
    fun r hr => List.mem_map.mp ((firstOfEach_sublist _ _ _).subset hr)
  have hdecided : forall q, s.residual.predicate = some q ->
      forall r, r ∈ firstOfEach Fetch.distinctKey [] (rows.map shown) ->
        exists t, Eval.predicate host.clock r.get q = .ok t := by
    intro q hq r hr
    rcases hmem r hr with ⟨row, hrow, rfl⟩
    rcases hdecides q hq row hrow with ⟨t, ht⟩
    refine ⟨t, (Eval.predicate_congr q fun c hc => ?_).trans ht⟩
    rcases h.reads q hq c hc with ⟨b, hb, hkey⟩
    rw [hkey]
    exact hshown.get b (mem_addBound.mpr (Or.inl hb)) row
  rcases run_residual_of_decided hdecided with ⟨left, hrun⟩
  have hguids : forall r, r ∈ left -> exists id, r.get s.idColumn = .guid id := by
    intro r hr
    rw [run_residual_eq_ok hrun] at hr
    rcases hmem r (List.mem_filter.mp hr).1 with ⟨row, hrow, rfl⟩
    rcases hids row hrow with ⟨id, hid⟩
    exact ⟨id, (hshown.get s.idBound (mem_addBound.mpr (Or.inr rfl)) row).trans hid⟩
  rcases Run.recordIds_of_guids hguids with ⟨selected, hselected⟩
  refine ⟨selected, w₁, Run.selectRecords_eq_ok.mpr ⟨left, ?_, ?_⟩⟩
  · exact TextQuery.runPlan_of_retrieve hretrieve hrun
  · rw [plan_idColumn]
    exact hselected

end

/-!
# Planned selections
-/

section

variable {σ : Type} {lookup : Lookup σ} {options : Options} {source : Sql.Source} {ctx : Context}
  {v v' : σ} {clock : Clock} {target : TableRef} {criteria : Option Predicate} {s : Selection}

theorem scopes_eq (h : selection ctx clock target criteria = .ok s) :
    s.ctx.scopes = ctx.scopes :=
  (sameNames_applyWhere (selection_eq_ok h).2.2).scopes

/-- A planned selection finds what it uses, if that includes what its condition reads. -/
theorem provided (hctx : (contextOf lookup options source).run v = .ok ctx v')
    (h : selection ctx clock target criteria = .ok s) {used : List Bound}
    (hused : s.residual.used ⊆ used)
    (hscopes : forall b, b ∈ used -> b.scope < ctx.scopes.length) : s.Provided used := by
  rcases selection_eq_ok h with ⟨_, hscope, hwhere⟩
  refine ⟨(ready_contextOf hctx).applyWhere hwhere, plain_applyWhere (plain_contextOf hctx) hwhere,
    fun b hb => ?_, fun q hq c hc => ?_⟩
  · rw [scopes_eq h]
    rcases mem_addBound.mp hb with hb | rfl
    · exact hscopes b hb
    · exact (List.getElem?_eq_some_iff.mp hscope).1
  · rcases reads_residual hwhere hq hc with ⟨b, hb, rfl⟩
    refine ⟨b, hused hb, ?_⟩
    rw [scopes_eq h]
    rfl

theorem scope_lt_residual (h : selection ctx clock target criteria = .ok s) {b : Bound}
    (hb : b ∈ s.residual.used) : b.scope < ctx.scopes.length := by
  rcases applyWhere_updateAll (selection_eq_ok h).2.2 with ⟨_, _, _, hused⟩
  exact hused b hb

theorem scope_lt_usedBy (h : selection ctx clock target criteria = .ok s) {u : Sql.Update}
    {b : Bound} (hb : b ∈ s.usedBy u) : b.scope < ctx.scopes.length := by
  rcases mem_usedBy.mp hb with hb | ⟨a, _, hb⟩
  · exact scope_lt_residual h hb
  · rcases mem_use.mp hb with hb | ⟨c, _, hc⟩
    · cases hb
    · rw [<- scopes_eq h]
      exact Scopes.resolve_lt (Context.resolve_eq hc)

theorem provided_delete (hctx : (contextOf lookup options source).run v = .ok ctx v')
    (h : selection ctx clock target criteria = .ok s) : s.Provided s.residual.used :=
  provided hctx h (List.Subset.refl _) fun _ hb => scope_lt_residual h hb

theorem provided_update (hctx : (contextOf lookup options source).run v = .ok ctx v')
    (h : selection ctx clock target criteria = .ok s) (u : Sql.Update) :
    s.Provided (s.usedBy u) :=
  provided hctx h (fun _ hb => mem_usedBy.mpr (Or.inl hb)) fun _ hb => scope_lt_usedBy h hb

end

theorem changeOf_eq_ok {s : Selection} {a : Sql.Assignment} {c : Change}
    (h : changeOf s a = .ok c) :
    exists found, s.scope.table.attribute? a.column.name = some found ∧ c.name = found.name ∧
      s.ctx.qualify a.value = .ok c.value := by
  unfold changeOf at h
  simp only at h
  split at h
  · cases h
  · split at h
    · cases h
    · rename_i found hfound
      rcases Outcome.bind_eq_ok.mp h with ⟨value, hvalue, h⟩
      cases h
      exact ⟨found, hfound, rfl, hvalue⟩

section

variable {s : Selection} {u : Sql.Update} {read read' : String -> Value}

/-- What an assignment computes depends on the columns that the update uses. -/
theorem scalar_change_congr {a : Sql.Assignment} (ha : a ∈ u.assignments) {c : Change}
    (h : changeOf s a = .ok c)
    (hread : forall b, b ∈ s.usedBy u ->
      read (s.ctx.scopes.rowKey b) = read' (s.ctx.scopes.rowKey b)) (clock : Clock) :
    Eval.scalar clock read c.value = Eval.scalar clock read' c.value := by
  rcases changeOf_eq_ok h with ⟨_, _, _, hvalue⟩
  refine Eval.scalar_congr c.value fun column hcolumn => ?_
  rcases Context.reads_qualify a.value hvalue column hcolumn with ⟨c', hc', b, hb, rfl⟩
  exact hread b (mem_usedBy.mpr (Or.inr ⟨a, ha, mem_use.mpr (Or.inr ⟨c', hc', hb⟩)⟩))

theorem newValues_congr {changes : List Change}
    (h : u.assignments.mapM (changeOf s) = .ok changes)
    (hread : forall b, b ∈ s.usedBy u ->
      read (s.ctx.scopes.rowKey b) = read' (s.ctx.scopes.rowKey b))
    {clock : Clock} {target : TableDef} {values : List (String × Value)}
    (hvalues : changes.mapM (Run.newValue clock target read) = .ok values) :
    changes.mapM (Run.newValue clock target read') = .ok values := by
  refine Outcome.mapM_eq_ok.mpr ?_
  have heach := (Outcome.forall₂_and_mem (Outcome.mapM_eq_ok.mp hvalues).flip).flip
  refine heach.imp fun c entry hentry => ?_
  rcases Outcome.exists_of_forall₂ (Outcome.mapM_eq_ok.mp h) hentry.2 with ⟨a, ha, hchange⟩
  rw [<- hentry.1, Run.newValue, Run.newValue, scalar_change_congr ha hchange hread]

end

end Selection

end Plan
end RecordSql
