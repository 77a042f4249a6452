import RecordSql.Proofs.Changes.Selection
import RecordSql.Proofs.StoredValues

/-!
# Changes of one table

A statement that changes one table selects exactly the records on which its condition is true: its
query shows the identifier of every record, so the platform tells all of them apart.  A deletion
leaves the other records.  An update computes its values on the records as they were, and writes
them over these records only.
-/

namespace RecordSql
namespace Plan

open Fetch (Joined scopeRows)
open Sql (Predicate TableRef)
open TextQuery (Frame Keeps OneScope TextColumn TextPredicate frameOf get_joined)

/-!
# The selected records of one table
-/

section

variable {options : Options} {clock : Clock} {t : TableDef} {ref : TableRef} {p : Predicate}
  {s : Selection} {records : List Record}

theorem oneScope_rootContext (options : Options) (ref : TableRef) (t : TableDef) :
    OneScope t (rootContext options ⟨ref, []⟩ t) :=
  ⟨_, rfl⟩

/-- The only scope of a statement about one table is the one that it changes. -/
theorem selection_single {criteria : Option Predicate}
    (h : selection (rootContext options ⟨ref, []⟩ t) clock ref criteria = .ok s) :
    s.target = 0 ∧ s.scope.table = t ∧ s.idColumn = t.primaryId := by
  have hscope := (selection_eq_ok h).2.1
  have hlt := (List.getElem?_eq_some_iff.mp hscope).1
  have hzero : s.target = 0 := by
    simpa [rootContext] using hlt
  rw [hzero] at hscope
  have htable : s.scope.table = t := by
    rw [<- Option.some.inj hscope]
    rfl
  refine ⟨hzero, htable, ?_⟩
  rw [Selection.idColumn, Selection.idBound, Selection.scopes_eq h, hzero, htable]
  exact (oneScope_rootContext options ref t).rowKey _

/-- The records that the filters of the platform keep, as rows, and what the local filter does. -/
structure Divides (s : Selection) (clock : Clock) (db : Fetch.Database) (records : List Record)
    (condition : Predicate) (native : Record -> Bool) : Prop where
  rows : scopeRows db "" s.ctx.fetch.root = .ok ((records.filter native).map (.ofRecord ""))
  decides : Decides clock s.residual.predicate ((records.filter native).map (.ofRecord ""))
  whole : forall r, r ∈ records ->
    (native r && s.passes clock (.ofRecord "" r)) = isTrueOn clock r.get condition

theorem selection_divides {db : Fetch.Database}
    (h : selection (rootContext options ⟨ref, []⟩ t) clock ref (some p) = .ok s)
    (hp : TextPredicate (TextColumn t records) p) (htable : db.tables t.name = some records) :
    exists condition native,
      (rootContext options ⟨ref, []⟩ t).qualifyPredicate p = .ok condition ∧
      Divides s clock db records condition native := by
  have hcriteria : forall p', some p = some p' -> TextPredicate (TextColumn t records) p' := by
    rintro _ ⟨⟩
    exact hp
  rcases @OneScope.applyWhere_keeps t _ records clock db.now (oneScope_rootContext options ref t)
    rfl _ hcriteria _ _ (selection_eq_ok h).2.2 with
    ⟨filters, native, qualified, hctx, hqualified, hkeeps⟩
  rw [Option.mapM_some] at hqualified
  rcases Outcome.bind_eq_ok.mp hqualified with ⟨condition, hcondition, hsome⟩
  cases hsome
  refine ⟨condition, native, hcondition, ?_, ?_, ?_⟩
  · rw [hctx]
    exact @TextQuery.scopeRows_query { frameOf t ref with filters } records db native htable
      hkeeps.filters [] []
  · intro q hq row hrow
    rcases List.mem_map.mp hrow with ⟨r, hr, rfl⟩
    rw [get_joined]
    rcases hkeeps.rest q hq r (List.mem_filter.mp hr).1 r.get fun _ _ => rfl with ⟨u, hu, _⟩
    exact ⟨u, hu⟩
  · intro r hr
    rw [Selection.passes, get_joined]
    cases hpredicate : s.residual.predicate with
    | none =>
        rw [hkeeps.whole hpredicate r hr, Option.all_none, Bool.and_true, Option.all_some]
    | some q =>
        rcases hkeeps.rest q hpredicate r hr r.get fun _ _ => rfl with ⟨u, hu, hboth⟩
        rw [Option.all_some, isTrueOn_of_ok hu, hboth, Option.all_some]

/-- Records with identifiers of their own are told apart by the platform. -/
theorem blind_of_identified (hcolumn : s.idColumn = t.primaryId)
    (hids : Store.Identified t records) {rows : List Joined}
    (hrows : forall row, row ∈ rows -> exists r, r ∈ records ∧ row = .ofRecord "" r)
    (used : List Bound) : s.Blind clock used rows := by
  intro row hrow row' hrow' hsame
  rcases hrows row hrow with ⟨r, hr, rfl⟩
  rcases hrows row' hrow' with ⟨r', hr', rfl⟩
  rcases hids.ids r hr with ⟨id, hid, hget⟩
  rcases hids.ids r' hr' with ⟨id', hid', hget'⟩
  have hkeys := hsame s.idBound (mem_addBound.mpr (Or.inr rfl))
  change Value.SameText ((Joined.ofRecord "" r).get s.idColumn).key
    ((Joined.ofRecord "" r').get s.idColumn).key at hkeys
  rw [hcolumn, get_joined, get_joined, hget, hget'] at hkeys
  rw [guid_eq_of_sameText hkeys, <- hid'] at hid
  rw [Store.eq_of_id_eq hids.unique hr hr' hid]

variable {σ : Type} {host : Host σ} {store : σ -> Store} {w : σ}

/-- A change of one table selects the records on which its condition is true. -/
theorem single_selected (hserves : Run.Serves host store)
    (h : selection (rootContext options ⟨ref, []⟩ t) host.clock ref (some p) = .ok s)
    (hp : TextPredicate (TextColumn t records) p)
    (htable : (store w).tables.get? t.name = some records)
    (hfit : records.length ≤ Run.maxPages * (store w).pageSize)
    (hids : Store.Identified t records) {used : List Bound} (hprovided : s.Provided used) :
    exists condition selected w',
      (rootContext options ⟨ref, []⟩ t).qualifyPredicate p = .ok condition ∧
      Run.selectRecords host (s.plan used).1 (s.plan used).2 w = .ok selected w' ∧
      store w' = store w ∧
      Store.Picked records (fun r => isTrueOn host.clock r.get condition) (selected.map (·.1)) ∧
      forall pair, pair ∈ selected -> exists r, r ∈ records ∧ r.id = some pair.1 ∧
        isTrueOn host.clock r.get condition = true ∧ forall b, b ∈ used ->
          pair.2.get (s.ctx.scopes.rowKey b) = r.get (s.ctx.scopes.rowKey b) := by
  rcases selection_single h with ⟨_, _, hcolumn⟩
  rcases @selection_divides options host.clock t ref p s records ((store w).database host.clock) h
    hp htable with ⟨condition, native, hcondition, hdivides⟩
  have hlength : ((records.filter native).map (Joined.ofRecord "")).length ≤
      Run.maxPages * max (store w).pageSize 1 := by
    rw [List.length_map]
    exact Nat.le_trans (List.length_filter_le _ _)
      (Nat.le_trans hfit (Nat.mul_le_mul_left _ (Nat.le_max_left _ _)))
  have hrow : forall row, row ∈ (records.filter native).map (Joined.ofRecord "") ->
      exists r, r ∈ records ∧ native r = true ∧ row = .ofRecord "" r := by
    intro row hrow
    rcases List.mem_map.mp hrow with ⟨r, hr, rfl⟩
    exact ⟨r, (List.mem_filter.mp hr).1, (List.mem_filter.mp hr).2, rfl⟩
  have hguid : forall r, r ∈ records -> exists id, r.id = some id ∧
      (Joined.ofRecord "" r).get s.idColumn = .guid id := by
    intro r hr
    rw [hcolumn, get_joined]
    exact hids.ids r hr
  have hguids : forall row, row ∈ (records.filter native).map (Joined.ofRecord "") ->
      exists id, row.get s.idColumn = .guid id := by
    intro row hmem
    rcases hrow row hmem with ⟨r, hr, _, rfl⟩
    exact (hguid r hr).imp fun _ hid => hid.2
  have hblind : s.Blind host.clock used ((records.filter native).map (.ofRecord "")) :=
    blind_of_identified hcolumn hids
      (fun row hmem => (hrow row hmem).imp fun r hr => ⟨hr.1, hr.2.2⟩) used
  rcases hprovided.exists_selected hserves hdivides.rows hlength hguids hdivides.decides with
    ⟨selected, w', hselected⟩
  rcases hprovided.chosen hserves hdivides.rows hlength (fun row hmem => Or.inr (hguids row hmem))
    hselected with ⟨hstore, hchosen⟩
  -- A row that is kept is a record on which both parts of the condition are true.
  have hkept : forall row, row ∈ (records.filter native).map (Joined.ofRecord "") ->
      s.passes host.clock row = true -> forall id, row.get s.idColumn = .guid id ->
      exists r, r ∈ records ∧ r.id = some id ∧ isTrueOn host.clock r.get condition = true ∧
        row.get = r.get := by
    intro row hmem hpasses id hid
    rcases hrow row hmem with ⟨r, hr, hnative, rfl⟩
    rcases hguid r hr with ⟨id', hid', hget⟩
    rw [hget] at hid
    cases hid
    refine ⟨r, hr, hid', ?_, get_joined r⟩
    rw [<- hdivides.whole r hr, hnative, hpasses]
    rfl
  refine ⟨condition, selected, w', hcondition, hselected, hstore, ⟨hchosen.distinct, fun id => ?_⟩,
    fun pair hpair => ?_⟩
  · rw [hchosen.mem_ids hblind]
    constructor
    · rintro ⟨row, hmem, hpasses, hid⟩
      rcases hkept row hmem hpasses id hid with ⟨r, hr, hrid, htrue, _⟩
      exact ⟨r, hr, hrid, htrue⟩
    · rintro ⟨r, hr, hrid, htrue⟩
      rw [<- hdivides.whole r hr, Bool.and_eq_true] at htrue
      rcases hguid r hr with ⟨id', hid', hget⟩
      cases hid'.symm.trans hrid
      exact ⟨_, List.mem_map_of_mem (List.mem_filter.mpr ⟨hr, htrue.1⟩), htrue.2, hget⟩
  · rcases hchosen.sound pair hpair with ⟨row, hmem, hpasses, hid, hcolumns⟩
    rcases hkept row hmem hpasses pair.1 hid with ⟨r, hr, hrid, htrue, hget⟩
    rw [hget] at hcolumns
    exact ⟨r, hr, hrid, htrue, hcolumns⟩

end

/-!
# Deletions and updates
-/

/-- An assignment stores the value of its expression on the record. -/
def Assigns (clock : Clock) (ctx : Context) (t : TableDef) (r : Record) (a : Sql.Assignment)
    (entry : String × Value) : Prop :=
  exists found e v, t.attribute? a.column.name = some found ∧ ctx.qualify a.value = .ok e ∧
    Eval.scalar clock r.get e = .ok v ∧ entry = (found.name, Run.storeValue v found)

section

variable {clock : Clock} {s : Selection} {u : Sql.Update} {changes : List Change} {r : Record}

/-- What an update writes over a record is what its assignments say. -/
theorem assigns_of_newValues {t : TableDef} (htable : s.scope.table = t)
    (hchanges : u.assignments.mapM (changeOf s) = .ok changes) {values : List (String × Value)}
    (h : changes.mapM (Run.newValue clock t r.get) = .ok values) :
    List.Forall₂ (Assigns clock s.ctx t r) u.assignments values := by
  refine forall₂_of_common (Outcome.mapM_eq_ok.mp h) (Outcome.mapM_eq_ok.mp hchanges).flip
    fun c entry a _ hentry hchange => ?_
  rcases Selection.changeOf_eq_ok hchange with ⟨found, hfound, hname, hvalue⟩
  rw [htable] at hfound
  rcases Run.newValue_eq_ok.mp hentry with ⟨value, hscalar, rfl⟩
  refine ⟨found, c.value, value, hfound, hvalue, hscalar, ?_⟩
  rw [hname, TableDef.attribute?_self hfound]
  rfl

end

section

variable {σ τ : Type} {host : Host σ} {store : σ -> Store} {lookup : Lookup τ} {options : Options}
  {v v₁ v' : τ} {w w₁ : σ} {t : TableDef} {ref : TableRef} {records : List Record} {p : Predicate}
  {task : Task}

/-- The task is executed without an error, reports the count and leaves the store. -/
def Completes (host : Host σ) (store : σ -> Store) (sql : String) (task : Task) (w : σ)
    (count : Nat) (after : Store) : Prop :=
  exists q a w', (Query.ofTask sql task).execute host w = ((q, none), w') ∧
    q.outcome? = some (.affected a) ∧ a.count = count ∧ store w' = after

theorem completes_delete {task : DeleteTask} {a : Run.Affected} {w' : σ}
    (h : Run.runDelete host task w = .ok a w') (sql : String) :
    Completes host store sql (.delete task) w a.count (store w') :=
  ⟨_, a, w', (Run.execute_affected_iff rfl).mpr ⟨a, h, rfl⟩, rfl, rfl, rfl⟩

theorem completes_update {task : UpdateTask} {a : Run.Affected} {w' : σ}
    (h : Run.runUpdate host task w = .ok a w') (sql : String) :
    Completes host store sql (.update task) w a.count (store w') :=
  ⟨_, a, w', (Run.execute_affected_iff rfl).mpr ⟨a, h, rfl⟩, rfl, rfl, rfl⟩

theorem rootContext_of_contextOf {ctx : Context} (hlookup : (lookup ref.name).run v = .ok t v₁)
    (h : (contextOf lookup options ⟨ref, []⟩).run v = .ok ctx v') :
    ctx = rootContext options ⟨ref, []⟩ t := by
  cases (TextQuery.contextOf_single hlookup).symm.trans h
  rfl

theorem delete_single (happlies : Run.Applies host store)
    (hbulk : host.options.useBulkDelete = false) (hlookup : (lookup ref.name).run v = .ok t v₁)
    (htarget : host.lookup t.name w = .ok t w₁)
    (htable : (store w).tables.get? t.name = some records) (hids : Store.Identified t records)
    (hfit : records.length ≤ Run.maxPages * (store w).pageSize)
    (hp : TextPredicate (TextColumn t records) p) (sql : String)
    (hplan : (planStatement lookup options host.clock (.delete ⟨ref, none, some p⟩)).run v =
      .ok task v') :
    exists condition, (rootContext options ⟨ref, []⟩ t).qualifyPredicate p = .ok condition ∧
      Completes host store sql task w
        (records.filter fun r => isTrueOn host.clock r.get condition).length
        ((store w).setTable t.name
          (records.filter fun r => !isTrueOn host.clock r.get condition)) := by
  rcases planStatement_delete hplan with ⟨ctx, s, hctx, hs, rfl⟩
  cases rootContext_of_contextOf hlookup hctx
  rcases selection_single hs with ⟨_, rfl, _⟩
  have hw₁ := happlies.looksUp _ w _ w₁ htarget
  rcases single_selected happlies.toServes hs hp (hw₁ ▸ htable) (hw₁ ▸ hfit) hids
    (Selection.provided_delete hctx hs) with
    ⟨condition, selected, w₂, hcondition, hselected, hw₂, hpicked, _⟩
  refine ⟨condition, hcondition, ?_⟩
  rcases @Run.runDelete_picked _ host store _ _ _ _ s.scope.table _ _ _ happlies
    ⟨_, s.scope.table.name, _, true, _⟩ (by rw [hbulk]; rfl) rfl (Run.adaptExcept_eq_ok.mpr htarget)
    hselected (hw₂.trans hw₁) htable hids hpicked with ⟨a, w', hrun, hcount, hstore⟩
  rw [<- hcount, <- hstore]
  exact completes_delete hrun sql

/-- The expressions that are assigned have values on the records where the condition is true. -/
def Evaluable (clock : Clock) (ctx : Context) (records : List Record) (p : Predicate)
    (assignments : List Sql.Assignment) : Prop :=
  forall condition, ctx.qualifyPredicate p = .ok condition ->
    forall r, r ∈ records -> isTrueOn clock r.get condition = true ->
    forall a, a ∈ assignments -> forall e, ctx.qualify a.value = .ok e ->
      exists value, Eval.scalar clock r.get e = .ok value

/-- What an update of one table makes of a record. -/
def Updated (clock : Clock) (ctx : Context) (t : TableDef) (condition : Predicate)
    (assignments : List Sql.Assignment) (r r' : Record) : Prop :=
  if isTrueOn clock r.get condition then
    exists values, List.Forall₂ (Assigns clock ctx t r) assignments values ∧
      Store.Rewritten values r r'
  else r' = r

/-- An update of selected records computes its values on the records themselves. -/
theorem updated_of_updates {s : Selection} {u : Sql.Update} {changes : List Change}
    {ctx : Context} (hnames : Context.SameNames ctx s.ctx) (hids : Store.Identified t records)
    (hscope : s.scope.table = t) (hchanges : u.assignments.mapM (changeOf s) = .ok changes)
    {clock : Clock} {condition : Predicate} {selected : List (Guid × Record)}
    (hshows : forall pair, pair ∈ selected -> exists r, r ∈ records ∧ r.id = some pair.1 ∧
      isTrueOn clock r.get condition = true ∧ forall b, b ∈ s.usedBy u ->
        pair.2.get (s.ctx.scopes.rowKey b) = r.get (s.ctx.scopes.rowKey b))
    {r r' : Record} (hr : r ∈ records)
    (h : Run.Updates clock t changes (fun r => isTrueOn clock r.get condition) selected r r') :
    Updated clock ctx t condition u.assignments r r' := by
  rw [Run.Updates] at h
  rw [Updated]
  split at h
  · rename_i htrue
    rcases h with ⟨pair, values, hpair, hid, hvalues, hrewritten⟩
    rcases hshows pair hpair with ⟨same, hsame, hsameId, _, hcolumns⟩
    cases Store.eq_of_id_eq hids.unique hr hsame (hid.trans hsameId.symm)
    have hassigns := assigns_of_newValues hscope hchanges
      (Selection.newValues_congr hchanges hcolumns hvalues)
    rw [if_pos htrue]
    refine ⟨values, hassigns.imp fun a entry hentry => ?_, hrewritten⟩
    rcases hentry with ⟨found, e, value, hfound, he, hvalue⟩
    exact ⟨found, e, value, hfound, (hnames.qualify a.value).symm.trans he, hvalue⟩
  · rename_i hfalse
    rw [if_neg hfalse]
    exact h

theorem update_single {u : Sql.Update} (hu : u.source = none ∧ u.criteria = some p)
    (happlies : Run.Applies host store) (hlookup : (lookup u.target.name).run v = .ok t v₁)
    (htarget : host.lookup t.name w = .ok t w₁)
    (htable : (store w).tables.get? t.name = some records) (hids : Store.Identified t records)
    (hfit : records.length ≤ Run.maxPages * (store w).pageSize)
    (hp : TextPredicate (TextColumn t records) p) (sql : String)
    (hevaluable : Evaluable host.clock (rootContext options ⟨u.target, []⟩ t) records p
      u.assignments)
    (hplan : (planStatement lookup options host.clock (.update u)).run v = .ok task v') :
    exists condition records',
      (rootContext options ⟨u.target, []⟩ t).qualifyPredicate p = .ok condition ∧
      Completes host store sql task w
        (records.filter fun r => isTrueOn host.clock r.get condition).length
        ((store w).setTable t.name records') ∧
      List.Forall₂ (Updated host.clock (rootContext options ⟨u.target, []⟩ t) t condition
        u.assignments) records records' := by
  rcases planStatement_update hplan with ⟨ctx, s, changes, hctx, hs, hchanges, rfl⟩
  rw [hu.1, Option.getD_none] at hctx
  rw [hu.2] at hs
  cases rootContext_of_contextOf hlookup hctx
  rcases selection_single hs with ⟨_, rfl, _⟩
  have hw₁ := happlies.looksUp _ w _ w₁ htarget
  have hnames := sameNames_applyWhere (selection_eq_ok hs).2.2
  rcases single_selected happlies.toServes hs hp (hw₁ ▸ htable) (hw₁ ▸ hfit) hids
    (Selection.provided_update hctx hs u) with
    ⟨condition, selected, w₂, hcondition, hselected, hw₂, hpicked, hshows⟩
  have hprepared : forall pair, pair ∈ selected -> forall c, c ∈ changes ->
      exists value, Eval.scalar host.clock pair.2.get c.value = .ok value := by
    intro pair hpair c hc
    rcases hshows pair hpair with ⟨r, hr, _, htrue, hcolumns⟩
    rcases Outcome.exists_of_forall₂ (Outcome.mapM_eq_ok.mp hchanges) hc with ⟨a, ha, hchange⟩
    rcases Selection.changeOf_eq_ok hchange with ⟨_, _, _, hvalue⟩
    rw [Selection.scalar_change_congr ha hchange hcolumns]
    exact hevaluable condition hcondition r hr htrue a ha c.value
      ((hnames.qualify a.value).symm.trans hvalue)
  rcases @Run.exists_prepared _ host s.scope.table ⟨(s.plan (s.usedBy u)).1, s.scope.table.name,
    (s.plan (s.usedBy u)).2, changes, u.criteria.isSome⟩ _ hprepared with ⟨items, hitems⟩
  have hallowed : (Run.updating host ⟨(s.plan (s.usedBy u)).1, s.scope.table.name,
      (s.plan (s.usedBy u)).2, changes, u.criteria.isSome⟩).refusal = none := by
    rw [hu.2]
    rfl
  rcases Run.runUpdate_picked happlies hallowed (Run.adaptExcept_eq_ok.mpr htarget) hselected hitems
    (hw₂.trans hw₁) htable hids hpicked with ⟨a, w', records', hrun, hcount, hstore, hrecords⟩
  refine ⟨condition, records', hcondition, ?_, ?_⟩
  · rw [<- hcount, <- hstore]
    exact completes_update hrun sql
  · refine (Outcome.forall₂_and_mem hrecords.flip).flip.imp fun r r' hr => ?_
    exact updated_of_updates hnames hids rfl hchanges hshows hr.2 hr.1

/--
A deletion of one table leaves the records on which its condition is not true.  An update gives the
others the values of its assignments on them as they were, and of several to one attribute the last
counts.  All other tables stay as they are, and the count is that of the records on which the
condition is true.
-/
theorem single_table_effects (happlies : Run.Applies host store)
    (hbulk : host.options.useBulkDelete = false) (hlookup : (lookup ref.name).run v = .ok t v₁)
    (htarget : host.lookup t.name w = .ok t w₁)
    (htable : (store w).tables.get? t.name = some records) (hids : Store.Identified t records)
    (hfit : records.length ≤ Run.maxPages * (store w).pageSize)
    (hp : TextPredicate (TextColumn t records) p) (sql : String) :
    (forall task v', (planStatement lookup options host.clock (.delete ⟨ref, none, some p⟩)).run v =
        .ok task v' ->
      exists condition, (rootContext options ⟨ref, []⟩ t).qualifyPredicate p = .ok condition ∧
        Completes host store sql task w
          (records.filter fun r => isTrueOn host.clock r.get condition).length
          ((store w).setTable t.name
            (records.filter fun r => !isTrueOn host.clock r.get condition))) ∧
    forall assignments task v', (planStatement lookup options host.clock
        (.update ⟨ref, assignments, none, some p⟩)).run v = .ok task v' ->
      Evaluable host.clock (rootContext options ⟨ref, []⟩ t) records p assignments ->
      exists condition records',
        (rootContext options ⟨ref, []⟩ t).qualifyPredicate p = .ok condition ∧
        Completes host store sql task w
          (records.filter fun r => isTrueOn host.clock r.get condition).length
          ((store w).setTable t.name records') ∧
        List.Forall₂ (Updated host.clock (rootContext options ⟨ref, []⟩ t) t condition assignments)
          records records' :=
  ⟨fun _ _ hplan => delete_single happlies hbulk hlookup htarget htable hids hfit hp sql hplan,
    fun assignments _ _ hplan hevaluable =>
      @update_single σ τ host store lookup options _ _ _ _ _ _ _ _ _
        ⟨ref, assignments, none, some p⟩ ⟨rfl, rfl⟩ happlies hlookup htarget htable hids hfit hp sql
        hevaluable hplan⟩

end

/-!
# Shelves with two things

Where the things differ they change places.  Both of them are read before either is written.
-/

def shelf : TableDef :=
  { TableDef.ofKey "shelf" "id" with
    attributes := [.ofType "id" .uniqueIdentifier, .ofType "left" .string,
      .ofType "right" .string] }

def shelfOf (n : Nat) (left right : String) : Record :=
  ⟨"shelf", some (.ofNat n),
    .ofList [("id", .guid (.ofNat n)), ("left", .str left), ("right", .str right)]⟩

def shelves : List Record :=
  [shelfOf 1 "ink" "paper", shelfOf 2 "ink" "INK", shelfOf 3 "glue" "ink"]

def shelfStore : Store :=
  { Store.empty with
    tables := .ofList [("shelf", shelves)]
    definitions := .ofList [("shelf", shelf)]
    pageSize := 1 }

/-- `left <> right` -/
def shelfCondition : Predicate :=
  .compare (.column (.ofName "left")) .ne (.column (.ofName "right"))

/-- `left = right, right = left` -/
def shelfSwap : List Sql.Assignment :=
  [⟨.ofName "left", .column (.ofName "right")⟩, ⟨.ofName "right", .column (.ofName "left")⟩]

def shelfHost : Host (Session Store) :=
  Session.hostOf ⟨Store.client TextQuery.letterClock, .standard, TextQuery.letterClock⟩ .standard

theorem shelves_identified : Store.Identified shelf shelves where
  ids := by
    intro r hr
    simp only [shelves, List.mem_cons, List.not_mem_nil, or_false] at hr
    rcases hr with rfl | rfl | rfl <;> exact ⟨_, rfl, rfl⟩
  unique := by
    decide

theorem shelfCondition_text : TextPredicate (TextColumn shelf shelves) shelfCondition := by
  have htext : forall left right name, name = "left" ∨ name = "right" -> forall n,
      Value.OfKind .text ((shelfOf n left right).get name) := by
    rintro left right name (rfl | rfl) n
    · exact TextQuery.ofKind_text_str left
    · exact TextQuery.ofKind_text_str right
  have hcolumn : forall name, name = "left" ∨ name = "right" ->
      TextColumn shelf shelves (.ofName name) := by
    intro name hname a ha
    have hfound : a = .ofType name .string := by
      rcases hname with rfl | rfl <;> exact (Option.some.inj ha).symm
    subst hfound
    refine ⟨rfl, fun r hr => ?_⟩
    simp only [shelves, List.mem_cons, List.not_mem_nil, or_false] at hr
    rcases hr with rfl | rfl | rfl <;> exact htext _ _ name hname _
  exact .compare (.column (hcolumn _ (Or.inl rfl))) (.column (hcolumn _ (Or.inr rfl)))

theorem shelf_effects :
    exists session task task' records',
      (planStatement shelfHost.lookup .standard shelfHost.clock
        (.delete ⟨⟨"shelf", none, false⟩, none, some shelfCondition⟩)).run
          (Session.ofHost shelfStore) = .ok task session ∧
      (planStatement shelfHost.lookup .standard shelfHost.clock
        (.update ⟨⟨"shelf", none, false⟩, shelfSwap, none, some shelfCondition⟩)).run
          (Session.ofHost shelfStore) = .ok task' session ∧
      Completes shelfHost Session.host "" task session 2
        (shelfStore.setTable "shelf" [shelfOf 2 "ink" "INK"]) ∧
      Completes shelfHost Session.host "" task' session 2 (shelfStore.setTable "shelf" records') ∧
      List.Forall₂ (Updated shelfHost.clock
        (rootContext .standard ⟨⟨"shelf", none, false⟩, []⟩ shelf) shelf shelfCondition shelfSwap)
        shelves records' := by
  have hplan : exists session task task',
      (planStatement shelfHost.lookup .standard shelfHost.clock
        (.delete ⟨⟨"shelf", none, false⟩, none, some shelfCondition⟩)).run
          (Session.ofHost shelfStore) = .ok task session ∧
      (planStatement shelfHost.lookup .standard shelfHost.clock
        (.update ⟨⟨"shelf", none, false⟩, shelfSwap, none, some shelfCondition⟩)).run
          (Session.ofHost shelfStore) = .ok task' session ∧
      (shelfHost.lookup "shelf").run (Session.ofHost shelfStore) = .ok shelf session ∧
      shelfHost.lookup "shelf" session = .ok shelf session ∧ session.host = shelfStore :=
    ⟨_, _, _, rfl, rfl, rfl, rfl, rfl⟩
  rcases hplan with ⟨session, task, task', hdelete, hupdate, hlookup, htarget, hhost⟩
  have htable : session.host.tables.get? shelf.name = some shelves := by
    rw [hhost]
    rfl
  have hfit : shelves.length ≤ Run.maxPages * session.host.pageSize := by
    rw [hhost]
    decide
  have happlies : Run.Applies shelfHost Session.host := Run.applies_hostOf _ _
  rcases @single_table_effects _ _ shelfHost Session.host shelfHost.lookup .standard _ session
    session session shelf ⟨"shelf", none, false⟩ shelves shelfCondition happlies rfl hlookup htarget
    htable shelves_identified hfit shelfCondition_text "" with ⟨hdeleted, hupdated⟩
  have hevaluable : Evaluable shelfHost.clock
      (rootContext .standard ⟨⟨"shelf", none, false⟩, []⟩ shelf) shelves shelfCondition
      shelfSwap := by
    intro q hq r hr _ a ha e he
    simp only [shelfSwap, List.mem_cons, List.not_mem_nil, or_false] at ha
    rcases ha with rfl | rfl <;> cases he <;> exact ⟨_, rfl⟩
  rcases hdeleted task session hdelete with ⟨condition, hcondition, hdeleted⟩
  rcases hupdated shelfSwap task' session hupdate hevaluable with
    ⟨condition', records', hcondition', hupdated, hrecords⟩
  cases hcondition
  cases hcondition'
  rw [hhost] at hdeleted hupdated
  exact ⟨session, task, task', records', hdelete, hupdate, hdeleted, hupdated, hrecords⟩

/-- A host that stops to retrieve after the first page. -/
def hastyHost : Host (Session Store) :=
  Session.hostOf ⟨Store.client TextQuery.letterClock, .standard, TextQuery.letterClock⟩
    { RunOptions.standard with continueRetrieve := fun _ s => (false, s) }

/-- `left = 'tape', left = 'chalk'` -/
def shelfTwice : List Sql.Assignment :=
  [⟨.ofName "left", .literal (.str "tape")⟩, ⟨.ofName "left", .literal (.str "chalk")⟩]

/-- The store of a session after a statement. -/
def storeAfter (host : Host (Session Store)) (s : Store) (statement : Sql.Statement) : Store :=
  match (planStatement host.lookup .standard host.clock statement).run (.ofHost s) with
  | .ok task session => ((Query.ofTask "" task).execute host session).2.host
  | .error _ session => session.host

/--
A host that stops to retrieve keeps records on which the condition is true, although it neither
declines nor cancels the deletion.  An attribute with two assignments cannot have both values.
-/
theorem shelf_effects_differ :
    Store.Identified shelf shelves ∧ TextPredicate (TextColumn shelf shelves) shelfCondition ∧
    (forall n w, hastyHost.options.confirmDelete n shelf w = (true, w)) ∧
    (forall w, hastyHost.options.cancelled w = false) ∧
    isTrueOn hastyHost.clock (shelfOf 3 "glue" "ink").get shelfCondition = true ∧
    ((storeAfter hastyHost shelfStore
      (.delete ⟨⟨"shelf", none, false⟩, none, some shelfCondition⟩)).records "shelf").map (·.id) =
        [some (.ofNat 2), some (.ofNat 3)] ∧
    ((storeAfter shelfHost shelfStore
      (.update ⟨⟨"shelf", none, false⟩, shelfTwice, none, some shelfCondition⟩)).records
        "shelf").map (fun r => (r.get "left").text) = ["chalk", "ink", "chalk"] :=
  ⟨shelves_identified, shelfCondition_text, fun _ _ => rfl, fun _ => rfl, by decide +kernel,
    by decide +kernel, by decide +kernel⟩

end Plan
end RecordSql
