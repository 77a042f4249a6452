import RecordSql.Proofs.Execution
import RecordSql.Proofs.SelectItems
import RecordSql.Proofs.TextQuery.Answer
import RecordSql.Proofs.TextQuery.Records

/-!
# Select items show stored values

The retrieved attributes of a query, its aliases and its computed columns share the rows that the
local steps work on, and a name that is written twice keeps the later value.  If a plan writes no
name that it still reads, or shows as something else, the rows of a query of one table are the
values of its select items on the records that its condition keeps.
-/

namespace RecordSql

open Fetch (Attribute)
open Sql (Column Predicate Scalar Select SelectItem TableRef)
open TextQuery (Frame Keeps OneScope TextColumn TextPredicate ensured outputName retrieved)

/-- The expression and the column of a step that computes one. -/
def Step.entry? : Step -> Option (Scalar × String)
  | .compute expr output => some (expr, output)
  | _ => none

/-- What a plan computes, in order. -/
def Plan.computed (plan : Plan) : List (Scalar × String) :=
  plan.steps.filterMap Step.entry?

/-- A plan of one table that hides no value that it still reads or shows. -/
structure Plan.KeepsStored (plan : Plan) : Prop where
  /-- Attributes that are returned under one name are one attribute. -/
  retrieved : forall a, a ∈ plan.fetch.root.attributes -> forall b,
    b ∈ plan.fetch.root.attributes -> outputName a = outputName b -> a.name = b.name
  separate : Step.Separate plan.computed
  /-- No other column is shown under the name of a computed one. -/
  shown : forall entry, entry ∈ plan.computed -> plan.columns.count entry.2 = 1

namespace Plan

/-!
# Retrieved attributes
-/

/-- An attribute is returned under the given name. -/
def ReturnedAs (attributes : List Attribute) (name output : String) : Prop :=
  exists a, a ∈ attributes ∧ a.name = name ∧ outputName a = output

theorem ReturnedAs.mono {attributes attributes' : List Attribute} {name output : String}
    (h : ReturnedAs attributes name output) (hsubset : attributes ⊆ attributes') :
    ReturnedAs attributes' name output := by
  rcases h with ⟨a, ha, hname⟩
  exact ⟨a, hsubset ha, hname⟩

theorem returns_ensured (attributes : List Attribute) (name : String) :
    ReturnedAs (ensured attributes name) name name := by
  unfold ensured
  split
  · rename_i hold
    rcases List.any_eq_true.mp hold with ⟨a, ha, hplain⟩
    simp only [Bool.and_eq_true, beq_iff_eq, Attribute.isPlain, Option.isNone_iff_eq_none] at hplain
    refine ⟨a, ha, hplain.1, ?_⟩
    rw [outputName, hplain.2.1, Option.getD_none, hplain.1]
  · exact ⟨.ofName name, List.mem_append_right _ (List.mem_singleton_self _), rfl, rfl⟩

theorem returns_foldl_ensured {attributes : List Attribute} (columns : List Bound) :
    attributes ⊆ columns.foldl (fun found b => ensured found b.name) attributes ∧
      forall b, b ∈ columns ->
        ReturnedAs (columns.foldl (fun found b => ensured found b.name) attributes) b.name b.name := by
  induction columns generalizing attributes with
  | nil =>
      exact ⟨fun _ ha => ha, fun b hb => by cases hb⟩
  | cons first rest ih =>
      rcases @ih (ensured attributes first.name) with ⟨hsubset, hrest⟩
      rw [List.foldl_cons]
      refine ⟨fun a ha => hsubset (TextQuery.subset_ensured first.name ha), fun b hb => ?_⟩
      rcases List.mem_cons.mp hb with rfl | hb
      · exact (returns_ensured attributes b.name).mono hsubset
      · exact hrest b hb

variable {f : Frame} {options : Options} {attributes : List Attribute}

/-- What the part shows or reads is returned. -/
def Supplied (ctx : Context) (attributes : List Attribute) : Part -> Prop
  | .retrieved b aliasName => ReturnedAs attributes b.name (aliasName.getD b.name)
  | .computed expr _ _ => forall b, b ∈ ctx.used expr -> ReturnedAs attributes b.name b.name

theorem Supplied.mono {ctx : Context} {attributes' : List Attribute} {part : Part}
    (h : Supplied ctx attributes part) (hsubset : attributes ⊆ attributes') :
    Supplied ctx attributes' part := by
  cases part with
  | retrieved b aliasName =>
      exact ReturnedAs.mono h hsubset
  | computed expr qualified output =>
      exact fun b hb => (h b hb).mono hsubset

theorem addTo_context {item : SelectItem} {part : Part}
    (h : Becomes (f.contextIn options attributes []) item part) :
    exists attributes', part.addTo (f.contextIn options attributes []) =
        f.contextIn options attributes' [] ∧ attributes ⊆ attributes' ∧
      Supplied (f.contextIn options [] []) attributes' part := by
  cases h with
  | @retrieved c b aliasName h =>
      rcases Frame.oneScope.bound h with ⟨rfl, _⟩
      cases aliasName with
      | none =>
          exact ⟨_, TextQuery.ensure_context _, TextQuery.subset_ensured _,
            returns_ensured attributes _⟩
      | some aliasName =>
          exact ⟨_, TextQuery.alias_context _ _, List.subset_append_left _ _, .aliased _ aliasName,
            List.mem_append_right _ (List.mem_singleton_self _), rfl, rfl⟩
  | @computed item qualified output h =>
      have hscope : forall b, b ∈ (f.contextIn options attributes []).used item.expr ->
          b.scope = 0 := fun b hb => (Frame.oneScope.listed_of_mem_used hb).1
      rcases @returns_foldl_ensured attributes ((f.contextIn options attributes []).used item.expr)
        with ⟨hsubset, hreturns⟩
      exact ⟨_, TextQuery.ensureAll_context _ hscope, hsubset, hreturns⟩

theorem foldl_addTo_context {items : List SelectItem} {parts : List Part}
    (h : List.Forall₂ (Becomes (f.contextIn options attributes [])) items parts) :
    exists attributes', parts.foldl Part.addTo (f.contextIn options attributes []) =
        f.contextIn options attributes' [] ∧ attributes ⊆ attributes' ∧
      forall part, part ∈ parts -> Supplied (f.contextIn options [] []) attributes' part := by
  induction parts generalizing attributes items with
  | nil =>
      exact ⟨attributes, rfl, fun _ ha => ha, fun part hpart => by cases hpart⟩
  | cons part rest ih =>
      cases h with
      | cons hfirst hmore =>
          rcases addTo_context hfirst with ⟨attributes₁, hctx, hsubset, hsupplied⟩
          have hnames : Context.SameNames (f.contextIn options attributes₁ [])
              (f.contextIn options attributes []) := ⟨rfl, rfl⟩
          rcases ih (hmore.imp fun item part hpart => hpart.congr hnames) with
            ⟨attributes', hctx', hsubset', hrest⟩
          refine ⟨attributes', by rw [List.foldl_cons, hctx, hctx'],
            fun a ha => hsubset' (hsubset ha), fun p hp => ?_⟩
          rcases List.mem_cons.mp hp with rfl | hp
          · exact hsupplied.mono hsubset'
          · exact hrest p hp

/-!
# Rows
-/

theorem get_retrieved {t : TableDef} {r : Record}
    (hone : forall a, a ∈ attributes -> forall b, b ∈ attributes ->
      outputName a = outputName b -> a.name = b.name) {name output : String}
    (h : ReturnedAs attributes name output) :
    (retrieved t attributes r).get output = r.get name := by
  rcases h with ⟨a, ha, rfl, rfl⟩
  have hmem : outputName a ∈ (attributes.map fun a => (outputName a, r.get a.name)).map (·.1) := by
    rw [List.map_map]
    exact List.mem_map_of_mem ha
  have hall : forall entry, entry ∈ attributes.map (fun a => (outputName a, r.get a.name)) ->
      entry.1 = outputName a -> entry.2 = r.get a.name := by
    intro entry hentry hname
    rcases List.mem_map.mp hentry with ⟨b, hb, rfl⟩
    exact congrArg r.get (hone b hb a ha hname)
  rw [Record.get, retrieved, Dict.ofList, Dict.get?_insertAll_of_all hmem hall]
  rfl

/-- A column shows the value that its item has on the stored record. -/
theorem scalar_of_computed {clock : Clock} {r : Record} {row : Row}
    {entries : List (Scalar × String)} {item : SelectItem} {part : Part} {q : Scalar}
    (hone : forall a, a ∈ attributes -> forall b, b ∈ attributes ->
      outputName a = outputName b -> a.name = b.name)
    (hrow : Step.Computed clock entries (.ofRecord (retrieved f.table attributes r)) row)
    (hpart : Becomes (f.contextIn options [] []) item part)
    (hsupplied : Supplied (f.contextIn options [] []) attributes part)
    (hretrieved : part.entry? = none ->
      part.output (f.contextIn options [] []).scopes ∉ entries.map (·.2))
    (hcomputed : forall entry, part.entry? = some entry -> entry ∈ entries)
    (hq : (f.contextIn options [] []).qualify item.expr = .ok q) :
    Eval.scalar clock r.get q = .ok (row.get (part.output (f.contextIn options [] []).scopes)) := by
  have hstored : forall {name output : String}, ReturnedAs attributes name output ->
      (Row.ofRecord (retrieved f.table attributes r)).get output = r.get name :=
    fun h => get_retrieved hone h
  cases hpart with
  | @retrieved c b aliasName hb =>
      cases hq.symm.trans (Context.qualify_eq_ok.mpr (.column hb))
      rcases Frame.oneScope.bound hb with ⟨rfl, _⟩
      rw [hrow.kept _ (hretrieved rfl), Part.output, Frame.oneScope.rowKey, hstored hsupplied,
        Frame.oneScope.qualified]
      rfl
  | @computed item q' output hq' =>
      cases hq.symm.trans hq'
      have hsame : Eval.SameOn r.get (Row.ofRecord (retrieved f.table attributes r)).get
          (reads q) := by
        intro c hc
        rcases Context.reads_qualify item.expr hq c hc with ⟨c', hc', b, hb, rfl⟩
        have hused : b ∈ (f.contextIn options [] []).used item.expr :=
          mem_use.mpr (Or.inr ⟨c', hc', hb⟩)
        have hvalue := hstored (hsupplied b hused)
        rcases Frame.oneScope.bound hb with ⟨rfl, _⟩
        rw [Frame.oneScope.qualified]
        exact hvalue.symm
      rw [Eval.scalar_congr q hsame]
      exact hrow.values (q, output) (hcomputed _ rfl)

/-!
# Plans

Without an order and limits, the steps of a plan are its filter, if there is one, and what computes
its columns.
-/

theorem selectPlan_unordered {ctx : Context} {select : Select} {residual : Residual} {plan : Plan}
    (hdistinct : select.distinct = false) (horderBy : select.orderBy = [])
    (htop : select.top = none) (hoffset : select.offset = none)
    (h : selectPlan ctx select residual = .ok plan) :
    exists listed, Projection.ofItems (ctx.ensureAll residual.used)
        (residual.predicate.map Step.filter).toList select.items = .ok listed ∧
      plan = ⟨listed.ctx.fetch, listed.steps, listed.columns⟩ := by
  simp only [selectPlan, Outcome.bind_eq_ok, horderBy, htop, hoffset] at h
  rcases h with ⟨listed, hlisted, ⟨ordered, steps⟩, hordered, ⟨fetch, steps'⟩, hlimits, h⟩
  have hsame : applyDistinct select listed = listed := by
    rw [applyDistinct, hdistinct]
    rfl
  rw [hsame] at hordered h
  cases hordered
  cases hlimits
  cases h
  exact ⟨listed, hlisted, rfl⟩

theorem entries_computing (entries : List (Scalar × String)) :
    (Step.computing entries).filterMap Step.entry? = entries := by
  rw [Step.computing, List.filterMap_map]
  exact List.filterMap_some

theorem entries_filter (predicate : Option Predicate) :
    (predicate.map Step.filter).toList.filterMap Step.entry? = [] := by
  cases predicate <;> rfl

/-- What is shown once is shown by one part only. -/
theorem eq_of_count_eq_one {α β : Type} [BEq β] [LawfulBEq β] {g : α -> β} {l : List α} {a b : α}
    (ha : a ∈ l) (hb : b ∈ l) (hsame : g a = g b) (h : (l.map g).count (g a) = 1) : a = b := by
  induction l with
  | nil =>
      cases ha
  | cons c rest ih =>
      rw [List.map_cons, List.count_cons] at h
      have hmem : forall x, x ∈ rest -> g x = g a -> 0 < (rest.map g).count (g a) := by
        intro x hx hgx
        rw [List.count_pos_iff, <- hgx]
        exact List.mem_map_of_mem hx
      rcases List.mem_cons.mp ha with rfl | ha'
      · rcases List.mem_cons.mp hb with rfl | hb'
        · rfl
        · have hcount := hmem b hb' hsame.symm
          rw [beq_self_eq_true, if_pos rfl] at h
          omega
      · have hcount := hmem a ha' rfl
        rcases List.mem_cons.mp hb with rfl | hb'
        · rw [hsame, beq_self_eq_true, if_pos rfl] at h
          rw [hsame] at hcount
          omega
        · refine ih ha' hb' ?_
          split at h <;> omega

theorem forall₂_of_common {α β γ : Type} {r : α -> β -> Prop} {s : α -> γ -> Prop}
    {u : γ -> β -> Prop} {items : List α} {parts : List β} {qs : List γ}
    (hparts : List.Forall₂ r items parts) (hqs : List.Forall₂ s items qs)
    (h : forall item part q, part ∈ parts -> r item part -> s item q -> u q part) :
    List.Forall₂ u qs parts := by
  induction hparts generalizing qs with
  | nil =>
      cases hqs
      exact .nil
  | cons hpart _ ih =>
      cases hqs with
      | cons hq hqs =>
          exact .cons (h _ _ _ List.mem_cons_self hpart hq)
            (ih hqs fun item part q hmem => h item part q (List.mem_cons_of_mem _ hmem))

/-!
# Records
-/

theorem stable_unordered (recs : List Record) :
    Sorting.stable (Sorting.before (TextQuery.ranking [])) recs = recs := by
  refine (Sorting.stableSort_stable recs).unique ⟨.refl recs, ?_, fun _ _ => rfl⟩
  exact List.pairwise_of_forall fun _ _ => rfl

/-- Without an order, the platform returns the records that its filters keep as they are stored. -/
theorem allRecords_unordered {db : Fetch.Database} {records : List Record} {native : Record -> Bool}
    (htable : db.tables f.table.name = some records)
    (hfilters : forall r, r ∈ records ->
      Fetch.filtersHold db.now "" (.ofRecord "" r) f.filters = .ok (native r)) :
    Fetch.allRecords db (f.query attributes []) =
      .ok ((records.filter native).map (retrieved f.table attributes)) := by
  have hall := @TextQuery.allRecords_query f attributes records db native [] none none none htable
    hfilters (fun key hkey => by cases hkey)
  have hsame : Sorting.stable (Sorting.before (TextQuery.ranking (TextQuery.nativeRanking [])))
      (records.filter native) = records.filter native := stable_unordered _
  rw [hsame] at hall
  exact hall

/-- What the platform and the local filter keep together. -/
theorem filter_of_keeps {t : TableDef} {records : List Record} {now : Calendar.DateTime}
    {clock : Clock} {kept native : Record -> Bool} {filters : List Fetch.Filter}
    {residual : Residual} (h : Keeps t records now clock kept filters residual native) :
    (if residual.predicate.isSome then (records.filter native).filter kept
      else records.filter native) = records.filter kept := by
  cases hpredicate : residual.predicate with
  | none =>
      exact List.filter_congr (h.whole hpredicate)
  | some q =>
      rw [Option.isSome_some, if_pos rfl, List.filter_filter]
      refine List.filter_congr fun r hr => ?_
      rcases h.rest q hpredicate r hr r.get fun _ _ => rfl with ⟨u, _, hboth⟩
      rw [<- hboth]
      cases native r <;> cases u.holds <;> rfl

section

variable {σ : Type} {host : Host σ} {store : σ -> Store}

/-- A query of one table without wildcards, groups, order and limits. -/
structure PlainSelect (select : Select) (ref : TableRef) : Prop where
  source : select.sources = [⟨ref, []⟩]
  data : VirtualTable.ofName? ref.name = none
  items : forall item, item ∈ select.items -> item.expr.isStar = false
  aggregates : isAggregateQuery select = false
  distinct : select.distinct = false
  orderBy : select.orderBy = []
  top : select.top = none
  offset : select.offset = none

/-- The plan of such a query: its attributes, and the parts that its items become. -/
structure StoredPlan (f : Frame) (options : Options) (select : Select) (residual : Residual)
    (attributes : List Attribute) (parts : List Part) (plan : Plan) : Prop where
  becomes : List.Forall₂ (Becomes (f.contextIn options [] [])) select.items parts
  fetch : plan.fetch = f.query attributes []
  steps : plan.steps = (residual.predicate.map Step.filter).toList ++
    Step.computing (parts.filterMap Part.entry?)
  columns : plan.columns = parts.map (Part.output (f.contextIn options [] []).scopes)
  used : forall b, b ∈ residual.used -> ReturnedAs attributes b.name b.name
  supplied : forall part, part ∈ parts -> Supplied (f.contextIn options [] []) attributes part

theorem selectPlan_stored {select : Select} {ref : TableRef} (hselect : PlainSelect select ref)
    {residual : Residual} (hused : forall b, b ∈ residual.used -> b.scope = 0) {plan : Plan}
    (h : selectPlan (f.contextIn options [] []) select residual = .ok plan) :
    exists attributes parts, StoredPlan f options select residual attributes parts plan := by
  rcases selectPlan_unordered hselect.distinct hselect.orderBy hselect.top hselect.offset h with
    ⟨listed, hlisted, rfl⟩
  rw [TextQuery.ensureAll_context _ hused] at hlisted
  rcases @returns_foldl_ensured [] residual.used with ⟨_, hreturns⟩
  generalize residual.used.foldl (fun found b => ensured found b.name) [] = ensured₀
    at hlisted hreturns
  rcases foldlM_item_parted hselect.items hlisted with ⟨parts, hparts, hparted⟩
  rcases foldl_addTo_context hparts with ⟨attributes, hctx, hsubset, hsupplied⟩
  have hnames : Context.SameNames (f.contextIn options [] []) (f.contextIn options ensured₀ []) :=
    ⟨rfl, rfl⟩
  refine ⟨attributes, parts, ?_, ?_, hparted.steps, hparted.columns, ?_, hsupplied⟩
  · exact hparts.imp fun item part hpart => hpart.congr hnames
  · change listed.ctx.fetch = _
    rw [hparted.ctx, hctx]
    rfl
  · exact fun b hb => (hreturns b hb).mono hsubset

/-- What is computed under a name is shown under it by no other part. -/
theorem StoredPlan.not_computed {select : Select} {residual : Residual} {parts : List Part}
    {plan : Plan} (h : StoredPlan f options select residual attributes parts plan)
    (hkeeps : plan.KeepsStored) {part : Part} (hpart : part ∈ parts)
    (hretrieved : part.entry? = none) :
    part.output (f.contextIn options [] []).scopes ∉
      (parts.filterMap Part.entry?).map (·.2) := by
  intro hmem
  rcases List.mem_map.mp hmem with ⟨entry, hentry, heq⟩
  rcases List.mem_filterMap.mp hentry with ⟨part', hpart', hsome⟩
  have hcomputed : entry ∈ plan.computed := by
    rw [Plan.computed, h.steps, List.filterMap_append, entries_filter, entries_computing]
    exact hentry
  have houtput := part'.output_of_entry (f.contextIn options [] []).scopes hsome
  have hcount := hkeeps.shown entry hcomputed
  rw [h.columns, <- houtput] at hcount
  have hsame := eq_of_count_eq_one hpart' hpart (houtput.trans heq) hcount
  rw [<- hsame, hsome] at hretrieved
  cases hretrieved

/-- The rows that the local steps make of the records that the condition keeps. -/
theorem StoredPlan.rows_of_run {select : Select} {residual : Residual} {parts : List Part}
    {plan : Plan} (h : StoredPlan f options select residual attributes parts plan)
    (hkeeps : plan.KeepsStored) {now : Calendar.DateTime} {clock : Clock} {records : List Record}
    {kept native : Record -> Bool}
    (hcondition : Keeps f.table records now clock kept f.filters residual native)
    {rows : List Record}
    (hrun : Step.run clock plan.steps ((records.filter native).map (retrieved f.table attributes)) =
      .ok rows) :
    exists qs, List.Forall₂ (fun item q =>
        (f.contextIn options [] []).qualify item.expr = .ok q) select.items qs ∧
      List.Forall₂ (fun r row => qs.mapM (Eval.scalar clock r.get) = .ok row)
        (records.filter kept) (rows.map fun r => plan.columns.map r.get) := by
  have hone : forall a, a ∈ attributes -> forall b, b ∈ attributes ->
      outputName a = outputName b -> a.name = b.name := by
    have hretrieved := hkeeps.retrieved
    rw [h.fetch] at hretrieved
    exact hretrieved
  have hseparate := hkeeps.separate
  rw [Plan.computed, h.steps, List.filterMap_append, entries_filter, entries_computing] at hseparate
  rw [Step.run, h.steps, List.map_map, List.foldlM_append, Outcome.bind_eq_ok] at hrun
  rcases hrun with ⟨rows', hrun, hrows⟩
  cases hrows
  rcases Outcome.bind_eq_ok.mp hrun with ⟨left, hfilter, hcompute⟩
  have hread : forall r, r ∈ records.filter native -> forall b, b ∈ residual.used ->
      ((Row.ofRecord ∘ retrieved f.table attributes) r).get b.name = r.get b.name :=
    fun r _ b hb => get_retrieved hone (h.used b hb)
  rw [TextQuery.foldlM_filter hcondition (fun r hr => List.mem_filter.mp hr) hread,
    filter_of_keeps hcondition] at hfilter
  cases hfilter
  have hcomputed := List.forall₂_map_left_iff.mp (Step.forall₂_computed hseparate hcompute)
  rcases exists_qualified h.becomes with ⟨qs, hqs⟩
  refine ⟨qs, hqs, ?_⟩
  rw [List.map_map, List.forall₂_map_right_iff]
  refine hcomputed.imp fun r row hrow => Outcome.mapM_eq_ok.mpr ?_
  rw [h.columns, Function.comp_apply, List.map_map, List.forall₂_map_right_iff]
  refine forall₂_of_common h.becomes hqs fun item part q hpart hbecomes hq => ?_
  exact scalar_of_computed hone hrow hbecomes (h.supplied part hpart)
    (h.not_computed hkeeps hpart)
    (fun entry hentry => List.mem_filterMap.mpr ⟨part, hpart, hentry⟩) hq

/--
A query of one table that is executed without an error shows one row for each record on which its
condition is true, in the order of the store: the values of the select items on that record.
-/
theorem rows_eq_stored_values {τ : Type} (hserves : Run.Serves host store) {lookup : Lookup τ}
    {options : Options} {v v₁ v' : τ} {w w' : σ} {t : TableDef} {ref : TableRef} {select : Select}
    {records : List Record} {plan : Plan} {alternative : Option Plan} {sql : String} {q : Query}
    (hselect : PlainSelect select ref) (hlookup : (lookup ref.name).run v = .ok t v₁)
    (htable : (store w).tables.get? t.name = some records)
    (hfit : records.length ≤ Run.maxPages * (store w).pageSize)
    (hcriteria : forall p, select.criteria = some p -> TextPredicate (TextColumn t records) p)
    (hplan : (planStatement lookup options host.clock (.select select)).run v =
      .ok (.select plan alternative) v')
    (hexecute : (Query.ofTask sql (.select plan alternative)).execute host w = ((q, none), w'))
    (hkeeps : plan.KeepsStored) :
    exists set condition qs, q.resultSet? = some set ∧
      select.criteria.mapM (rootContext options ⟨ref, []⟩ t).qualifyPredicate = .ok condition ∧
      (select.items.mapM fun item => (rootContext options ⟨ref, []⟩ t).qualify item.expr) =
        .ok qs ∧
      ((records.filter fun r => condition.all (isTrueOn host.clock r.get)).mapM fun r =>
        qs.mapM (Eval.scalar host.clock r.get)) = .ok set.rows := by
  have htask := TextQuery.planStatement_single hselect.source hselect.data hlookup hplan
  rcases selectTask_of_rows hselect.aggregates htask with
    ⟨ctx, residual, plan', hwhere, hplan', hsame⟩
  cases hsame
  have hscope : OneScope t ((TextQuery.frameOf t ref).contextIn options [] []) :=
    @Frame.oneScope (TextQuery.frameOf t ref) options [] []
  rcases @OneScope.applyWhere_keeps t _ records host.clock host.clock.universal hscope rfl _
    hcriteria _ _ hwhere with ⟨filters, native, condition, rfl, hqualified, hcondition⟩
  rcases @selectPlan_stored { TextQuery.frameOf t ref with filters } options select ref hselect
    residual (fun b hb => (hcondition.used b hb).1) _ hplan' with ⟨attributes, parts, hstored⟩
  have hall := @allRecords_unordered { TextQuery.frameOf t ref with filters } attributes
    ((store w).database host.clock) records native htable hcondition.filters
  have hlength : ((records.filter native).map (retrieved t attributes)).length ≤
      Run.maxPages * max (store w).pageSize 1 := by
    rw [List.length_map]
    exact Nat.le_trans (List.length_filter_le _ _)
      (Nat.le_trans hfit (Nat.mul_le_mul_left _ (Nat.le_max_left _ _)))
  rcases Run.retrieveAll_all hserves rfl rfl rfl hall hlength with ⟨w₁, hretrieve, _⟩
  rcases Query.resultSet_of_execute hexecute with ⟨rows, hrows, hset⟩
  rcases Run.runPlan_eq_ok hrows with ⟨found, hfound, hrun⟩
  rw [hstored.fetch] at hfound
  cases hretrieve.symm.trans hfound
  rcases hstored.rows_of_run hkeeps hcondition hrun with ⟨qs, hqs, hvalues⟩
  have hnames : Context.SameNames (rootContext options ⟨ref, []⟩ t)
      ({ TextQuery.frameOf t ref with filters }.contextIn options [] []) := ⟨rfl, rfl⟩
  refine ⟨_, condition, qs, hset, hqualified, Outcome.mapM_eq_ok.mpr (hqs.imp fun item e he => ?_),
    Outcome.mapM_eq_ok.mpr hvalues⟩
  rw [<- hnames.qualify]
  exact he

end

/-!
# Letters by their place

The place is shown under the name of another attribute.  That attribute is neither read nor shown, so
nothing is hidden.
-/

/-- `SELECT place AS author, place + '!' FROM letter WHERE place + '!' <> 'Rome!'` -/
def placeSelect : Select :=
  let called : Scalar := .binary (.column (.ofName "place")) .add (.literal (.str "!"))
  { TextQuery.letterSelect with
    items := [⟨.column (.ofName "place"), some "author"⟩, ⟨called, none⟩]
    criteria := some (.compare called .ne (.literal (.str "Rome!")))
    orderBy := []
    offset := none }

def placePlan : Plan :=
  let called : Scalar := .binary (.column (.ofName "place")) .add (.literal (.str "!"))
  { fetch := (TextQuery.frameOf TextQuery.letter ⟨"letter", none, false⟩).query
      [.ofName "place", .aliased "place" "author"] []
    steps := [.filter (.compare called .ne (.literal (.str "Rome!"))), .compute called "Expr1"]
    columns := ["author", "Expr1"] }

theorem placePlan_keepsStored : placePlan.KeepsStored where
  retrieved := by
    decide
  separate := by
    unfold Step.Separate
    decide
  shown := by
    decide

theorem placeSelect_plain : PlainSelect placeSelect ⟨"letter", none, false⟩ := by
  refine ⟨rfl, rfl, ?_, rfl, rfl, rfl, rfl, rfl⟩
  decide

/-- The condition is undecided for the letter without a place and false for the one from Rome. -/
theorem letter_stored_values :
    exists session plan w' q set, (planStatement TextQuery.letterHost.lookup ⟨true, false⟩
        TextQuery.letterHost.clock (.select placeSelect)).run (Session.ofHost TextQuery.letterStore) =
        .ok (.select plan none) session ∧ plan.KeepsStored ∧
      (Query.ofTask "" (.select plan none)).execute TextQuery.letterHost session =
        ((q, none), w') ∧ q.resultSet? = some set ∧
      set.rows = [[.str "London", .str "London!"], [.str "Bath", .str "Bath!"]] := by
  have hplan : exists session, (planStatement TextQuery.letterHost.lookup ⟨true, false⟩
      TextQuery.letterHost.clock (.select placeSelect)).run
        (Session.ofHost TextQuery.letterStore) = .ok (.select placePlan none) session ∧
      session.host = TextQuery.letterStore := ⟨_, rfl, rfl⟩
  rcases hplan with ⟨session, hplan, hhost⟩
  have hserves := TextQuery.serves_hostOf TextQuery.letterClock .standard
  have htable : session.host.tables.get? TextQuery.letter.name = some TextQuery.letters := by
    rw [hhost]
    rfl
  have hfit : TextQuery.letters.length ≤ Run.maxPages * session.host.pageSize := by
    rw [hhost]
    decide
  have hall := @allRecords_unordered (TextQuery.frameOf TextQuery.letter ⟨"letter", none, false⟩)
    [.ofName "place", .aliased "place" "author"] (session.host.database TextQuery.letterClock)
    TextQuery.letters (fun _ => true) htable (fun _ _ => rfl)
  rcases Run.retrieveAll_all hserves rfl rfl rfl hall (by rw [hhost]; decide) with
    ⟨w', hretrieve, _⟩
  have hrun : exists rows, Step.run TextQuery.letterClock placePlan.steps
      ((TextQuery.letters.filter fun _ => true).map (retrieved TextQuery.letter
        [.ofName "place", .aliased "place" "author"])) = .ok rows := ⟨_, rfl⟩
  rcases hrun with ⟨rows, hrun⟩
  have hselected : Run.runSelect TextQuery.letterHost placePlan none session = .ok rows w' :=
    TextQuery.runPlan_of_retrieve hretrieve hrun
  have hexecute := Query.execute_of_runSelect hselected ""
  have hcriteria : forall p, placeSelect.criteria = some p ->
      TextPredicate (TextColumn TextQuery.letter TextQuery.letters) p := by
    intro p hp
    cases hp
    exact .compare (.join (.column (TextQuery.textColumn_letter _)) (.text "!")) (.text "Rome!")
  rcases rows_eq_stored_values hserves placeSelect_plain rfl htable hfit hcriteria hplan hexecute
    placePlan_keepsStored with ⟨set, condition, qs, hset, hcondition, hqs, hvalues⟩
  refine ⟨session, placePlan, w', _, set, hplan, placePlan_keepsStored, hexecute, hset, ?_⟩
  cases hcondition
  cases hqs
  have hrows : (.ok [[.str "London", .str "London!"], [.str "Bath", .str "Bath!"]] :
      Except EvalError (List (List Value))) = .ok set.rows := hvalues
  exact (Except.ok.inj hrows).symm

end Plan
end RecordSql
