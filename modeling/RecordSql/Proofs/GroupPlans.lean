import RecordSql.Proofs.Execution
import RecordSql.Proofs.GroupEngines
import RecordSql.Proofs.GroupSpecs
import RecordSql.Proofs.Stored
import RecordSql.Run.Error

/-!
# The two plans of an aggregate query

An aggregate query that the platform can answer has a second plan, which retrieves rows and groups
them locally.  Both plans fail together, or show the same rows under the same columns.
-/

namespace RecordSql

open Fetch (Database Joined Placed Scope SortKey heldAttributes heldKeys)
open Outcome (Agree)
open Sql (Column OrderKey Predicate Scalar Select SelectItem)

/-- What a plan shows of a database whose platform returns all records at once. -/
def Plan.resultOn (db : Database) (clock : Clock) (plan : Plan) : Except RunError ResultSet :=
  match Fetch.allRecords db plan.fetch with
  | .error e => .error (.platform e)
  | .ok records =>
      match Step.run clock plan.steps records with
      | .error e => .error (.eval e)
      | .ok rows => .ok ⟨plan.columns, rows⟩

namespace Plan

/-!
# Contexts after a condition
-/

/-- A condition only adds filters to the scopes of a context. -/
theorem applyWhere_updateAll {ctx ctx' : Context} {clock : Clock} {criteria : Option Predicate}
    {residual : Residual} (h : ctx.applyWhere clock criteria = .ok (ctx', residual)) :
    exists filters : List (Nat × Fetch.Filter),
      ctx' = ctx.updateAll (·.1) (fun x s => s.addFilter x.2) filters ∧
      (forall x, x ∈ filters -> x.1 < ctx.scopes.length) ∧
      forall b, b ∈ residual.used -> b.scope < ctx.scopes.length := by
  cases criteria with
  | none =>
      cases h
      refine ⟨[], rfl, ?_, ?_⟩ <;> intro _ hmem <;> cases hmem
  | some p =>
      rcases Context.applyWhere_some h with ⟨split, _, rfl, rfl⟩
      refine ⟨((List.range ctx.scopes.length).filter fun i => split.native.any (·.scope == i)).map
        fun i => (i, groupItems ((split.native.filter (·.scope == i)).map (·.item))), ?_, ?_, ?_⟩
      · rw [Context.updateAll, List.foldl_map]
        rfl
      · intro x hx
        rcases List.mem_map.mp hx with ⟨i, hi, rfl⟩
        exact List.mem_range.mp (List.mem_of_mem_filter hi)
      · intro b hb
        rcases mem_foldl_use.mp hb with hb | ⟨_, _, hb⟩
        · cases hb
        · rcases mem_use.mp hb with hb | ⟨c, _, hc⟩
          · cases hb
          · exact Scopes.resolve_lt (Context.resolve_eq hc)

theorem updateAll_options {β : Type} (scope : β -> Nat) (change : β -> Scope -> Scope)
    (ctx : Context) (changes : List β) :
    (ctx.updateAll scope change changes).options = ctx.options := by
  induction changes generalizing ctx with
  | nil =>
      rfl
  | cons b rest ih =>
      exact ih (ctx.update (scope b) (change b))

theorem plainColumn?_congr {ctx ctx' : Context} (hscopes : ctx'.scopes = ctx.scopes)
    (hoptions : ctx'.options = ctx.options) (e : Scalar) :
    ctx'.plainColumn? e = ctx.plainColumn? e := by
  cases e with
  | column c =>
      unfold Context.plainColumn? Context.bound? Context.resolve
      rw [hscopes, hoptions]
  | _ =>
      rfl

/-- Filters leave the tables of a tree alone. -/
theorem Rooted.tables_addFilters {ctx : Context} (h : Rooted ctx)
    {filters : List (Nat × Fetch.Filter)}
    (hfilters : forall x, x ∈ filters -> x.1 < ctx.scopes.length) :
    ((ctx.updateAll (·.1) (fun x s => s.addFilter x.2) filters).fetch.root.tables "").Perm
      (ctx.fetch.root.tables "") := by
  have hperm := @Rooted.gather_updateAll _ _ (·.1) (fun (x : Nat × Fetch.Filter) s =>
    s.addFilter x.2) ctx h (fun x => Scope.extends_addFilter x.2)
    (fun front s => [(front, s.table)]) (fun _ _ => [])
    (fun x front s => List.Perm.of_eq (Scope.gather_addFilter fun _ => rfl)) filters hfilters
  refine hperm.trans (List.Perm.of_eq ?_)
  rw [show filters.flatMap (fun _ => ([] : List (String × String))) = [] from
    List.flatMap_eq_nil_iff.mpr fun _ _ => rfl]
  rfl

/-!
# The native plan
-/

namespace GroupPlan

/-- The context of the native plan, with the attributes and orders of its scopes. -/
def nativeContext (p : GroupPlan) (orders : List (Nat × Fetch.Order)) : Context :=
  (p.ctx.updateAll (·.1) (fun x s => s.addAttribute x.2) p.nativeAttributes).updateAll (·.1)
    (fun x s => s.addOrder x.2) orders

/-- The native plan sorts by native orders, or else by a local step. -/
theorem nativePlan_eq {p : GroupPlan} {plan : Plan} (h : p.nativePlan = .ok plan)
    (hdistinct : p.select.distinct = false) (htop : p.select.top = none)
    (hoffset : p.select.offset = none) :
    exists orders sorts,
      plan = ⟨{ (p.nativeContext orders).fetch with aggregate := true, distinct := false },
        p.steps ++ sorts, p.columns⟩ ∧
      ((p.nativeOrders none p.grouped.orderBy = some orders ∧ sorts = []) ∨
        p.nativeOrders none p.grouped.orderBy = none ∧ orders = [] ∧ sorts = [p.sortStep]) := by
  have hnone : forall columns outputs, distinctStep p.select columns outputs = [] := by
    intro columns outputs
    rw [distinctStep, hdistinct, if_neg Bool.false_ne_true]
  simp only [nativePlan, hnone, List.append_nil, htop, hoffset, applyLimits, applyTop,
    applyOffset, Outcome.ok_bind] at h
  cases horders : p.nativeOrders none p.grouped.orderBy with
  | none =>
      rw [horders] at h
      cases h
      exact ⟨[], [p.sortStep], rfl, Or.inr ⟨rfl, rfl, rfl⟩⟩
  | some orders =>
      rw [horders] at h
      cases h
      exact ⟨orders, [], rfl, Or.inl ⟨rfl, rfl⟩⟩

theorem scopeRows_nativeContext (db : Database) (p : GroupPlan)
    (orders : List (Nat × Fetch.Order)) :
    Fetch.scopeRows db "" (p.nativeContext orders).fetch.root =
      Fetch.scopeRows db "" p.ctx.fetch.root := by
  refine (scopeRows_updateAll (fun x front s => Scope.scopeRows_addOrder db x.2 front s) _
    orders).trans ?_
  exact scopeRows_updateAll (fun x front s => Scope.scopeRows_addAttribute db x.2 front s) p.ctx _

/-- The native query returns the group columns and the aggregates. -/
theorem placed_nativeContext {p : GroupPlan} (hready : Ready p.ctx)
    {orders : List (Nat × Fetch.Order)}
    (horders : forall x, x ∈ orders -> x.1 < p.ctx.scopes.length)
    (hscopes : forall x, x ∈ p.nativeAttributes -> x.1 < p.ctx.scopes.length) :
    (p.nativeContext orders).placed.Perm
      (p.nativeAttributes.map fun x => ⟨p.ctx.scopes.front x.1, x.2⟩) := by
  have hrooted := @Rooted.updateAll _ (·.1) (fun (x : Nat × Fetch.Attribute) s =>
    s.addAttribute x.2) p.ctx hready.rooted (fun x => Scope.extends_addAttribute x.2)
    p.nativeAttributes
  have hattributes := @Rooted.gather_updateAll _ _ (·.1) (fun (x : Nat × Fetch.Attribute) s =>
    s.addAttribute x.2) p.ctx hready.rooted (fun x => Scope.extends_addAttribute x.2)
    heldAttributes (fun x front => [⟨front, x.2⟩])
    (fun x front s => Scope.gather_addAttribute front s x.2) p.nativeAttributes hscopes
  have hordered := @Rooted.gather_updateAll _ _ (·.1) (fun (x : Nat × Fetch.Order) s =>
    s.addOrder x.2) _ hrooted (fun x => Scope.extends_addOrder x.2) heldAttributes (fun _ _ => [])
    (fun x front s => List.Perm.of_eq (Scope.gather_addOrder (fun _ => rfl) s)) orders
    (by rw [updateAll_scopes]; exact horders)
  refine (hordered.trans (hattributes.append_left _)).trans (List.Perm.of_eq ?_)
  rw [List.flatMap_eq_nil_iff.mpr fun _ _ => rfl, hready.bare.attributes, List.append_nil,
    List.nil_append, <- List.map_eq_flatMap]

/-!
# The local plan
-/

/-- The attributes that rows are grouped by. -/
def keyColumns (p : GroupPlan) : List Bound :=
  p.groups.filterMap (·.column)

/-- The context of the local plan: what it needs is returned, sorted by the group columns. -/
def localContext (p : GroupPlan) (whereUsed : List Bound) : Context :=
  (p.ctx.ensureAll (p.needed whereUsed)).updateAll (·.scope)
    (fun b s => s.addOrder (.byColumn b.name false)) p.keyColumns

/-- The columns of texts that rows are grouped by. -/
def foldedColumns (p : GroupPlan) : List Column :=
  (p.keyColumns.filter fun b => (p.ctx.typeOf? b).any (·.isString)).map p.ctx.scopes.qualified

/-- The step that groups retrieved rows. -/
def aggregateStep (p : GroupPlan) : Step :=
  .aggregate (p.groups.map fun g => ⟨g.expr, g.output⟩)
    (p.aggregates.map fun a => ⟨a.function, a.arg, a.distinct, a.output⟩)

/-- The steps after grouping that sort the groups. -/
def localSorts (p : GroupPlan) : List Step :=
  if p.grouped.orderBy.isEmpty then [] else [p.sortStep]

theorem localPlan_eq {p : GroupPlan} {residual : Residual} {plan : Plan}
    (h : p.localPlan residual = .ok plan) (hresidual : residual.predicate = none)
    (hdistinct : p.select.distinct = false) (htop : p.select.top = none)
    (hoffset : p.select.offset = none) :
    plan = ⟨(p.localContext residual.used).fetch,
      p.foldedColumns.map Step.foldCase ++ ([p.aggregateStep] ++ (p.steps ++ p.localSorts)),
      p.columns⟩ := by
  have hnone : forall columns outputs, distinctStep p.select columns outputs = [] := by
    intro columns outputs
    rw [distinctStep, hdistinct, if_neg Bool.false_ne_true]
  simp only [localPlan, hnone, hresidual, List.append_nil, htop, hoffset, applyLimits, applyTop,
    applyOffset, Outcome.ok_bind, Option.map_none, Option.toList_none, List.nil_append] at h
  cases h
  rw [foldedColumns, List.map_map, List.append_assoc, List.append_assoc]
  rfl

theorem scopeRows_localContext (db : Database) (p : GroupPlan) (whereUsed : List Bound) :
    Fetch.scopeRows db "" (p.localContext whereUsed).fetch.root =
      Fetch.scopeRows db "" p.ctx.fetch.root := by
  refine (scopeRows_updateAll (fun (b : Bound) front s =>
    Scope.scopeRows_addOrder db (.byColumn b.name false) front s) _ p.keyColumns).trans ?_
  exact @scopeRows_updateAll Bound (·.scope) (fun b s => s.ensure b.name) db
    (fun b front s => Scope.scopeRows_ensure db b.name front s) p.ctx (p.needed whereUsed)

theorem mem_needed {p : GroupPlan} {whereUsed : List Bound} {b : Bound} :
    b ∈ p.needed whereUsed <-> b ∈ whereUsed ∨ (exists g, g ∈ p.groups ∧ b ∈ g.used) ∨
      (exists a, a ∈ p.aggregates ∧ b ∈ a.used) ∨
      exists a, a ∈ p.aggregates ∧ a.arg = none ∧ a.column = some b := by
  rw [needed, mem_foldl_addBound, List.mem_append, List.mem_append, List.mem_flatMap,
    List.mem_flatMap, List.mem_filterMap, or_assoc]
  simp only [List.mem_filter, Option.isNone_iff_eq_none, and_assoc]

section

variable {p : GroupPlan} {whereUsed : List Bound}

/-- The columns of the local plan are columns of the scopes. -/
structure InScope (p : GroupPlan) (whereUsed : List Bound) : Prop where
  ready : Ready p.ctx
  needed : forall b, b ∈ p.needed whereUsed -> b.scope < p.ctx.scopes.length
  keys : forall b, b ∈ p.keyColumns -> b.scope < p.ctx.scopes.length

theorem ensureAll_scopes (ctx : Context) (columns : List Bound) :
    (ctx.ensureAll columns).scopes = ctx.scopes :=
  @updateAll_scopes Bound (·.scope) (fun b s => s.ensure b.name) ctx columns

theorem InScope.rooted_ensured (h : p.InScope whereUsed) :
    Rooted (p.ctx.ensureAll (p.needed whereUsed)) :=
  @Rooted.updateAll Bound (·.scope) (fun b s => s.ensure b.name) p.ctx h.ready.rooted
    (fun b => Scope.extends_ensure b.name) (p.needed whereUsed)

/-- Orders by columns leave what is returned alone. -/
theorem InScope.placed_perm (h : p.InScope whereUsed) :
    (p.localContext whereUsed).placed.Perm (p.ctx.ensureAll (p.needed whereUsed)).placed := by
  have hkeys : forall b, b ∈ p.keyColumns ->
      b.scope < (p.ctx.ensureAll (p.needed whereUsed)).scopes.length := by
    rw [ensureAll_scopes]
    exact h.keys
  have hperm := @Rooted.gather_updateAll Bound _ (·.scope)
    (fun b s => s.addOrder (.byColumn b.name false)) _ h.rooted_ensured
    (fun b => Scope.extends_addOrder _) heldAttributes (fun _ _ => [])
    (fun b front s => List.Perm.of_eq (Scope.gather_addOrder (fun _ => rfl) s)) p.keyColumns hkeys
  refine hperm.trans (List.Perm.of_eq ?_)
  rw [List.flatMap_eq_nil_iff.mpr fun _ _ => rfl]
  rfl

/-- The local plan returns every column that it needs, and nothing under another name. -/
theorem InScope.returns (h : p.InScope whereUsed) :
    Unnamed (p.localContext whereUsed) ∧ forall b, b ∈ p.needed whereUsed ->
      Returns (p.localContext whereUsed) (p.ctx.scopes.rowKey b) := by
  rcases placed_ensureAll h.ready.rooted h.ready.unnamed h.needed with ⟨hunnamed, _, hreturns⟩
  constructor
  · intro placed hplaced
    exact hunnamed placed (h.placed_perm.mem_iff.mp hplaced)
  · intro b hb
    rcases hreturns b hb with ⟨placed, hplaced, hkey⟩
    exact ⟨placed, h.placed_perm.mem_iff.mpr hplaced, hkey⟩

/-- The local plan sorts retrieved rows by its group columns. -/
theorem InScope.sortKeys (h : p.InScope whereUsed) (attributes : List Placed) {key : SortKey}
    (hkey : key ∈ Fetch.scopeSortKeys false attributes "" (p.localContext whereUsed).fetch.root) :
    key.name ∈ p.keyColumns.map p.ctx.scopes.rowKey := by
  have hkeys : forall b, b ∈ p.keyColumns ->
      b.scope < (p.ctx.ensureAll (p.needed whereUsed)).scopes.length := by
    rw [ensureAll_scopes]
    exact h.keys
  have hensured := @Rooted.gather_updateAll Bound _ (·.scope) (fun b s => s.ensure b.name) p.ctx
    h.ready.rooted (fun b => Scope.extends_ensure b.name) (heldKeys false attributes)
    (fun _ _ => []) (fun b front s => List.Perm.of_eq (Scope.gather_ensure _ _ _ _ s))
    (p.needed whereUsed) h.needed
  have hordered := @Rooted.gather_updateAll Bound _ (·.scope)
    (fun b s => s.addOrder (.byColumn b.name false)) _ h.rooted_ensured
    (fun b => Scope.extends_addOrder _) (heldKeys false attributes)
    (fun b front => [⟨front ++ b.name, false⟩])
    (fun b front s => Scope.gather_addOrder_byColumn false attributes front s b.name false)
    p.keyColumns hkeys
  rw [ensureAll_scopes] at hordered
  rw [Fetch.scopeSortKeys_eq] at hkey
  rcases List.mem_append.mp (hordered.mem_iff.mp hkey) with hkey | hkey
  · rcases List.mem_flatMap.mp hkey with ⟨b, hb, hkey⟩
    rw [List.mem_singleton.mp hkey]
    exact List.mem_map.mpr ⟨b, hb, Scopes.rowKey_eq p.ctx.scopes b⟩
  · have hbase := hensured.mem_iff.mp hkey
    rw [List.flatMap_eq_nil_iff.mpr fun _ _ => rfl, h.ready.bare.orders] at hbase
    cases hbase

end

/-!
# What both plans group by and summarise
-/

/-- The attribute of a group key that is a column. -/
def boundOf (g : GroupSpec) : Bound :=
  g.column.getD ⟨0, ""⟩

/-- The columns to group by with their outputs. -/
def shownGroups (p : GroupPlan) : List (Column × String) :=
  p.groups.map fun g => (p.ctx.scopes.qualified (boundOf g), g.output)

/-- The summaries of a group with their outputs. -/
def shownColumns (p : GroupPlan) : List AggregateColumn :=
  p.aggregates.map fun a => ⟨a.function, a.arg, a.distinct, a.output⟩

theorem rowCount_cases {name : String} {distinct : Bool} {args : List Scalar}
    (h : (Scalar.call name distinct args).isRowCount = true) :
    distinct = false ∧ Text.sameName name "count" = true := by
  unfold Scalar.isRowCount at h
  split at h
  · rename_i heq
    cases heq
    exact ⟨rfl, h⟩
  · rename_i heq
    cases heq
    exact ⟨rfl, h⟩
  · cases h

section

variable {p : GroupPlan} {ctx : Context} {select : Select} (h : p.Specified ctx select)
include h

theorem Specified.column_eq {g : GroupSpec} (hg : g ∈ p.groups) :
    g.column = some (boundOf g) ∧ g.expr = .column (p.ctx.scopes.qualified (boundOf g)) ∧
      g.used = [boundOf g] ∧ exists e, e ∈ select.groupBy ∧
        p.ctx.plainColumn? e = some (boundOf g) := by
  rcases h.groups g hg with ⟨b, hcolumn, hexpr, hused, hbound⟩
  have hb : boundOf g = b := by
    rw [boundOf, hcolumn]
    rfl
  rw [hb, h.context]
  exact ⟨hcolumn, hexpr, hused, hbound⟩

theorem Specified.keyColumns_eq : p.keyColumns = p.groups.map boundOf := by
  rw [keyColumns, <- List.filterMap_eq_map]
  refine List.filterMap_congr ?_
  intro g hg
  exact (h.column_eq hg).1

theorem Specified.groupKeys_eq :
    (p.groups.map fun g => (⟨g.expr, g.output⟩ : GroupKey)) = p.shownGroups.map Step.groupKey := by
  rw [shownGroups, List.map_map]
  refine List.map_congr_left ?_
  intro g hg
  rw [(h.column_eq hg).2.1]
  rfl

/-- An aggregate that can be native counts rows, or summarises a column that it reads. -/
theorem Specified.aggregate_cases (hnonempty : 0 < p.ctx.scopes.length) {a : AggregateSpec}
    (ha : a ∈ p.aggregates) :
    exists b, a.column = some b ∧ b.scope < p.ctx.scopes.length ∧
      ((a.arg = none ∧ a.function = "count" ∧ a.distinct = false) ∨
        a.arg = some (.column (p.ctx.scopes.qualified b)) ∧ b ∈ a.used) := by
  rcases h.aggregates a ha with ⟨b, name, distinct, args, hof, hcolumn⟩
  rw [<- h.context] at hof
  refine ⟨b, hcolumn, ?_⟩
  rcases hof.cases hcolumn with ⟨hrows, harg, rfl⟩ | ⟨arg, rfl, hplain, harg⟩
  · rcases rowCount_cases hrows with ⟨rfl, hname⟩
    refine ⟨hnonempty, Or.inl ⟨harg, ?_, hof.distinct⟩⟩
    rw [hof.function, Text.sameName_iff.mp hname]
    decide
  · refine ⟨scope_lt_of_plainColumn hplain, Or.inr ⟨harg, ?_⟩⟩
    rcases plainColumn?_eq_some hplain with ⟨c, rfl, hc⟩
    rw [hof.used]
    refine mem_use.mpr (Or.inr ⟨c, ?_, hc⟩)
    rw [reads, readsOfList, reads]
    exact List.mem_append_left _ (List.mem_singleton.mpr rfl)

/-- The columns of both plans belong to the scopes. -/
theorem Specified.inScope (hready : Ready p.ctx) {whereUsed : List Bound}
    (hused : forall b, b ∈ whereUsed -> b.scope < p.ctx.scopes.length) :
    p.InScope whereUsed := by
  have hgroup : forall g, g ∈ p.groups -> (boundOf g).scope < p.ctx.scopes.length := by
    intro g hg
    rcases (h.column_eq hg).2.2.2 with ⟨e, _, hplain⟩
    exact scope_lt_of_plainColumn hplain
  refine ⟨hready, ?_, ?_⟩
  · intro b hb
    rcases mem_needed.mp hb with hb | ⟨g, hg, hb⟩ | ⟨a, ha, hb⟩ | ⟨a, ha, _, hb⟩
    · exact hused b hb
    · rw [(h.column_eq hg).2.2.1] at hb
      rw [List.mem_singleton.mp hb]
      exact hgroup g hg
    · rcases h.aggregates a ha with ⟨_, _, _, _, hof, _⟩
      rw [hof.used] at hb
      rcases mem_use.mp hb with hb | ⟨c, _, hc⟩
      · cases hb
      · rw [h.context]
        exact Scopes.resolve_lt (Context.resolve_eq hc)
    · rcases h.aggregate_cases hready.nonempty ha with ⟨b', hcolumn, hscope, _⟩
      rw [hb] at hcolumn
      cases hcolumn
      exact hscope
  · intro b hb
    rw [h.keyColumns_eq] at hb
    rcases List.mem_map.mp hb with ⟨g, hg, rfl⟩
    exact hgroup g hg

end

/-- The native attribute of a group key, with the front of its scope. -/
def placedGroup (p : GroupPlan) (g : GroupSpec) : Placed :=
  ⟨p.ctx.scopes.front (boundOf g).scope,
    { Fetch.Attribute.aliased (boundOf g).name g.output with groupBy := true }⟩

/-- The native attribute of an aggregate, with the front of its scope. -/
def placedAggregate (p : GroupPlan) (a : AggregateSpec) : Placed :=
  ⟨p.ctx.scopes.front (a.column.getD ⟨0, ""⟩).scope,
    { Fetch.Attribute.aliased (a.column.getD ⟨0, ""⟩).name a.output with
      aggregation := some a.aggregation, distinct := a.distinct }⟩

theorem Specified.placed_eq {p : GroupPlan} {ctx : Context} {select : Select}
    (h : p.Specified ctx select) (hnonempty : 0 < p.ctx.scopes.length) :
    (p.nativeAttributes.map fun x => (⟨p.ctx.scopes.front x.1, x.2⟩ : Placed)) =
      p.groups.map p.placedGroup ++ p.aggregates.map p.placedAggregate := by
  rw [nativeAttributes, List.map_append, List.map_filterMap, List.map_filterMap,
    <- List.filterMap_eq_map, <- List.filterMap_eq_map]
  congr 1
  · refine List.filterMap_congr ?_
    intro g hg
    rw [(h.column_eq hg).1]
    rfl
  · refine List.filterMap_congr ?_
    intro a ha
    rcases h.aggregate_cases hnonempty ha with ⟨b, hcolumn, _⟩
    rw [Function.comp_apply, placedAggregate, hcolumn]
    rfl

/-- The name of an aggregation is that of its function, and only counting takes no argument. -/
theorem aggregation_function {a : AggregateSpec}
    (h : Sql.aggregateNames.contains a.function = true) :
    a.aggregation.function = a.function ∧
      (a.aggregation = .count <-> a.function = "count" ∧ a.arg = none) := by
  rcases a with ⟨function, arg, column, used, distinct, output, key⟩
  have hnames : function = "count" ∨ function = "sum" ∨ function = "avg" ∨ function = "min" ∨
      function = "max" := by
    simpa [Sql.aggregateNames] using h
  rcases hnames with rfl | rfl | rfl | rfl | rfl <;> cases arg <;>
    simp [AggregateSpec.aggregation, Fetch.Aggregation.function, Fetch.Aggregation.name]


theorem groupsOf_perm {p : GroupPlan} {attributes : List Placed}
    (hperm : attributes.Perm (p.groups.map p.placedGroup ++ p.aggregates.map p.placedAggregate)) :
    ((Fetch.groupsOf attributes).map fun a => (a.output, a.key)).Perm
      (p.shownGroups.map fun g => (g.2, g.1.rowKey)) := by
  have hfilter : Fetch.groupsOf (p.groups.map p.placedGroup ++ p.aggregates.map p.placedAggregate) =
      p.groups.map p.placedGroup := by
    rw [Fetch.groupsOf, List.filter_append, List.filter_eq_self.mpr, List.filter_eq_nil_iff.mpr,
      List.append_nil]
    · intro placed hplaced
      rcases List.mem_map.mp hplaced with ⟨a, _, rfl⟩
      exact Bool.false_ne_true
    · intro placed hplaced
      rcases List.mem_map.mp hplaced with ⟨g, _, rfl⟩
      rfl
  have hgroups := (hperm.filter (·.attr.groupBy)).map fun a => (a.output, a.key)
  refine hgroups.trans (List.Perm.of_eq ?_)
  rw [show List.filter _ _ = _ from hfilter, shownGroups, List.map_map, List.map_map]
  refine List.map_congr_left ?_
  intro g _
  exact congrArg (g.output, ·) (Scopes.rowKey_eq p.ctx.scopes (boundOf g)).symm

/-- Both plans compute the same summaries of joined rows. -/
theorem Specified.summedOf_perm {p : GroupPlan} {ctx : Context} {select : Select}
    (h : p.Specified ctx select) (hnonempty : 0 < p.ctx.scopes.length) {attributes : List Placed}
    (hperm : attributes.Perm (p.groups.map p.placedGroup ++ p.aggregates.map p.placedAggregate))
    (clock : Clock) {shown : Joined -> Row}
    (hshown : forall a, a ∈ p.aggregates -> forall b, b ∈ a.used -> forall row,
      (shown row).get (p.ctx.scopes.rowKey b) = row.get (p.ctx.scopes.rowKey b)) :
    ((Fetch.summedOf attributes).map Fetch.sum).Perm
      (p.shownColumns.map (Step.sum clock shown)) := by
  have hfilter : Fetch.summedOf (p.groups.map p.placedGroup ++ p.aggregates.map p.placedAggregate) =
      p.aggregates.map p.placedAggregate := by
    rw [Fetch.summedOf, List.filter_append, List.filter_eq_nil_iff.mpr, List.filter_eq_self.mpr,
      List.nil_append]
    · intro placed hplaced
      rcases List.mem_map.mp hplaced with ⟨a, _, rfl⟩
      rfl
    · intro placed hplaced
      rcases List.mem_map.mp hplaced with ⟨g, _, rfl⟩
      exact Bool.false_ne_true
  have hsums := (hperm.filter (·.attr.aggregation.isSome)).map Fetch.sum
  refine hsums.trans (List.Perm.of_eq ?_)
  rw [show List.filter _ _ = _ from hfilter, shownColumns, List.map_map, List.map_map]
  refine List.map_congr_left ?_
  intro a ha
  rcases h.aggregates a ha with ⟨_, _, _, _, hof, _⟩
  rcases aggregation_function hof.known with ⟨hfunction, hcount⟩
  rcases h.aggregate_cases hnonempty ha with ⟨b, hcolumn, _, hcases⟩
  refine Prod.ext rfl ?_
  change Fetch.summary (p.placedAggregate a) a.aggregation =
    (Step.summary clock ⟨a.function, a.arg, a.distinct, a.output⟩).comap shown
  have hkey : (p.placedAggregate a).key = p.ctx.scopes.rowKey b := by
    rw [Scopes.rowKey_eq, placedAggregate, hcolumn]
    rfl
  unfold Fetch.summary Step.summary Summary.comap
  rw [hfunction, hkey]
  rcases hcases with ⟨harg, hname, hdistinct⟩ | ⟨harg, hused⟩
  · have htype : a.aggregation = .count := hcount.mpr ⟨hname, harg⟩
    have hplain : (p.placedAggregate a).attr.distinct = false := hdistinct
    rw [htype, harg, hplain, hdistinct]
    rfl
  · have htype : a.aggregation ≠ .count := by
      intro heq
      rw [(hcount.mp heq).2] at harg
      cases harg
    simp only [harg, beq_eq_false_iff_ne.mpr htype]
    congr 1
    funext row
    have hget := hshown a ha b hused row
    exact congrArg (fun v => Except.ok [v]) hget.symm

/-!
# Steps after grouping
-/

theorem groupColumns_rowwise (unnamed : Nat) (items : List SelectItem) :
    forall step, step ∈ (groupColumns unnamed items).2 -> step.isRowwise = true := by
  induction items generalizing unnamed with
  | nil =>
      intro step hstep
      cases hstep
  | cons item rest ih =>
      have hcompute : forall (unnamed : Nat) (output : String) (step : Step),
          step ∈ Step.compute item.expr output :: (groupColumns unnamed rest).2 ->
            step.isRowwise = true := by
        intro unnamed output step hstep
        rcases List.mem_cons.mp hstep with rfl | hstep
        · rfl
        · exact ih unnamed step hstep
      rw [groupColumns]
      split
      · exact ih unnamed
      · split
        · exact ih unnamed
        · exact hcompute _ _
      · exact hcompute _ _
      · exact hcompute _ _

/-- The groups are filtered and their columns computed row by row. -/
theorem steps_rowwise {ctx : Context} {select : Select} {p : GroupPlan}
    (h : groupPlan ctx select = .ok p) : forall step, step ∈ p.steps -> step.isRowwise = true := by
  unfold groupPlan at h
  split at h
  · cases h
  · simp only [Outcome.bind_eq_ok] at h
    rcases h with ⟨_, _, _, _, _, _, grouped, _, _, _, h⟩
    cases h
    intro step hstep
    rcases List.mem_append.mp hstep with hstep | hstep
    · cases hhaving : grouped.having with
      | none =>
          rw [hhaving] at hstep
          cases hstep
      | some q =>
          rw [hhaving] at hstep
          rw [List.mem_singleton.mp hstep]
          rfl
    · exact groupColumns_rowwise 0 _ step hstep

theorem nativeOrders_cons {p : GroupPlan} {last : Option (List Nat)} {key : OrderKey}
    {rest : List OrderKey} {orders : List (Nat × Fetch.Order)}
    (h : p.nativeOrders last (key :: rest) = some orders) :
    exists c b others, key.expr = .column c ∧ p.outputColumn? c.name = some b ∧
      p.nativeOrders (some (p.ctx.scopes.pathOf b.scope)) rest = some others ∧
      orders = (b.scope, .byAlias c.name key.descending) :: others := by
  simp only [nativeOrders, Option.bind_eq_bind, Option.bind_eq_some_iff] at h
  rcases h with ⟨c, hc, b, hb, h⟩
  split at h
  · cases h
  · rw [Option.bind_eq_some_iff] at h
    rcases h with ⟨others, hothers, horders⟩
    refine ⟨c, b, others, ?_, hb, hothers, (Option.some.inj horders).symm⟩
    cases hexpr : key.expr with
    | column c' =>
        rw [hexpr] at hc
        cases hc
        rfl
    | _ =>
        rw [hexpr] at hc
        cases hc

/-- Native orders are by columns of the groups. -/
theorem nativeOrders_columns {p : GroupPlan} {last : Option (List Nat)} {keys : List OrderKey}
    {orders : List (Nat × Fetch.Order)} (h : p.nativeOrders last keys = some orders) :
    forall key, key ∈ keys -> exists c, key.expr = .column c := by
  induction keys generalizing last orders with
  | nil =>
      intro key hkey
      cases hkey
  | cons key rest ih =>
      rcases nativeOrders_cons h with ⟨c, _, _, hexpr, _, hothers, _⟩
      intro k hk
      rcases List.mem_cons.mp hk with rfl | hk
      · exact ⟨c, hexpr⟩
      · exact ih hothers k hk

theorem outputColumn?_cases {p : GroupPlan} {name : String} {b : Bound}
    (h : p.outputColumn? name = some b) :
    (exists g, g ∈ p.groups ∧ g.column = some b) ∨
      exists a, a ∈ p.aggregates ∧ a.column = some b := by
  rw [outputColumn?, Option.or_eq_some_iff] at h
  rcases h with h | ⟨_, h⟩
  · rcases Option.bind_eq_some_iff.mp h with ⟨g, hg, hb⟩
    exact Or.inl ⟨g, List.mem_of_find?_eq_some hg, hb⟩
  · rcases Option.bind_eq_some_iff.mp h with ⟨a, ha, hb⟩
    exact Or.inr ⟨a, List.mem_of_find?_eq_some ha, hb⟩

/-- Native orders belong to the scopes. -/
theorem Specified.nativeOrders_lt {p : GroupPlan} {ctx : Context} {select : Select}
    (h : p.Specified ctx select) (hready : Ready p.ctx) {last : Option (List Nat)}
    {keys : List OrderKey} {orders : List (Nat × Fetch.Order)}
    (horders : p.nativeOrders last keys = some orders) :
    forall x, x ∈ orders -> x.1 < p.ctx.scopes.length := by
  induction keys generalizing last orders with
  | nil =>
      cases horders
      intro x hx
      cases hx
  | cons key rest ih =>
      rcases nativeOrders_cons horders with ⟨c, b, others, _, hb, hothers, rfl⟩
      intro x hx
      rcases List.mem_cons.mp hx with rfl | hx
      · rcases outputColumn?_cases hb with ⟨g, hg, hcolumn⟩ | ⟨a, ha, hcolumn⟩
        · rcases h.column_eq hg with ⟨hbound, _, _, e, _, hplain⟩
          rw [hcolumn] at hbound
          rw [<- Option.some.inj hbound] at hplain
          exact scope_lt_of_plainColumn hplain
        · rcases h.aggregate_cases hready.nonempty ha with ⟨b', hb', hscope, _⟩
          rw [hcolumn] at hb'
          cases hb'
          exact hscope
      · exact ih hothers x hx

/-- Native attributes belong to the scopes. -/
theorem Specified.nativeAttributes_lt {p : GroupPlan} {ctx : Context} {select : Select}
    (h : p.Specified ctx select) (hready : Ready p.ctx) :
    forall x, x ∈ p.nativeAttributes -> x.1 < p.ctx.scopes.length := by
  intro x hx
  rcases List.mem_append.mp hx with hx | hx
  · rcases List.mem_filterMap.mp hx with ⟨g, hg, hx⟩
    rcases h.column_eq hg with ⟨hbound, _, _, e, _, hplain⟩
    rw [hbound] at hx
    cases hx
    exact scope_lt_of_plainColumn hplain
  · rcases List.mem_filterMap.mp hx with ⟨a, ha, hx⟩
    rcases h.aggregate_cases hready.nonempty ha with ⟨b, hb, hscope, _⟩
    rw [hb] at hx
    cases hx
    exact hscope

/-!
# Groups of both plans
-/

/-- A retrieved row as the local plan groups it. -/
def shownRow (p : GroupPlan) (whereUsed : List Bound) (row : Joined) : Row :=
  (Row.ofRecord (Fetch.project (p.localContext whereUsed).fetch.root
    (Fetch.placedAttributes "" (p.localContext whereUsed).fetch.root) row)).foldColumns
      p.foldedColumns

theorem InScope.get_shownRow {p : GroupPlan} {whereUsed : List Bound} (h : p.InScope whereUsed)
    {b : Bound} (hb : b ∈ p.needed whereUsed) (row : Joined) :
    (p.shownRow whereUsed row).get (p.ctx.scopes.rowKey b) =
      row.get (p.ctx.scopes.rowKey b) := by
  rcases h.returns with ⟨hunnamed, hreturns⟩
  rw [Row.get, shownRow, Row.record_foldColumns, Fetch.placedAttributes_eq]
  exact Fetch.get_project hunnamed (hreturns b hb) row

/-- The values of a column can be grouped: they are of one kind, and texts only in text columns. -/
structure Groupable (db : Database) (ctx : Context) (b : Bound) : Prop where
  uniform : exists kind, kind ≠ Value.Kind.float ∧
    forall v, Fetch.StoredIn db (ctx.fetch.root.tables "") (ctx.scopes.rowKey b) v ->
      Value.OfKind kind v
  texts : forall v, Fetch.StoredIn db (ctx.fetch.root.tables "") (ctx.scopes.rowKey b) v ->
    v.kind? = some .text -> (ctx.typeOf? b).any (·.isString) = true

/-- Both plans find the same groups, which later steps cannot tell apart. -/
theorem Specified.agree_groups {p : GroupPlan} {ctx : Context} {select : Select}
    (h : p.Specified ctx select) (hready : Ready p.ctx) {whereUsed : List Bound}
    (hinScope : p.InScope whereUsed) (db : Database) (clock : Clock)
    (hgroupable : forall g, g ∈ p.groups -> Groupable db p.ctx (boundOf g))
    {rows : List Joined} (hrows : Fetch.scopeRows db "" p.ctx.fetch.root = .ok rows)
    (table : String) {attributes : List Placed}
    (hperm : attributes.Perm (p.groups.map p.placedGroup ++ p.aggregates.map p.placedAggregate)) :
    Agree (fun records rows => SameRows (records.map Row.ofRecord) rows)
      (Fetch.aggregateRows table attributes rows)
      (Step.aggregateRows clock (p.shownGroups.map Step.groupKey) p.shownColumns
        ((Fetch.sortBy Joined.get (Fetch.scopeSortKeys false
          (Fetch.placedAttributes "" (p.localContext whereUsed).fetch.root) ""
            (p.localContext whereUsed).fetch.root) rows).map (p.shownRow whereUsed))) := by
  have hneeded : forall g, g ∈ p.groups -> boundOf g ∈ p.needed whereUsed := by
    intro g hg
    refine mem_needed.mpr (Or.inr (Or.inl ⟨g, hg, ?_⟩))
    rw [(h.column_eq hg).2.2.1]
    exact List.mem_singleton.mpr rfl
  have hgroup : forall x, x ∈ p.shownGroups -> exists g, g ∈ p.groups ∧
      x.1 = p.ctx.scopes.qualified (boundOf g) := by
    intro x hx
    rcases List.mem_map.mp hx with ⟨g, hg, rfl⟩
    exact ⟨g, hg, rfl⟩
  have hget : forall x, x ∈ p.shownGroups -> forall row,
      (p.shownRow whereUsed row).get x.1.rowKey = row.get x.1.rowKey := by
    intro x hx row
    rcases hgroup x hx with ⟨g, hg, hx⟩
    rw [hx]
    exact hinScope.get_shownRow (hneeded g hg) row
  refine agree_engines clock table hget ?_ ?_ ?_ (groupsOf_perm hperm)
    (h.summedOf_perm hready.nonempty hperm clock ?_) ?_
  · intro x hx row hrow
    have hvalue := hget x hx row
    rcases hgroup x hx with ⟨g, hg, hx⟩
    rw [Row.get, shownRow, Row.record_foldColumns] at hvalue
    rw [<- hvalue]
    refine Row.keyOf_foldColumns ?_
    intro hkind
    have htext : (row.get (p.ctx.scopes.rowKey (boundOf g))).kind? = some .text := by
      rw [hx] at hvalue
      rw [Scopes.rowKey, <- hvalue, <- hx]
      exact hkind
    have hstring := @Fetch.get_of_stored db "" _ _ rows hrows (fun v => v.kind? = some .text ->
      (p.ctx.typeOf? (boundOf g)).any (·.isString) = true) (fun h => by cases h)
      (hgroupable g hg).texts row hrow htext
    rw [hx, foldedColumns, h.keyColumns_eq]
    refine List.mem_map_of_mem (List.mem_filter.mpr ⟨List.mem_map_of_mem hg, hstring⟩)
  · intro x hx
    rcases hgroup x hx with ⟨g, hg, hx⟩
    rcases (hgroupable g hg).uniform with ⟨kind, hkind, hstored⟩
    refine ⟨kind, hkind, ?_⟩
    rw [hx]
    exact @Fetch.get_of_stored db "" _ _ rows hrows (Value.OfKind kind) (fun _ h => by cases h) hstored
  · intro key hkey
    have hname := hinScope.sortKeys _ hkey
    rw [h.keyColumns_eq, List.map_map] at hname
    rw [shownGroups, List.map_map]
    exact hname
  · intro a ha b hb row
    exact hinScope.get_shownRow (mem_needed.mpr (Or.inr (Or.inr (Or.inl ⟨a, ha, hb⟩)))) row
  · rw [shownGroups, shownColumns, List.map_map, List.map_map]
    exact h.distinct

/-!
# Results of both plans
-/

/-- Steps after grouping that sort the groups, or leave the order to the platform. -/
theorem agree_afterGrouping {p : GroupPlan} (clock : Clock)
    (hsteps : forall step, step ∈ p.steps -> step.isRowwise = true)
    {orders : List (Nat × Fetch.Order)} {sorts : List Step}
    (hsorts : (p.nativeOrders none p.grouped.orderBy = some orders ∧ sorts = []) ∨
      p.nativeOrders none p.grouped.orderBy = none ∧ orders = [] ∧ sorts = [p.sortStep])
    {rows rows' : List Row} (h : SameRows rows rows') :
    Agree SameRows ((p.steps ++ sorts).foldlM (fun rows step => step.apply clock rows) rows)
      ((p.steps ++ p.localSorts).foldlM (fun rows step => step.apply clock rows) rows') := by
  rw [List.foldlM_append, List.foldlM_append]
  refine (Step.agree_foldlM_apply h clock hsteps).bind ?_
  intro found found' hfound
  rcases hsorts with ⟨horders, rfl⟩ | ⟨horders, _, rfl⟩
  · rcases Step.sortRows_columns clock (nativeOrders_columns horders) found' with
      ⟨sorted, hsorted, hperm⟩
    unfold localSorts
    split
    · exact hfound
    · have hstep : [p.sortStep].foldlM (fun rows step => step.apply clock rows) found' =
          .ok sorted := by
        rw [List.foldlM_cons, show p.sortStep.apply clock found' = .ok sorted from hsorted]
        rfl
      rw [hstep]
      exact hfound.trans (hperm.map Row.view).symm
  · have hnonempty : p.grouped.orderBy.isEmpty = false := by
      cases hkeys : p.grouped.orderBy with
      | nil =>
          rw [hkeys] at horders
          cases horders
      | cons key rest =>
          rfl
    rw [localSorts, hnonempty, if_neg Bool.false_ne_true]
    refine Step.agree_foldlM_apply hfound clock ?_
    intro step hstep
    rw [List.mem_singleton.mp hstep]
    rfl

theorem rows_perm_of_sameRows {columns : List String} {rows rows' : List Row}
    (h : SameRows rows rows') :
    (⟨columns, rows.map (·.record)⟩ : ResultSet).rows.Perm
      (⟨columns, rows'.map (·.record)⟩ : ResultSet).rows := by
  have hvalues := h.map fun view => columns.map view.1
  rw [List.map_map, List.map_map] at hvalues
  rw [ResultSet.rows, ResultSet.rows, List.map_map, List.map_map]
  exact hvalues

end GroupPlan

open GroupPlan (Groupable)

/-- The records of a plan whose native query aggregates, as long as there is no limit. -/
theorem allRecords_aggregate {db : Database} (hlimit : db.aggregateLimit = none)
    {q : Fetch.Query} (haggregate : q.aggregate = true) {rows : List Joined}
    (hrows : Fetch.scopeRows db "" q.root = .ok rows) :
    Fetch.allRecords db q =
      Fetch.aggregateRows q.root.table (Fetch.placedAttributes "" q.root) rows >>= fun records =>
        .ok (Fetch.sortBy Record.get
          (Fetch.scopeSortKeys true (Fetch.placedAttributes "" q.root) "" q.root) records) := by
  rw [Fetch.allRecords, hrows, Outcome.ok_bind]
  simp only [haggregate, hlimit, if_true, Option.any_none, Bool.false_eq_true, if_false]
  rfl

theorem allRecords_plain {db : Database} {q : Fetch.Query} (haggregate : q.aggregate = false)
    (hdistinct : q.distinct = false) {rows : List Joined}
    (hrows : Fetch.scopeRows db "" q.root = .ok rows) :
    Fetch.allRecords db q = .ok ((Fetch.sortBy Joined.get
      (Fetch.scopeSortKeys false (Fetch.placedAttributes "" q.root) "" q.root) rows).map
        (Fetch.project q.root (Fetch.placedAttributes "" q.root))) := by
  rw [Fetch.allRecords, hrows, Outcome.ok_bind]
  simp only [haggregate, hdistinct, Bool.false_eq_true, if_false]
  rfl

/-- A result after steps that agree on rows that are the same to them. -/
theorem agree_resultOn {db : Database} {now : Clock} {fetch fetch' : Fetch.Query}
    {steps steps' : List Step} {columns : List String} {records records' : List Record}
    (hrecords : Fetch.allRecords db fetch = .ok records)
    (hrecords' : Fetch.allRecords db fetch' = .ok records')
    (h : Agree SameRows
      (steps.foldlM (fun rows step => step.apply now rows) (records.map .ofRecord))
      (steps'.foldlM (fun rows step => step.apply now rows) (records'.map .ofRecord))) :
    Agree (fun native grouped => native.columns = grouped.columns ∧
        native.rows.Perm grouped.rows)
      (resultOn db now ⟨fetch, steps, columns⟩) (resultOn db now ⟨fetch', steps', columns⟩) := by
  unfold resultOn Step.run
  simp only [hrecords, hrecords']
  cases hfirst : steps.foldlM (fun rows step => step.apply now rows) (records.map .ofRecord) with
  | error e =>
      cases hsecond : steps'.foldlM (fun rows step => step.apply now rows)
          (records'.map .ofRecord) with
      | error e' =>
          trivial
      | ok rows' =>
          rw [hfirst, hsecond] at h
          cases h
  | ok rows =>
      cases hsecond : steps'.foldlM (fun rows step => step.apply now rows)
          (records'.map .ofRecord) with
      | error e' =>
          rw [hfirst, hsecond] at h
          cases h
      | ok rows' =>
          rw [hfirst, hsecond] at h
          exact ⟨rfl, GroupPlan.rows_perm_of_sameRows h⟩

namespace GroupPlan

/-- The local plan groups the rows that it retrieves, and goes on with the groups. -/
theorem foldlM_localSteps {p : GroupPlan} (now : Clock) (whereUsed : List Bound)
    (rest : List Step) (rows : List Joined) :
    (p.foldedColumns.map Step.foldCase ++ ([p.aggregateStep] ++ rest)).foldlM
        (fun rows step => step.apply now rows)
        ((rows.map (Fetch.project (p.localContext whereUsed).fetch.root
          (Fetch.placedAttributes "" (p.localContext whereUsed).fetch.root))).map .ofRecord) =
      Step.aggregateRows now (p.groups.map fun g => ⟨g.expr, g.output⟩) p.shownColumns
        (rows.map (p.shownRow whereUsed)) >>= fun grouped =>
          rest.foldlM (fun rows step => step.apply now rows) grouped := by
  rw [List.foldlM_append, Step.foldlM_foldCase, Outcome.ok_bind, List.singleton_append,
    List.foldlM_cons, List.map_map, List.map_map]
  rfl

/-- The plans show the same columns and rows, if both find groups at all. -/
theorem Specified.agree_results {p : GroupPlan} {ctx : Context} {select : Select}
    (h : p.Specified ctx select) {whereUsed : List Bound} (hinScope : p.InScope whereUsed)
    {db : Database} (hlimit : db.aggregateLimit = none)
    (hgroupable : forall g, g ∈ p.groups -> Groupable db p.ctx (boundOf g))
    (hsteps : forall step, step ∈ p.steps -> step.isRowwise = true)
    {orders : List (Nat × Fetch.Order)} {sorts : List Step}
    (hsorts : (p.nativeOrders none p.grouped.orderBy = some orders ∧ sorts = []) ∨
      p.nativeOrders none p.grouped.orderBy = none ∧ orders = [] ∧ sorts = [p.sortStep])
    (now : Clock) :
    Agree (fun native grouped => native.columns = grouped.columns ∧
        native.rows.Perm grouped.rows)
      (resultOn db now
        ⟨{ (p.nativeContext orders).fetch with aggregate := true, distinct := false },
          p.steps ++ sorts, p.columns⟩)
      (resultOn db now ⟨(p.localContext whereUsed).fetch,
        p.foldedColumns.map Step.foldCase ++ ([p.aggregateStep] ++ (p.steps ++ p.localSorts)),
        p.columns⟩) := by
  have hnativeRows := scopeRows_nativeContext db p orders
  have hlocalRows := scopeRows_localContext db p whereUsed
  cases hrows : Fetch.scopeRows db "" p.ctx.fetch.root with
  | error e =>
      rw [hrows] at hnativeRows hlocalRows
      unfold resultOn Fetch.allRecords
      simp only [hnativeRows, hlocalRows, Outcome.error_bind]
      trivial
  | ok rows =>
      rw [hrows] at hnativeRows hlocalRows
      have horders : forall x, x ∈ orders -> x.1 < p.ctx.scopes.length := by
        rcases hsorts with ⟨horders, _⟩ | ⟨_, rfl, _⟩
        · exact h.nativeOrders_lt hinScope.ready horders
        · intro x hx
          cases hx
      have hplaced := placed_nativeContext hinScope.ready horders
        (h.nativeAttributes_lt hinScope.ready)
      rw [h.placed_eq hinScope.ready.nonempty, Context.placed,
        <- Fetch.placedAttributes_eq] at hplaced
      have hflags : (p.localContext whereUsed).fetch.aggregate = false ∧
          (p.localContext whereUsed).fetch.distinct = false := by
        rw [localContext, updateAll_fetch, Context.ensureAll]
        have hensured := @updateAll_fetch Bound (·.scope) (fun b s => s.ensure b.name) p.ctx
          (p.needed whereUsed)
        exact ⟨(congrArg Fetch.Query.aggregate hensured).trans hinScope.ready.bare.aggregate,
          (congrArg Fetch.Query.distinct hensured).trans hinScope.ready.bare.distinct⟩
      have hnative := @allRecords_aggregate db hlimit { (p.nativeContext orders).fetch with
        aggregate := true, distinct := false } rfl rows hnativeRows
      have hlocal := allRecords_plain hflags.1 hflags.2 hlocalRows
      have hgrouped := h.agree_groups hinScope.ready hinScope db now hgroupable hrows
        (p.nativeContext orders).fetch.root.table hplaced
      rw [<- h.groupKeys_eq] at hgrouped
      have hrun := @foldlM_localSteps p now whereUsed (p.steps ++ p.localSorts)
        (Fetch.sortBy Joined.get (Fetch.scopeSortKeys false
          (Fetch.placedAttributes "" (p.localContext whereUsed).fetch.root) ""
            (p.localContext whereUsed).fetch.root) rows)
      cases hfound : Fetch.aggregateRows (p.nativeContext orders).fetch.root.table
          (Fetch.placedAttributes "" (p.nativeContext orders).fetch.root) rows with
      | error e =>
          rw [hfound] at hgrouped hnative
          rcases hgrouped.error_right with ⟨e', hgroups⟩
          rw [hgroups, Outcome.error_bind] at hrun
          unfold resultOn Step.run
          simp only [hnative, hlocal, hrun, Outcome.error_bind]
          trivial
      | ok records =>
          rw [hfound] at hgrouped hnative
          rcases hgrouped.ok_right with ⟨groups, hgroups, hsame⟩
          rw [hgroups, Outcome.ok_bind] at hrun
          refine agree_resultOn hnative hlocal ?_
          rw [hrun]
          refine agree_afterGrouping now hsteps hsorts ?_
          rw [SameRows, List.map_map] at hsame ⊢
          exact ((Sorting.stable_perm _ records).map _).trans hsame

end GroupPlan

/-- What both plans of an aggregate query are made from. -/
theorem selectTask_aggregate {ctx : Context} {clock : Clock} {select : Select} {plan other : Plan}
    (h : selectTask ctx clock select = .ok (.select plan (some other))) :
    exists ctx' residual p, ctx.applyWhere clock select.criteria = .ok (ctx', residual) ∧
      groupPlan ctx' select = .ok p ∧ residual.predicate = none ∧ p.isNative = true ∧
      p.nativePlan = .ok plan ∧ p.localPlan residual = .ok other := by
  rcases selectTask_eq_ok.mp h with ⟨ctx', residual, hwhere, ⟨_, _, _, hrows⟩ | ⟨_, hgroups⟩⟩
  · cases hrows
  · rcases aggregateTask_eq_ok hgroups with ⟨p, _, hp, hlocal, hgrouped | ⟨_, hboth, hplan⟩⟩
    · cases hgrouped
    · cases hboth
      exact ⟨ctx', residual, p, hwhere, hp, hplan.2.1, hplan.2.2, hplan.1, hlocal⟩

/--
The native plan of an aggregate query and the plan that groups its rows locally both fail, or they
show the same columns and the same rows, in some order.
-/
theorem agree_aggregate_plans {σ : Type} {lookup : Lookup σ} {options : Options}
    {source : Sql.Source} {ctx : Context} {w w' : σ}
    (hctx : (contextOf lookup options source).run w = .ok ctx w') {clock : Clock}
    {select : Select} {plan other : Plan}
    (htask : selectTask ctx clock select = .ok (.select plan (some other)))
    (hdistinct : select.distinct = false) (htop : select.top = none)
    (hoffset : select.offset = none) (haliases : DistinctAliases select.items)
    {db : Database} (hlimit : db.aggregateLimit = none)
    (hgroups : forall e, e ∈ select.groupBy -> forall b, ctx.plainColumn? e = some b ->
      Groupable db ctx b) (now : Clock) :
    Agree (fun native grouped => native.columns = grouped.columns ∧
        native.rows.Perm grouped.rows)
      (plan.resultOn db now) (other.resultOn db now) := by
  rcases selectTask_aggregate htask with
    ⟨ctx', residual, p, hwhere, hp, hresidual, hnative, hplan, hlocal⟩
  have hspecified := groupPlan_specified haliases hp hnative
  have hcontext : p.ctx = ctx' := hspecified.context
  have hready : Ready p.ctx := by
    rw [hcontext]
    exact (ready_contextOf hctx).applyWhere hwhere
  rcases applyWhere_updateAll hwhere with ⟨filters, hupdated, hfilters, hused⟩
  have hscopes : p.ctx.scopes = ctx.scopes := by
    rw [hcontext, hupdated, updateAll_scopes]
  have hoptions : p.ctx.options = ctx.options := by
    rw [hcontext, hupdated, updateAll_options]
  have htables : (p.ctx.fetch.root.tables "").Perm (ctx.fetch.root.tables "") := by
    rw [hcontext, hupdated]
    exact (ready_contextOf hctx).rooted.tables_addFilters hfilters
  have hgroupable : forall g, g ∈ p.groups -> Groupable db p.ctx (GroupPlan.boundOf g) := by
    intro g hg
    rcases (hspecified.column_eq hg).2.2.2 with ⟨e, he, hplain⟩
    rw [plainColumn?_congr hscopes hoptions] at hplain
    rcases hgroups e he _ hplain with ⟨⟨kind, hkind, huniform⟩, htexts⟩
    refine ⟨⟨kind, hkind, ?_⟩, ?_⟩
    · intro v hv
      rw [hscopes] at hv
      exact huniform v (hv.mono htables.subset)
    · intro v hv
      rw [hscopes] at hv
      rw [Context.typeOf?, hscopes]
      exact htexts v (hv.mono htables.subset)
  have hinScope : p.InScope residual.used := by
    refine hspecified.inScope hready ?_
    rw [hscopes]
    exact hused
  have hstatement := hspecified.statement
  rcases GroupPlan.nativePlan_eq hplan (hstatement ▸ hdistinct) (hstatement ▸ htop)
    (hstatement ▸ hoffset) with ⟨orders, sorts, rfl, hsorts⟩
  have hother := GroupPlan.localPlan_eq hlocal hresidual (hstatement ▸ hdistinct)
    (hstatement ▸ htop) (hstatement ▸ hoffset)
  subst hother
  exact hspecified.agree_results hinScope hlimit hgroupable (GroupPlan.steps_rowwise hp) hsorts now

/-!
# Sales by region

Regions that differ in case are one group, which shows the first of them.
-/

def sale : TableDef :=
  { TableDef.ofKey "sale" "id" with
    attributes := [.ofType "region" .string, .ofType "amount" .integer] }

def saleIn (region : Value) (amount : Int) : Record :=
  ⟨"sale", none, .ofList [("region", region), ("amount", .int amount)]⟩

theorem isDay_saleDay : Calendar.IsDay 2024 1 1 := by
  decide

def saleDatabase : Database where
  tables := fun name => if name = "sale" then
    some [saleIn (.str "South") 4, saleIn (.str "North") 2, saleIn .null 1, saleIn (.str "north") 3]
    else none
  pageSize := 10
  aggregateLimit := none
  now := .midnight ⟨2024, 1, 1, isDay_saleDay⟩

def saleClock : Clock :=
  ⟨saleDatabase.now, saleDatabase.now⟩

/-- `SELECT region, SUM(amount) AS total, COUNT(*) FROM sale GROUP BY region ORDER BY total` -/
def saleSelect : Select where
  distinct := false
  top := none
  items := [⟨.column (.ofName "region"), none⟩,
    ⟨.call "SUM" false [.column (.ofName "amount")], some "total"⟩, ⟨.call "COUNT" false [.star], none⟩]
  sources := [⟨⟨"sale", none, false⟩, []⟩]
  criteria := none
  groupBy := [.column (.ofName "region")]
  having := none
  orderBy := [⟨.column (.ofName "total"), true⟩]
  offset := none

def saleContext : Context :=
  rootContext .standard ⟨⟨"sale", none, false⟩, []⟩ sale

theorem saleContext_groupable {e : Scalar} (he : e ∈ saleSelect.groupBy) {b : Bound}
    (hb : saleContext.plainColumn? e = some b) : Groupable saleDatabase saleContext b := by
  rcases List.mem_singleton.mp he with rfl
  have hregion : b = ⟨0, "region"⟩ := Option.some.inj (hb.symm.trans rfl)
  subst hregion
  have htext : forall v, Fetch.StoredIn saleDatabase (saleContext.fetch.root.tables "")
      (saleContext.scopes.rowKey ⟨0, "region"⟩) v -> Value.OfKind .text v := by
    rintro v ⟨front, table, records, r, name, htable, hrecords, hr, hkey, hv⟩
    rcases List.mem_singleton.mp htable with heq
    cases heq
    cases hrecords
    have hname : name = "region" := by
      rw [String.empty_append] at hkey
      exact hkey.symm
    subst hname
    simp only [List.mem_cons, List.not_mem_nil, or_false] at hr
    rcases hr with rfl | rfl | rfl | rfl <;> cases hv <;> intro other hother <;> cases hother <;> rfl
  exact ⟨⟨.text, by decide, htext⟩, fun _ _ _ => by decide⟩

theorem sale_plans_agree :
    exists plan other native grouped,
      selectTask saleContext saleClock saleSelect = .ok (.select plan (some other)) ∧
      plan.resultOn saleDatabase saleClock = .ok native ∧
      other.resultOn saleDatabase saleClock = .ok grouped ∧
      native.rows = [[.str "North", .int 5, .int 2], [.str "South", .int 4, .int 1],
        [.null, .int 1, .int 1]] ∧
      native.columns = grouped.columns ∧ native.rows.Perm grouped.rows := by
  have htask : exists plan other,
      selectTask saleContext saleClock saleSelect = .ok (.select plan (some other)) ∧
      (plan.resultOn saleDatabase saleClock).map ResultSet.rows =
        .ok [[.str "North", .int 5, .int 2], [.str "South", .int 4, .int 1],
          [.null, .int 1, .int 1]] := ⟨_, _, rfl, by decide +kernel⟩
  rcases htask with ⟨plan, other, htask, hrows⟩
  have haliases : DistinctAliases saleSelect.items := List.pairwise_singleton _ _
  have hagree := @agree_aggregate_plans Unit (fun _ => pure sale) .standard
    ⟨⟨"sale", none, false⟩, []⟩ saleContext () () rfl saleClock saleSelect plan other htask rfl rfl
    rfl haliases saleDatabase rfl (fun e he b hb => saleContext_groupable he hb) saleClock
  cases hnative : plan.resultOn saleDatabase saleClock with
  | error e =>
      rw [hnative] at hrows
      cases hrows
  | ok native =>
      rw [hnative] at hagree hrows
      rcases hagree.ok_right with ⟨grouped, hgrouped, hcolumns, hperm⟩
      exact ⟨plan, other, native, grouped, htask, hnative, hgrouped, Except.ok.inj hrows, hcolumns,
        hperm⟩

end Plan
end RecordSql
