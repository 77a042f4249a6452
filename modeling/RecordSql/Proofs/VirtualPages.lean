import Mathlib.Data.List.TakeDrop
import RecordSql.Proofs.DistinctPlans
import RecordSql.Proofs.Execution
import RecordSql.Proofs.PageSizes
import RecordSql.Proofs.RowSteps

/-!
# The only page of a query of virtual tables

A query of virtual tables is answered by one page, as long as the tables that it reads are together.
A query that sets no limit therefore returns all of its rows exactly if there are no more of them
than that.  A join can make more rows than it has tables to take them from, but not if one of the
columns that it compares tells the rows of a table apart.
-/

namespace RecordSql

/-!
# Rows of a join
-/

namespace Fetch

/-- The rows as they are, and all of them. -/
structure Query.Unlimited (q : Query) : Prop where
  top : q.top = none
  page : q.page = none
  count : q.count = none
  aggregate : q.aggregate = false

theorem Query.Plain.unlimited {q : Query} (h : q.Plain) : q.Unlimited :=
  ⟨h.top, h.page, h.count, h.aggregate⟩

theorem Query.Unlimited.update {q : Query} (h : q.Unlimited) (f : Scope -> Scope)
    (path : List Nat) : (q.update f path).Unlimited :=
  ⟨h.top, h.page, h.count, h.aggregate⟩

/-- No row meets two of the linked rows. -/
def Link.MeetsOne (link : Link) (children : List Joined) : Prop :=
  forall key, (children.filter fun child =>
    keysMatch key (child.get (link.front ++ link.child))).length ≤ 1

/-- A row of the scope with the given front meets a linked row. -/
def Link.joins (front : String) (link : Link) (row child : Joined) : Bool :=
  keysMatch (row.get (front ++ link.parent)) (child.get (link.front ++ link.child))

/-- No linked row meets two of the rows. -/
def Link.MetByOne (front : String) (link : Link) (rows children : List Joined) : Prop :=
  forall child, child ∈ children -> (rows.filter (link.joins front · child)).length ≤ 1

/--
The links of a scope go to rows that the compared column tells apart, or the only one comes from
such rows.
-/
inductive KeyedJoins (db : Database) : String -> Scope -> Prop where
  | meetsOne {front : String} {s : Scope}
      (hmeets : forall link child, (link, child) ∈ s.links -> forall children,
        scopeRows db link.front child = .ok children -> link.MeetsOne children) :
      KeyedJoins db front s
  | metByOne {front : String} {s : Scope} {link : Link} {child : Scope}
      (hlinks : s.links = [(link, child)]) (hinner : link.outer = false)
      (hmet : forall records children, db.tables s.table = some records ->
        scopeRows db link.front child = .ok children ->
          link.MetByOne front (records.map (.ofRecord front)) children)
      (hchild : KeyedJoins db link.front child) : KeyedJoins db front s

variable {db : Database} {front : String}

theorem length_joinRow_le {link : Link} {children : List Joined} (h : link.MeetsOne children)
    (parent : Joined) : (joinRow front link children parent).length ≤ 1 := by
  rw [joinRow]
  split
  · split
    · exact Nat.le_refl 1
    · exact Nat.zero_le 1
  · rw [List.length_map]
    exact h _

theorem length_flatMap_le {α β : Type} {f : α -> List β} {l : List α}
    (h : forall a, a ∈ l -> (f a).length ≤ 1) : (l.flatMap f).length ≤ l.length := by
  induction l with
  | nil =>
      exact Nat.le_refl 0
  | cons a rest ih =>
      have ha := h a List.mem_cons_self
      have hrest := ih fun b hb => h b (List.mem_cons_of_mem a hb)
      rw [List.flatMap_cons, List.length_append, List.length_cons]
      omega

theorem length_joinLinks_le {links : List (Link × Scope)} {rows joined : List Joined}
    (hmeets : forall link child, (link, child) ∈ links -> forall children,
      scopeRows db link.front child = .ok children -> link.MeetsOne children)
    (h : joinLinks db front links rows = .ok joined) : joined.length ≤ rows.length := by
  induction links generalizing rows with
  | nil =>
      cases h
      exact Nat.le_refl _
  | cons entry rest ih =>
      rcases entry with ⟨link, child⟩
      rcases joinLinks_cons_eq_ok.mp h with ⟨children, hchildren, hrest⟩
      have hmet := hmeets link child List.mem_cons_self children hchildren
      exact Nat.le_trans (ih (fun l c hmem => hmeets l c (List.mem_cons_of_mem _ hmem)) hrest)
        (length_flatMap_le fun row _ => length_joinRow_le hmet row)

/-- Pairs are counted from either side. -/
theorem length_flatMap_filter {α β : Type} (p : α -> β -> Bool) (as : List α) (bs : List β) :
    (as.flatMap fun a => bs.filter (p a)).length =
      (bs.flatMap fun b => as.filter (p · b)).length := by
  induction as with
  | nil =>
      simp
  | cons a rest ih =>
      have hcount : (bs.flatMap fun b => (a :: rest).filter (p · b)).length =
          (bs.filter (p a)).length + (bs.flatMap fun b => rest.filter (p · b)).length := by
        clear ih
        induction bs with
        | nil =>
            rfl
        | cons b bs ih =>
            rw [List.flatMap_cons, List.length_append, ih, List.flatMap_cons, List.length_append]
            simp only [List.filter_cons]
            split
            · rw [List.length_cons, List.length_cons]
              omega
            · omega
      rw [List.flatMap_cons, List.length_append, ih, hcount]

theorem length_join_le {link : Link} {rows children : List Joined} (hinner : link.outer = false)
    (h : link.MetByOne front rows children) :
    (rows.flatMap (joinRow front link children)).length ≤ children.length := by
  have hrow : forall row, (joinRow front link children row).length =
      (children.filter (link.joins front row)).length := by
    intro row
    rw [joinRow, hinner]
    change (if (children.filter (link.joins front row)).isEmpty then _ else _ : List Joined).length = _
    split
    · rename_i hempty
      rw [List.isEmpty_iff.mp hempty]
      rfl
    · exact List.length_map _
  calc (rows.flatMap (joinRow front link children)).length
      = (rows.flatMap fun row => children.filter (link.joins front row)).length := by
          simp only [List.length_flatMap, hrow]
    _ = (children.flatMap fun child => rows.filter (link.joins front · child)).length :=
          length_flatMap_filter (link.joins front) rows children
    _ ≤ children.length := length_flatMap_le h

/-- There are no more rows than one of the tables has. -/
theorem KeyedJoins.length_le {s : Scope} (h : KeyedJoins db front s) :
    forall {rows : List Joined}, scopeRows db front s = .ok rows ->
      exists table records, db.tables table = some records ∧ rows.length ≤ records.length := by
  induction h with
  | @meetsOne front s hmeets =>
      intro rows hrows
      rcases scopeRows_eq_ok.mp hrows with ⟨records, joined, htable, hjoined, hkept⟩
      refine ⟨s.table, records, htable, Nat.le_trans (keepMatching_sublist hkept).length_le ?_⟩
      rw [<- List.length_map (Joined.ofRecord front)]
      exact length_joinLinks_le hmeets hjoined
  | @metByOne front s link child hlinks hinner hmet hchild ih =>
      intro rows hrows
      rcases scopeRows_eq_ok.mp hrows with ⟨records, joined, htable, hjoined, hkept⟩
      rw [hlinks] at hjoined
      rcases joinLinks_cons_eq_ok.mp hjoined with ⟨children, hchildren, hjoined⟩
      cases hjoined
      rcases ih hchildren with ⟨table, others, hothers, hle⟩
      have hfewer := (keepMatching_sublist hkept).length_le
      refine ⟨table, others, hothers, Nat.le_trans hfewer (Nat.le_trans ?_ hle)⟩
      exact length_join_le hinner (hmet records children htable hchildren)

/-!
# The first page
-/

theorem pageOf_unlimited {q : Query} (h : q.Unlimited) (all : List Record) :
    pageOf db q all = pageAt (max db.pageSize 1) 1 all := by
  rw [pageOf_eq_pageAt h.top, h.page, h.count]
  rfl

theorem records_pageAt_first (size : Nat) (all : List Record) :
    (pageAt size 1 all).records = all.take size := by
  rw [pageAt, Nat.sub_self, Nat.zero_mul, List.drop_zero]

theorem more_pageAt_first (size : Nat) (all : List Record) :
    (pageAt size 1 all).more = decide (size < all.length) := by
  rw [pageAt, Nat.sub_self, Nat.zero_mul, Nat.zero_add]

theorem pageAt_first_of_le {size : Nat} {all : List Record} (h : all.length ≤ size) :
    pageAt size 1 all = ⟨all, false, none⟩ := by
  rw [pageAt, Nat.sub_self, Nat.zero_mul, Nat.zero_add, List.drop_zero, List.take_of_length_le h,
    if_neg (Nat.not_lt.mpr h), decide_eq_false (Nat.not_lt.mpr h)]

theorem unpaged_unlimited {q : Query} (h : q.Unlimited) {all : List Record}
    (hall : allRecords db q = .ok all) {whole : Nat} (hwhole : all.length ≤ whole) :
    unpaged db whole q = .ok ⟨all, false, none⟩ := by
  have hcount : ({ q with count := none } : Query).Unlimited :=
    ⟨h.top, h.page, rfl, h.aggregate⟩
  rw [unpaged, evaluate, allRecords_pageSize, hall, Outcome.ok_bind, pageOf_unlimited hcount,
    pageAt_first_of_le (Nat.le_trans hwhole (Nat.le_max_left _ _))]
  rfl

/-- Rows that are only listed are at most those of the root scope. -/
theorem length_allRecords_le {q : Query} (h : q.Unlimited) {all : List Record}
    (hall : allRecords db q = .ok all) :
    exists rows, scopeRows db "" q.root = .ok rows ∧ all.length ≤ rows.length := by
  rcases Outcome.bind_eq_ok.mp hall with ⟨rows, hrows, hlisted⟩
  refine ⟨rows, hrows, ?_⟩
  rw [h.aggregate, if_neg Bool.false_ne_true] at hlisted
  cases hlisted
  have hsorted : forall keys, (sortBy Joined.get keys rows).length = rows.length :=
    fun keys => (Sorting.stable_perm _ rows).length_eq
  have hproject : forall keys : List SortKey, ((sortBy Joined.get keys rows).map
      (project q.root (placedAttributes "" q.root))).length = rows.length := by
    intro keys
    rw [List.length_map, hsorted]
  split
  · exact Nat.le_trans (firstOfEach_sublist _ _ _).length_le (Nat.le_of_eq (hproject _))
  · exact Nat.le_of_eq (hproject _)

end Fetch

/-!
# Plans without a limit
-/

namespace Plan

open Sql (Select SelectItem)

variable {ctx : Context}

theorem unlimited_foldl {β : Type} {g : Context -> β -> Context}
    (hg : forall ctx b, ctx.fetch.Unlimited -> (g ctx b).fetch.Unlimited)
    (h : ctx.fetch.Unlimited) (l : List β) : (l.foldl g ctx).fetch.Unlimited := by
  induction l generalizing ctx with
  | nil =>
      exact h
  | cons b rest ih =>
      exact ih (hg ctx b h)

theorem unlimited_ensureAll (h : ctx.fetch.Unlimited) (columns : List Bound) :
    (ctx.ensureAll columns).fetch.Unlimited :=
  unlimited_foldl (fun _ _ h => h.update _ _) h columns

theorem unlimited_orderedBy (h : ctx.fetch.Unlimited) (targets : List (SortTarget × Bool)) :
    (orderedBy ctx targets).fetch.Unlimited := by
  have hordered : ((nativeKeys ctx.scopes none targets).foldl addOrder ctx).fetch.Unlimited :=
    unlimited_foldl (fun _ _ h => h.update _ _) h _
  rw [orderedBy]
  split
  · exact hordered
  · exact unlimited_ensureAll hordered _

namespace Projection

variable {p p' : Projection}

theorem unlimited_wholeScope (h : p.ctx.fetch.Unlimited) (scope : Nat) :
    (p.wholeScope scope).ctx.fetch.Unlimited := by
  rw [wholeScope]
  split
  · exact h
  · exact h.update _ _

theorem unlimited_wholeScopes (h : p.ctx.fetch.Unlimited) (scopes : List Nat) :
    (scopes.foldl wholeScope p).ctx.fetch.Unlimited := by
  induction scopes generalizing p with
  | nil =>
      exact h
  | cons scope rest ih =>
      exact ih (unlimited_wholeScope h scope)

theorem unlimited_retrieve (h : p.ctx.fetch.Unlimited) (b : Bound) (aliasName : Option String) :
    (p.retrieve b aliasName).ctx.fetch.Unlimited := by
  cases aliasName <;> exact h.update _ _

theorem unlimited_compute (h : p.ctx.fetch.Unlimited) {i : SelectItem}
    (hp : p.compute i = .ok p') : p'.ctx.fetch.Unlimited := by
  rcases Outcome.bind_eq_ok.mp hp with ⟨expr, _, hp⟩
  cases hp
  exact unlimited_ensureAll h _

theorem unlimited_item (h : p.ctx.fetch.Unlimited) {i : SelectItem} (hp : p.item i = .ok p') :
    p'.ctx.fetch.Unlimited := by
  rcases item_cases hp with ⟨_, scopes, rfl⟩ | ⟨_, b, _, _, rfl⟩ | hcompute
  · exact unlimited_wholeScopes h scopes
  · exact unlimited_retrieve h b i.aliasName
  · exact unlimited_compute h hcompute

theorem unlimited_ofItems (h : ctx.fetch.Unlimited) {steps : List Step} {items : List SelectItem}
    (hp : ofItems ctx steps items = .ok p) : p.ctx.fetch.Unlimited := by
  rw [ofItems] at hp
  have hstart : (Projection.mk ctx [] steps 0).ctx.fetch.Unlimited := h
  generalize Projection.mk ctx [] steps 0 = start at hp hstart
  induction items generalizing start with
  | nil =>
      cases hp
      exact hstart
  | cons i rest ih =>
      rw [List.foldlM_cons] at hp
      rcases Outcome.bind_eq_ok.mp hp with ⟨next, hnext, hrest⟩
      exact ih next hrest (unlimited_item hstart hnext)

end Projection

theorem unlimited_selectPlan (h : ctx.fetch.Unlimited) {select : Select} {residual : Residual}
    {plan : Plan} (htop : select.top = none) (hoffset : select.offset = none)
    (hplan : selectPlan ctx select residual = .ok plan) : plan.fetch.Unlimited := by
  simp only [selectPlan, Outcome.bind_eq_ok, applyOrderBy_eq, htop, hoffset] at hplan
  rcases hplan with ⟨listed, hlisted, ⟨ordered, steps⟩, ⟨targets, _, hordered⟩, limited, hlimits, hplan⟩
  cases hordered
  cases hlimits
  cases hplan
  have hitems := Projection.unlimited_ofItems (unlimited_ensureAll h _) hlisted
  refine unlimited_orderedBy ?_ targets
  rw [applyDistinct]
  split
  · exact ⟨hitems.top, hitems.page, hitems.count, hitems.aggregate⟩
  · exact hitems

section

variable {σ : Type} {lookup : Lookup σ} {options : Options} {clock : Clock} {select : Select}
  {w w' : σ}

/-- A query of data tables is not one of virtual tables. -/
theorem selectTask_ne_schema (task : SchemaTask) :
    selectTask ctx clock select ≠ .ok (.schema task) := by
  intro h
  rcases selectTask_eq_ok.mp h with ⟨_, _, _, ⟨_, _, _, hrows⟩ | ⟨_, hgroups⟩⟩
  · cases hrows
  · rcases aggregateTask_eq_ok hgroups with ⟨_, _, _, _, hlocal | ⟨_, hnative, _⟩⟩
    · cases hlocal
    · cases hnative

theorem schemaTask_eq_ok {ofOptionSets : Bool} {tables : List VirtualTable} {plan : Plan}
    {task : SchemaTask} (h : schemaTask ofOptionSets tables plan = .ok (.schema task)) :
    task.fetch = plan.fetch := by
  rw [schemaTask] at h
  split at h
  · cases h
  · cases h
    rfl

/-- Without `TOP` and `OFFSET`, a query of virtual tables lists all of its rows. -/
theorem unlimited_schema {task : SchemaTask} (htop : select.top = none)
    (hoffset : select.offset = none)
    (h : (planStatement lookup options clock (.select select)).run w = .ok (.schema task) w') :
    task.fetch.Unlimited := by
  rcases planStatement_select_cases h with ⟨source, ctx, _, hctx, ⟨_, htask⟩ | ⟨_, hvirtual⟩⟩
  · exact absurd htask (selectTask_ne_schema task)
  · rcases hvirtual with ⟨ctx', residual, plan, _, _, hwhere, hplan, hschema⟩
    rw [schemaTask_eq_ok hschema]
    have hplain := plain_applyWhere (plain_contextOf hctx) hwhere
    exact unlimited_selectPlan hplain.unlimited htop hoffset hplan

end

end Plan

/-!
# Queries of virtual tables
-/

namespace Run

variable {σ τ : Type} {lookup : Lookup σ} {options : Plan.Options} {clock : Clock}
  {select : Sql.Select} {task : Plan.SchemaTask} {s s' : σ} {host : Host τ} {w w' : τ}

theorem length_le_pageSize {rows : List (VirtualTable × List Record)} {table : String}
    {records : List Record} (h : (virtualDatabase clock rows).tables table = some records) :
    records.length ≤ (virtualDatabase clock rows).pageSize := by
  rcases Option.map_eq_some_iff.mp h with ⟨entry, hentry, rfl⟩
  have hmem := List.mem_of_find?_eq_some hentry
  have hsub : entry.2.Sublist (rows.flatMap (·.2)) := by
    rcases List.append_of_mem hmem with ⟨before, after, rfl⟩
    rw [List.flatMap_append, List.flatMap_cons]
    exact (List.sublist_append_left _ _).trans (List.sublist_append_right _ _)
  exact hsub.length_le

/--
A query of virtual tables without `TOP` and `OFFSET` returns the first rows of its whole answer, as
many as its tables have records.  It returns all of them exactly if there are no more, as is the
case if the compared columns of its joins are keys, and in particular if it joins nothing.
-/
theorem schema_rows_complete_iff (htop : select.top = none) (hoffset : select.offset = none)
    (hplan : (Plan.planStatement lookup options clock (.select select)).run s =
      .ok (.schema task) s')
    {page : Page} (hrun : runTask host (.schema task) w = .ok (.rows page) w') :
    exists rows all, virtualRows host task w = .ok rows w' ∧
      (forall whole, all.length ≤ whole ->
        Fetch.unpaged (virtualDatabase host.clock rows) whole task.fetch = .ok ⟨all, false, none⟩) ∧
      page.records = all.take (max (rows.flatMap (·.2)).length 1) ∧
      (page.more = false ∧ page.records = all <->
        all.length ≤ max (rows.flatMap (·.2)).length 1) ∧
      (Fetch.KeyedJoins (virtualDatabase host.clock rows) "" task.fetch.root ->
        page.more = false ∧ page.records = all) := by
  have hunlimited := Plan.unlimited_schema htop hoffset hplan
  rcases RecordSql.Outcome.run_bind_eq_ok.mp hrun with ⟨found, w₁, hfound, hpage⟩
  cases hpage
  replace hfound := adaptExcept_eq_ok.mp hfound
  rcases RecordSql.Outcome.run_bind_eq_ok.mp hfound with ⟨rows, w₂, hrows, hevaluated⟩
  rcases RecordSql.Outcome.run_liftExcept_eq_ok.mp hevaluated with ⟨hanswer, rfl⟩
  rcases RecordSql.Outcome.bind_eq_ok.mp hanswer with ⟨all, hall, hpage⟩
  have hfirst : page = Fetch.pageAt (max (rows.flatMap (·.2)).length 1) 1 all := by
    cases hpage
    exact Fetch.pageOf_unlimited hunlimited all
  have hcomplete : page.more = false ∧ page.records = all <->
      all.length ≤ max (rows.flatMap (·.2)).length 1 := by
    rw [hfirst, Fetch.more_pageAt_first, Fetch.records_pageAt_first, List.take_eq_self_iff,
      decide_eq_false_iff_not, Nat.not_lt, and_self_iff]
  refine ⟨rows, all, hrows, fun whole => Fetch.unpaged_unlimited hunlimited hall, ?_, hcomplete, ?_⟩
  · rw [hfirst, Fetch.records_pageAt_first]
  · intro hkeyed
    rcases Fetch.length_allRecords_le hunlimited hall with ⟨joined, hjoined, hle⟩
    rcases hkeyed.length_le hjoined with ⟨table, records, htable, hbound⟩
    have hsize : records.length ≤ (rows.flatMap (·.2)).length := length_le_pageSize htable
    exact hcomplete.mpr (by omega)

/-!
# Pairs of attributes

A table with two attributes makes four pairs of them, but a page has room for two.
-/

def toolTable : TableDef :=
  (TableDef.ofKey "tool" "toolid").withAttribute (.ofType "price" .decimal)

def toolStore : Store :=
  { Store.empty with definitions := .ofList [("tool", toolTable)] }

def definitionOf (name : String) : EStateM ResolutionError Store TableDef :=
  match VirtualTable.ofName? name with
  | some table => pure table.definition
  | none => throw (.ofLookup name (.unknownTable name))

def toolHost : Host Store :=
  ⟨Store.client jarClock, definitionOf, RunOptions.standard, jarClock⟩

def attributePairs : Sql.Select where
  distinct := false
  top := none
  items := [⟨.column ⟨some "a", "logicalname", false⟩, none⟩,
    ⟨.column ⟨some "b", "logicalname", false⟩, none⟩]
  sources := [⟨⟨"attribute", some "a", false⟩, [⟨.inner, ⟨"attribute", some "b", false⟩,
    .compare (.column ⟨some "b", "entitylogicalname", false⟩) .eq
      (.column ⟨some "a", "entitylogicalname", false⟩)⟩]⟩]
  criteria := none
  groupBy := []
  having := none
  orderBy := []
  offset := none

def pairTask : Plan.SchemaTask where
  ofOptionSets := false
  tables := [.attributes]
  fetch := { Fetch.Query.ofTable "attribute" with
    root := ⟨"attribute", false, [.ofName "logicalname"], [],
      [(⟨"entitylogicalname", "entitylogicalname", "b", false⟩,
        ⟨"attribute", false, [.ofName "logicalname"], [], [], []⟩)], []⟩ }
  columns := ["logicalname", "b.logicalname"]

/-- The page that a task ended with. -/
def endPage? {σ : Type} : EStateM.Result RunError σ Outcome -> Option Page
  | .ok (.rows page) _ => some page
  | _ => none

theorem endPage?_eq_some {result : EStateM.Result RunError σ Outcome} {page : Page}
    (h : endPage? result = some page) : exists s, result = .ok (.rows page) s := by
  cases result with
  | error e s =>
      cases h
  | ok outcome s =>
      cases outcome with
      | affected a =>
          cases h
      | rows page =>
          cases h
          exact ⟨s, rfl⟩

theorem attribute_pairs_incomplete : attributePairs.top = none ∧ attributePairs.offset = none ∧
    (Plan.planStatement definitionOf .standard jarClock (.select attributePairs)).run toolStore =
      .ok (.schema pairTask) toolStore ∧
    exists page s rows, exists all : List Record,
      runTask toolHost (.schema pairTask) toolStore = .ok (.rows page) s ∧
      virtualRows toolHost pairTask toolStore = .ok rows s ∧
      page.records = all.take (max (rows.flatMap (·.2)).length 1) ∧
      page.records.map (·.get "b.logicalname") = [.str "toolid", .str "price"] ∧
      ¬ all.length ≤ max (rows.flatMap (·.2)).length 1 := by
  have hplan : (Plan.planStatement definitionOf .standard jarClock (.select attributePairs)).run
      toolStore = .ok (.schema pairTask) toolStore := by
    rfl
  have hshown : (endPage? (runTask toolHost (.schema pairTask) toolStore)).map
      (fun page => (page.more, page.records.map (·.get "b.logicalname"))) =
        some (true, [.str "toolid", .str "price"]) := by
    decide +kernel
  rcases Option.map_eq_some_iff.mp hshown with ⟨page, hpage, hvalues⟩
  rcases endPage?_eq_some hpage with ⟨s, hrun⟩
  rcases schema_rows_complete_iff rfl rfl hplan hrun with ⟨rows, all, hrows, _, hfirst, hiff, _⟩
  refine ⟨rfl, rfl, hplan, page, s, rows, all, hrun, hrows, hfirst, (Prod.mk.inj hvalues).2, ?_⟩
  intro hle
  have hmore := (hiff.mpr hle).1
  rw [(Prod.mk.inj hvalues).1] at hmore
  cases hmore

end Run

end RecordSql
