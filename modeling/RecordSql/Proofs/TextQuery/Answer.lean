import RecordSql.Proofs.Execution
import RecordSql.Proofs.Limits
import RecordSql.Proofs.TextQuery.Records
import RecordSql.Proofs.TextQuery.Rows
import RecordSql.Session

/-!
# Queries of texts are answered by their meaning

How a query of one table is answered depends on all its clauses: each part of it is done by the
platform or by a local step.  Whatever the division, its execution succeeds and shows the columns
and rows that the query means.
-/

namespace RecordSql
namespace TextQuery

open Fetch (Attribute Order)
open Plan (Bound Context Projection Residual)
open Run (Serves)
open Sorting (before)
open Sql (Column OrderKey Scalar Select SelectItem TableRef)

/-!
# Limits
-/

/-- The limit of a query, planned after everything else. -/
inductive Limited (select : Select) (fetch : Fetch.Query) (steps : List Step) :
    Fetch.Query -> List Step -> Prop where
  | unlimited (h : forall {α : Type} (rows : List α), slice select rows = rows) :
      Limited select fetch steps fetch steps
  | native {top page count : Option Nat} (hsteps : steps.any Step.changesRows = false)
      (hsingle : (top.isSome || page.isSome) = true)
      (h : forall db all, (Fetch.pageOf db { fetch with top, page, count } all).records =
        slice select all) :
      Limited select fetch steps { fetch with top, page, count } steps
  | locally {skip : Nat} {take : Option Nat}
      (h : forall rows : List Row, Step.limitRows skip take rows = slice select rows) :
      Limited select fetch steps fetch (steps ++ [.limit skip take])

theorem applyTop_limited {select : Select} {fetch fetch' : Fetch.Query} {steps steps' : List Step}
    {n : Int} (htop : select.top = some n)
    (h : Plan.applyTop (steps.any Step.changesRows) fetch steps (some n) = .ok (fetch', steps')) :
    Limited select fetch steps fetch' steps' := by
  have hslice : forall {α : Type} (rows : List α), slice select rows = rows.take n.toNat := by
    intro α rows
    rw [slice, htop]
  rcases Plan.applyTop_cases h with ⟨hsteps, rfl, rfl⟩ | ⟨rfl, rfl⟩
  · exact .native hsteps rfl fun _ all => (hslice all).symm
  · exact .locally fun rows => (hslice rows).symm

theorem pageOf_count {db : Fetch.Database} {q : Fetch.Query} {skip : Int} {take : Option Int}
    {number size : Nat} (htop : q.top = none) (hpage : Plan.IsPage skip take number size)
    (hnumber : number < Plan.pageNumbers) (all : List Record) :
    (Fetch.pageOf db
        { q with count := some size, page := some (number % Plan.pageNumbers) } all).records =
      (all.drop skip.toNat).take size := by
  rw [Fetch.pageOf, htop]
  simp only [Option.getD_some]
  rw [(Plan.word_eq_iff number).mpr hnumber, hpage.skipped]

theorem applyOffset_limited {select : Select} {fetch fetch' : Fetch.Query}
    {steps steps' : List Step} (htop : select.top = none) (hfetch : fetch.top = none)
    {offset : Sql.Offset} (hoffset : select.offset = some offset)
    (hpages : forall skip n, select.offset = some ⟨skip, some n⟩ ->
      skip.toNat / n.toNat + 1 < Plan.pageNumbers)
    (h : Plan.applyOffset (steps.any Step.changesRows) fetch steps (some offset) =
      .ok (fetch', steps')) : Limited select fetch steps fetch' steps' := by
  rcases offset with ⟨skip, take⟩
  rcases Plan.applyOffset_cases h with ⟨number, size, hpage, rfl, rfl⟩ | ⟨_, rfl, rfl⟩
  · rcases Plan.isPage_of_page? hpage with ⟨hsteps, hrows⟩
    cases take with
    | none =>
        cases hrows.rows
    | some n =>
        have hsize : n.toNat = size := Option.some.inj hrows.rows
        have hnumber : number < Plan.pageNumbers := by
          rw [hrows.numbered, <- hsize]
          exact hpages skip n hoffset
        refine .native hsteps (Bool.or_true _) ?_
        intro db all
        rw [pageOf_count hfetch hrows hnumber, slice, htop, hoffset, <- hsize]
  · refine .locally fun rows => ?_
    rw [slice, htop, hoffset]
    cases take <;> rfl

theorem applyLimits_limited {select : Select} {fetch fetch' : Fetch.Query}
    {steps steps' : List Step} (hfetch : fetch.top = none)
    (hone : select.top = none ∨ select.offset = none)
    (hpages : forall skip n, select.offset = some ⟨skip, some n⟩ ->
      skip.toNat / n.toNat + 1 < Plan.pageNumbers)
    (h : Plan.applyLimits fetch steps select.top select.offset = .ok (fetch', steps')) :
    Limited select fetch steps fetch' steps' := by
  simp only [Plan.applyLimits, Outcome.bind_eq_ok] at h
  rcases h with ⟨⟨fetch₁, steps₁⟩, hlimited, h⟩
  cases htop : select.top with
  | some n =>
      have hoffset : select.offset = none := by
        rcases hone with hnone | hnone
        · rw [htop] at hnone
          cases hnone
        · exact hnone
      rw [htop] at hlimited
      rw [hoffset] at h
      cases h
      exact applyTop_limited htop hlimited
  | none =>
      rw [htop] at hlimited
      cases hlimited
      cases hoffset : select.offset with
      | none =>
          rw [hoffset] at h
          cases h
          refine .unlimited ?_
          intro α rows
          rw [slice, htop, hoffset]
      | some offset =>
          rw [hoffset] at h
          exact applyOffset_limited htop hfetch hoffset hpages h

/-!
# Running the local steps
-/

/-- The records after the local filter and the local sort, where there are any. -/
def afterSteps (kept : Record -> Bool) (wanted : List ((Record -> Value) × Bool))
    (filters sorts : Bool) (recs : List Record) : List Record :=
  let left := if filters then recs.filter kept else recs
  if sorts then Sorting.stable (before (ranking wanted)) left else left

/--
Whichever of its parts the platform does, what is left of the records is the records that the
condition keeps, in the order of all keys.
-/
theorem afterSteps_sorted {kept native : Record -> Bool}
    {wanted front more : List ((Record -> Value) × Bool)} {filters sorts : Bool}
    {records : List Record} (hwanted : wanted = front ++ more)
    (hkept : forall r, r ∈ records -> kept r = true -> native r = true)
    (hfilters : filters = false -> forall r, r ∈ records -> native r = kept r)
    (hsorts : sorts = false -> wanted = front) :
    afterSteps kept wanted filters sorts
        (Sorting.stable (before (ranking front)) (records.filter native)) =
      (records.filter kept).mergeSort fun a b => (ranking wanted a b).isLE := by
  have hcoarse := @Sorting.stableSort_stable _ (ranking front) _ (records.filter native)
  have hfiltered : exists middle, (if filters then
      (Sorting.stable (before (ranking front)) (records.filter native)).filter kept else
      Sorting.stable (before (ranking front)) (records.filter native)) = middle ∧
      Sorting.StableSort (ranking front) (records.filter kept) middle := by
    refine ⟨_, rfl, ?_⟩
    cases filters with
    | true =>
        have hrest : (records.filter native).filter kept = records.filter kept := by
          rw [List.filter_filter]
          refine List.filter_congr ?_
          intro r hr
          cases hk : kept r with
          | false =>
              rfl
          | true =>
              rw [hkept r hr hk]
              rfl
        have hfilter := hcoarse.filter kept
        rw [hrest] at hfilter
        exact hfilter
    | false =>
        have hsame : records.filter native = records.filter kept :=
          List.filter_congr (hfilters rfl)
        rw [<- hsame]
        exact hcoarse
  rcases hfiltered with ⟨middle, hmiddle, hsorted⟩
  have hall : Sorting.StableSort (ranking wanted) (records.filter kept)
      (afterSteps kept wanted filters sorts
        (Sorting.stable (before (ranking front)) (records.filter native))) := by
    unfold afterSteps
    rw [hmiddle]
    cases sorts with
    | false =>
        rw [hsorts rfl]
        exact hsorted
    | true =>
        refine hsorted.presorted (Sorting.stableSort_stable middle) ?_
        intro a b heq
        rw [hwanted] at heq
        exact ranking_append_eq heq
  have hmerge := @Sorting.stableSort_mergeSort _ (ranking wanted) _ (records.filter kept)
  have hle : (fun a b => (ranking wanted a b).isLE) = Sorting.notAfter (ranking wanted) := by
    funext a b
    rw [Bool.eq_iff_iff, Sorting.notAfter_iff]
  rw [hle]
  exact hall.unique hmerge

/-!
# The plan of a select list

Everything that is known of a plan before its limit: the attributes it retrieves, the orders it
leaves to the platform, and the keys it sorts by locally, if it does.
-/

def stepsOf (t : TableDef) (residual : Residual) (entries : List (Scalar × String))
    (sort : Option (List OrderKey)) : List Step :=
  (residual.predicate.map Step.filter).toList ++ entries.map (computeStep t) ++
    sort.toList.map .sort

structure Shape (f : Frame) (records : List Record) (clock : Clock) (select : Select)
    (residual : Residual) (attributes : List Attribute) (native : List (Bound × Bool))
    (sort : Option (List OrderKey)) : Prop where
  layout : exists given, Layout f.table given attributes ((computes 0 select.items).map (·.2))
  residual : forall b, b ∈ residual.used -> .ofName b.name ∈ attributes
  provides : List.Forall₂ (Provides f.table attributes (computes 0 select.items))
    (outputs f.table 0 select.items) select.items
  supplies : Supplies f attributes (computes 0 select.items)
  front : exists more, sortKeys f.table select = nativeRanking native ++ more
  whole : sort = none -> sortKeys f.table select = nativeRanking native
  sorts : forall keys, sort = some keys -> List.Forall₂
    (SortsBy f.table records clock attributes (computes 0 select.items)) keys
    (sortKeys f.table select)
  keys : forall key, key ∈ select.orderBy ->
    TextScalar (TextColumn f.table records) (keyExpr select.items key.expr)

variable {f : Frame} {records : List Record} {clock : Clock} {select : Select}
  {residual : Residual} {attributes : List Attribute} {native : List (Bound × Bool)}
  {sort : Option (List OrderKey)}

theorem mem_computes_text {known : Column -> Prop} {n : Nat} {items : List SelectItem}
    (h : forall item, item ∈ items -> TextScalar known item.expr) {entry : Scalar × String}
    (hentry : entry ∈ computes n items) : TextScalar known entry.1 := by
  induction items generalizing n with
  | nil =>
      cases hentry
  | cons first rest ih =>
      have hrest := fun i hi => h i (List.mem_cons_of_mem _ hi)
      rcases first with ⟨e, aliasName⟩
      by_cases hfirst : exists c, e = .column c
      · rcases hfirst with ⟨c, rfl⟩
        rw [computes_cons_column] at hentry
        exact ih hrest hentry
      · have hnot : forall c, e ≠ .column c := fun c hc => hfirst ⟨c, hc⟩
        rw [(@cons_of_not_column (.ofKey "" "") e hnot n aliasName rest).2.2] at hentry
        rcases List.mem_append.mp hentry with hentry | hentry
        · rcases List.mem_singleton.mp hentry with rfl
          exact h _ List.mem_cons_self
        · exact ih hrest hentry

theorem selectPlan_shape (hselect : TextSelect f.table records select)
    (hused : forall b, b ∈ residual.used -> Listed f.table b) {plan : Plan}
    (h : Plan.selectPlan (f.context [] []) select residual = .ok plan) :
    plan.columns = outputs f.table 0 select.items ∧
      exists attributes native sort, Shape f records clock select residual attributes native sort ∧
        Limited select (f.query attributes (native.map orderOf))
          (stepsOf f.table residual (computes 0 select.items) sort) plan.fetch plan.steps := by
  have hempty : Layout f.table [] [] [] := by
    refine ⟨?_, ?_, ?_, List.nodup_nil⟩ <;> intro a ha <;> cases ha
  rcases hempty.ensureAll hused with ⟨hlayout, _, hmem⟩
  simp only [Plan.selectPlan, Outcome.bind_eq_ok,
    ensureAll_context _ fun b hb => (hused b hb).1] at h
  rcases h with ⟨listed, hlisted, ⟨ordered, steps⟩, hordered, ⟨fetch, steps'⟩, hlimits, h⟩
  cases h
  have hnames : (givenNames 0 select.items).Nodup := by
    refine hselect.names.imp ?_
    rintro a b hdiffer rfl
    rw [Text.sameName_refl] at hdiffer
    cases hdiffer
  have hnew : forall g, g ∈ givenNames 0 select.items ->
      g ∉ ([] : List String) ∧ f.table.attribute? g = none :=
    fun g hg => ⟨List.not_mem_nil, hselect.newNames g hg⟩
  rcases foldlM_item_planned rfl hlayout hselect.items hnames hnew hlisted with
    ⟨attributes, hplanned⟩
  have hdistinct : Plan.applyDistinct select listed = listed := by
    rw [Plan.applyDistinct, hselect.distinct]
    rfl
  rcases hplanned.layout with ⟨given, hlayout'⟩
  rw [List.nil_append] at hlayout'
  rw [hdistinct, hplanned.ctx, hplanned.columns, List.nil_append] at hordered
  rcases @applyOrderBy_ordered f _ records clock _ _ _ _ _ _ hlayout' hselect.items
    hselect.orderBy hordered with ⟨hkeys, attributes', native, sort, hshape⟩
  have hlimited := applyLimits_limited (by rw [hshape.ctx]; rfl) hselect.oneLimit hselect.pages
    hlimits
  refine ⟨?_, attributes', native, sort, ⟨hshape.layout, ?_, ?_, ?_, hshape.front, hshape.whole,
    hshape.sorts, hkeys⟩, ?_⟩
  · rw [hdistinct, hplanned.columns, List.nil_append]
  · intro b hb
    exact hshape.subset (hplanned.subset (hmem b hb))
  · refine hplanned.provides.imp ?_
    intro output item hprovides
    exact hprovides.mono hshape.subset (fun _ h => h)
  · intro entry hentry
    rcases hplanned.supplies entry hentry with ⟨hbinds, hretrieved⟩
    exact ⟨hbinds, fun c hc => hshape.subset (hretrieved c hc)⟩
  · rw [hshape.steps, hplanned.steps, hshape.ctx] at hlimited
    exact hlimited

/-!
# Rows
-/

theorem textual_keys (hshape : Shape f records clock select residual attributes native sort) :
    forall key, key ∈ sortKeys f.table select -> forall r, r ∈ records ->
      Value.OfKind .text (key.1 r) := by
  intro key hkey r hr
  rcases List.mem_map.mp hkey with ⟨order, horder, rfl⟩
  exact ofKind_text_value hr (hshape.keys order horder)

/-- The local filter keeps the records that the condition keeps. -/
theorem foldlM_filter {now : Calendar.DateTime} {keeps kept : Record -> Bool}
    (hkeeps : Keeps f.table records now clock kept f.filters residual keeps) {recs : List Record}
    (hrecs : forall r, r ∈ recs -> r ∈ records ∧ keeps r = true) {g : Record -> Row}
    (hread : forall r, r ∈ recs -> forall b, b ∈ residual.used -> (g r).get b.name = r.get b.name) :
    ((residual.predicate.map Step.filter).toList.foldlM
      (fun rows step => Step.apply clock step rows) (recs.map g)) =
      .ok ((if residual.predicate.isSome then recs.filter kept else recs).map g) := by
  cases hpredicate : residual.predicate with
  | none =>
      rfl
  | some q =>
      have hfilter : Step.filterRows clock q (recs.map g) = .ok ((recs.filter kept).map g) := by
        refine filterRows_map ?_
        intro r hr
        rcases hrecs r hr with ⟨hrecord, hkept⟩
        rcases hkeeps.rest q hpredicate r hrecord (g r).get (hread r hr) with ⟨u, hu, hholds⟩
        rw [hkept, Bool.true_and] at hholds
        exact ⟨u, hu, hholds⟩
      change (Step.filterRows clock q (recs.map g) >>= pure) = _
      rw [hfilter]
      rfl

theorem foldlM_stepsOf {now : Calendar.DateTime} {keeps kept : Record -> Bool}
    (hselect : TextSelect f.table records select)
    (hkeeps : Keeps f.table records now clock kept f.filters residual keeps)
    (hshape : Shape f records clock select residual attributes native sort) {recs : List Record}
    (hrecs : forall r, r ∈ recs -> r ∈ records ∧ keeps r = true) :
    exists g, (stepsOf f.table residual (computes 0 select.items) sort).foldlM
        (fun rows step => Step.apply clock step rows)
        (recs.map fun r => .ofRecord (retrieved f.table attributes r)) =
        .ok ((afterSteps kept (sortKeys f.table select) residual.predicate.isSome sort.isSome
          recs).map g) ∧
      forall r, r ∈ afterSteps kept (sortKeys f.table select) residual.predicate.isSome sort.isSome
        recs -> Shows f.table attributes (computes 0 select.items) (g r) r := by
  rcases hshape.layout with ⟨given, hlayout⟩
  have hstart : forall r, r ∈ recs -> Shows f.table attributes []
      (.ofRecord (retrieved f.table attributes r)) r := fun r _ => shows_retrieved hlayout r
  have htext : forall entry, entry ∈ computes 0 select.items ->
      TextScalar (TextColumn f.table records) entry.1 :=
    fun entry hentry => mem_computes_text hselect.items hentry
  have hfilter := foldlM_filter hkeeps hrecs fun r hr b hb =>
    (hstart r hr).retrieved _ (hshape.residual b hb)
  generalize hleft : (if residual.predicate.isSome then recs.filter kept else recs) = left
    at hfilter
  have hmembers : forall r, r ∈ left -> r ∈ recs := by
    intro r hr
    rw [<- hleft] at hr
    split at hr
    · exact List.mem_of_mem_filter hr
    · exact hr
  rcases @foldlM_computes f attributes records clock left _ [] (computes 0 select.items)
    (fun r hr => (hrecs r (hmembers r hr)).1) hlayout.distinct htext hshape.supplies
    (fun r hr => hstart r (hmembers r hr)) with ⟨g, hcomputes, hshows⟩
  rw [List.nil_append] at hshows
  refine ⟨g, ?_, ?_⟩
  · rw [stepsOf, List.foldlM_append, List.foldlM_append, hfilter, Outcome.ok_bind, hcomputes,
      Outcome.ok_bind, afterSteps, hleft]
    cases hsort : sort with
    | none =>
        rfl
    | some keys =>
        have hsorted := sortRows_map (hshape.sorts keys hsort) (textual_keys hshape)
          (fun r hr => (hrecs r (hmembers r hr)).1) hshows
        change (Step.sortRows clock keys (left.map g) >>= pure) = _
        rw [hsorted]
        rfl
  · intro r hr
    refine hshows r ?_
    rw [afterSteps, hleft] at hr
    split at hr
    · exact (Sorting.stable_perm _ _).mem_iff.mp hr
    · exact hr

/-- A row that shows a record shows the values of the select items. -/
theorem get_of_provides {entries : List (Scalar × String)} {names : List String}
    {items : List SelectItem}
    (h : List.Forall₂ (Provides f.table attributes entries) names items) {row : Row} {r : Record}
    (hrow : Shows f.table attributes entries row r) :
    names.map row.record.get = items.map fun item => value f.table r item.expr := by
  induction h with
  | nil =>
      rfl
  | cons hfirst _ ih =>
      rw [List.map_cons, List.map_cons, ih]
      refine congrArg (· :: _) ?_
      rcases hfirst with ⟨a, ha, houtput, hvalue⟩ | hentry
      · rw [hvalue r, <- houtput]
        exact hrow.retrieved a ha
      · exact hrow.computed _ hentry

theorem rows_of_shows (hshape : Shape f records clock select residual attributes native sort)
    {recs : List Record} {g : Record -> Row}
    (h : forall r, r ∈ recs -> Shows f.table attributes (computes 0 select.items) (g r) r) :
    (⟨outputs f.table 0 select.items, (recs.map g).map (·.record)⟩ : ResultSet).rows =
      recs.map fun r => select.items.map fun item => value f.table r item.expr := by
  rw [ResultSet.rows, List.map_map, List.map_map]
  refine List.map_congr_left ?_
  intro r hr
  exact get_of_provides hshape.provides (h r hr)

theorem run_of_foldlM {steps : List Step} {recs : List Record} {rows : List Row}
    (h : steps.foldlM (fun rows step => Step.apply clock step rows)
      (recs.map fun r => .ofRecord (retrieved f.table attributes r)) = .ok rows) :
    Step.run clock steps (recs.map (retrieved f.table attributes)) =
      .ok (rows.map (·.record)) := by
  rw [Step.run, List.map_map]
  change (steps.foldlM (fun rows step => Step.apply clock step rows)
    (recs.map fun r => .ofRecord (retrieved f.table attributes r)) >>= _) = _
  rw [h]
  rfl

/-!
# Running the plan
-/

theorem slice_map {α β : Type} (select : Select) (rows : List α) (g : α -> β) :
    slice select (rows.map g) = (slice select rows).map g := by
  unfold slice
  split
  · rw [List.map_take]
  · rw [List.map_take, List.map_drop]
  · rw [List.map_drop]
  · rfl

theorem slice_subset {α : Type} (select : Select) (rows : List α) :
    slice select rows ⊆ rows := by
  unfold slice
  split
  · exact List.take_subset _ _
  · exact fun a ha => List.drop_subset _ _ (List.take_subset _ _ ha)
  · exact List.drop_subset _ _
  · exact fun a ha => ha

theorem changesRows_stepsOf {t : TableDef} {entries : List (Scalar × String)}
    (h : (stepsOf t residual entries sort).any Step.changesRows = false) :
    residual.predicate.isSome = false ∧ sort.isSome = false := by
  unfold stepsOf at h
  rw [List.any_append, List.any_append, Bool.or_eq_false_iff, Bool.or_eq_false_iff] at h
  rcases h with ⟨⟨hfilter, _⟩, hsort⟩
  constructor
  · cases hpredicate : residual.predicate with
    | none =>
        rfl
    | some q =>
        rw [hpredicate] at hfilter
        cases hfilter
  · cases hkeys : sort with
    | none =>
        rfl
    | some keys =>
        rw [hkeys] at hsort
        cases hsort

section

variable {σ : Type} {host : Host σ} {store : σ -> Store}

theorem runPlan_of_retrieve {plan : Plan} {w w' : σ} {found rows : List Record}
    (hretrieve : Run.retrieveAll host plan.fetch w = .ok found w')
    (hrun : Step.run host.clock plan.steps found = .ok rows) :
    Run.runPlan host plan w = .ok rows w' := by
  have hadapt : (Run.retrieveAll host plan.fetch).adaptExcept RunError.platform w =
      .ok found w' := by
    rw [EStateM.adaptExcept, hretrieve]
  rw [Run.runPlan, Outcome.bind_apply_of_ok hadapt, Run.runSteps, hrun]
  rfl

theorem keeps_of_isKept {now : Calendar.DateTime} {keeps kept : Record -> Bool}
    (h : Keeps f.table records now clock kept f.filters residual keeps) {r : Record}
    (hr : r ∈ records) (hkept : kept r = true) : keeps r = true := by
  cases hpredicate : residual.predicate with
  | none =>
      rw [h.whole hpredicate r hr, hkept]
  | some q =>
      rcases h.rest q hpredicate r hr r.get fun _ _ => rfl with ⟨u, _, hboth⟩
      rw [hkept, Bool.and_eq_true] at hboth
      exact hboth.1

/-- What the records become that the platform returns, if the local steps are applied to them. -/
theorem afterSteps_shape {now : Calendar.DateTime} {keeps kept : Record -> Bool}
    (hkeeps : Keeps f.table records now clock kept f.filters residual keeps)
    (hshape : Shape f records clock select residual attributes native sort) :
    afterSteps kept (sortKeys f.table select) residual.predicate.isSome sort.isSome
        (Sorting.stable (before (ranking (nativeRanking native))) (records.filter keeps)) =
      (records.filter kept).mergeSort fun a b =>
        (ranking (sortKeys f.table select) a b).isLE := by
  rcases hshape.front with ⟨more, hmore⟩
  refine afterSteps_sorted hmore (fun r hr hkept => keeps_of_isKept hkeeps hr hkept) ?_ ?_
  · intro hnone
    exact hkeeps.whole (Option.isSome_eq_false_iff.mp hnone |> Option.isNone_iff_eq_none.mp)
  · intro hnone
    exact hshape.whole (Option.isSome_eq_false_iff.mp hnone |> Option.isNone_iff_eq_none.mp)

theorem runPlan_answer (hserves : Serves host store) {w : σ} {plan : Plan}
    {keeps : Record -> Bool} (hselect : TextSelect f.table records select)
    (htable : (store w).tables.get? f.table.name = some records)
    (hfit : records.length ≤ Run.maxPages * max (store w).pageSize 1)
    (hkeeps : Keeps f.table records host.clock.universal host.clock (isKept f.table select)
      f.filters residual keeps)
    (hshape : Shape f records host.clock select residual attributes native sort)
    (hlimited : Limited select (f.query attributes (native.map orderOf))
      (stepsOf f.table residual (computes 0 select.items) sort) plan.fetch plan.steps) :
    exists rows w', Run.runPlan host plan w = .ok rows w' ∧
      (⟨outputs f.table 0 select.items, rows⟩ : ResultSet).rows =
        answer f.table select records := by
  have hkeys : forall key, key ∈ native -> forall r, r ∈ records ->
      Value.OfKind .text (r.get key.1.name) := by
    intro key hkey r hr
    rcases hshape.front with ⟨more, hmore⟩
    refine textual_keys hshape (fun r => r.get key.1.name, key.2) ?_ r hr
    rw [hmore]
    exact List.mem_append_left _ (List.mem_map.mpr ⟨key, hkey, rfl⟩)
  have hall := fun top page count => @allRecords_query f attributes records
    ((store w).database host.clock) keeps native top page count htable hkeeps.filters hkeys
  have hsorted := afterSteps_shape hkeeps hshape
  generalize hfound : Sorting.stable (before (ranking (nativeRanking native)))
    (records.filter keeps) = found at hall hsorted
  have hmembers : forall r, r ∈ found -> r ∈ records ∧ keeps r = true := by
    intro r hr
    rw [<- hfound] at hr
    exact List.mem_filter.mp ((Sorting.stable_perm _ _).mem_iff.mp hr)
  have hlength : found.length ≤ records.length := by
    rw [<- hfound, (Sorting.stable_perm _ _).length_eq]
    exact List.length_filter_le _ _
  rcases plan with ⟨fetch, steps, columns⟩
  cases hlimited with
  | unlimited hslice =>
      rcases Run.retrieveAll_all hserves rfl rfl rfl (hall none none none)
        (by rw [List.length_map]; omega) with ⟨w', hretrieve, _⟩
      rcases foldlM_stepsOf hselect hkeeps hshape hmembers with ⟨g, hrun, hshows⟩
      rw [hsorted] at hrun hshows
      refine ⟨_, w', runPlan_of_retrieve hretrieve (run_of_foldlM hrun), ?_⟩
      rw [rows_of_shows hshape hshows, answer, shown, hslice]
  | @native top page count hsteps hsingle hslice =>
      rcases @Run.retrieveAll_single σ host store hserves
        { f.query attributes (native.map orderOf) with top, page, count } hsingle w _
        (hall top page count) with ⟨w', hretrieve, _⟩
      rw [hslice, slice_map] at hretrieve
      rcases foldlM_stepsOf hselect hkeeps hshape
        (fun r hr => hmembers r (slice_subset select found hr)) with ⟨g, hrun, hshows⟩
      rcases changesRows_stepsOf hsteps with ⟨hfilter, hsort⟩
      rw [hfilter, hsort] at hrun hshows hsorted
      refine ⟨_, w', runPlan_of_retrieve hretrieve (run_of_foldlM hrun), ?_⟩
      rw [rows_of_shows hshape hshows, answer, shown]
      exact congrArg (fun recs => (slice select recs).map _) hsorted
  | @locally skip take hslice =>
      rcases Run.retrieveAll_all hserves rfl rfl rfl (hall none none none)
        (by rw [List.length_map]; omega) with ⟨w', hretrieve, _⟩
      rcases foldlM_stepsOf hselect hkeeps hshape hmembers with ⟨g, hrun, hshows⟩
      rw [hsorted] at hrun hshows
      have hlimit : (stepsOf f.table residual (computes 0 select.items) sort ++
          [Step.limit skip take]).foldlM (fun rows step => Step.apply host.clock step rows)
          (found.map fun r => .ofRecord (retrieved f.table attributes r)) =
          .ok ((shown f.table select records).map g) := by
        rw [List.foldlM_append, hrun, Outcome.ok_bind, shown, <- slice_map, <- hslice]
        rfl
      refine ⟨_, w', runPlan_of_retrieve hretrieve (run_of_foldlM hlimit), ?_⟩
      exact rows_of_shows hshape fun r hr => hshows r (slice_subset select _ hr)

/-!
# Planning the statement
-/

theorem containsAggregate_text {known : Column -> Prop} {e : Scalar} (he : TextScalar known e) :
    e.containsAggregate = false := by
  unfold Scalar.containsAggregate
  induction he with
  | join _ _ ihLeft ihRight =>
      rw [Scalar.parts, List.any_cons, List.any_append, ihLeft, ihRight]
      rfl
  | _ =>
      rfl

theorem isAggregateQuery_text {t : TableDef} (h : TextSelect t records select) :
    Plan.isAggregateQuery select = false := by
  have hitems : select.items.any (·.expr.containsAggregate) = false := by
    rw [List.any_eq_false]
    intro item hitem
    rw [containsAggregate_text (h.items item hitem)]
    exact Bool.false_ne_true
  have hkeys : select.orderBy.any (·.expr.containsAggregate) = false := by
    rw [List.any_eq_false]
    intro key hkey
    rcases h.orderBy key hkey with htext | ⟨ordinal, hordinal⟩
    · rw [containsAggregate_text htext]
      exact Bool.false_ne_true
    · rw [hordinal]
      exact Bool.false_ne_true
  rw [Plan.isAggregateQuery, h.groupBy, h.having, hitems, hkeys]
  rfl

/-- What stays the same while a query of the table is planned, before its condition is. -/
def frameOf (t : TableDef) (ref : TableRef) : Frame :=
  ⟨t, ref.aliasName.getD t.name, ref.noLock || false, []⟩

theorem contextOf_single {τ : Type} {lookup : Lookup τ} {options : Plan.Options} {v v₁ : τ}
    {t : TableDef} {ref : TableRef} (hlookup : (lookup ref.name).run v = .ok t v₁) :
    (Plan.contextOf lookup options ⟨ref, []⟩).run v =
      .ok ((frameOf t ref).contextIn options [] []) v₁ := by
  have hdefinition : (Plan.definition lookup ref.name).run v = .ok t v₁ := by
    change EStateM.adaptExcept _ (lookup ref.name) v = _
    have happly : lookup ref.name v = .ok t v₁ := hlookup
    rw [EStateM.adaptExcept, happly]
  rw [Plan.contextOf]
  refine Outcome.run_bind_eq_ok.mpr ⟨⟨ref, []⟩, v, rfl, ?_⟩
  exact Outcome.run_bind_eq_ok.mpr ⟨t, v₁, hdefinition, rfl⟩

/-- A statement about one data table is planned with that table as its only scope. -/
theorem planStatement_single {τ : Type} {lookup : Lookup τ} {options : Plan.Options} {v v₁ v' : τ}
    {t : TableDef} {ref : TableRef} (hsource : select.sources = [⟨ref, []⟩])
    (hdata : VirtualTable.ofName? ref.name = none)
    (hlookup : (lookup ref.name).run v = .ok t v₁) {task : Plan.Task}
    (h : (Plan.planStatement lookup options clock (.select select)).run v = .ok task v') :
    Plan.selectTask ((frameOf t ref).contextIn options [] []) clock select = .ok task := by
  have hvirtual : Plan.virtualTables ⟨ref, []⟩ = .ok none := by
    simp [Plan.virtualTables, hdata]
  rw [Plan.planStatement, hsource] at h
  simp only [Plan.planSelect, Outcome.run_bind_eq_ok, Outcome.run_liftExcept_eq_ok] at h
  rcases h with ⟨found, v₂, ⟨hfound, rfl⟩, h⟩
  rw [hvirtual] at hfound
  cases hfound
  simp only [Outcome.run_bind_eq_ok, Outcome.run_liftExcept_eq_ok] at h
  rcases h with ⟨ctx, v₃, hctx, htask, _⟩
  rw [contextOf_single hlookup] at hctx
  cases hctx
  exact htask

/-!
# Answers
-/

/--
Executing a query of one table on a store succeeds, and shows what the query means for the records
of the table, whatever the size of pages, as long as the pages of the table can be numbered.
-/
theorem execute_eq_answer {τ : Type} (hserves : Serves host store) {lookup : Lookup τ}
    {v v₁ v' : τ} {w : σ} {t : TableDef} {ref : TableRef} {task : Plan.Task}
    (hsource : select.sources = [⟨ref, []⟩]) (hdata : VirtualTable.ofName? ref.name = none)
    (hlookup : (lookup ref.name).run v = .ok t v₁)
    (htable : (store w).tables.get? t.name = some records)
    (hfit : records.length ≤ Run.maxPages * (store w).pageSize)
    (hselect : TextSelect t records select)
    (hplan : (Plan.planStatement lookup .standard host.clock (.select select)).run v =
      .ok task v') (sql : String) :
    exists q set w', (Query.ofTask sql task).execute host w = ((q, none), w') ∧
      q.resultSet? = some set ∧ set.columns = outputs t 0 select.items ∧
      set.rows = answer t select records := by
  have htask := planStatement_single hsource hdata hlookup hplan
  rcases Plan.selectTask_of_rows (isAggregateQuery_text hselect) htask with
    ⟨ctx, residual, plan, hwhere, hplan, rfl⟩
  have hsingle : Single t ((frameOf t ref).context [] []) :=
    @Frame.single (frameOf t ref) [] []
  rcases @applyWhere_keeps t _ records _ host.clock.universal hsingle rfl _ hselect.criteria _ _
    hwhere with ⟨filters, keeps, rfl, hkeeps⟩
  rcases @selectPlan_shape { frameOf t ref with filters } records host.clock select residual hselect
    hkeeps.used _ hplan with ⟨hcolumns, attributes, native, sort, hshape, hlimited⟩
  have hfit' : records.length ≤ Run.maxPages * max (store w).pageSize 1 :=
    Nat.le_trans hfit (Nat.mul_le_mul_left _ (Nat.le_max_left _ _))
  rcases runPlan_answer hserves hselect htable hfit' hkeeps hshape hlimited with
    ⟨rows, w', hrun, hrows⟩
  have hexecute : (Query.ofTask sql (.select plan none)).execute host w =
      ((⟨sql, .select plan none, .completed (.rows ⟨rows, false, none⟩)⟩, none), w') := by
    have htask : Run.runTask host (.select plan none) w = .ok (.rows ⟨rows, false, none⟩) w' := by
      rw [Run.runTask]
      exact (Outcome.bind_apply_of_ok hrun)
    rw [Query.execute, Query.ofTask]
    simp only [htask]
  exact ⟨_, ⟨plan.columns, rows⟩, w', hexecute, rfl, hcolumns, by rw [hcolumns]; exact hrows⟩

end

/-- A session on a store serves it. -/
theorem serves_hostOf (clock : Clock) (options : Plan.Options) :
    Serves (Session.hostOf ⟨Store.client clock, options, clock⟩ .standard) Session.host := by
  constructor
  · intro q w page h
    have hretrieve : Store.retrieve clock q w.host = .ok page w.host := by
      change (liftExcept (Fetch.evaluate (w.host.database clock) q) : EStateM _ Store Page) w.host =
        _
      have hpage : Fetch.evaluate (w.host.database clock) q = .ok page := h
      rw [hpage]
      rfl
    have hrun : (Session.part.run (Store.retrieve clock q)) w = .ok page w := by
      have hpart : Store.retrieve clock q (Session.part.get w) = .ok page w.host := hretrieve
      rw [Part.run, hpart]
      rfl
    exact ⟨w, hrun, rfl⟩
  · intro w
    rfl
  · intro message w
    rfl
  · intro n w
    exact ⟨w, rfl, rfl⟩

/-!
# Letters of authors

A part of the condition is left to a local filter, and so the sort and the limit are local, too.
-/

def letter : TableDef :=
  { TableDef.ofKey "letter" "id" with
    attributes := [.ofType "author" .string, .ofType "place" .memo] }

def letterFrom (author place : String) : Record :=
  ⟨"letter", none, .ofList [("author", .str author), ("place", .str place)]⟩

def letters : List Record :=
  [letterFrom "Ada" "London", ⟨"letter", none, .ofList [("author", .str "ada")]⟩,
    letterFrom "ada" "Bath", letterFrom "Emmy" "Rome"]

def letterStore : Store :=
  { Store.empty with
    tables := .ofList [("letter", letters)]
    definitions := .ofList [("letter", letter)]
    pageSize := 1 }

/-- The second of the letters of an author that come from a place, by the author and the place. -/
def letterSelect : Select where
  distinct := false
  top := none
  items := [⟨.column (.ofName "author"), none⟩,
    ⟨.binary (.column (.ofName "place")) .add (.literal (.str "!")), some "from"⟩]
  sources := [⟨⟨"letter", none, false⟩, []⟩]
  criteria := some (.and [.compare (.column (.ofName "author")) .eq (.literal (.str "ADA")),
    .compare (.binary (.column (.ofName "place")) .add (.column (.ofName "author"))) .ne
      (.literal (.str ""))])
  groupBy := []
  having := none
  orderBy := [⟨.literal (.int 1), false⟩, ⟨.column (.ofName "from"), false⟩]
  offset := some ⟨1, some 1⟩

theorem textColumn_letter (c : Column) : TextColumn letter letters c := by
  intro a ha
  have hmem : a ∈ letter.attributes := List.mem_of_find?_eq_some ha
  simp only [letter, List.mem_cons, List.not_mem_nil, or_false] at hmem
  constructor
  · rcases hmem with rfl | rfl <;> rfl
  · intro r hr kind hkind
    simp only [letters, List.mem_cons, List.not_mem_nil, or_false] at hr
    rcases hmem with rfl | rfl <;> rcases hr with rfl | rfl | rfl | rfl <;> cases hkind <;> rfl

theorem letterSelect_text : TextSelect letter letters letterSelect := by
  have hcolumn : forall name, TextScalar (TextColumn letter letters) (.column (.ofName name)) :=
    fun name => .column (textColumn_letter _)
  refine ⟨?_, ?_, ?_, rfl, rfl, rfl, by decide, by decide, Or.inl rfl, ?_⟩
  · intro item hitem
    simp only [letterSelect, List.mem_cons, List.not_mem_nil, or_false] at hitem
    rcases hitem with rfl | rfl
    · exact hcolumn "author"
    · exact .join (hcolumn "place") (.text "!")
  · intro p hp
    cases hp
    refine .and ?_
    intro p hp
    simp only [List.mem_cons, List.not_mem_nil, or_false] at hp
    rcases hp with rfl | rfl
    · exact .compare (hcolumn "author") (.text "ADA")
    · exact .compare (.join (hcolumn "place") (hcolumn "author")) (.text "")
  · intro key hkey
    simp only [letterSelect, List.mem_cons, List.not_mem_nil, or_false] at hkey
    rcases hkey with rfl | rfl
    · exact Or.inr ⟨1, rfl⟩
    · exact Or.inl (hcolumn "from")
  · intro skip n h
    cases h
    decide

def letterClock : Clock :=
  ⟨Plan.newYear, Plan.newYear⟩

def letterHost : Host (Session Store) :=
  Session.hostOf ⟨Store.client letterClock, .standard, letterClock⟩ .standard

theorem answer_letterSelect :
    answer letter letterSelect letters = [[.str "Ada", .str "London!"]] := by
  have hkept : letters.filter (isKept letter letterSelect) =
      [letterFrom "Ada" "London", letterFrom "ada" "Bath"] := by decide
  have hafter : (ranking (sortKeys letter letterSelect) (letterFrom "Ada" "London")
      (letterFrom "ada" "Bath")).isLE = false := by decide
  have hsorted : [letterFrom "Ada" "London", letterFrom "ada" "Bath"].mergeSort
      (fun a b => (ranking (sortKeys letter letterSelect) a b).isLE) =
      [letterFrom "ada" "Bath", letterFrom "Ada" "London"] := by
    simp [List.mergeSort, hafter]
  rw [answer, shown, hkept, hsorted]
  decide

theorem execute_letterSelect :
    exists task session, (Plan.planStatement letterHost.lookup .standard letterHost.clock
        (.select letterSelect)).run (Session.ofHost letterStore) = .ok task session ∧
      exists q set w', (Query.ofTask "" task).execute letterHost session = ((q, none), w') ∧
        q.resultSet? = some set ∧ set.columns = ["author", "from"] ∧
        set.rows = [[.str "Ada", .str "London!"]] := by
  have hplan : exists task session, (Plan.planStatement letterHost.lookup .standard letterHost.clock
      (.select letterSelect)).run (Session.ofHost letterStore) = .ok task session ∧
      session.host = letterStore := ⟨_, _, rfl, rfl⟩
  rcases hplan with ⟨task, session, hplan, hhost⟩
  have hrecords : session.host.tables.get? letter.name = some letters := by
    rw [hhost]
    rfl
  have hfit : letters.length ≤ Run.maxPages * session.host.pageSize := by
    rw [hhost]
    decide
  rcases execute_eq_answer (serves_hostOf letterClock .standard) rfl rfl rfl hrecords hfit
    letterSelect_text hplan "" with ⟨q, set, w', hexecute, hset, hcolumns, hrows⟩
  refine ⟨task, session, hplan, q, set, w', hexecute, hset, hcolumns, ?_⟩
  rw [hrows]
  exact answer_letterSelect

end TextQuery
end RecordSql
