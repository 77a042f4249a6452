import RecordSql.Fetch.Evaluate
import RecordSql.Proofs.ScopeRows
import RecordSql.Proofs.TextQuery.Ordering

/-!
# Rows of texts

Every row of a query of one table shows one of its records.  What the platform does to rows, and
what the local steps do, is therefore told by what happens to the list of records.
-/

namespace RecordSql
namespace TextQuery

open Fetch (Attribute Joined Order)
open Plan (Bound)
open Sorting (before)
open Sql (OrderKey Scalar)
open Std (OrientedCmp TransCmp)

/-!
# Rankings
-/

theorem ranking_cons {α : Type} (key : (α -> Value) × Bool) (rest : List ((α -> Value) × Bool)) :
    ranking (key :: rest) = compareLex
      (fun a b => Sorting.directed key.2 (compareOn (fun a => (key.1 a).textKey false) a b))
      (ranking rest) := by
  funext a b
  exact Sorting.lexicographic_cons _ _

instance {α : Type} (keys : List ((α -> Value) × Bool)) : TransCmp (ranking keys) := by
  induction keys with
  | nil =>
      exact inferInstanceAs (TransCmp (compareOn fun _ : α => 0))
  | cons key rest ih =>
      have hfirst := Sorting.transCmp_directed key.2 (compareOn fun a => (key.1 a).textKey false)
      rw [ranking_cons]
      infer_instance

/-- Items that more keys call equal are equal by the first of these keys. -/
theorem ranking_append_eq {α : Type} {front back : List ((α -> Value) × Bool)} {a b : α}
    (h : ranking (front ++ back) a b = .eq) : ranking front a b = .eq := by
  induction front with
  | nil =>
      rfl
  | cons key rest ih =>
      rw [List.cons_append, ranking_cons, compareLex, Ordering.then_eq_eq] at h
      rw [ranking_cons, compareLex, Ordering.then_eq_eq]
      exact ⟨h.1, ih h.2⟩

/-!
# Retrieving

The platform filters and sorts the records, and returns the attributes asked for.
-/

variable {f : Frame} {attributes : List Attribute} {records : List Record}

/-- The rows of the query are the records that its filters keep. -/
theorem scopeRows_query {db : Fetch.Database} {native : Record -> Bool}
    (htable : db.tables f.table.name = some records)
    (hfilters : forall r, r ∈ records ->
      Fetch.filtersHold db.now "" (.ofRecord "" r) f.filters = .ok (native r))
    (attributes : List Attribute) (orders : List Order) :
    Fetch.scopeRows db "" (f.query attributes orders).root =
      .ok ((records.filter native).map (.ofRecord "")) :=
  Fetch.scopeRows_eq_ok.mpr ⟨records, _, htable, rfl, Fetch.keepMatching_map hfilters⟩

theorem compareForSort_ranking {v w : Value} (hv : Value.OfKind .text v)
    (hw : Value.OfKind .text w) (descending : Bool) :
    Sorting.directed descending (v.compareForSort false w) =
      Sorting.directed descending (compare (v.textKey false) (w.textKey false)) := by
  rw [Value.compareForSort_text false hv hw]

/-- The platform sorts the rows of records as their ranking says. -/
theorem sortBy_records {keys : List (Bound × Bool)} {recs : List Record}
    (htext : forall key, key ∈ keys -> forall r, r ∈ recs ->
      Value.OfKind .text (r.get key.1.name)) :
    Fetch.sortBy Joined.get (keys.map fun key => ⟨"" ++ key.1.name, key.2⟩)
      (recs.map (.ofRecord "")) =
      (Sorting.stable (before (ranking (nativeRanking keys))) recs).map (.ofRecord "") := by
  unfold Fetch.sortBy
  refine Sorting.stable_map ?_
  intro a b ha hb
  refine congrArg (· == Ordering.lt) ?_
  unfold ranking nativeRanking
  beta_reduce
  rw [List.map_map, List.map_map]
  refine congrArg Sorting.lexicographic (List.map_congr_left ?_)
  intro key hkey
  simp only [Function.comp_apply, String.empty_append, get_ofRecord]
  exact compareForSort_ranking (htext key hkey a ha) (htext key hkey b hb) key.2

/-- The record that the platform returns for a record of the table. -/
def retrieved (t : TableDef) (attributes : List Attribute) (r : Record) : Record :=
  ⟨t.name, r.id, .ofList (attributes.map fun a => (outputName a, r.get a.name))⟩

theorem project_ofRecord (orders : List Order) (r : Record) :
    Fetch.project (f.query attributes orders).root
      (Fetch.placedAttributes "" (f.query attributes orders).root) (.ofRecord "" r) =
      retrieved f.table attributes r := by
  have hplaced : Fetch.placedAttributes "" (f.query attributes orders).root =
      attributes.map (⟨"", ·⟩) := by
    rw [Frame.query, Fetch.placedAttributes, Fetch.linkedAttributes, List.append_nil]
  have hwhole : Fetch.wholeScopes (.ofRecord "" r) "" (f.query attributes orders).root = [] := by
    rw [Frame.query, Fetch.wholeScopes, Fetch.wholeLinked]
    rfl
  rw [Fetch.project, hplaced, hwhole, List.nil_append, retrieved, List.map_map]
  have hentries : (fun a : Fetch.Placed => (a.output, (Joined.ofRecord "" r).get a.key)) ∘
      (fun a => (⟨"", a⟩ : Fetch.Placed)) = fun a => (outputName a, r.get a.name) := by
    funext a
    simp only [Function.comp_apply, Fetch.Placed.output, Fetch.Placed.key, String.empty_append,
      get_ofRecord, outputName]
  rw [hentries]
  rfl

theorem shows_retrieved {t : TableDef} {given computed : List String}
    (h : Layout t given attributes computed) (r : Record) :
    Shows t attributes [] (.ofRecord (retrieved t attributes r)) r where
  keys := rfl
  retrieved := by
    intro a ha
    have hdistinct : ((attributes.map fun a => (outputName a, r.get a.name)).map (·.1)).Nodup := by
      rw [List.map_map]
      exact (List.nodup_append.mp h.distinct).1
    have hget := Dict.get?_insertAll_of_mem hdistinct (List.mem_map.mpr ⟨a, ha, rfl⟩) Dict.empty
    change (Dict.get? (.ofList _) (outputName a)).getD Value.null = _
    rw [Dict.ofList, hget]
    rfl
  computed := by
    intro entry hentry
    cases hentry

/-- What the platform returns for a planned query, before it is cut into pages. -/
theorem allRecords_query {db : Fetch.Database} {native : Record -> Bool}
    {keys : List (Bound × Bool)} {top page count : Option Nat}
    (htable : db.tables f.table.name = some records)
    (hfilters : forall r, r ∈ records ->
      Fetch.filtersHold db.now "" (.ofRecord "" r) f.filters = .ok (native r))
    (htext : forall key, key ∈ keys -> forall r, r ∈ records ->
      Value.OfKind .text (r.get key.1.name)) :
    Fetch.allRecords db { f.query attributes (keys.map orderOf) with top, page, count } =
      .ok ((Sorting.stable (before (ranking (nativeRanking keys))) (records.filter native)).map
        (retrieved f.table attributes)) := by
  have hrows := scopeRows_query htable hfilters attributes (keys.map orderOf)
  have hkeys : forall placed, Fetch.scopeSortKeys false placed ""
      (f.query attributes (keys.map orderOf)).root =
      keys.map fun key => ⟨"" ++ key.1.name, key.2⟩ := by
    intro placed
    rw [Frame.query, Fetch.scopeSortKeys, Fetch.linkedSortKeys, List.append_nil, Fetch.sortKeys,
      List.filterMap_map]
    exact congrFun List.filterMap_eq_map keys
  rw [Fetch.allRecords]
  simp only [hrows, Outcome.ok_bind]
  change Except.ok (List.map (Fetch.project _ _) (Fetch.sortBy Joined.get
    (Fetch.scopeSortKeys false _ "" (f.query attributes (keys.map orderOf)).root) _)) = _
  rw [hkeys, sortBy_records fun key hkey r hr => htext key hkey r (List.mem_of_mem_filter hr),
    List.map_map]
  refine congrArg Except.ok (List.map_congr_left ?_)
  intro r _
  exact project_ofRecord _ r

/-!
# Local steps
-/

section

variable {clock : Clock} {recs : List Record} {g : Record -> Row}

theorem mapM_map_ok {α β γ ε : Type} {items : List α} {g : α -> β} {step : β -> Except ε γ}
    {result : α -> γ} (h : forall a, a ∈ items -> step (g a) = .ok (result a)) :
    (items.map g).mapM step = .ok (items.map result) := by
  induction items with
  | nil =>
      rfl
  | cons a rest ih =>
      rw [List.map_cons, List.mapM_cons, h a List.mem_cons_self, Outcome.ok_bind,
        ih fun b hb => h b (List.mem_cons_of_mem _ hb)]
      rfl

theorem filterRows_map {q : Sql.Predicate} {keep : Record -> Bool}
    (h : forall r, r ∈ recs ->
      exists u, Eval.predicate clock (g r).get q = .ok u ∧ u.holds = keep r) :
    Step.filterRows clock q (recs.map g) = .ok ((recs.filter keep).map g) := by
  induction recs with
  | nil =>
      rfl
  | cons r rest ih =>
      rcases h r List.mem_cons_self with ⟨u, hu, hkeep⟩
      rw [List.map_cons, Step.filterRows, hu, Outcome.ok_bind,
        ih fun r' hr' => h r' (List.mem_cons_of_mem _ hr'), Outcome.ok_bind, hkeep,
        List.filter_cons]
      cases keep r <;> rfl

/-- A computed column is added to what a row shows. -/
theorem Shows.insert {t : TableDef} {entries : List (Scalar × String)} {e : Scalar}
    {name : String} {row : Row} {r : Record} (h : Shows t attributes entries row r)
    (hnew : name ∉ attributes.map outputName ++ entries.map (·.2)) :
    Shows t attributes (entries ++ [(e, name)]) (row.insert name (value t r e)) r where
  keys := h.keys
  retrieved := by
    intro a ha
    have hne : outputName a ≠ name := by
      rintro rfl
      exact hnew (List.mem_append_left _ (List.mem_map_of_mem ha))
    rw [Row.get_insert, if_neg hne]
    exact h.retrieved a ha
  computed := by
    intro entry hentry
    rw [Row.get_insert]
    rcases List.mem_append.mp hentry with hold | hentry
    · have hne : entry.2 ≠ name := by
        intro heq
        exact hnew (List.mem_append_right _ (heq ▸ List.mem_map_of_mem hold))
      rw [if_neg hne]
      exact h.computed entry hold
    · rcases List.mem_singleton.mp hentry with rfl
      rw [if_pos rfl]

theorem sees_of_shows {entries : List (Scalar × String)} {row : Row} {r : Record}
    (h : Shows f.table attributes entries row r) {columns : List Sql.Column}
    (hmem : forall c, c ∈ columns -> .ofName (attributeName f.table c) ∈ attributes) :
    Sees f.table row.get r columns := by
  intro c hc
  exact h.retrieved _ (hmem c hc)

/-- The steps that compute columns add all of them to the rows. -/
theorem foldlM_computes {sofar entries : List (Scalar × String)}
    (hrecs : forall r, r ∈ recs -> r ∈ records)
    (hdistinct : (attributes.map outputName ++ (sofar ++ entries).map (·.2)).Nodup)
    (htext : forall entry, entry ∈ entries -> TextScalar (TextColumn f.table records) entry.1)
    (hsupplies : Supplies f attributes entries)
    (hshows : forall r, r ∈ recs -> Shows f.table attributes sofar (g r) r) :
    exists g', (entries.map (computeStep f.table)).foldlM
        (fun rows step => Step.apply clock step rows) (recs.map g) = .ok (recs.map g') ∧
      forall r, r ∈ recs -> Shows f.table attributes (sofar ++ entries) (g' r) r := by
  induction entries generalizing sofar g with
  | nil =>
      rw [List.append_nil]
      exact ⟨g, rfl, hshows⟩
  | cons entry rest ih =>
      rcases hsupplies entry List.mem_cons_self with ⟨hbinds, hmem⟩
      have hvalue : forall r, r ∈ recs ->
          Eval.scalar clock (g r).get (bare f.table entry.1) = .ok (value f.table r entry.1) := by
        intro r hr
        exact scalar_bare Frame.single (hrecs r hr) (htext entry List.mem_cons_self) hbinds
          (sees_of_shows (hshows r hr) hmem)
      have hstep : Step.apply clock (computeStep f.table entry) (recs.map g) =
          .ok (recs.map fun r => (g r).insert entry.2 (value f.table r entry.1)) := by
        refine mapM_map_ok ?_
        intro r hr
        rw [hvalue r hr]
        rfl
      have hnew : entry.2 ∉ attributes.map outputName ++ sofar.map (·.2) := by
        rw [List.map_append, List.map_cons, <- List.append_assoc] at hdistinct
        intro hmem
        exact (List.nodup_append.mp hdistinct).2.2 _ hmem _ List.mem_cons_self rfl
      rw [List.append_cons] at hdistinct
      rcases ih hdistinct (fun e he => htext e (List.mem_cons_of_mem _ he))
        (fun e he => hsupplies e (List.mem_cons_of_mem _ he))
        (fun r hr => (hshows r hr).insert hnew) with ⟨g', hrun, hshows'⟩
      rw [List.append_cons]
      refine ⟨g', ?_, hshows'⟩
      rw [List.map_cons, List.foldlM_cons, hstep, Outcome.ok_bind]
      exact hrun

/-!
# Sorting
-/

theorem mapM_sortValue {entries : List (Scalar × String)} {keys : List OrderKey}
    {wanted : List ((Record -> Value) × Bool)}
    (h : List.Forall₂ (SortsBy f.table records clock attributes entries) keys wanted)
    {r : Record} (hr : r ∈ records) {row : Row}
    (hrow : Shows f.table attributes entries row r) :
    (keys.mapM fun key => Step.sortValue clock key.expr row) = .ok (wanted.map (·.1 r)) := by
  induction h with
  | nil =>
      rfl
  | cons hfirst _ ih =>
      rw [List.mapM_cons, hfirst.finds r hr row hrow, Outcome.ok_bind, ih]
      rfl

theorem compareKeys_ranking {entries : List (Scalar × String)} {keys : List OrderKey}
    {wanted : List ((Record -> Value) × Bool)}
    (h : List.Forall₂ (SortsBy f.table records clock attributes entries) keys wanted)
    (htext : forall key, key ∈ wanted -> forall r, r ∈ records -> Value.OfKind .text (key.1 r))
    {a b : Record} (ha : a ∈ records) (hb : b ∈ records) :
    Step.compareKeys keys (wanted.map (·.1 a)) (wanted.map (·.1 b)) = ranking wanted a b := by
  induction h with
  | nil =>
      rfl
  | @cons key want keys wanted hfirst _ ih =>
      have hrest := ih fun k hk => htext k (List.mem_cons_of_mem _ hk)
      have hwant := htext want List.mem_cons_self
      rw [ranking_cons, compareLex, <- hrest]
      unfold Step.compareKeys
      rw [List.map_cons, List.map_cons, List.zip_cons_cons, List.zip_cons_cons, List.map_cons,
        Sorting.lexicographic_cons]
      simp only
      rw [hfirst.descending, hfirst.ignoresCase, compareForSort_ranking (hwant a ha) (hwant b hb)]
      rfl

theorem sortRows_map {entries : List (Scalar × String)} {keys : List OrderKey}
    {wanted : List ((Record -> Value) × Bool)}
    (h : List.Forall₂ (SortsBy f.table records clock attributes entries) keys wanted)
    (htext : forall key, key ∈ wanted -> forall r, r ∈ records -> Value.OfKind .text (key.1 r))
    (hrecs : forall r, r ∈ recs -> r ∈ records)
    (hshows : forall r, r ∈ recs -> Shows f.table attributes entries (g r) r) :
    Step.sortRows clock keys (recs.map g) =
      .ok ((Sorting.stable (before (ranking wanted)) recs).map g) := by
  have hkeyed : ((recs.map g).mapM fun row => do
      let values <- keys.mapM fun key => Step.sortValue clock key.expr row
      return (values, row)) = Except.ok (recs.map fun r => (wanted.map (·.1 r), g r)) := by
    refine mapM_map_ok ?_
    intro r hr
    rw [mapM_sortValue h (hrecs r hr) (hshows r hr)]
    rfl
  rw [Step.sortRows, hkeyed, Outcome.ok_bind]
  refine congrArg Except.ok ?_
  rw [Sorting.stable_map (p := before (ranking wanted)), List.map_map]
  · rfl
  · intro a b ha hb
    rw [before, compareKeys_ranking h htext (hrecs a ha) (hrecs b hb)]

end

end TextQuery
end RecordSql
