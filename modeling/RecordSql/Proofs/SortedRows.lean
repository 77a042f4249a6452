import RecordSql.Proofs.GroupOrder
import RecordSql.Proofs.LetterCase
import RecordSql.Proofs.MixedOrder
import RecordSql.Proofs.Outcome
import RecordSql.Step.Apply

/-!
# Sorted rows

Rows are sorted by the first of their keys that tells them apart, and rows that no key tells apart
stay as they were.  The platform sorts by columns in the same way.
-/

namespace RecordSql

open Sorting (OrdersAmong StableSort before directed peers)
open Std (OrientedCmp TransCmp)

theorem Outcome.exists_of_mapM_error {ε α β : Type} {f : α -> Except ε β} {l : List α} {e : ε}
    (h : l.mapM f = .error e) : exists a, a ∈ l ∧ f a = .error e := by
  induction l with
  | nil =>
      cases h
  | cons a rest ih =>
      rw [List.mapM_cons] at h
      cases ha : f a with
      | error e' =>
          rw [ha] at h
          cases h
          exact ⟨a, List.mem_cons_self, ha⟩
      | ok b =>
          rw [ha, ok_bind] at h
          cases hrest : rest.mapM f with
          | error e' =>
              rw [hrest] at h
              cases h
              rcases ih hrest with ⟨c, hc, herror⟩
              exact ⟨c, List.mem_cons_of_mem _ hc, herror⟩
          | ok bs =>
              rw [hrest] at h
              cases h

namespace Value

/-!
# Values in order

Values of one class are sorted among each other and after missing ones.
-/

inductive SortClass where
  | bool
  | int
  | text
  | time
  | identifier

/-- The value is missing or belongs to the class. -/
def SortClass.Holds : SortClass -> Value -> Prop
  | _, .null => True
  | .bool, .bool _ => True
  | .int, .int _ => True
  | .text, .str _ => True
  | .time, .dateTime _ => True
  | .identifier, .guid _ => True
  | .identifier, .ref _ => True
  | _, _ => False

/-- The first value comes before the second one. -/
def sortsBefore (caseSensitive : Bool) : Value -> Value -> Bool
  | .null, .null => false
  | .null, _ => true
  | _, .null => false
  | .bool x, .bool y => !x && y
  | .int i, .int j => i < j
  | .str s, .str t => if caseSensitive then s < t else Text.lower s < Text.lower t
  | .dateTime s, .dateTime t => s.lt t
  | v, w =>
      match v.guidKey, w.guidKey with
      | some g, some h => g.bits.toNat < h.bits.toNat
      | _, _ => false

variable {sort : SortClass} {v w v' w' : Value}

theorem SortClass.orders (caseSensitive : Bool) (sort : SortClass) :
    exists order : Value -> Value -> Ordering, TransCmp order ∧
      forall v w, sort.Holds v -> sort.Holds w ->
        v.compareForSort caseSensitive w = order v w := by
  have hsimple : forall kind : Kind, kind ≠ .float -> (forall v, sort.Holds v -> OfKind kind v) ->
      exists order : Value -> Value -> Ordering, TransCmp order ∧
        forall v w, sort.Holds v -> sort.Holds w ->
          v.compareForSort caseSensitive w = order v w := by
    intro kind hkind hof
    rcases compareForSort_orders caseSensitive hkind with ⟨order, htrans, horder⟩
    exact ⟨order, htrans, fun v w hv hw => horder v w (hof v hv) (hof w hw)⟩
  cases sort with
  | bool =>
      exact hsimple .bool (by decide) fun v hv => by
        cases v <;> first | exact False.elim hv | simp [OfKind, kind?]
  | int =>
      exact hsimple .int (by decide) fun v hv => by
        cases v <;> first | exact False.elim hv | simp [OfKind, kind?]
  | text =>
      exact hsimple .text (by decide) fun v hv => by
        cases v <;> first | exact False.elim hv | simp [OfKind, kind?]
  | time =>
      exact hsimple .time (by decide) fun v hv => by
        cases v <;> first | exact False.elim hv | simp [OfKind, kind?]
  | identifier =>
      refine ⟨compareOn guidKey, inferInstance, ?_⟩
      intro v w hv hw
      cases v <;> first | exact False.elim hv | skip
      all_goals cases w <;> first | exact False.elim hw | rfl

theorem compareForSort_lt_iff {caseSensitive : Bool} (hv : sort.Holds v) (hw : sort.Holds w) :
    v.compareForSort caseSensitive w = .lt <-> sortsBefore caseSensitive v w = true := by
  have htext : forall s t : String, Ord.compare s t = .lt <-> s < t :=
    fun _ _ => compareOfLessAndEq_eq_lt
  by_cases hvnull : v = .null
  · subst hvnull
    cases w <;> simp [compareForSort, sortsBefore]
  by_cases hwnull : w = .null
  · subst hwnull
    cases v <;> simp [compareForSort, sortsBefore]
  -- Only values of one class are left, and all other cases contradict that the class holds.
  cases sort <;> cases v <;> first | exact absurd rfl hvnull | exact False.elim hv | skip
  all_goals cases w <;> first | exact absurd rfl hwnull | exact False.elim hw | skip
  case bool.bool.bool x y =>
    simp only [compareForSort, compare, Option.getD_some, sortsBefore]
    cases x <;> cases y <;> decide
  case int.int.int i j =>
    simp [compareForSort, compare, sortsBefore, Std.compare_eq_lt]
  case text.str.str s t =>
    cases caseSensitive <;> simp [compareForSort, compare, compareText, sortsBefore, htext]
  case time.dateTime.dateTime s t =>
    simp [sortsBefore, Calendar.DateTime.lt]
    rfl
  all_goals
    simp [sortsBefore, guidKey, <- Std.compare_eq_lt]
    rfl

theorem SortClass.holds_key : sort.Holds v.key <-> sort.Holds v := by
  cases sort <;> cases v <;> exact Iff.rfl

/-- A value and its key have the same place among values of its class. -/
theorem compareForSort_key (hv : sort.Holds v) (hw : sort.Holds w) (hv' : v' = v ∨ v' = v.key)
    (hw' : w' = w ∨ w' = w.key) : v'.compareForSort false w' = v.compareForSort false w := by
  have hleft : forall u u', sort.Holds u -> sort.Holds u' ->
      u.key.compareForSort false u' = u.compareForSort false u' := by
    intro u u' hu hu'
    cases u with
    | str s =>
        cases sort <;> first | exact False.elim hu | skip
        cases u' <;> first | exact False.elim hu' | skip
        · rfl
        · simp [key, compareForSort, compare, compareText, Text.lower_lower]
    | _ =>
        rfl
  have hright : forall u u', sort.Holds u -> sort.Holds u' ->
      u.compareForSort false u'.key = u.compareForSort false u' := by
    intro u u' hu hu'
    rw [compareForSort_swap, hleft u' u hu' hu, <- compareForSort_swap]
  rcases hv' with rfl | rfl
  · rcases hw' with rfl | rfl
    · rfl
    · exact hright _ _ hv hw
  · rcases hw' with rfl | rfl
    · exact hleft _ _ hv hw
    · rw [hright _ _ (SortClass.holds_key.mpr hv) hw, hleft _ _ hv hw]

end Value

namespace Step

open Sql (Column OrderKey)
open Value (SortClass sortsBefore)

/-!
# Rows in order
-/

/-- By the key alone, the first value comes before the second one. -/
def keyBefore (key : OrderKey) (v w : Value) : Bool :=
  if key.descending then sortsBefore key.expr.isCaseSensitive w v
  else sortsBefore key.expr.isCaseSensitive v w

/-- The first key that tells two rows apart puts the first row before the second one. -/
def rowBefore : List OrderKey -> (OrderKey -> Value) -> (OrderKey -> Value) -> Bool
  | [], _, _ => false
  | key :: rest, a, b =>
      keyBefore key (a key) (b key) ||
        (!keyBefore key (b key) (a key) && rowBefore rest a b)

/-- No key tells two rows apart. -/
def tied (keys : List OrderKey) (a b : OrderKey -> Value) : Bool :=
  keys.all fun key => !keyBefore key (a key) (b key) && !keyBefore key (b key) (a key)

/-- The rows in the order of the keys, those that are tied as they were. -/
structure Sorted (keys : List OrderKey) (values : Row -> OrderKey -> Value)
    (rows sorted : List Row) : Prop where
  perm : sorted.Perm rows
  ascending : sorted.Pairwise fun a b => rowBefore keys (values b) (values a) = false
  keeps : forall row, row ∈ rows -> sorted.filter (fun a => tied keys (values row) (values a)) =
    rows.filter fun a => tied keys (values row) (values a)

/-- For each key, the values of all rows are missing or belong to one class. -/
def Sortable (keys : List OrderKey) (values : Row -> OrderKey -> Value) (rows : List Row) : Prop :=
  forall key, key ∈ keys -> exists sort : SortClass, forall row, row ∈ rows ->
    sort.Holds (values row key)

/-- The order of two rows by the values of their keys. -/
def compareRows (keys : List OrderKey) (a b : OrderKey -> Value) : Ordering :=
  Sorting.lexicographic <| keys.map fun key =>
    directed key.descending ((a key).compareForSort key.expr.isCaseSensitive (b key))

theorem compareRows_cons (key : OrderKey) (rest : List OrderKey) (a b : OrderKey -> Value) :
    compareRows (key :: rest) a b =
      (directed key.descending
        ((a key).compareForSort key.expr.isCaseSensitive (b key))).then (compareRows rest a b) :=
  Sorting.lexicographic_cons _ _

variable {clock : Clock} {keys : List OrderKey} {rows : List Row}
  {values : Row -> OrderKey -> Value}

theorem compareKeys_map (keys : List OrderKey) (a b : OrderKey -> Value) :
    compareKeys keys (keys.map a) (keys.map b) = compareRows keys a b := by
  unfold compareKeys compareRows
  congr 1
  induction keys with
  | nil =>
      rfl
  | cons key rest ih =>
      rw [List.map_cons, List.map_cons, List.map_cons, List.zip_cons_cons, List.zip_cons_cons,
        List.map_cons, ih]

theorem sortRows_eq (h : forall row, row ∈ rows -> forall key, key ∈ keys ->
      sortValue clock key.expr row = .ok (values row key)) :
    sortRows clock keys rows =
      .ok (Sorting.stable (before fun a b => compareRows keys (values a) (values b)) rows) := by
  have hkeyed : (rows.mapM fun row => do
      let values <- keys.mapM fun key : OrderKey => sortValue clock key.expr row
      return (values, row)) = .ok (rows.map fun row => (keys.map (values row), row)) := by
    rw [Outcome.mapM_eq_ok, List.forall₂_map_right_iff, List.forall₂_same]
    intro row hrow
    have hvalues : (keys.mapM fun key => sortValue clock key.expr row) =
        .ok (keys.map (values row)) := by
      rw [Outcome.mapM_eq_ok, List.forall₂_map_right_iff, List.forall₂_same]
      exact h row hrow
    rw [hvalues]
    rfl
  have hmap := @Sorting.stable_map _ _
    (before fun a b => compareRows keys (values a) (values b))
    (fun x y : List Value × Row => compareKeys keys x.1 y.1 == .lt)
    (fun row => (keys.map (values row), row)) rows
    (fun a b _ _ => by rw [compareKeys_map])
  rw [sortRows, hkeyed, Outcome.ok_bind, hmap]
  change Except.ok (List.map _ (List.map _ _)) = _
  rw [List.map_map]
  exact congrArg Except.ok (List.map_id _)

theorem ordersAmong_compareRows (h : Sortable keys values rows) :
    OrdersAmong (fun a b => compareRows keys (values a) (values b)) rows := by
  induction keys with
  | nil =>
      exact OrdersAmong.nil rows
  | cons key rest ih =>
      rcases h key List.mem_cons_self with ⟨sort, hrows⟩
      rcases sort.orders key.expr.isCaseSensitive with ⟨order, htrans, horder⟩
      have hfirst : OrdersAmong (fun a b =>
          (values a key).compareForSort key.expr.isCaseSensitive (values b key)) rows := by
        refine ⟨_, Sorting.transCmp_on order (values · key), ?_⟩
        intro a b ha hb
        exact horder _ _ (hrows a ha) (hrows b hb)
      have hcons := hfirst.cons (ih fun k hk => h k (List.mem_cons_of_mem _ hk)) key.descending
      simpa only [compareRows_cons] using hcons

/-- How a key compares two values, when they belong to one class. -/
theorem keyBefore_eq {sort : SortClass} {key : OrderKey} {v w : Value}
    (hv : sort.Holds v) (hw : sort.Holds w) :
    keyBefore key v w =
      (directed key.descending (v.compareForSort key.expr.isCaseSensitive w) == .lt) ∧
    keyBefore key w v =
      (directed key.descending (v.compareForSort key.expr.isCaseSensitive w) == .gt) := by
  have hlt : forall {u u'}, sort.Holds u -> sort.Holds u' ->
      sortsBefore key.expr.isCaseSensitive u u' =
        (u.compareForSort key.expr.isCaseSensitive u' == .lt) := by
    intro u u' hu hu'
    rw [Bool.eq_iff_iff, beq_iff_eq, Value.compareForSort_lt_iff hu hu']
  unfold keyBefore directed
  rw [hlt hv hw, hlt hw hv, Value.compareForSort_swap _ w v]
  cases key.descending <;>
    cases v.compareForSort key.expr.isCaseSensitive w <;> exact ⟨rfl, rfl⟩

section

variable {a b : OrderKey -> Value}
  (h : forall key, key ∈ keys -> exists sort : SortClass, sort.Holds (a key) ∧ sort.Holds (b key))
include h

theorem rowBefore_eq : rowBefore keys a b = (compareRows keys a b == .lt) := by
  induction keys with
  | nil =>
      rfl
  | cons key rest ih =>
      rcases h key List.mem_cons_self with ⟨sort, ha, hb⟩
      rcases @keyBefore_eq sort key _ _ ha hb with ⟨hlt, hgt⟩
      rw [rowBefore, ih fun k hk => h k (List.mem_cons_of_mem _ hk), hlt, hgt,
        compareRows_cons]
      cases directed key.descending
        ((a key).compareForSort key.expr.isCaseSensitive (b key)) <;> rfl

theorem tied_eq : tied keys a b = (compareRows keys a b == .eq) := by
  induction keys with
  | nil =>
      rfl
  | cons key rest ih =>
      rcases h key List.mem_cons_self with ⟨sort, ha, hb⟩
      rcases @keyBefore_eq sort key _ _ ha hb with ⟨hlt, hgt⟩
      have hrest := ih fun k hk => h k (List.mem_cons_of_mem _ hk)
      rw [tied] at hrest
      rw [tied, List.all_cons, hrest, hlt, hgt, compareRows_cons]
      cases directed key.descending
        ((a key).compareForSort key.expr.isCaseSensitive (b key)) <;> rfl

end

theorem Sortable.pair (h : Sortable keys values rows) {a b : Row} (ha : a ∈ rows) (hb : b ∈ rows) :
    forall key, key ∈ keys -> exists sort : SortClass,
      sort.Holds (values a key) ∧ sort.Holds (values b key) := by
  intro key hkey
  rcases h key hkey with ⟨sort, hrows⟩
  exact ⟨sort, hrows a ha, hrows b hb⟩

/-- A stable sort by the comparison of rows has the rows in the order of the keys. -/
theorem sorted_of_stableSort (h : Sortable keys values rows) {sorted : List Row}
    (hsorted : StableSort (fun a b => compareRows keys (values a) (values b)) rows sorted) :
    Sorted keys values rows sorted where
  perm := hsorted.perm
  ascending := by
    refine List.Pairwise.imp_of_mem ?_ hsorted.ascending
    intro a b ha hb hle
    have ha := hsorted.perm.mem_iff.mp ha
    have hb := hsorted.perm.mem_iff.mp hb
    rcases ordersAmong_compareRows h with ⟨order, _, horder⟩
    have hswap : compareRows keys (values b) (values a) =
        (compareRows keys (values a) (values b)).swap :=
      (horder b a hb ha).trans (OrientedCmp.eq_swap.trans (congrArg _ (horder a b ha hb).symm))
    rw [rowBefore_eq (h.pair hb ha), hswap]
    cases hcompare : compareRows keys (values a) (values b) with
    | gt =>
        rw [hcompare] at hle
        cases hle
    | _ =>
        rfl
  keeps := by
    intro row hrow
    have hpeers : forall list : List Row, list ⊆ rows ->
        list.filter (fun a => tied keys (values row) (values a)) =
          peers (fun a b => compareRows keys (values a) (values b)) row list := by
      intro list hlist
      refine List.filter_congr ?_
      intro a ha
      exact tied_eq (h.pair hrow (hlist ha))
    rw [hpeers sorted hsorted.perm.subset, hpeers rows (List.Subset.refl _),
      hsorted.keeps row hrow]

/-!
# Sorting here and on the platform
-/

/-- The platform sorts by the name of a column. -/
def nativeKey (key : Column × Bool) : Fetch.SortKey :=
  ⟨key.1.rowKey, key.2⟩

def localKey (key : Column × Bool) : OrderKey :=
  ⟨.column key.1, key.2⟩

/-- Values that are texts, or keys of texts, are compared here as on the platform. -/
theorem compareRows_eq_compareBy {α : Type} {get : α -> String -> Value}
    {columns : List (Column × Bool)} {a b : OrderKey -> Value} {x y : α}
    (h : forall key, key ∈ columns -> exists sort : SortClass,
      sort.Holds (a (localKey key)) ∧ sort.Holds (b (localKey key)))
    (ha : forall key, key ∈ columns -> a (localKey key) = get x key.1.rowKey ∨
      a (localKey key) = (get x key.1.rowKey).key)
    (hb : forall key, key ∈ columns -> b (localKey key) = get y key.1.rowKey ∨
      b (localKey key) = (get y key.1.rowKey).key) :
    compareRows (columns.map localKey) a b =
      Fetch.compareBy get (columns.map nativeKey) x y := by
  unfold compareRows Fetch.compareBy
  rw [List.map_map, List.map_map]
  congr 1
  refine List.map_congr_left ?_
  intro key hkey
  rcases h key hkey with ⟨sort, hclass, hclass'⟩
  have hplain : forall {v w : Value}, sort.Holds v -> (v = w ∨ v = w.key) -> sort.Holds w := by
    rintro v w hv (rfl | rfl)
    · exact hv
    · exact SortClass.holds_key.mp hv
  exact congrArg (directed key.2) (Value.compareForSort_key (hplain hclass (ha key hkey))
    (hplain hclass' (hb key hkey)) (ha key hkey) (hb key hkey))

/-- Sorting succeeds only if all keys of all rows are evaluated. -/
theorem sortValue_of_sortRows {sorted : List Row} (h : sortRows clock keys rows = .ok sorted)
    {row : Row} (hrow : row ∈ rows) {key : OrderKey} (hkey : key ∈ keys) :
    exists v, sortValue clock key.expr row = .ok v := by
  rw [sortRows, Outcome.bind_eq_ok] at h
  rcases h with ⟨keyed, hkeyed, _⟩
  rw [Outcome.mapM_eq_ok] at hkeyed
  rcases Outcome.exists_of_forall₂ hkeyed.flip hrow with ⟨_, _, hvalues⟩
  rcases Outcome.bind_eq_ok.mp hvalues with ⟨values, hvalues, _⟩
  rcases Outcome.exists_of_forall₂ (Outcome.mapM_eq_ok.mp hvalues).flip hkey with ⟨v, _, hv⟩
  exact ⟨v, hv⟩

/-- A failure of sorting is the failure of a key. -/
theorem sortValue_of_sortRows_error {e : EvalError} (h : sortRows clock keys rows = .error e) :
    exists row key, row ∈ rows ∧ key ∈ keys ∧ sortValue clock key.expr row = .error e := by
  unfold sortRows at h
  cases hkeyed : rows.mapM (fun row => do
      let values <- keys.mapM fun key : OrderKey => sortValue clock key.expr row
      return (values, row)) with
  | ok keyed =>
      rw [hkeyed] at h
      cases h
  | error e' =>
      rw [hkeyed] at h
      cases h
      rcases Outcome.exists_of_mapM_error hkeyed with ⟨row, hrow, herror⟩
      cases hvalues : keys.mapM (fun key : OrderKey => sortValue clock key.expr row) with
      | ok values =>
          rw [hvalues] at herror
          cases herror
      | error e' =>
          rw [hvalues] at herror
          cases herror
          rcases Outcome.exists_of_mapM_error hvalues with ⟨key, hkey, hfailure⟩
          exact ⟨row, key, hrow, hkey, hfailure⟩

/-- Sorting puts the rows in the order of their keys and keeps ties, as the platform does for
columns, and it fails if a key of a row cannot be evaluated. -/
theorem rows_sorted (clock : Clock) (keys : List OrderKey) (rows : List Row) :
    (forall values : Row -> OrderKey -> Value,
      (forall row, row ∈ rows -> forall key, key ∈ keys ->
        sortValue clock key.expr row = .ok (values row key)) ->
      Sortable keys values rows ->
      exists sorted, sortRows clock keys rows = .ok sorted ∧ Sorted keys values rows sorted ∧
        (forall (α : Type) (items : List α) (f : α -> Row) (get : α -> String -> Value)
          (columns : List (Column × Bool)), rows = items.map f -> keys = columns.map localKey ->
          (forall item, item ∈ items -> forall key, key ∈ columns ->
            (f item).keyOf key.1 = get item key.1.rowKey ∨
            (f item).keyOf key.1 = (get item key.1.rowKey).key) ->
          sorted = (Fetch.sortBy get (columns.map nativeKey) items).map f)) ∧
    (forall row key e, row ∈ rows -> key ∈ keys -> sortValue clock key.expr row = .error e ->
      exists e', sortRows clock keys rows = .error e' ∧
        exists row' key', row' ∈ rows ∧ key' ∈ keys ∧
          sortValue clock key'.expr row' = .error e') := by
  constructor
  · intro values hvalues hsortable
    refine ⟨_, sortRows_eq hvalues,
      sorted_of_stableSort hsortable
        (Sorting.stableSort_of_ordersAmong (ordersAmong_compareRows hsortable)), ?_⟩
    rintro α items f get columns rfl rfl hget
    have hcolumn : forall item, item ∈ items -> forall key, key ∈ columns ->
        values (f item) (localKey key) = (f item).keyOf key.1 := by
      intro item hitem key hkey
      have h := hvalues (f item) (List.mem_map_of_mem hitem) (localKey key)
        (List.mem_map_of_mem hkey)
      exact (Except.ok.inj h).symm
    rw [Fetch.sortBy_eq]
    refine Sorting.stable_map ?_
    intro x y hx hy
    have hsame := @compareRows_eq_compareBy _ get columns (values (f x)) (values (f y)) x y
      (fun key hkey => hsortable.pair (List.mem_map_of_mem hx) (List.mem_map_of_mem hy)
        (localKey key) (List.mem_map_of_mem hkey))
      (fun key hkey => hcolumn x hx key hkey ▸ hget x hx key hkey)
      (fun key hkey => hcolumn y hy key hkey ▸ hget y hy key hkey)
    exact congrArg (· == Ordering.lt) hsame
  · intro row key e hrow hkey hfailure
    cases hsort : sortRows clock keys rows with
    | ok sorted =>
        rcases sortValue_of_sortRows hsort hrow hkey with ⟨v, hv⟩
        rw [hv] at hfailure
        cases hfailure
    | error e' =>
        exact ⟨e', rfl, sortValue_of_sortRows_error hsort⟩

def tagClock : Clock :=
  ⟨Plan.newYear, Plan.newYear⟩

def tagName : Column :=
  ⟨none, "name", false⟩

def tagRow (name : Value) : Row :=
  .ofRecord ⟨"tag", none, .ofList [("name", name)]⟩

/-- Two names that differ in case are tied, and a missing name is the last one. -/
theorem tags_sorted :
    exists sorted,
      sortRows tagClock [localKey (tagName, true)]
        ([.str "b", .null, .str "C", .str "B"].map tagRow) = .ok sorted ∧
      Sorted [localKey (tagName, true)] (fun row _ => row.keyOf tagName)
        ([.str "b", .null, .str "C", .str "B"].map tagRow) sorted ∧
      sorted = (Fetch.sortBy (fun name _ => name) [nativeKey (tagName, true)]
        [.str "b", .null, .str "C", .str "B"]).map tagRow := by
  have htexts : forall row, row ∈ [.str "b", .null, .str "C", .str "B"].map tagRow ->
      SortClass.Holds .text (row.keyOf tagName) := by
    simp only [List.map_cons, List.map_nil, List.forall_mem_cons]
    exact ⟨trivial, trivial, trivial, trivial, fun row h => by cases h⟩
  rcases (rows_sorted tagClock [localKey (tagName, true)]
      ([.str "b", .null, .str "C", .str "B"].map tagRow)).1 (fun row _ => row.keyOf tagName)
      (fun row _ key hkey => by rw [List.mem_singleton.mp hkey]; rfl)
      (fun key _ => ⟨.text, htexts⟩) with ⟨sorted, hsort, hsorted, hnative⟩
  refine ⟨sorted, hsort, hsorted, ?_⟩
  refine hnative Value _ tagRow (fun name _ => name) [(tagName, true)] rfl rfl ?_
  intro name _ key hkey
  rw [List.mem_singleton.mp hkey]
  exact Or.inl rfl

end Step
end RecordSql
