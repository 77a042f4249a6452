import RecordSql.Fetch.Evaluate
import RecordSql.Proofs.DocumentText
import RecordSql.Proofs.Grouping
import RecordSql.Proofs.ValueOrder

/-!
# Groups of sorted rows

Rows that are sorted by the columns they are grouped by have the same groups as before: rows of one
group compare as equal, and a stable sort keeps the order of such rows.
-/

namespace RecordSql

open Sorting (OrdersAmong)

namespace Value

/-!
# Keys of values
-/

theorem kind?_key (v : Value) : v.key.kind? = v.kind? := by
  cases v <;> rfl

theorem OfKind.key {kind : Kind} {v : Value} (h : OfKind kind v) : OfKind kind v.key := by
  intro other hother
  rw [kind?_key] at hother
  exact h other hother

/-- Only texts have keys that differ from them. -/
theorem key_eq_of_not_text {v : Value} (h : v.kind? ≠ some .text) : v.key = v := by
  cases v with
  | str s =>
      exact absurd rfl h
  | _ =>
      rfl

theorem compareForSort_self {v : Value} (h : v.kind? ≠ some .float) :
    v.compareForSort false v = .eq := by
  cases hkind : v.kind? with
  | none =>
      rw [eq_null_of_kind? hkind]
      rfl
  | some kind =>
      have hne : kind ≠ .float := by
        rintro rfl
        exact h hkind
      have hof : OfKind kind v := by
        intro other hother
        rw [hkind] at hother
        exact (Option.some.inj hother).symm
      rcases compareForSort_orders false hne with ⟨order, htrans, horder⟩
      rw [horder v v hof hof]
      exact Std.ReflCmp.compare_self

/-- Values of one key are equal to a sort that disregards case. -/
theorem compareForSort_of_key_eq {v w : Value} (halike : Alike v w) (h : v.key = w.key) :
    v.compareForSort false w = .eq := by
  have hkinds : v.kind? = w.kind? := by
    rw [<- kind?_key v, h, kind?_key]
  by_cases htext : v.kind? = some .text
  · have hof : forall u : Value, u.kind? = some .text -> OfKind .text u := by
      intro u hu other hother
      rw [hu] at hother
      exact (Option.some.inj hother).symm
    rw [compareForSort_text false (hof v htext) (hof w (hkinds ▸ htext))]
    have hkey : v.textKey false = w.textKey false := by
      cases v <;> cases htext
      cases w <;> cases hkinds
      exact congrArg some (Value.str.inj h)
    rw [hkey]
    exact Std.ReflOrd.compare_self
  · rw [key_eq_of_not_text htext, key_eq_of_not_text (hkinds ▸ htext)] at h
    subst h
    refine compareForSort_self ?_
    intro hfloat
    rcases halike with ⟨kind, hkind, hof, _⟩
    exact hkind (hof _ hfloat).symm

end Value

namespace Fetch

variable {α : Type}

/-!
# Sorting by columns
-/

/-- The order of two rows by the values of sort keys. -/
def compareBy (get : α -> String -> Value) (keys : List SortKey) (a b : α) : Ordering :=
  Sorting.lexicographic <| keys.map fun key =>
    Sorting.directed key.descending ((get a key.name).compareForSort false (get b key.name))

theorem sortBy_eq (get : α -> String -> Value) (keys : List SortKey) (rows : List α) :
    sortBy get keys rows = Sorting.stable (Sorting.before (compareBy get keys)) rows :=
  rfl

/-- All rows hold missing values or values of one kind in a column, and no doubles. -/
def Uniform (get : α -> String -> Value) (rows : List α) (name : String) : Prop :=
  exists kind, kind ≠ Value.Kind.float ∧ forall row, row ∈ rows -> Value.OfKind kind (get row name)

theorem Uniform.alike {get : α -> String -> Value} {rows : List α} {name : String}
    (h : Uniform get rows name) {a b : α} (ha : a ∈ rows) (hb : b ∈ rows) :
    Value.Alike (get a name) (get b name) := by
  rcases h with ⟨kind, hkind, hrows⟩
  exact ⟨kind, hkind, hrows a ha, hrows b hb⟩

theorem ordersAmong_compareBy {get : α -> String -> Value} {rows : List α} {keys : List SortKey}
    (h : forall key, key ∈ keys -> Uniform get rows key.name) :
    OrdersAmong (compareBy get keys) rows := by
  induction keys with
  | nil =>
      exact OrdersAmong.nil rows
  | cons key rest ih =>
      rcases h key List.mem_cons_self with ⟨kind, hkind, hrows⟩
      rcases Value.compareForSort_orders false hkind with ⟨order, htrans, horder⟩
      have hfirst : OrdersAmong
          (fun a b => (get a key.name).compareForSort false (get b key.name)) rows := by
        refine ⟨_, Sorting.transCmp_on order (get · key.name), ?_⟩
        intro a b ha hb
        exact horder _ _ (hrows a ha) (hrows b hb)
      have hcons := hfirst.cons (ih fun k hk => h k (List.mem_cons_of_mem _ hk)) key.descending
      have heq : compareBy get (key :: rest) = fun a b => (Sorting.directed key.descending
          ((get a key.name).compareForSort false (get b key.name))).then
            (compareBy get rest a b) := by
        funext a b
        exact Sorting.lexicographic_cons _ _
      rw [heq]
      exact hcons

theorem compareBy_eq {get : α -> String -> Value} {keys : List SortKey} {a b : α}
    (halike : forall key, key ∈ keys -> Value.Alike (get a key.name) (get b key.name))
    (h : forall key, key ∈ keys -> (get a key.name).key = (get b key.name).key) :
    compareBy get keys a b = .eq := by
  induction keys with
  | nil =>
      rfl
  | cons key rest ih =>
      have hfirst := Value.compareForSort_of_key_eq (halike key List.mem_cons_self)
        (h key List.mem_cons_self)
      have hrest := ih (fun k hk => halike k (List.mem_cons_of_mem _ hk))
        fun k hk => h k (List.mem_cons_of_mem _ hk)
      rw [compareBy, List.map_cons, Sorting.lexicographic_cons, hfirst]
      cases key.descending <;> exact hrest

/-!
# Groups before and after sorting
-/

/-- The text under which a row is kept when it is grouped by columns. -/
def columnsKey (get : α -> String -> Value) (names : List String) (row : α) : String :=
  Value.tupleText (names.map fun name => (get row name).key)

theorem columnsKey_eq_iff {get : α -> String -> Value} {rows : List α} {names : List String}
    (h : forall name, name ∈ names -> Uniform get rows name) {a b : α} (ha : a ∈ rows)
    (hb : b ∈ rows) :
    columnsKey get names a = columnsKey get names b <->
      forall name, name ∈ names -> (get a name).key = (get b name).key := by
  constructor
  · intro heq
    refine List.map_inj_left.mp (Value.tupleText_inj ?_ heq)
    rw [List.forall₂_map_left_iff, List.forall₂_map_right_iff, List.forall₂_same]
    intro name hname
    rcases (h name hname).alike ha hb with ⟨kind, hkind, hof, hof'⟩
    exact ⟨kind, hkind, hof.key, hof'.key⟩
  · intro hall
    rw [columnsKey, columnsKey, List.map_congr_left hall]

/-- Sorting by the columns of the groups keeps the rows of each group in their order. -/
theorem members_sortBy {get : α -> String -> Value} {rows : List α} {names : List String}
    (h : forall name, name ∈ names -> Uniform get rows name) {keys : List SortKey}
    (hkeys : forall key, key ∈ keys -> key.name ∈ names) {row : α} (hrow : row ∈ rows) :
    Grouping.members (columnsKey get names) (columnsKey get names row) (sortBy get keys rows) =
      Grouping.members (columnsKey get names) (columnsKey get names row) rows := by
  have hsorted := Sorting.stableSort_of_ordersAmong
    (ordersAmong_compareBy fun key hkey => h key.name (hkeys key hkey))
  have hpeers := congrArg (List.filter fun a => columnsKey get names a == columnsKey get names row)
    (hsorted.keeps row hrow)
  have hall : forall list : List α, list ⊆ rows ->
      (Sorting.peers (compareBy get keys) row list).filter
        (fun a => columnsKey get names a == columnsKey get names row) =
      Grouping.members (columnsKey get names) (columnsKey get names row) list := by
    intro list hlist
    rw [Sorting.peers, List.filter_filter, Grouping.members]
    refine List.filter_congr ?_
    intro a ha
    by_cases heq : columnsKey get names a = columnsKey get names row
    · have hsame := (columnsKey_eq_iff h hrow (hlist ha)).mp heq.symm
      have hpeer := @compareBy_eq _ get keys row a
        (fun key hkey => (h key.name (hkeys key hkey)).alike hrow (hlist ha))
        fun key hkey => hsame key.name (hkeys key hkey)
      simp [hpeer]
    · simp [heq]
  rw [hall _ hsorted.perm.subset, hall _ (List.Subset.refl _)] at hpeers
  exact hpeers

/-- Groups by the same columns in another order are the same. -/
theorem members_congr {get : α -> String -> Value} {rows : List α} {names names' : List String}
    (h : forall name, name ∈ names -> Uniform get rows name) (hnames : names.Perm names')
    {row : α} (hrow : row ∈ rows) :
    Grouping.members (columnsKey get names) (columnsKey get names row) rows =
      Grouping.members (columnsKey get names') (columnsKey get names' row) rows := by
  refine List.filter_congr ?_
  intro a ha
  have h' : forall name, name ∈ names' -> Uniform get rows name :=
    fun name hname => h name (hnames.mem_iff.mpr hname)
  rw [Bool.eq_iff_iff, beq_iff_eq, beq_iff_eq, columnsKey_eq_iff h ha hrow,
    columnsKey_eq_iff h' ha hrow]
  constructor
  · intro hall name hname
    exact hall name (hnames.mem_iff.mpr hname)
  · intro hall name hname
    exact hall name (hnames.mem_iff.mp hname)

end Fetch
end RecordSql
