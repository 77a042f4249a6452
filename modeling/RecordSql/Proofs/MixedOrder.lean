import RecordSql.Proofs.FilterAgreement
import RecordSql.Proofs.ValueOrder
import RecordSql.Proofs.WholeDoubles

/-!
# Sorting values of several kinds

The comparison for sorting reads a text as the kind of the other value, where it can be read so, but
compares two texts as texts.  So it is an order as long as texts are not compared with what they can
be read as, and with every other kind there are texts that it does not order.
-/

namespace RecordSql

open Number (fits nearestInt)
open Std (OrientedCmp TransCmp)

namespace Number

/-- No other number has the double of 0 or 1. -/
theorem nearestInt_ne_of_small {m n : Int} (hm : m.natAbs ≤ 1) :
    m = n ∨ nearestInt m ≠ nearestInt n := by
  rw [nearestInt_of_natAbs_le (show m.natAbs ≤ 2 ^ 53 by omega)]
  by_cases hn : n.natAbs ≤ 2 ^ 53
  · rw [nearestInt_of_natAbs_le hn]
    exact Decidable.em (m = n)
  · right
    have hlargest : nearestInt (2 ^ 53) = 2 ^ 53 := by
      exact nearestInt_of_natAbs_le (by decide)
    have hleast : nearestInt (-2 ^ 53) = -2 ^ 53 := by
      exact nearestInt_of_natAbs_le (by decide)
    rcases Int.le_total (2 ^ 53) n with hlarge | hnot
    · have hle := nearestInt_mono hlarge
      omega
    · have hle : nearestInt n ≤ nearestInt (-2 ^ 53) := nearestInt_mono (by omega)
      omega

end Number

namespace Value

variable {caseSensitive : Bool} {a b c : Value}

/-!
# Swapped operands
-/

theorem compareNumbers_swap (a b : Value) :
    compareNumbers a b = (compareNumbers b a).map Ordering.swap := by
  unfold compareNumbers
  cases a.asFloat with
  | none =>
      cases b.asFloat <;> rfl
  | some x =>
      cases b.asFloat with
      | none =>
          rfl
      | some y =>
          change compareFloat x y = (compareFloat y x).map Ordering.swap
          rw [Number.compareFloat_eq, Number.compareFloat_eq, <- Number.unpacked_compare_swap]

/-- How values are compared that are not two of one simple kind. -/
def compareAcross (a b : Value) : Option Ordering :=
  if a.isDateTime || b.isDateTime then compareDateTimes a b
  else if a.isIdentifier || b.isIdentifier then compareGuids a b
  else compareNumbers a b

theorem compareAcross_swap (a b : Value) :
    compareAcross a b = (compareAcross b a).map Ordering.swap := by
  unfold compareAcross
  rw [Bool.or_comm b.isDateTime, Bool.or_comm b.isIdentifier]
  split
  · exact compareDateTimes_swap a b
  · split
    · exact compareGuids_swap a b
    · exact compareNumbers_swap a b

theorem compare_swap (caseSensitive : Bool) (a b : Value) :
    a.compare caseSensitive b = (b.compare caseSensitive a).map Ordering.swap := by
  cases a with
  | null =>
      cases b <;> rfl
  | bool x =>
      cases b with
      | null =>
          rfl
      | bool y =>
          exact congrArg some OrientedCmp.eq_swap
      | _ =>
          exact compareAcross_swap _ _
  | int i =>
      cases b with
      | null =>
          rfl
      | int j =>
          exact congrArg some OrientedCmp.eq_swap
      | _ =>
          exact compareAcross_swap _ _
  | str s =>
      cases b with
      | null =>
          rfl
      | str t =>
          exact congrArg some (compareText_swap s t)
      | _ =>
          exact compareAcross_swap _ _
  | _ =>
      cases b with
      | null =>
          rfl
      | _ =>
          exact compareAcross_swap _ _

theorem compareForSort_of_ne (ha : a ≠ .null) (hb : b ≠ .null) :
    a.compareForSort caseSensitive b =
      (a.compare caseSensitive b).getD (Ord.compare a.rank b.rank) := by
  unfold compareForSort
  split <;> first | rfl | contradiction

/-- With the operands swapped, the outcome is swapped. -/
theorem compareForSort_swap (caseSensitive : Bool) (a b : Value) :
    a.compareForSort caseSensitive b = (b.compareForSort caseSensitive a).swap := by
  by_cases ha : a = .null
  · subst ha
    cases b <;> rfl
  · by_cases hb : b = .null
    · subst hb
      cases a <;> rfl
    · rw [compareForSort_of_ne ha hb, compareForSort_of_ne hb ha, compare_swap]
      cases b.compare caseSensitive a with
      | none =>
          exact (Nat.compare_swap b.rank a.rank).symm
      | some o =>
          rfl

/-!
# The order of values that are not read as another kind
-/

/-- Neither of two values is a text that is read as the kind of the other one. -/
def Apart (caseSensitive : Bool) (a b : Value) : Prop :=
  (a.kind? = some .text <-> b.kind? = some .text) ∨ a.compare caseSensitive b = none

/-- A value that is no double; a whole number is one of 64 bits. -/
def Exact (v : Value) : Prop :=
  v.kind? ≠ some .float ∧ forall i, v = .int i -> fits i = true

/-- The place of a kind in the order: truth values are compared with numbers. -/
def place : Value -> Nat
  | .null => 0
  | .bool _ | .int _ => 1
  | .float _ => 2
  | .str _ => 3
  | .dateTime _ => 4
  | .guid _ | .ref _ => 5

def numberKey : Value -> Option Int
  | .bool b => some (if b then 1 else 0)
  | .int i => some i
  | _ => none

/-- Values are ordered by their places, and at one place as values of the kind. -/
def placedOrder (caseSensitive : Bool) : Value -> Value -> Ordering :=
  compareLex (compareOn place) <| compareLex (compareOn numberKey) <|
    compareLex (compareOn (textKey caseSensitive)) <|
      compareLex (compareOn timeKey) (compareOn guidKey)

instance (caseSensitive : Bool) : TransCmp (placedOrder caseSensitive) :=
  inferInstanceAs (TransCmp (compareLex (compareOn place) <| compareLex (compareOn numberKey) <|
    compareLex (compareOn (textKey caseSensitive)) <|
      compareLex (compareOn timeKey) (compareOn guidKey)))

/-!
# Numbers and truth values
-/

/-- A truth value is compared with numbers as 0 or 1, and a whole number as its double. -/
theorem shows_numberKey {n : Int} (hv : a.Exact) (hn : a.numberKey = some n) :
    exists x, a.asFloat = some x ∧ Number.Shows x.toModel.unpack (nearestInt n) := by
  cases a with
  | bool b =>
      cases hn
      refine ⟨_, rfl, ?_⟩
      cases b with
      | false =>
          exact .zero .positive
      | true =>
          have hwhole : Number.IsWhole .positive (2 ^ 52) (-52) 1 :=
            ⟨by decide, by decide, by decide, by decide⟩
          exact .finite (by decide) hwhole
  | int i =>
      cases hn
      exact ⟨_, rfl, Number.shows_floatOfInt (hv.2 _ rfl)⟩
  | _ =>
      cases hn

theorem compareNumbers_eq {m n : Int} (ha : a.Exact) (hb : b.Exact) (hm : a.numberKey = some m)
    (hn : b.numberKey = some n) (hsmall : m.natAbs ≤ 1 ∨ n.natAbs ≤ 1) :
    compareNumbers a b = some (Ord.compare m n) := by
  rcases shows_numberKey ha hm with ⟨x, hx, hshows⟩
  rcases shows_numberKey hb hn with ⟨y, hy, hshows'⟩
  have hcompare : compareNumbers a b = some (Ord.compare (nearestInt m) (nearestInt n)) := by
    unfold compareNumbers
    rw [hx, hy]
    exact Number.compareFloat_of_shows hshows hshows'
  have hapart : m = n ∨ nearestInt m ≠ nearestInt n := by
    rcases hsmall with hm | hn
    · exact Number.nearestInt_ne_of_small hm
    · exact (Number.nearestInt_ne_of_small hn).imp Eq.symm Ne.symm
  rw [hcompare, Number.compare_nearestInt hapart]

/-!
# Places and keys
-/

theorem compareForSort_of_apart (h : Apart caseSensitive a b)
    (hkinds : ¬ (a.kind? = some .text <-> b.kind? = some .text)) :
    a.compareForSort caseSensitive b = Ord.compare a.rank b.rank := by
  by_cases ha : a = .null
  · subst ha
    cases b <;> rfl
  · by_cases hb : b = .null
    · subst hb
      cases a <;> rfl
    · rw [compareForSort_of_ne ha hb, h.resolve_left hkinds]
      rfl

theorem compareForSort_numbers {m n : Int} (ha : a.Exact) (hb : b.Exact)
    (hm : a.numberKey = some m) (hn : b.numberKey = some n)
    (hacross : a.compare caseSensitive b = compareNumbers a b)
    (hsmall : m.natAbs ≤ 1 ∨ n.natAbs ≤ 1) :
    a.compareForSort caseSensitive b = placedOrder caseSensitive a b := by
  have hthere : forall {v : Value} {k : Int}, v.numberKey = some k -> v ≠ .null := by
    rintro v k hk rfl
    cases hk
  have hcompare : a.compareForSort caseSensitive b = Ord.compare m n := by
    rw [compareForSort_of_ne (hthere hm) (hthere hn), hacross,
      compareNumbers_eq ha hb hm hn hsmall, Option.getD_some]
  have hplaced : placedOrder caseSensitive a b = (Ord.compare m n).then .eq := by
    cases a <;> cases hm <;> cases b <;> cases hn <;> rfl
  rw [hcompare, hplaced, Ordering.then_eq]

/-- Values that are apart are sorted by their places and keys. -/
theorem compareForSort_eq_placedOrder (h : Apart caseSensitive a b) (ha : a.Exact) (hb : b.Exact) :
    a.compareForSort caseSensitive b = placedOrder caseSensitive a b := by
  cases a with
  | null =>
      cases b <;> rfl
  | float x =>
      exact absurd rfl ha.1
  | bool x =>
      cases b with
      | bool y =>
          cases x <;> cases y <;> rfl
      | int j =>
          exact compareForSort_numbers ha hb rfl rfl rfl (.inl (by cases x <;> decide))
      | float y =>
          exact absurd rfl hb.1
      | str t =>
          exact compareForSort_of_apart h (by simp [kind?])
      | _ =>
          rfl
  | int i =>
      cases b with
      | bool y =>
          exact compareForSort_numbers ha hb rfl rfl rfl (.inr (by cases y <;> decide))
      | int j =>
          exact (@Ordering.then_eq (Ord.compare i j)).symm
      | float y =>
          exact absurd rfl hb.1
      | str t =>
          exact compareForSort_of_apart h (by simp [kind?])
      | _ =>
          rfl
  | str s =>
      cases b with
      | null =>
          rfl
      | float y =>
          exact absurd rfl hb.1
      | str t =>
          have htext := @compareForSort_text caseSensitive (.str s) (.str t)
            (fun _ hkind => (Option.some.inj hkind).symm) fun _ hkind => (Option.some.inj hkind).symm
          exact htext.trans (@Ordering.then_eq (Ord.compare _ _)).symm
      | _ =>
          exact compareForSort_of_apart h (by simp [kind?])
  | dateTime t =>
      cases b with
      | dateTime t' =>
          exact (@Ordering.then_eq (t.compare t')).symm
      | float y =>
          exact absurd rfl hb.1
      | str t =>
          exact compareForSort_of_apart h (by simp [kind?])
      | _ =>
          rfl
  | guid g =>
      cases b with
      | float y =>
          exact absurd rfl hb.1
      | str t =>
          exact compareForSort_of_apart h (by simp [kind?])
      | _ =>
          rfl
  | ref r =>
      cases b with
      | float y =>
          exact absurd rfl hb.1
      | str t =>
          exact compareForSort_of_apart h (by simp [kind?])
      | _ =>
          rfl

/-!
# Which kinds are sorted together
-/

/-- The comparison for sorting is transitive among some values. -/
def SortsTransitively (caseSensitive : Bool) (among : Value -> Prop) : Prop :=
  forall a b c, among a -> among b -> among c ->
    (a.compareForSort caseSensitive b).isLE = true ->
    (b.compareForSort caseSensitive c).isLE = true ->
    (a.compareForSort caseSensitive c).isLE = true

theorem isLE_trans_of_apart (ha : a.Exact) (hb : b.Exact) (hc : c.Exact)
    (hab : Apart caseSensitive a b) (hbc : Apart caseSensitive b c) (hac : Apart caseSensitive a c)
    (h : (a.compareForSort caseSensitive b).isLE = true)
    (h' : (b.compareForSort caseSensitive c).isLE = true) :
    (a.compareForSort caseSensitive c).isLE = true := by
  rw [compareForSort_eq_placedOrder hab ha hb] at h
  rw [compareForSort_eq_placedOrder hbc hb hc] at h'
  rw [compareForSort_eq_placedOrder hac ha hc]
  exact TransCmp.isLE_trans h h'

/-- The value is missing or of one of the kinds; a whole number is one of 64 bits. -/
def OfKinds (kinds : Kind -> Prop) (v : Value) : Prop :=
  (forall kind, v.kind? = some kind -> kinds kind) ∧ forall i, v = .int i -> fits i = true

theorem OfKinds.exact {kinds : Kind -> Prop} (hfloat : ¬ kinds .float) (h : OfKinds kinds a) :
    a.Exact :=
  ⟨fun hkind => hfloat (h.1 .float hkind), h.2⟩

/-- Values of kinds that texts are not mixed with are apart. -/
theorem OfKinds.apart {kinds : Kind -> Prop}
    (htext : kinds .text -> forall kind, kinds kind -> kind = .text) (ha : OfKinds kinds a)
    (hb : OfKinds kinds b) : Apart caseSensitive a b := by
  cases hkind : a.kind? with
  | none =>
      cases a <;> cases hkind
      exact .inr rfl
  | some kind =>
      cases hkind' : b.kind? with
      | none =>
          cases b <;> cases hkind'
          rw [Apart, compare_swap]
          exact .inr rfl
      | some kind' =>
          left
          rw [hkind, hkind', Option.some.injEq, Option.some.injEq]
          constructor
          · rintro rfl
            exact htext (ha.1 _ hkind) kind' (hb.1 _ hkind')
          · rintro rfl
            exact htext (hb.1 _ hkind') kind (ha.1 _ hkind)

/-- For every kind there are texts whose order as texts is not their order as values of the kind. -/
theorem exists_misplaced {kind : Kind} (htext : kind ≠ .text) (hfloat : kind ≠ .float) :
    exists s t v, v.kind? = some kind ∧ (forall i, v = .int i -> fits i = true) ∧
      forall caseSensitive, ((Value.str s).compareForSort caseSensitive (.str t)).isLE = true ∧
        ((Value.str t).compareForSort caseSensitive v).isLE = true ∧
        ((Value.str s).compareForSort caseSensitive v).isLE = false := by
  cases kind with
  | text =>
      exact absurd rfl htext
  | float =>
      exact absurd rfl hfloat
  | bool =>
      refine ⟨"05", "1", .bool true, rfl, ?_, by decide +kernel⟩
      intro i hi
      cases hi
  | int =>
      refine ⟨"10", "9", .int 9, rfl, ?_, by decide +kernel⟩
      intro i hi
      cases hi
      decide
  | time =>
      refine ⟨"2024-01-02", "2024-1-1", .dateTime Plan.newYear, rfl, ?_, by decide +kernel⟩
      intro i hi
      cases hi
  | guid =>
      refine ⟨"00000000-0000-0000-0000-000000000002", "\x7b00000000-0000-0000-0000-000000000001\x7d",
        .guid ⟨1⟩, rfl, ?_, by decide +kernel⟩
      intro i hi
      cases hi
  | ref =>
      refine ⟨"00000000-0000-0000-0000-000000000002", "\x7b00000000-0000-0000-0000-000000000001\x7d",
        .ref ⟨"author", ⟨1⟩⟩, rfl, ?_, by decide +kernel⟩
      intro i hi
      cases hi

/--
The comparison for sorting is reversed with its operands.  Among the values of some kinds it is
transitive exactly if texts are not mixed with other kinds.
-/
theorem sort_order_iff_texts_unmixed (caseSensitive : Bool) :
    (forall a b : Value,
      a.compareForSort caseSensitive b = (b.compareForSort caseSensitive a).swap) ∧
    forall kinds : Kind -> Prop, ¬ kinds .float ->
      (SortsTransitively caseSensitive (OfKinds kinds) <->
        (kinds .text -> forall kind, kinds kind -> kind = .text)) := by
  refine ⟨compareForSort_swap caseSensitive, ?_⟩
  intro kinds hfloat
  constructor
  · intro htransitive htext kind hkind
    by_contra hother
    rcases exists_misplaced hother fun h => hfloat (h ▸ hkind) with ⟨s, t, v, hv, hfits, horder⟩
    have hvalue : OfKinds kinds v :=
      ⟨fun k hk => Option.some.inj (hv.symm.trans hk) ▸ hkind, hfits⟩
    have hstr : forall s, OfKinds kinds (.str s) :=
      fun s => ⟨fun k hk => Option.some.inj hk ▸ htext, fun i hi => by cases hi⟩
    rcases horder caseSensitive with ⟨hst, htv, hsv⟩
    rw [htransitive _ _ _ (hstr s) (hstr t) hvalue hst htv] at hsv
    cases hsv
  · intro htext a b c ha hb hc
    exact isLE_trans_of_apart (ha.exact hfloat) (hb.exact hfloat) (hc.exact hfloat)
      (ha.apart htext hb) (hb.apart htext hc) (ha.apart htext hc)

/-- Numbers and times are sorted together, but numbers and texts are not. -/
theorem numbers_sorted_with_times_not_texts :
    SortsTransitively false (OfKinds fun kind => kind = .int ∨ kind = .time) ∧
      ¬ SortsTransitively false (OfKinds fun kind => kind = .int ∨ kind = .text) := by
  constructor
  · refine ((sort_order_iff_texts_unmixed false).2 _ (by decide)).mpr ?_
    rintro (h | h) <;> cases h
  · intro h
    have hunmixed := ((sort_order_iff_texts_unmixed false).2 _ (by decide)).mp h (.inr rfl) .int
      (.inl rfl)
    cases hunmixed

end Value

end RecordSql
