import RecordSql.Proofs.StableSort
import RecordSql.Value.Compare

/-!
# Orders of values

Among missing values and values of one kind, the comparison for sorting is an order.  Doubles are
left out, since a double that is not a number compares with nothing.
-/

namespace RecordSql

open Std (OrientedCmp TransCmp TransOrd)

/-!
# Times and identifiers

Both are compared part by part, and so in the order of tuples of numbers.
-/

instance : TransCmp Calendar.Date.compare :=
  inferInstanceAs (TransCmp (compareLex (compareOn Calendar.Date.year)
    (compareLex (compareOn Calendar.Date.month) (compareOn Calendar.Date.day))))

instance : Ord Calendar.Date := ⟨Calendar.Date.compare⟩

instance : TransOrd Calendar.Date := inferInstanceAs (TransCmp Calendar.Date.compare)

instance : TransCmp Calendar.DateTime.compare :=
  inferInstanceAs (TransCmp (compareLex (compareOn Calendar.DateTime.date)
    (compareLex (compareOn Calendar.DateTime.seconds) (compareOn Calendar.DateTime.nanos))))

instance : Ord Calendar.DateTime := ⟨Calendar.DateTime.compare⟩

instance : TransOrd Calendar.DateTime := inferInstanceAs (TransCmp Calendar.DateTime.compare)

instance : TransCmp Guid.compare :=
  inferInstanceAs (TransCmp (compareOn fun g : Guid => g.bits.toNat))

instance : Ord Guid := ⟨Guid.compare⟩

instance : TransOrd Guid := inferInstanceAs (TransCmp Guid.compare)

namespace Value

/-!
# Kinds
-/

inductive Kind where
  | bool
  | int
  | float
  | text
  | time
  | guid
  | ref
deriving DecidableEq, Repr

/-- The kind of a value that is there. -/
def kind? : Value -> Option Kind
  | .null => none
  | .bool _ => some .bool
  | .int _ => some .int
  | .float _ => some .float
  | .str _ => some .text
  | .dateTime _ => some .time
  | .guid _ => some .guid
  | .ref _ => some .ref

/-- The value is missing or of the given kind. -/
def OfKind (kind : Kind) (v : Value) : Prop :=
  forall other, v.kind? = some other -> other = kind

theorem kind?_of_there {kind : Kind} {v : Value} (h : OfKind kind v) (hthere : v ≠ .null) :
    v.kind? = some kind := by
  cases v with
  | null =>
      exact absurd rfl hthere
  | _ =>
      exact congrArg some (h _ rfl)

/-!
# Sorting

For each kind there is a key in an ordered type, with the missing value below all others.
-/

def boolKey : Value -> Option Bool
  | .bool b => some b
  | _ => none

def intKey : Value -> Option Int
  | .int i => some i
  | _ => none

def textKey (caseSensitive : Bool) : Value -> Option String
  | .str s => some (if caseSensitive then s else Text.lower s)
  | _ => none

def timeKey : Value -> Option Calendar.DateTime
  | .dateTime t => some t
  | _ => none

def guidKey : Value -> Option Guid
  | .guid g => some g
  | .ref r => some r.id
  | _ => none

/-- Values of a kind are sorted by their keys if those that are there are. -/
theorem compareForSort_of_key {α : Type} [Ord α] {caseSensitive : Bool} {kind : Kind}
    {key : Value -> Option α} (hmissing : key .null = none)
    (hkeys : forall a b : Value, a.kind? = some kind -> b.kind? = some kind ->
      exists x y, key a = some x ∧ key b = some y ∧
        a.compareForSort caseSensitive b = Ord.compare x y)
    {a b : Value} (ha : OfKind kind a) (hb : OfKind kind b) :
    a.compareForSort caseSensitive b = compareOn key a b := by
  by_cases hnull : a = .null
  · subst hnull
    by_cases hnull' : b = .null
    · subst hnull'
      rw [compareOn, hmissing]
      rfl
    · have hkind := kind?_of_there hb hnull'
      rcases hkeys b b hkind hkind with ⟨y, _, hy, _⟩
      rw [compareOn, hmissing, hy]
      cases b <;> first | rfl | exact absurd rfl hnull'
  · have hkind := kind?_of_there ha hnull
    by_cases hnull' : b = .null
    · subst hnull'
      rcases hkeys a a hkind hkind with ⟨x, _, hx, _⟩
      rw [compareOn, hmissing, hx]
      cases a <;> first | rfl | exact absurd rfl hnull
    · rcases hkeys a b hkind (kind?_of_there hb hnull') with ⟨x, y, hx, hy, horder⟩
      rw [compareOn, hx, hy, horder]
      rfl

theorem compareForSort_text (caseSensitive : Bool) {a b : Value}
    (ha : OfKind .text a) (hb : OfKind .text b) :
    a.compareForSort caseSensitive b =
      Ord.compare (textKey caseSensitive a) (textKey caseSensitive b) := by
  refine compareForSort_of_key rfl ?_ ha hb
  intro a b ha hb
  cases a <;> cases ha
  cases b <;> cases hb
  cases caseSensitive <;> exact ⟨_, _, rfl, rfl, rfl⟩

/-- The comparison for sorting is an order among missing values and values of one kind. -/
theorem compareForSort_orders (caseSensitive : Bool) {kind : Kind} (hkind : kind ≠ .float) :
    exists order : Value -> Value -> Ordering, TransCmp order ∧
      forall a b, OfKind kind a -> OfKind kind b ->
        a.compareForSort caseSensitive b = order a b := by
  cases kind with
  | float =>
      exact absurd rfl hkind
  | text =>
      exact ⟨compareOn (textKey caseSensitive), inferInstance, fun _ _ =>
        compareForSort_text caseSensitive⟩
  | bool =>
      refine ⟨compareOn boolKey, inferInstance, fun _ _ => compareForSort_of_key rfl ?_⟩
      intro a b ha hb
      cases a <;> cases ha
      cases b <;> cases hb
      exact ⟨_, _, rfl, rfl, rfl⟩
  | int =>
      refine ⟨compareOn intKey, inferInstance, fun _ _ => compareForSort_of_key rfl ?_⟩
      intro a b ha hb
      cases a <;> cases ha
      cases b <;> cases hb
      exact ⟨_, _, rfl, rfl, rfl⟩
  | time =>
      refine ⟨compareOn timeKey, inferInstance, fun _ _ => compareForSort_of_key rfl ?_⟩
      intro a b ha hb
      cases a <;> cases ha
      cases b <;> cases hb
      exact ⟨_, _, rfl, rfl, rfl⟩
  | guid =>
      refine ⟨compareOn guidKey, inferInstance, fun _ _ => compareForSort_of_key rfl ?_⟩
      intro a b ha hb
      cases a <;> cases ha
      cases b <;> cases hb
      exact ⟨_, _, rfl, rfl, rfl⟩
  | ref =>
      refine ⟨compareOn guidKey, inferInstance, fun _ _ => compareForSort_of_key rfl ?_⟩
      intro a b ha hb
      cases a <;> cases ha
      cases b <;> cases hb
      exact ⟨_, _, rfl, rfl, rfl⟩

end Value

end RecordSql
