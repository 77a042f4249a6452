/-!
# Three-valued truth

A condition on a row with missing values may be neither true nor false.
-/

namespace RecordSql
namespace Sql

inductive Truth where
  | isTrue
  | isFalse
  | unknown
deriving DecidableEq, Repr

namespace Truth

def not : Truth -> Truth
  | isTrue => isFalse
  | isFalse => isTrue
  | unknown => unknown

def and : Truth -> Truth -> Truth
  | isFalse, _ => isFalse
  | _, isFalse => isFalse
  | unknown, _ => unknown
  | _, unknown => unknown
  | isTrue, isTrue => isTrue

def or : Truth -> Truth -> Truth
  | isTrue, _ => isTrue
  | _, isTrue => isTrue
  | unknown, _ => unknown
  | _, unknown => unknown
  | isFalse, isFalse => isFalse

def ofBool (b : Bool) : Truth :=
  if b then isTrue else isFalse

/-- A row is kept only when its condition is true; an unknown condition does not keep it. -/
def holds : Truth -> Bool
  | isTrue => true
  | _ => false

/-- `t`, negated on request. -/
def negateIf (negated : Bool) (t : Truth) : Truth :=
  if negated then t.not else t

@[simp]
theorem not_not (t : Truth) : t.not.not = t := by
  cases t <;> rfl

theorem not_and (a b : Truth) : (a.and b).not = a.not.or b.not := by
  cases a <;> cases b <;> rfl

theorem not_or (a b : Truth) : (a.or b).not = a.not.and b.not := by
  cases a <;> cases b <;> rfl

theorem and_assoc (a b c : Truth) : (a.and b).and c = a.and (b.and c) := by
  cases a <;> cases b <;> cases c <;> rfl

theorem or_assoc (a b c : Truth) : (a.or b).or c = a.or (b.or c) := by
  cases a <;> cases b <;> cases c <;> rfl

theorem not_ofBool (b : Bool) : (ofBool b).not = ofBool (!b) := by
  cases b <;> rfl

theorem negateIf_not (negated : Bool) (t : Truth) :
    negateIf (!negated) t = (negateIf negated t).not := by
  cases negated <;> cases t <;> rfl

end Truth

end Sql
end RecordSql
