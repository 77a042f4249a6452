import RecordSql.Eval.Error
import RecordSql.Eval.Like
import RecordSql.Fetch.DateRange
import RecordSql.Fetch.Query
import RecordSql.Record
import RecordSql.Regex.Standard
import RecordSql.Text.Pieces
import RecordSql.Value.Compare

/-!
# Deciding conditions

The rows of a native query hold the values of all its scopes.  A value of the root is held under
its own name, a value of a linked scope under its name with the alias of the link in front.

The platform knows two truth values: every condition on a missing value is false, except the one
that asks for it.
-/

namespace RecordSql
namespace Fetch

open Calendar (DateTime)

structure Joined where
  id : Option Guid
  values : Dict Value

namespace Joined

def get (r : Joined) (key : String) : Value :=
  (r.values.get? key).getD .null

/-- A record of a scope, whose names all get the same text in front. -/
def ofRecord (front : String) (r : Record) : Joined :=
  ⟨r.id, r.attributes.withFront front⟩

/-- A row together with a matching row of a linked scope. -/
def link (parent child : Joined) : Joined :=
  ⟨parent.id, parent.values.insertAll child.values.entries⟩

end Joined

/-- The value that a condition compares with: another column's, or the one it holds. -/
def operand (front : String) (row : Joined) (c : Condition) : Value :=
  match c.valueOf with
  | some other => row.get (if other.toList.contains '.' then other else front ++ other)
  | none => (c.value.map Value.str).getD .null

/-- The whole number that a condition holds. -/
def wholeNumber (c : Condition) : Except PlatformError Int :=
  match c.value.bind fun v => Number.readInt (Text.trim v).toList with
  | some n => .ok n
  | none => .error (.fault ("Condition " ++ c.operator.name ++ " requires a whole number value"))

def likeMatches (value pattern : String) : Except PlatformError Bool :=
  match Like.compile .standard pattern with
  | some accepts => .ok (accepts value)
  | none => .error (.fault (EvalError.invalidPattern pattern).message)

/-- One of the members of a stored list is one of the wanted ones. -/
def holdsAny (stored : String) (wanted : List String) : Bool :=
  let members := Text.members stored
  wanted.any fun w => members.any (Text.sameName · (Text.trim w))

def onDay (accepts : Ordering -> Bool) (value wanted : Value) : Bool :=
  match value.asDateTime, wanted.asDateTime with
  | some t, some u => accepts (t.date.compare u.date)
  | _, _ => false

/-- Whether a value that is there satisfies a condition. -/
def accepts (now : DateTime) (value : Value) (other : Value) (c : Condition) :
    Except PlatformError Bool :=
  match c.operator with
  | .compare op => .ok ((value.compare false other).any op.accepts)
  | .like negated => do
      let found <- likeMatches value.text (c.value.getD "")
      return found != negated
  | .oneOf negated =>
      .ok (c.values.any (fun v => value.equals false (.str v) == some true) != negated)
  | .containValues negated => .ok (holdsAny value.text c.values != negated)
  | .on => .ok (onDay (· == .eq) value other)
  | .onOrAfter => .ok (onDay (· != .lt) value other)
  | .onOrBefore => .ok (onDay (· != .gt) value other)
  | op =>
      match value.asDateTime with
      | some t => do
          let range <- dateRange now op (wholeNumber c)
          return range.contains t
      | none => .ok false

def conditionHolds (now : DateTime) (front : String) (row : Joined) (c : Condition) :
    Except PlatformError Bool :=
  let value := row.get (front ++ c.column)
  match c.operator with
  | .isNull negated => .ok (value.isNull != negated)
  | _ => if value.isNull then .ok false else accepts now value (operand front row c) c

/-!
# Filters

The items of a filter are decided in turn until its outcome is settled.  A filter without items
holds.
-/

mutual

def filterHolds (now : DateTime) (front : String) (row : Joined) :
    Filter -> Except PlatformError Bool
  | ⟨.all, items⟩ => allHold now front row items
  | ⟨.any, []⟩ => .ok true
  | ⟨.any, items⟩ => anyHolds now front row items

def allHold (now : DateTime) (front : String) (row : Joined) :
    List (Condition ⊕ Filter) -> Except PlatformError Bool
  | [] => .ok true
  | .inl c :: rest => do
      if <- conditionHolds now front row c then allHold now front row rest else return false
  | .inr f :: rest => do
      if <- filterHolds now front row f then allHold now front row rest else return false

def anyHolds (now : DateTime) (front : String) (row : Joined) :
    List (Condition ⊕ Filter) -> Except PlatformError Bool
  | [] => .ok false
  | .inl c :: rest => do
      if <- conditionHolds now front row c then return true else anyHolds now front row rest
  | .inr f :: rest => do
      if <- filterHolds now front row f then return true else anyHolds now front row rest

end

def filtersHold (now : DateTime) (front : String) (row : Joined) :
    List Filter -> Except PlatformError Bool
  | [] => .ok true
  | f :: rest => do
      if <- filterHolds now front row f then filtersHold now front row rest else return false

def keepMatching (now : DateTime) (front : String) (filters : List Filter) :
    List Joined -> Except PlatformError (List Joined)
  | [] => .ok []
  | row :: rest => do
      let holds <- filtersHold now front row filters
      let kept <- keepMatching now front filters rest
      return if holds then row :: kept else kept

end Fetch
end RecordSql
