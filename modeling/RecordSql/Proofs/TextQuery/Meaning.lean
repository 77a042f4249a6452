import RecordSql.Eval.Fold
import RecordSql.Plan.Limit
import RecordSql.Plan.SelectList
import RecordSql.Proofs.Outcome
import RecordSql.Proofs.ValueOrder

/-!
# Queries of texts in one table

A query of one table that reads attributes of texts has a meaning of its own: of the records on
which the condition is true, in the order of the sort keys, a slice is taken, and every record of
it is shown as the values of the select items.  Nothing in this meaning depends on what the platform
can do.
-/

namespace RecordSql
namespace TextQuery

open Sql (Column Comparison Literal OrderKey Predicate Scalar Select SelectItem Truth)

/-!
# Values
-/

/-- Two texts joined; with a missing one the whole is missing. -/
def join : Value -> Value -> Value
  | .str s, .str u => .str (s ++ u)
  | _, _ => .null

/-- The value of an expression for a record of the table. -/
def value (t : TableDef) (r : Record) : Scalar -> Value
  | .literal l => .ofLiteral l
  | .column c =>
      match t.attribute? c.name with
      | some a => r.get a.name
      | none => .null
  | .binary left _ right => join (value t r left) (value t r right)
  | _ => .null

/-!
# Truth

Texts are compared without regard to case.  A missing value makes a condition unknown, except the
one that asks for it.
-/

def comparison (test : Ordering -> Bool) : Value -> Value -> Truth
  | .str s, .str u => .ofBool (test (Value.compareText false s u))
  | _, _ => .unknown

def membership (v : Value) : List Value -> Truth
  | [] => .isFalse
  | w :: rest => (comparison Comparison.eq.accepts v w).or (membership v rest)

def likeness : Value -> Value -> Truth
  | .str s, .str pattern =>
      match Like.compile .standard pattern with
      | some accepts => .ofBool (accepts s)
      | none => .unknown
  | _, _ => .unknown

mutual

/-- The truth of a condition for a record of the table. -/
def truth (t : TableDef) (r : Record) : Predicate -> Truth
  | .and items => truthOfAll t r items
  | .or items => truthOfAny t r items
  | .not p => (truth t r p).not
  | .compare left op right => comparison op.accepts (value t r left) (value t r right)
  | .isNull e negated => .negateIf negated (.ofBool (value t r e).isNull)
  | .inList e items negated =>
      .negateIf negated (membership (value t r e) (items.map (value t r)))
  | .like e pattern negated => .negateIf negated (likeness (value t r e) (value t r pattern))
  | .contains _ _ => .unknown
  | .const u => u

def truthOfAll (t : TableDef) (r : Record) : List Predicate -> Truth
  | [] => .isTrue
  | p :: rest => (truth t r p).and (truthOfAll t r rest)

def truthOfAny (t : TableDef) (r : Record) : List Predicate -> Truth
  | [] => .isFalse
  | p :: rest => (truth t r p).or (truthOfAny t r rest)

end

/-!
# Answers
-/

/-- The order of two items by several keys, each of them a text or missing. -/
def ranking {α : Type} (keys : List ((α -> Value) × Bool)) (a b : α) : Ordering :=
  Sorting.lexicographic <| keys.map fun key =>
    Sorting.directed key.2 (compare ((key.1 a).textKey false) ((key.1 b).textKey false))

/-- A sort key stands for a select item if it is the alias or the position of one. -/
def keyExpr (items : List SelectItem) (e : Scalar) : Scalar :=
  match e with
  | .column ⟨none, name, quoted⟩ =>
      match items.find? fun item => item.aliasName.any (Text.sameName · name) with
      | some item => item.expr
      | none => .column ⟨none, name, quoted⟩
  | .literal (.int ordinal) =>
      match items[(ordinal - 1).toNat]? with
      | some item => item.expr
      | none => e
  | e => e

def sortKeys (t : TableDef) (select : Select) : List ((Record -> Value) × Bool) :=
  select.orderBy.map fun key =>
    (fun r => value t r (keyExpr select.items key.expr), key.descending)

def slice {α : Type} (select : Select) (rows : List α) : List α :=
  match select.top, select.offset with
  | some n, _ => rows.take n.toNat
  | none, some ⟨skip, some n⟩ => (rows.drop skip.toNat).take n.toNat
  | none, some ⟨skip, none⟩ => rows.drop skip.toNat
  | none, none => rows

def isKept (t : TableDef) (select : Select) (r : Record) : Bool :=
  select.criteria.all fun p => (truth t r p).holds

/-- The records that a query shows, in order. -/
def shown (t : TableDef) (select : Select) (records : List Record) : List Record :=
  slice select <| (records.filter (isKept t select)).mergeSort fun a b =>
    (ranking (sortKeys t select) a b).isLE

def answer (t : TableDef) (select : Select) (records : List Record) : List (List Value) :=
  (shown t select records).map fun r => select.items.map fun item => value t r item.expr

/-!
# Names of columns

A column is shown under the name of its attribute, unless it is given another one.  Every other
expression is given a name, by the statement or by its number.
-/

/-- The name of the attribute that a column is, as the table has it. -/
def attributeName (t : TableDef) (c : Column) : String :=
  ((t.attribute? c.name).map (·.name)).getD c.name

/-- The columns of a select list, after so many columns without a name. -/
def outputs (t : TableDef) : Nat -> List SelectItem -> List String
  | _, [] => []
  | n, ⟨.column c, none⟩ :: rest => attributeName t c :: outputs t n rest
  | n, ⟨_, some name⟩ :: rest => name :: outputs t n rest
  | n, ⟨_, none⟩ :: rest => Plan.Projection.generatedName (n + 1) :: outputs t (n + 1) rest

/-- The names among them that are not names of attributes. -/
def givenNames : Nat -> List SelectItem -> List String
  | _, [] => []
  | n, ⟨.column _, none⟩ :: rest => givenNames n rest
  | n, ⟨_, some name⟩ :: rest => name :: givenNames n rest
  | n, ⟨_, none⟩ :: rest => Plan.Projection.generatedName (n + 1) :: givenNames (n + 1) rest

/-!
# The class of queries

Expressions join columns, texts and missing values.  Conditions are made of comparisons, tests for
missing values, membership in lists and likeness to well-formed patterns.
-/

inductive TextScalar (known : Column -> Prop) : Scalar -> Prop where
  | text (s : String) : TextScalar known (.literal (.str s))
  | missing : TextScalar known (.literal .null)
  | column {c : Column} (h : known c) : TextScalar known (.column c)
  | join {left right : Scalar} (hleft : TextScalar known left) (hright : TextScalar known right) :
      TextScalar known (.binary left .add right)

inductive TextPredicate (known : Column -> Prop) : Predicate -> Prop where
  | and {items : List Predicate} (h : forall p, p ∈ items -> TextPredicate known p) :
      TextPredicate known (.and items)
  | or {items : List Predicate} (h : forall p, p ∈ items -> TextPredicate known p) :
      TextPredicate known (.or items)
  | not {p : Predicate} (h : TextPredicate known p) : TextPredicate known (.not p)
  | compare {left right : Scalar} {op : Comparison} (hleft : TextScalar known left)
      (hright : TextScalar known right) : TextPredicate known (.compare left op right)
  | isNull {e : Scalar} {negated : Bool} (h : TextScalar known e) :
      TextPredicate known (.isNull e negated)
  | inList {e : Scalar} {items : List Scalar} {negated : Bool} (h : TextScalar known e)
      (hitems : forall item, item ∈ items -> TextScalar known item) (hsome : items ≠ []) :
      TextPredicate known (.inList e items negated)
  | like {e : Scalar} {pattern : String} {negated : Bool} (h : TextScalar known e)
      (hpattern : (Like.compile .standard pattern).isSome = true) :
      TextPredicate known (.like e (.literal (.str pattern)) negated)

/-- The attribute that a column names, if there is one, is of texts, and so are all its values. -/
def TextColumn (t : TableDef) (records : List Record) (c : Column) : Prop :=
  forall a, t.attribute? c.name = some a -> a.type.isString = true ∧
    forall r, r ∈ records -> Value.OfKind .text (r.get a.name)

/-- The class of queries, over given records of the table. -/
structure TextSelect (t : TableDef) (records : List Record) (select : Select) : Prop where
  items : forall item, item ∈ select.items -> TextScalar (TextColumn t records) item.expr
  criteria : forall p, select.criteria = some p -> TextPredicate (TextColumn t records) p
  orderBy : forall key, key ∈ select.orderBy ->
    TextScalar (TextColumn t records) key.expr ∨ exists ordinal, key.expr = .literal (.int ordinal)
  distinct : select.distinct = false
  groupBy : select.groupBy = []
  having : select.having = none
  /-- Given names differ from each other and from the names of attributes, case ignored. -/
  names : (givenNames 0 select.items).Pairwise fun a b => Text.sameName a b = false
  newNames : forall name, name ∈ givenNames 0 select.items -> t.attribute? name = none
  oneLimit : select.top = none ∨ select.offset = none
  /-- Pages are numbered by words of 32 bits. -/
  pages : forall skip n, select.offset = some ⟨skip, some n⟩ ->
    skip.toNat / n.toNat + 1 < Plan.pageNumbers

/-!
# Values are texts
-/

theorem ofKind_text_join (v w : Value) : Value.OfKind .text (join v w) := by
  intro kind hkind
  cases v with
  | str s =>
      cases w <;> cases hkind
      rfl
  | _ =>
      cases hkind

theorem ofKind_text_cases {v : Value} (h : Value.OfKind .text v) :
    v = .null ∨ exists s, v = .str s := by
  cases v with
  | null =>
      exact Or.inl rfl
  | str s =>
      exact Or.inr ⟨s, rfl⟩
  | _ =>
      have hkind := h _ rfl
      cases hkind

theorem ofKind_text_value {t : TableDef} {records : List Record} {r : Record} (hr : r ∈ records)
    {e : Scalar} (he : TextScalar (TextColumn t records) e) :
    Value.OfKind .text (value t r e) := by
  cases he with
  | text s =>
      intro kind hkind
      cases hkind
      rfl
  | missing =>
      intro kind hkind
      cases hkind
  | @column c h =>
      rw [value]
      cases ha : t.attribute? c.name with
      | none =>
          intro kind hkind
          cases hkind
      | some a =>
          exact (h a ha).2 r hr
  | join _ _ =>
      rw [value]
      exact ofKind_text_join _ _

end TextQuery
end RecordSql
