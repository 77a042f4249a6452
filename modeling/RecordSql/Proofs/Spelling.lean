import RecordSql.Eval.Expr
import RecordSql.Sql.Cursor

/-!
# How an expression was written

The case of a function's name and the marks around a column's name do not matter to the value of an
expression.  Leaving them out gives its plain form.
-/

namespace RecordSql

/-!
# Names of functions

A name of ASCII letters has one upper case and one lower case, whichever way it was written.
-/

namespace Text

def isAscii (s : String) : Bool :=
  s.toList.all (·.toNat < 128)

/-- What holds of the first 128 characters holds of every ASCII character. -/
theorem ascii_cases (p : Char -> Prop) (h : forall n, n < 128 -> p (Char.ofNat n)) {c : Char}
    (hc : c.toNat < 128) : p c := by
  have hcode := h c.toNat hc
  rwa [Char.ofNat_toNat] at hcode

theorem toList_upper {s : String} (h : isAscii s = true) :
    (upper s).toList = s.toList.map Char.toUpper := by
  rw [isAscii, List.all_eq_true] at h
  rw [upper, String.toList_ofList]
  generalize s.toList = cs at h
  induction cs with
  | nil =>
      rfl
  | cons c cs ih =>
      rw [List.forall_mem_cons] at h
      have hc : c.toNat < 128 := by simpa using h.1
      rw [List.flatMap_cons, ih h.2, upperChar, if_pos hc]
      rfl

theorem isAscii_upper {s : String} (h : isAscii s = true) : isAscii (upper s) = true := by
  have hchar : forall {c : Char}, c.toNat < 128 -> c.toUpper.toNat < 128 :=
    ascii_cases (fun c => c.toUpper.toNat < 128) (by decide)
  rw [isAscii, toList_upper h, List.all_map]
  rw [isAscii, List.all_eq_true] at h
  rw [List.all_eq_true]
  intro c hc
  simpa using hchar (by simpa using h c hc)

theorem upper_upper {s : String} (h : isAscii s = true) : upper (upper s) = upper s := by
  have hchar : forall {c : Char}, c.toNat < 128 -> c.toUpper.toUpper = c.toUpper :=
    ascii_cases (fun c => c.toUpper.toUpper = c.toUpper) (by decide)
  apply String.toList_injective
  rw [toList_upper (isAscii_upper h), toList_upper h, List.map_map]
  rw [isAscii, List.all_eq_true] at h
  apply List.map_congr_left
  intro c hc
  exact hchar (by simpa using h c hc)

theorem lowerAscii_upper {s : String} (h : isAscii s = true) :
    lowerAscii (upper s) = lowerAscii s := by
  have hchar : forall {c : Char}, c.toNat < 128 -> c.toUpper.toLower = c.toLower :=
    ascii_cases (fun c => c.toUpper.toLower = c.toLower) (by decide)
  rw [lowerAscii, lowerAscii, toList_upper h, List.map_map]
  rw [isAscii, List.all_eq_true] at h
  congr 1
  apply List.map_congr_left
  intro c hc
  exact hchar (by simpa using h c hc)

end Text

/-- A function is found by the lower case of its name and named in failures by the upper case. -/
theorem Function.call_congr {clock : Clock} {f g : String} {args : List Value}
    (hlower : Text.lowerAscii f = Text.lowerAscii g) (hupper : Text.upper f = Text.upper g) :
    Function.call clock f args = Function.call clock g args := by
  unfold Function.call Function.wrongArguments
  rw [hlower, hupper]

theorem Function.call_upper {clock : Clock} {f : String} {args : List Value}
    (h : Text.isAscii f = true) :
    Function.call clock (Text.upper f) args = Function.call clock f args :=
  Function.call_congr (Text.lowerAscii_upper h) (Text.upper_upper h)

namespace Sql

/-!
# Plain forms
-/

def Column.plain (c : Column) : Column :=
  { c with quoted := false }

theorem Column.rowKey_plain (c : Column) : c.plain.rowKey = c.rowKey := by
  rfl

mutual

/-- The expression with its functions in upper case and no marks around names. -/
def Scalar.plain : Scalar -> Scalar
  | .literal l => .literal l
  | .column c => .column c.plain
  | .call name distinct args => .call (Text.upper name) distinct (plainAll args)
  | .binary l op r => .binary l.plain op r.plain
  | .negate e => .negate e.plain
  | .searchedCase whens otherwise => .searchedCase (plainBranches whens) (plainElse otherwise)
  | .simpleCase input whens otherwise =>
      .simpleCase input.plain (plainPairs whens) (plainElse otherwise)
  | .collate e collation => .collate e.plain collation
  | .star => .star
  | .starOf table => .starOf table

def Predicate.plain : Predicate -> Predicate
  | .and items => .and (plainMembers items)
  | .or items => .or (plainMembers items)
  | .not p => .not p.plain
  | .compare l op r => .compare l.plain op r.plain
  | .isNull e negated => .isNull e.plain negated
  | .inList e items negated => .inList e.plain (plainAll items) negated
  | .like e pattern negated => .like e.plain pattern.plain negated
  | .contains c wanted => .contains c.plain wanted.plain
  | .const t => .const t

def plainAll : List Scalar -> List Scalar
  | [] => []
  | e :: rest => e.plain :: plainAll rest

def plainMembers : List Predicate -> List Predicate
  | [] => []
  | p :: rest => p.plain :: plainMembers rest

def plainBranches : List (Predicate × Scalar) -> List (Predicate × Scalar)
  | [] => []
  | (p, e) :: rest => (p.plain, e.plain) :: plainBranches rest

def plainPairs : List (Scalar × Scalar) -> List (Scalar × Scalar)
  | [] => []
  | (w, e) :: rest => (w.plain, e.plain) :: plainPairs rest

def plainElse : Option Scalar -> Option Scalar
  | none => none
  | some e => some e.plain

end

theorem isCaseSensitive_plain (e : Scalar) : e.plain.isCaseSensitive = e.isCaseSensitive := by
  cases e <;> rfl

/-- The function of a call has an ASCII name; other expressions have none. -/
def Scalar.namesFunction : Scalar -> Bool
  | .call name _ _ => Text.isAscii name
  | _ => true

end Sql

/-!
# Values of plain forms
-/

namespace Eval

open Sql (Scalar Predicate)

variable {clock : Clock} {read : String -> Value}

mutual

/-- A plain form has the value of the expression, failures included. -/
theorem scalar_plain : forall e : Scalar, (forall x, x ∈ e.parts -> x.namesFunction = true) ->
    scalar clock read e.plain = scalar clock read e
  | .literal _, _ => by
      rw [Scalar.plain]
  | .column _, _ => by
      rw [Scalar.plain, scalar, scalar, Sql.Column.rowKey_plain]
  | .call name distinct args, h => by
      rw [Scalar.parts, List.forall_mem_cons] at h
      have hname : Text.isAscii name = true := h.1
      rw [Scalar.plain, scalar, scalar, scalars_plain args h.2]
      simp only [Function.call_upper hname]
  | .binary l op r, h => by
      rw [Scalar.parts, List.forall_mem_cons, List.forall_mem_append] at h
      rw [Scalar.plain, scalar, scalar, scalar_plain l h.2.1, scalar_plain r h.2.2]
  | .negate e, h => by
      rw [Scalar.parts, List.forall_mem_cons] at h
      rw [Scalar.plain, scalar, scalar, scalar_plain e h.2]
  | .searchedCase whens otherwise, h => by
      rw [Scalar.parts, List.forall_mem_cons, List.forall_mem_append] at h
      rw [Scalar.plain, scalar, scalar, branches_plain whens h.2.1, elseValue_plain otherwise h.2.2]
  | .simpleCase input whens otherwise, h => by
      rw [Scalar.parts, List.forall_mem_cons, List.forall_mem_append, List.forall_mem_append] at h
      rw [Scalar.plain, scalar, scalar, scalar_plain input h.2.1.1]
      simp only [matching_plain whens h.2.1.2, elseValue_plain otherwise h.2.2]
  | .collate e collation, h => by
      rw [Scalar.parts, List.forall_mem_cons] at h
      rw [Scalar.plain, scalar, scalar, scalar_plain e h.2]
  | .star, _ => by
      rw [Scalar.plain]
  | .starOf _, _ => by
      rw [Scalar.plain]

theorem predicate_plain : forall p : Predicate,
    (forall x, x ∈ p.parts -> x.namesFunction = true) ->
    predicate clock read p.plain = predicate clock read p
  | .and items, h => by
      rw [Predicate.parts] at h
      rw [Predicate.plain, predicate, predicate, allOf_plain items h]
  | .or items, h => by
      rw [Predicate.parts] at h
      rw [Predicate.plain, predicate, predicate, anyOf_plain items h]
  | .not p, h => by
      rw [Predicate.parts] at h
      rw [Predicate.plain, predicate, predicate, predicate_plain p h]
  | .compare l op r, h => by
      rw [Predicate.parts, List.forall_mem_append] at h
      rw [Predicate.plain, predicate, predicate, scalar_plain l h.1, scalar_plain r h.2,
        Sql.isCaseSensitive_plain, Sql.isCaseSensitive_plain]
  | .isNull e negated, h => by
      rw [Predicate.parts] at h
      rw [Predicate.plain, predicate, predicate, scalar_plain e h]
  | .inList e items negated, h => by
      rw [Predicate.parts, List.forall_mem_append] at h
      rw [Predicate.plain, predicate, predicate, scalar_plain e h.1]
      simp only [memberOf_plain items h.2]
  | .like e pattern negated, h => by
      rw [Predicate.parts, List.forall_mem_append] at h
      rw [Predicate.plain, predicate, predicate, scalar_plain e h.1, scalar_plain pattern h.2]
  | .contains c wanted, h => by
      rw [Predicate.parts, List.forall_mem_cons] at h
      rw [Predicate.plain, predicate, predicate, scalar_plain wanted h.2,
        Sql.Column.rowKey_plain]
  | .const _, _ => by
      rw [Predicate.plain]

theorem scalars_plain : forall items : List Scalar,
    (forall x, x ∈ Sql.partsOfAll items -> x.namesFunction = true) ->
    scalars clock read (Sql.plainAll items) = scalars clock read items
  | [], _ => by
      rw [Sql.plainAll]
  | e :: rest, h => by
      rw [Sql.partsOfAll, List.forall_mem_append] at h
      rw [Sql.plainAll, scalars, scalars, scalar_plain e h.1, scalars_plain rest h.2]

theorem branches_plain : forall whens : List (Predicate × Scalar),
    (forall x, x ∈ Sql.partsOfBranches whens -> x.namesFunction = true) ->
    branches clock read (Sql.plainBranches whens) = branches clock read whens
  | [], _ => by
      rw [Sql.plainBranches]
  | (p, e) :: rest, h => by
      rw [Sql.partsOfBranches, List.forall_mem_append, List.forall_mem_append] at h
      rw [Sql.plainBranches, branches, branches, predicate_plain p h.1.1, scalar_plain e h.1.2,
        branches_plain rest h.2]

theorem matching_plain : forall {v : Value} (whens : List (Scalar × Scalar)),
    (forall x, x ∈ Sql.partsOfPairs whens -> x.namesFunction = true) ->
    matching clock read v (Sql.plainPairs whens) = matching clock read v whens
  | _, [], _ => by
      rw [Sql.plainPairs]
  | _, (w, e) :: rest, h => by
      rw [Sql.partsOfPairs, List.forall_mem_append, List.forall_mem_append] at h
      rw [Sql.plainPairs, matching, matching, scalar_plain w h.1.1, scalar_plain e h.1.2,
        matching_plain rest h.2]

theorem elseValue_plain : forall otherwise : Option Scalar,
    (forall x, x ∈ Sql.partsOfOption otherwise -> x.namesFunction = true) ->
    elseValue clock read (Sql.plainElse otherwise) = elseValue clock read otherwise
  | none, _ => by
      rw [Sql.plainElse]
  | some e, h => by
      rw [Sql.partsOfOption] at h
      rw [Sql.plainElse, elseValue, elseValue, scalar_plain e h]

theorem allOf_plain : forall {sofar : Sql.Truth} (items : List Predicate),
    (forall x, x ∈ Sql.partsOfPredicates items -> x.namesFunction = true) ->
    allOf clock read sofar (Sql.plainMembers items) = allOf clock read sofar items
  | _, [], _ => by
      rw [Sql.plainMembers]
  | _, p :: rest, h => by
      rw [Sql.partsOfPredicates, List.forall_mem_append] at h
      rw [Sql.plainMembers, allOf, allOf, predicate_plain p h.1]
      simp only [allOf_plain rest h.2]

theorem anyOf_plain : forall {sofar : Sql.Truth} (items : List Predicate),
    (forall x, x ∈ Sql.partsOfPredicates items -> x.namesFunction = true) ->
    anyOf clock read sofar (Sql.plainMembers items) = anyOf clock read sofar items
  | _, [], _ => by
      rw [Sql.plainMembers]
  | _, p :: rest, h => by
      rw [Sql.partsOfPredicates, List.forall_mem_append] at h
      rw [Sql.plainMembers, anyOf, anyOf, predicate_plain p h.1]
      simp only [anyOf_plain rest h.2]

theorem memberOf_plain : forall {v : Value} {sofar : Sql.Truth} (items : List Scalar),
    (forall x, x ∈ Sql.partsOfAll items -> x.namesFunction = true) ->
    memberOf clock read v sofar (Sql.plainAll items) = memberOf clock read v sofar items
  | _, _, [], _ => by
      rw [Sql.plainAll]
  | _, _, e :: rest, h => by
      rw [Sql.partsOfAll, List.forall_mem_append] at h
      rw [Sql.plainAll, memberOf, memberOf, scalar_plain e h.1]
      simp only [memberOf_plain rest h.2]

end

end Eval
end RecordSql
