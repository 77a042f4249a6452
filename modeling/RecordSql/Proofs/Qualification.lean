import Mathlib.Data.List.Forall2
import RecordSql.Plan.Qualify
import RecordSql.Proofs.Outcome

/-!
# Rules for qualified expressions

What becomes of an expression when it is qualified, by one rule for each kind of expression.  Lists
are qualified item by item.
-/

namespace RecordSql
namespace Plan

open Sql (Arithmetic Column Comparison Literal Predicate Scalar Truth)

inductive Qualified (ctx : Context) : Scalar -> Scalar -> Prop where
  | column {c : Column} {b : Bound} (h : ctx.resolve c = .ok (some b)) :
      Qualified ctx (.column c) (.column (ctx.scopes.qualified b))
  /-- A quoted name that is no column is a text. -/
  | text {c : Column} (h : ctx.resolve c = .ok none) :
      Qualified ctx (.column c) (.literal (.str c.name))
  | count {name : String} {distinct : Bool} {args : List Scalar}
      (h : (Scalar.call name distinct args).isRowCount = true) :
      Qualified ctx (.call name distinct args) (.call name distinct args)
  | call {name : String} {distinct : Bool} {args args' : List Scalar}
      (h : (Scalar.call name distinct args).isRowCount = false)
      (hargs : ctx.qualifyList args = .ok args') :
      Qualified ctx (.call name distinct args) (.call name distinct args')
  | binary {l l' r r' : Scalar} {op : Arithmetic} (hl : ctx.qualify l = .ok l')
      (hr : ctx.qualify r = .ok r') : Qualified ctx (.binary l op r) (.binary l' op r')
  | negate {e e' : Scalar} (he : ctx.qualify e = .ok e') : Qualified ctx (.negate e) (.negate e')
  | collate {e e' : Scalar} {collation : String} (he : ctx.qualify e = .ok e') :
      Qualified ctx (.collate e collation) (.collate e' collation)
  | searchedCase {whens whens' : List (Predicate × Scalar)} {otherwise otherwise' : Option Scalar}
      (hwhens : ctx.qualifyBranches whens = .ok whens')
      (hotherwise : ctx.qualifyOption otherwise = .ok otherwise') :
      Qualified ctx (.searchedCase whens otherwise) (.searchedCase whens' otherwise')
  | simpleCase {input input' : Scalar} {whens whens' : List (Scalar × Scalar)}
      {otherwise otherwise' : Option Scalar} (hinput : ctx.qualify input = .ok input')
      (hwhens : ctx.qualifyPairs whens = .ok whens')
      (hotherwise : ctx.qualifyOption otherwise = .ok otherwise') :
      Qualified ctx (.simpleCase input whens otherwise) (.simpleCase input' whens' otherwise')
  | literal (l : Literal) : Qualified ctx (.literal l) (.literal l)

inductive QualifiedCondition (ctx : Context) : Predicate -> Predicate -> Prop where
  | and {items items' : List Predicate} (h : ctx.qualifyPredicates items = .ok items') :
      QualifiedCondition ctx (.and items) (.and items')
  | or {items items' : List Predicate} (h : ctx.qualifyPredicates items = .ok items') :
      QualifiedCondition ctx (.or items) (.or items')
  | not {p p' : Predicate} (h : ctx.qualifyPredicate p = .ok p') :
      QualifiedCondition ctx (.not p) (.not p')
  | compare {l l' r r' : Scalar} {op : Comparison} (hl : ctx.qualify l = .ok l')
      (hr : ctx.qualify r = .ok r') :
      QualifiedCondition ctx (.compare l op r) (.compare l' op r')
  | isNull {e e' : Scalar} {negated : Bool} (he : ctx.qualify e = .ok e') :
      QualifiedCondition ctx (.isNull e negated) (.isNull e' negated)
  | inList {e e' : Scalar} {items items' : List Scalar} {negated : Bool}
      (he : ctx.qualify e = .ok e') (hitems : ctx.qualifyList items = .ok items') :
      QualifiedCondition ctx (.inList e items negated) (.inList e' items' negated)
  | like {e e' pattern pattern' : Scalar} {negated : Bool} (he : ctx.qualify e = .ok e')
      (hpattern : ctx.qualify pattern = .ok pattern') :
      QualifiedCondition ctx (.like e pattern negated) (.like e' pattern' negated)
  | contains {c : Column} {b : Bound} {wanted wanted' : Scalar} (hc : ctx.resolve c = .ok (some b))
      (hwanted : ctx.qualify wanted = .ok wanted') :
      QualifiedCondition ctx (.contains c wanted) (.contains (ctx.scopes.qualified b) wanted')
  | const (t : Truth) : QualifiedCondition ctx (.const t) (.const t)

namespace Context

variable {ctx : Context}

theorem qualify_eq_ok {e q : Scalar} : ctx.qualify e = .ok q <-> Qualified ctx e q := by
  constructor
  · intro h
    cases e with
    | column c =>
        rw [qualify, Outcome.bind_eq_ok] at h
        rcases h with ⟨found, hfound, h⟩
        cases found with
        | none =>
            cases h
            exact .text hfound
        | some b =>
            cases h
            exact .column hfound
    | call name distinct args =>
        rw [qualify] at h
        split at h
        · rename_i hcount
          cases h
          exact .count hcount
        · rename_i hcount
          rcases Outcome.bind_eq_ok.mp h with ⟨args', hargs, h⟩
          cases h
          exact .call (Bool.eq_false_iff.mpr hcount) hargs
    | binary l op r =>
        simp only [qualify, Outcome.bind_eq_ok] at h
        rcases h with ⟨l', hl, r', hr, h⟩
        cases h
        exact .binary hl hr
    | negate e =>
        simp only [qualify, Outcome.bind_eq_ok] at h
        rcases h with ⟨e', he, h⟩
        cases h
        exact .negate he
    | collate e collation =>
        simp only [qualify, Outcome.bind_eq_ok] at h
        rcases h with ⟨e', he, h⟩
        cases h
        exact .collate he
    | searchedCase whens otherwise =>
        simp only [qualify, Outcome.bind_eq_ok] at h
        rcases h with ⟨whens', hwhens, otherwise', hotherwise, h⟩
        cases h
        exact .searchedCase hwhens hotherwise
    | simpleCase input whens otherwise =>
        simp only [qualify, Outcome.bind_eq_ok] at h
        rcases h with ⟨input', hinput, whens', hwhens, otherwise', hotherwise, h⟩
        cases h
        exact .simpleCase hinput hwhens hotherwise
    | literal l =>
        cases h
        exact .literal l
    | star =>
        cases h
    | starOf table =>
        cases h
  · intro h
    cases h with
    | column h | text h =>
        rw [qualify, h]
        rfl
    | count h =>
        rw [qualify, if_pos h]
        rfl
    | call h hargs =>
        rw [qualify, if_neg (Bool.eq_false_iff.mp h), hargs]
        rfl
    | binary hl hr =>
        rw [qualify, hl, hr]
        rfl
    | negate he | collate he =>
        rw [qualify, he]
        rfl
    | searchedCase hwhens hotherwise =>
        rw [qualify, hwhens, hotherwise]
        rfl
    | simpleCase hinput hwhens hotherwise =>
        rw [qualify, hinput, hwhens, hotherwise]
        rfl
    | literal l =>
        rfl

theorem resolve_of_operand {e : Scalar} {b : Bound} (h : ctx.operand e = .ok (.column b)) :
    exists c, e = .column c ∧ ctx.resolve c = .ok (some b) := by
  cases e with
  | column c =>
      rw [operand, Outcome.bind_eq_ok] at h
      rcases h with ⟨found, hfound, h⟩
      cases found with
      | none =>
          cases h
      | some b' =>
          cases h
          exact ⟨c, rfl, hfound⟩
  | _ =>
      cases h

/-- An operand is the column or the literal that its expression is qualified as. -/
theorem qualify_of_column_operand {e : Scalar} {b : Bound} (h : ctx.operand e = .ok (.column b)) :
    ctx.qualify e = .ok (.column (ctx.scopes.qualified b)) := by
  rcases resolve_of_operand h with ⟨c, rfl, hfound⟩
  exact qualify_eq_ok.mpr (.column hfound)

theorem qualify_of_literal_operand {e : Scalar} {l : Literal}
    (h : ctx.operand e = .ok (.literal l)) : ctx.qualify e = .ok (.literal l) := by
  cases e with
  | literal l' =>
      cases h
      rfl
  | column c =>
      rw [operand, Outcome.bind_eq_ok] at h
      rcases h with ⟨found, hfound, h⟩
      cases found with
      | some b =>
          cases h
      | none =>
          cases h
          exact qualify_eq_ok.mpr (.text hfound)
  | _ =>
      cases h

theorem isCaseSensitive_qualify {e q : Scalar} (h : ctx.qualify e = .ok q) :
    q.isCaseSensitive = e.isCaseSensitive := by
  cases qualify_eq_ok.mp h <;> rfl

theorem qualifyPredicate_eq_ok {p q : Predicate} :
    ctx.qualifyPredicate p = .ok q <-> QualifiedCondition ctx p q := by
  constructor
  · intro h
    cases p with
    | and items =>
        simp only [qualifyPredicate, Outcome.bind_eq_ok] at h
        rcases h with ⟨items', hitems, h⟩
        cases h
        exact .and hitems
    | or items =>
        simp only [qualifyPredicate, Outcome.bind_eq_ok] at h
        rcases h with ⟨items', hitems, h⟩
        cases h
        exact .or hitems
    | not p =>
        simp only [qualifyPredicate, Outcome.bind_eq_ok] at h
        rcases h with ⟨p', hp, h⟩
        cases h
        exact .not hp
    | compare l op r =>
        simp only [qualifyPredicate, Outcome.bind_eq_ok] at h
        rcases h with ⟨l', hl, r', hr, h⟩
        cases h
        exact .compare hl hr
    | isNull e negated =>
        simp only [qualifyPredicate, Outcome.bind_eq_ok] at h
        rcases h with ⟨e', he, h⟩
        cases h
        exact .isNull he
    | inList e items negated =>
        simp only [qualifyPredicate, Outcome.bind_eq_ok] at h
        rcases h with ⟨items', hitems, e', he, h⟩
        cases h
        exact .inList he hitems
    | like e pattern negated =>
        simp only [qualifyPredicate, Outcome.bind_eq_ok] at h
        rcases h with ⟨e', he, pattern', hpattern, h⟩
        cases h
        exact .like he hpattern
    | contains c wanted =>
        rw [qualifyPredicate, Outcome.bind_eq_ok] at h
        rcases h with ⟨found, hfound, h⟩
        cases found with
        | none =>
            cases h
        | some b =>
            rcases Outcome.bind_eq_ok.mp h with ⟨wanted', hwanted, h⟩
            cases h
            exact .contains hfound hwanted
    | const t =>
        cases h
        exact .const t
  · intro h
    cases h with
    | and h | or h | not h =>
        rw [qualifyPredicate, h]
        rfl
    | compare hl hr =>
        rw [qualifyPredicate, hl, hr]
        rfl
    | isNull he =>
        rw [qualifyPredicate, he]
        rfl
    | inList he hitems =>
        rw [qualifyPredicate, hitems, he]
        rfl
    | like he hpattern =>
        rw [qualifyPredicate, he, hpattern]
        rfl
    | contains hc hwanted =>
        rw [qualifyPredicate, hc, Outcome.ok_bind, hwanted]
        rfl
    | const t =>
        rfl

/-!
# Lists
-/

theorem qualifyList_eq_ok {items qs : List Scalar} :
    ctx.qualifyList items = .ok qs <->
      List.Forall₂ (fun e q => ctx.qualify e = .ok q) items qs := by
  constructor
  · intro h
    induction items generalizing qs with
    | nil =>
        cases h
        exact .nil
    | cons e rest ih =>
        simp only [qualifyList, Outcome.bind_eq_ok] at h
        rcases h with ⟨q, hq, qs', hrest, h⟩
        cases h
        exact .cons hq (ih hrest)
  · intro h
    induction h with
    | nil =>
        rfl
    | cons hq _ ih =>
        rw [qualifyList, hq, ih]
        rfl

theorem qualifyPredicates_eq_ok {items qs : List Predicate} :
    ctx.qualifyPredicates items = .ok qs <->
      List.Forall₂ (fun p q => ctx.qualifyPredicate p = .ok q) items qs := by
  constructor
  · intro h
    induction items generalizing qs with
    | nil =>
        cases h
        exact .nil
    | cons p rest ih =>
        simp only [qualifyPredicates, Outcome.bind_eq_ok] at h
        rcases h with ⟨q, hq, qs', hrest, h⟩
        cases h
        exact .cons hq (ih hrest)
  · intro h
    induction h with
    | nil =>
        rfl
    | cons hq _ ih =>
        rw [qualifyPredicates, hq, ih]
        rfl

theorem qualifyBranches_cons {p : Predicate} {e : Scalar} {rest qs : List (Predicate × Scalar)}
    (h : ctx.qualifyBranches ((p, e) :: rest) = .ok qs) :
    exists p' e' rest', ctx.qualifyPredicate p = .ok p' ∧ ctx.qualify e = .ok e' ∧
      ctx.qualifyBranches rest = .ok rest' ∧ qs = (p', e') :: rest' := by
  simp only [qualifyBranches, Outcome.bind_eq_ok] at h
  rcases h with ⟨p', hp, e', he, rest', hrest, h⟩
  cases h
  exact ⟨p', e', rest', hp, he, hrest, rfl⟩

theorem qualifyPairs_cons {w e : Scalar} {rest qs : List (Scalar × Scalar)}
    (h : ctx.qualifyPairs ((w, e) :: rest) = .ok qs) :
    exists w' e' rest', ctx.qualify w = .ok w' ∧ ctx.qualify e = .ok e' ∧
      ctx.qualifyPairs rest = .ok rest' ∧ qs = (w', e') :: rest' := by
  simp only [qualifyPairs, Outcome.bind_eq_ok] at h
  rcases h with ⟨w', hw, e', he, rest', hrest, h⟩
  cases h
  exact ⟨w', e', rest', hw, he, hrest, rfl⟩

theorem qualifyOption_some {e : Scalar} {q : Option Scalar}
    (h : ctx.qualifyOption (some e) = .ok q) : exists e', ctx.qualify e = .ok e' ∧ q = some e' := by
  simp only [qualifyOption, Outcome.bind_eq_ok] at h
  rcases h with ⟨e', he, h⟩
  cases h
  exact ⟨e', he, rfl⟩

end Context

end Plan
end RecordSql
