import RecordSql.Proofs.GroupValues

/-!
# Substituted expressions on groups

A substitution puts columns in the place of group keys and aggregates.  If every column holds what
the expressions that it stands for are worth, and no column of an expression is left as it was, then
the expression has the same value before and after.
-/

namespace RecordSql

open Sql (Column Predicate Scalar Substitution Truth)

namespace Sql
namespace Substitution

/-!
# Covered expressions
-/

/-- In a comparison, a column does not stand for an expression in which case counts. -/
def KeepsCase (s : Substitution) (e : Scalar) : Prop :=
  (s.column? e).isSome = true -> e.isCaseSensitive = false

mutual

/--
All columns are replaced, by themselves or with what they are part of, and all parts that are looked
at have the given property.
-/
def Covers (s : Substitution) (good : Scalar -> Prop) : Scalar -> Prop
  | .literal l => good (.literal l)
  | .column c => good (.column c) ∧ (s.column? (.column c)).isSome = true
  | .call name distinct args => good (.call name distinct args) ∧
      (s.column? (.call name distinct args) = none -> s.CoversAll good args)
  | .binary l op r => good (.binary l op r) ∧
      (s.column? (.binary l op r) = none -> s.Covers good l ∧ s.Covers good r)
  | .negate e => good (.negate e) ∧ (s.column? (.negate e) = none -> s.Covers good e)
  | .searchedCase whens otherwise => good (.searchedCase whens otherwise) ∧
      (s.column? (.searchedCase whens otherwise) = none ->
        s.CoversBranches good whens ∧ s.CoversOption good otherwise)
  | .simpleCase input whens otherwise => good (.simpleCase input whens otherwise) ∧
      (s.column? (.simpleCase input whens otherwise) = none ->
        s.Covers good input ∧ s.CoversPairs good whens ∧ s.CoversOption good otherwise)
  | .collate e collation => good (.collate e collation) ∧
      (s.column? (.collate e collation) = none -> s.Covers good e)
  | .star => good .star
  | .starOf table => good (.starOf table)

def CoversPredicate (s : Substitution) (good : Scalar -> Prop) : Predicate -> Prop
  | .and items => s.CoversPredicates good items
  | .or items => s.CoversPredicates good items
  | .not p => s.CoversPredicate good p
  | .compare l _ r => s.Covers good l ∧ s.Covers good r ∧ s.KeepsCase l ∧ s.KeepsCase r
  | .isNull e _ => s.Covers good e
  | .inList e items _ => s.Covers good e ∧ s.CoversAll good items
  | .like e pattern _ => s.Covers good e ∧ s.Covers good pattern
  -- The column of a search is never replaced; it has to be held under its own name.
  | .contains c wanted => good (.column c) ∧ s.column? (.column c) = some c.rowKey ∧
      s.Covers good wanted
  | .const _ => True

def CoversAll (s : Substitution) (good : Scalar -> Prop) : List Scalar -> Prop
  | [] => True
  | e :: rest => s.Covers good e ∧ s.CoversAll good rest

def CoversPredicates (s : Substitution) (good : Scalar -> Prop) : List Predicate -> Prop
  | [] => True
  | p :: rest => s.CoversPredicate good p ∧ s.CoversPredicates good rest

def CoversBranches (s : Substitution) (good : Scalar -> Prop) : List (Predicate × Scalar) -> Prop
  | [] => True
  | (p, e) :: rest => s.CoversPredicate good p ∧ s.Covers good e ∧ s.CoversBranches good rest

def CoversPairs (s : Substitution) (good : Scalar -> Prop) : List (Scalar × Scalar) -> Prop
  | [] => True
  | (w, e) :: rest => s.Covers good w ∧ s.Covers good e ∧ s.CoversPairs good rest

def CoversOption (s : Substitution) (good : Scalar -> Prop) : Option Scalar -> Prop
  | none => True
  | some e => s.Covers good e

end

/-- A replaced expression is a column, and any other is as case sensitive as it was. -/
theorem isCaseSensitive_scalar {s : Substitution} {e : Scalar} (h : s.KeepsCase e) :
    (s.scalar e).isCaseSensitive = e.isCaseSensitive := by
  have hnode : forall otherwise : Scalar, otherwise.isCaseSensitive = e.isCaseSensitive ->
      (s.columnOr e otherwise).isCaseSensitive = e.isCaseSensitive := by
    intro otherwise hotherwise
    unfold columnOr
    split
    · rename_i name hname
      exact (h (by rw [hname]; rfl)).symm
    · exact hotherwise
  cases e <;> exact hnode _ rfl

end Substitution
end Sql

/-!
# Values before and after
-/

/-- The columns of a substitution hold what the expressions that they stand for are worth. -/
structure Supplies (s : Substitution) (good : Scalar -> Prop)
    (own : Scalar -> Option (Except EvalError Value)) (read : String -> Value) : Prop where
  replaced : forall e name, good e -> s.column? e = some name -> own e = some (.ok (read name))
  kept : forall e, s.column? e = none -> e.isAggregate = false -> own e = none

namespace Supplies

open Eval

variable {s : Substitution} {good : Scalar -> Prop}
  {own : Scalar -> Option (Except EvalError Value)} {read : String -> Value} {clock : Clock}

/-- An expression that is replaced has the value of its column, and any other that of its parts. -/
theorem getD_own (h : Supplies s good own read) {e otherwise : Scalar}
    {rest : Except EvalError Value} {v : Value} (hgood : good e)
    (hv : Eval.scalar clock read (s.columnOr e otherwise) = .ok v)
    (haggregate : otherwise.isAggregate = e.isAggregate)
    (hrest : s.column? e = none -> Eval.scalar clock read otherwise = .ok v -> rest = .ok v) :
    (own e).getD rest = .ok v := by
  unfold Substitution.columnOr at hv
  split at hv
  · rename_i name hname
    rw [h.replaced e name hgood hname]
    exact hv
  · rename_i hnone
    cases he : e.isAggregate with
    | true =>
        exact absurd hv (Eval.scalar_aggregate (haggregate.trans he))
    | false =>
        rw [h.kept e hnone he]
        exact hrest hnone hv

mutual

/-- A covered expression that has a value after the substitution has the same value before. -/
theorem scalarWith_eq (h : Supplies s good own read) :
    forall e, s.Covers good e -> forall v,
    scalar clock read (s.scalar e) = .ok v -> scalarWith clock own e = .ok v
  | .literal l => by
      intro hcovers v hv
      exact h.getD_own hcovers hv rfl fun _ hv => hv
  | .column c => by
      intro hcovers v hv
      refine h.getD_own hcovers.1 hv rfl fun hnone _ => ?_
      exact absurd hcovers.2 (by rw [hnone]; exact Bool.false_ne_true)
  | .call name distinct args => by
      intro hcovers v hv
      refine h.getD_own hcovers.1 hv rfl fun hnone hv => ?_
      rw [scalar, Outcome.bind_eq_ok] at hv
      rcases hv with ⟨values, hvalues, hv⟩
      rw [h.scalarsWith_eq args (hcovers.2 hnone) values hvalues]
      exact hv
  | .binary l op r => by
      intro hcovers v hv
      refine h.getD_own hcovers.1 hv rfl fun hnone hv => ?_
      rcases hcovers.2 hnone with ⟨hl, hr⟩
      simp only [scalar, Outcome.bind_eq_ok] at hv
      rcases hv with ⟨a, ha, b, hb, hv⟩
      rw [h.scalarWith_eq l hl a ha, h.scalarWith_eq r hr b hb]
      exact hv
  | .negate e => by
      intro hcovers v hv
      refine h.getD_own hcovers.1 hv rfl fun hnone hv => ?_
      rw [scalar, Outcome.bind_eq_ok] at hv
      rcases hv with ⟨a, ha, hv⟩
      rw [h.scalarWith_eq e (hcovers.2 hnone) a ha]
      exact hv
  | .searchedCase whens otherwise => by
      intro hcovers v hv
      refine h.getD_own hcovers.1 hv rfl fun hnone hv => ?_
      rcases hcovers.2 hnone with ⟨hwhens, hotherwise⟩
      rw [scalar, Outcome.bind_eq_ok] at hv
      rcases hv with ⟨chosen, hchosen, hv⟩
      rw [h.branchesWith_eq whens hwhens chosen hchosen]
      cases chosen with
      | some _ =>
          exact hv
      | none =>
          exact h.elseWith_eq otherwise hotherwise v hv
  | .simpleCase input whens otherwise => by
      intro hcovers v hv
      refine h.getD_own hcovers.1 hv rfl fun hnone hv => ?_
      rcases hcovers.2 hnone with ⟨hinput, hwhens, hotherwise⟩
      simp only [scalar, Outcome.bind_eq_ok] at hv
      rcases hv with ⟨a, ha, chosen, hchosen, hv⟩
      rw [h.scalarWith_eq input hinput a ha, Outcome.ok_bind,
        h.matchingWith_eq whens hwhens a chosen hchosen]
      cases chosen with
      | some _ =>
          exact hv
      | none =>
          exact h.elseWith_eq otherwise hotherwise v hv
  | .collate e collation => by
      intro hcovers v hv
      refine h.getD_own hcovers.1 hv rfl fun hnone hv => ?_
      exact h.scalarWith_eq e (hcovers.2 hnone) v hv
  | .star => by
      intro hcovers v hv
      exact h.getD_own hcovers hv rfl fun _ hv => hv
  | .starOf table => by
      intro hcovers v hv
      exact h.getD_own hcovers hv rfl fun _ hv => hv

theorem predicateWith_eq (h : Supplies s good own read) :
    forall p, s.CoversPredicate good p -> forall t,
    predicate clock read (s.predicate p) = .ok t -> predicateWith clock own p = .ok t
  | .and items => fun hcovers t ht => h.allWith_eq items hcovers .isTrue t ht
  | .or items => fun hcovers t ht => h.anyWith_eq items hcovers .isFalse t ht
  | .not p => by
      intro hcovers t ht
      rw [Substitution.predicate, predicate, Outcome.bind_eq_ok] at ht
      rcases ht with ⟨u, hu, ht⟩
      rw [predicateWith, h.predicateWith_eq p hcovers u hu]
      exact ht
  | .compare l op r => by
      intro hcovers t ht
      rcases hcovers with ⟨hl, hr, hcaseLeft, hcaseRight⟩
      simp only [Substitution.predicate, predicate, Outcome.bind_eq_ok,
        Substitution.isCaseSensitive_scalar hcaseLeft,
        Substitution.isCaseSensitive_scalar hcaseRight] at ht
      rcases ht with ⟨a, ha, b, hb, ht⟩
      rw [predicateWith, h.scalarWith_eq l hl a ha, h.scalarWith_eq r hr b hb]
      exact ht
  | .isNull e negated => by
      intro hcovers t ht
      rw [Substitution.predicate, predicate, Outcome.bind_eq_ok] at ht
      rcases ht with ⟨a, ha, ht⟩
      rw [predicateWith, h.scalarWith_eq e hcovers a ha]
      exact ht
  | .inList e items negated => by
      intro hcovers t ht
      simp only [Substitution.predicate, predicate, Outcome.bind_eq_ok] at ht
      rcases ht with ⟨a, ha, u, hu, ht⟩
      rw [predicateWith, h.scalarWith_eq e hcovers.1 a ha, Outcome.ok_bind,
        h.memberWith_eq items hcovers.2 a .isFalse u hu]
      exact ht
  | .like e pattern negated => by
      intro hcovers t ht
      simp only [Substitution.predicate, predicate, Outcome.bind_eq_ok] at ht
      rcases ht with ⟨a, ha, b, hb, u, hu, ht⟩
      rw [predicateWith, h.scalarWith_eq e hcovers.1 a ha, Outcome.ok_bind,
        h.scalarWith_eq pattern hcovers.2 b hb, Outcome.ok_bind, hu]
      exact ht
  | .contains c wanted => by
      intro hcovers t ht
      rcases hcovers with ⟨hgood, hname, hwanted⟩
      rw [Substitution.predicate, predicate, Outcome.bind_eq_ok] at ht
      rcases ht with ⟨w, hw, ht⟩
      rw [predicateWith, h.scalarWith_eq wanted hwanted w hw, Outcome.ok_bind,
        h.replaced _ _ hgood hname]
      exact ht
  | .const t => fun _ _ ht => ht

theorem scalarsWith_eq (h : Supplies s good own read) :
    forall es, s.CoversAll good es -> forall vs,
    scalars clock read (s.scalars es) = .ok vs -> scalarsWith clock own es = .ok vs
  | [] => fun _ _ hvs => hvs
  | e :: rest => by
      intro hcovers vs hvs
      simp only [Substitution.scalars, scalars, Outcome.bind_eq_ok] at hvs
      rcases hvs with ⟨v, hv, more, hmore, hvs⟩
      rw [scalarsWith, h.scalarWith_eq e hcovers.1 v hv, Outcome.ok_bind,
        h.scalarsWith_eq rest hcovers.2 more hmore]
      exact hvs

theorem branchesWith_eq (h : Supplies s good own read) :
    forall whens, s.CoversBranches good whens -> forall chosen,
    branches clock read (s.branches whens) = .ok chosen -> branchesWith clock own whens = .ok chosen
  | [] => fun _ _ hchosen => hchosen
  | (p, e) :: rest => by
      intro hcovers chosen hchosen
      rcases hcovers with ⟨hp, he, hrest⟩
      rw [Substitution.branches, branches, Outcome.bind_eq_ok] at hchosen
      rcases hchosen with ⟨t, ht, hchosen⟩
      rw [branchesWith, h.predicateWith_eq p hp t ht, Outcome.ok_bind]
      split at hchosen
      · rename_i hholds
        rw [Outcome.bind_eq_ok] at hchosen
        rcases hchosen with ⟨v, hv, hchosen⟩
        rw [if_pos hholds, h.scalarWith_eq e he v hv]
        exact hchosen
      · rename_i hholds
        rw [if_neg hholds]
        exact h.branchesWith_eq rest hrest chosen hchosen

theorem matchingWith_eq (h : Supplies s good own read) :
    forall whens, s.CoversPairs good whens -> forall input chosen,
    matching clock read input (s.pairs whens) = .ok chosen ->
      matchingWith clock own input whens = .ok chosen
  | [] => fun _ _ _ hchosen => hchosen
  | (w, e) :: rest => by
      intro hcovers input chosen hchosen
      rcases hcovers with ⟨hw, he, hrest⟩
      rw [Substitution.pairs, matching, Outcome.bind_eq_ok] at hchosen
      rcases hchosen with ⟨candidate, hcandidate, hchosen⟩
      rw [matchingWith, h.scalarWith_eq w hw candidate hcandidate, Outcome.ok_bind]
      split at hchosen
      · rename_i hequal
        rw [Outcome.bind_eq_ok] at hchosen
        rcases hchosen with ⟨v, hv, hchosen⟩
        rw [if_pos hequal, h.scalarWith_eq e he v hv]
        exact hchosen
      · rename_i hequal
        rw [if_neg hequal]
        exact h.matchingWith_eq rest hrest input chosen hchosen

theorem elseWith_eq (h : Supplies s good own read) :
    forall otherwise, s.CoversOption good otherwise -> forall v,
    elseValue clock read (s.otherwise otherwise) = .ok v -> elseWith clock own otherwise = .ok v
  | none => fun _ _ hv => hv
  | some e => fun hcovers v hv => h.scalarWith_eq e hcovers v hv

theorem allWith_eq (h : Supplies s good own read) :
    forall items, s.CoversPredicates good items -> forall sofar t,
    allOf clock read sofar (s.predicates items) = .ok t -> allWith clock own sofar items = .ok t
  | [] => fun _ _ _ ht => ht
  | p :: rest => by
      intro hcovers sofar t ht
      rw [Substitution.predicates, allOf, Outcome.bind_eq_ok] at ht
      rcases ht with ⟨u, hu, ht⟩
      rw [allWith, h.predicateWith_eq p hcovers.1 u hu, Outcome.ok_bind]
      simp only at ht ⊢
      split at ht
      · rename_i hfalse
        rw [if_pos hfalse]
        exact ht
      · rename_i hfalse
        rw [if_neg hfalse]
        exact h.allWith_eq rest hcovers.2 _ t ht

theorem anyWith_eq (h : Supplies s good own read) :
    forall items, s.CoversPredicates good items -> forall sofar t,
    anyOf clock read sofar (s.predicates items) = .ok t -> anyWith clock own sofar items = .ok t
  | [] => fun _ _ _ ht => ht
  | p :: rest => by
      intro hcovers sofar t ht
      rw [Substitution.predicates, anyOf, Outcome.bind_eq_ok] at ht
      rcases ht with ⟨u, hu, ht⟩
      rw [anyWith, h.predicateWith_eq p hcovers.1 u hu, Outcome.ok_bind]
      simp only at ht ⊢
      split at ht
      · rename_i htrue
        rw [if_pos htrue]
        exact ht
      · rename_i htrue
        rw [if_neg htrue]
        exact h.anyWith_eq rest hcovers.2 _ t ht

theorem memberWith_eq (h : Supplies s good own read) :
    forall items, s.CoversAll good items -> forall v sofar t,
    memberOf clock read v sofar (s.scalars items) = .ok t ->
      memberWith clock own v sofar items = .ok t
  | [] => fun _ _ _ _ ht => ht
  | e :: rest => by
      intro hcovers v sofar t ht
      rw [Substitution.scalars, memberOf, Outcome.bind_eq_ok] at ht
      rcases ht with ⟨candidate, hcandidate, ht⟩
      rw [memberWith, h.scalarWith_eq e hcovers.1 candidate hcandidate, Outcome.ok_bind]
      simp only at ht ⊢
      split at ht
      · rename_i htrue
        rw [if_pos htrue]
        exact ht
      · rename_i htrue
        rw [if_neg htrue]
        exact h.memberWith_eq rest hcovers.2 v _ t ht

end

end Supplies

end RecordSql
