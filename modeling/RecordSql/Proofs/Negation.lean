import RecordSql.Eval.Expr
import RecordSql.Proofs.Qualification
import RecordSql.Sql.Negation

/-!
# Negation pushed inwards

A condition is brought into a form without negations before it is split.  Its truth stays the same,
errors included: conjunctions and disjunctions stop at the same member, since the negated members of
one settle the other.
-/

namespace RecordSql

open Sql (Comparison Predicate Scalar Truth)

namespace Sql.Predicate

/-!
# Normal form

The only negation that is left stands directly in front of a full-text search.  Conditions inside a
`CASE` are part of a scalar and are not looked at.
-/

mutual

def isNormal : Predicate -> Bool
  | .and items => areNormal items
  | .or items => areNormal items
  | .not (.contains _ _) => true
  | .not _ => false
  | _ => true

def areNormal : List Predicate -> Bool
  | [] => true
  | p :: rest => p.isNormal && areNormal rest

end

mutual

theorem isNormal_pushNot : forall p : Predicate, p.pushNot.isNormal = true
  | .and items => areNormal_pushNotAll items
  | .or items => areNormal_pushNotAll items
  | .not p => isNormal_negation p
  | .compare _ _ _ => rfl
  | .isNull _ _ => rfl
  | .inList _ _ _ => rfl
  | .like _ _ _ => rfl
  | .contains _ _ => rfl
  | .const _ => rfl

theorem isNormal_negation : forall p : Predicate, p.negation.isNormal = true
  | .and items => areNormal_negateAll items
  | .or items => areNormal_negateAll items
  | .not p => isNormal_pushNot p
  | .compare _ _ _ => rfl
  | .isNull _ _ => rfl
  | .inList _ _ _ => rfl
  | .like _ _ _ => rfl
  | .contains _ _ => rfl
  | .const _ => rfl

theorem areNormal_pushNotAll : forall items : List Predicate, areNormal (pushNotAll items) = true
  | [] => rfl
  | p :: rest => by
      rw [pushNotAll, areNormal, isNormal_pushNot p, areNormal_pushNotAll rest]
      rfl

theorem areNormal_negateAll : forall items : List Predicate, areNormal (negateAll items) = true
  | [] => rfl
  | p :: rest => by
      rw [negateAll, areNormal, isNormal_negation p, areNormal_negateAll rest]
      rfl

end

/-!
# Classes of conditions

A class that looks through the connectives, and does not tell a test from its opposite, is kept when
a condition is brought into form and taken apart.
-/

/-- A condition is in the class as its members are, and a test as its opposite is. -/
structure Closed (C : Predicate -> Prop) : Prop where
  and {items : List Predicate} : C (.and items) <-> forall p, p ∈ items -> C p
  or {items : List Predicate} : C (.or items) <-> forall p, p ∈ items -> C p
  not {p : Predicate} : C (.not p) <-> C p
  compare {left right : Scalar} {op : Comparison} (h : C (.compare left op right)) :
    C (.compare left op.negated right)
  isNull {e : Scalar} {negated : Bool} (h : C (.isNull e negated)) : C (.isNull e !negated)
  inList {e : Scalar} {items : List Scalar} {negated : Bool} (h : C (.inList e items negated)) :
    C (.inList e items !negated)
  like {e pattern : Scalar} {negated : Bool} (h : C (.like e pattern negated)) :
    C (.like e pattern !negated)
  const {t : Truth} (h : C (.const t)) : C (.const t.not)

namespace Closed

variable {C : Predicate -> Prop}

mutual

theorem pushNot (hC : Closed C) : forall p : Predicate, C p -> C p.pushNot
  | .and items, h => hC.and.mpr (pushNotAll hC items (hC.and.mp h))
  | .or items, h => hC.or.mpr (pushNotAll hC items (hC.or.mp h))
  | .not p, h => negation hC p (hC.not.mp h)
  | .compare _ _ _, h => h
  | .isNull _ _, h => h
  | .inList _ _ _, h => h
  | .like _ _ _, h => h
  | .contains _ _, h => h
  | .const _, h => h

theorem negation (hC : Closed C) : forall p : Predicate, C p -> C p.negation
  | .and items, h => hC.or.mpr (negateAll hC items (hC.and.mp h))
  | .or items, h => hC.and.mpr (negateAll hC items (hC.or.mp h))
  | .not p, h => pushNot hC p (hC.not.mp h)
  | .compare _ _ _, h => hC.compare h
  | .isNull _ _, h => hC.isNull h
  | .inList _ _ _, h => hC.inList h
  | .like _ _ _, h => hC.like h
  | .contains _ _, h => hC.not.mpr h
  | .const _, h => hC.const h

theorem pushNotAll (hC : Closed C) : forall items : List Predicate, (forall p, p ∈ items -> C p) ->
    forall p, p ∈ Predicate.pushNotAll items -> C p
  | [], h => h
  | p :: rest, h => List.forall_mem_cons.mpr
      ⟨pushNot hC p (h p List.mem_cons_self),
        pushNotAll hC rest fun q hq => h q (List.mem_cons_of_mem p hq)⟩

theorem negateAll (hC : Closed C) : forall items : List Predicate, (forall p, p ∈ items -> C p) ->
    forall p, p ∈ Predicate.negateAll items -> C p
  | [], h => h
  | p :: rest, h => List.forall_mem_cons.mpr
      ⟨negation hC p (h p List.mem_cons_self),
        negateAll hC rest fun q hq => h q (List.mem_cons_of_mem p hq)⟩

end

mutual

theorem conjuncts (hC : Closed C) : forall p : Predicate, C p -> forall q, q ∈ p.conjuncts -> C q
  | .and items, h => conjunctsOfAll hC items (hC.and.mp h)
  | .or _, h => List.forall_mem_singleton.mpr h
  | .not _, h => List.forall_mem_singleton.mpr h
  | .compare _ _ _, h => List.forall_mem_singleton.mpr h
  | .isNull _ _, h => List.forall_mem_singleton.mpr h
  | .inList _ _ _, h => List.forall_mem_singleton.mpr h
  | .like _ _ _, h => List.forall_mem_singleton.mpr h
  | .contains _ _, h => List.forall_mem_singleton.mpr h
  | .const _, h => List.forall_mem_singleton.mpr h

theorem conjunctsOfAll (hC : Closed C) : forall items : List Predicate,
    (forall p, p ∈ items -> C p) -> forall q, q ∈ Predicate.conjunctsOfAll items -> C q
  | [], h => h
  | p :: rest, h => List.forall_mem_append.mpr
      ⟨conjuncts hC p (h p List.mem_cons_self),
        conjunctsOfAll hC rest fun q hq => h q (List.mem_cons_of_mem p hq)⟩

end

/-- The parts of a condition of the class, once its negations are pushed inwards. -/
theorem normal (hC : Closed C) {p : Predicate} (h : C p) :
    forall q, q ∈ p.pushNot.conjuncts -> C q :=
  hC.conjuncts _ (hC.pushNot _ h)

end Closed

end Sql.Predicate

namespace Eval

variable {clock : Clock} {read : String -> Value}

theorem compareTruth_negated (caseSensitive : Bool) (a : Value) (op : Comparison) (b : Value) :
    compareTruth caseSensitive a op.negated b = (compareTruth caseSensitive a op b).not := by
  rw [compareTruth, compareTruth]
  cases a.compare caseSensitive b with
  | none =>
      rfl
  | some order =>
      change Truth.ofBool (op.negated.accepts order) = (Truth.ofBool (op.accepts order)).not
      rw [Truth.not_ofBool, Comparison.accepts_negated]

theorem map_not_not (outcome : Except EvalError Truth) :
    (outcome.map Truth.not).map Truth.not = outcome := by
  cases outcome with
  | error e =>
      rfl
  | ok t =>
      exact congrArg Except.ok (Truth.not_not t)

theorem not_eq_isTrue (t : Truth) : (t.not == .isTrue) = (t == .isFalse) := by
  cases t <;> rfl

theorem not_eq_isFalse (t : Truth) : (t.not == .isFalse) = (t == .isTrue) := by
  cases t <;> rfl

mutual

theorem predicate_pushNot :
    forall p : Predicate, predicate clock read p.pushNot = predicate clock read p
  | .and items => by
      rw [Predicate.pushNot, predicate, predicate, allOf_pushNotAll items]
  | .or items => by
      rw [Predicate.pushNot, predicate, predicate, anyOf_pushNotAll items]
  | .not p => by
      rw [Predicate.pushNot, predicate_negation p, predicate]
      cases predicate clock read p <;> rfl
  | .compare _ _ _ => by
      rw [Predicate.pushNot]
      all_goals exact fun _ h => by cases h
  | .isNull _ _ => by
      rw [Predicate.pushNot]
      all_goals exact fun _ h => by cases h
  | .inList _ _ _ => by
      rw [Predicate.pushNot]
      all_goals exact fun _ h => by cases h
  | .like _ _ _ => by
      rw [Predicate.pushNot]
      all_goals exact fun _ h => by cases h
  | .contains _ _ => by
      rw [Predicate.pushNot]
      all_goals exact fun _ h => by cases h
  | .const _ => by
      rw [Predicate.pushNot]
      all_goals exact fun _ h => by cases h

theorem predicate_negation :
    forall p : Predicate, predicate clock read p.negation = (predicate clock read p).map Truth.not
  | .and items => by
      rw [Predicate.negation, predicate, predicate]
      exact anyOf_negateAll items .isTrue
  | .or items => by
      rw [Predicate.negation, predicate, predicate]
      exact allOf_negateAll items .isFalse
  | .not p => by
      rw [Predicate.negation, predicate_pushNot p, predicate]
      exact (map_not_not _).symm
  | .compare l op r => by
      rw [Predicate.negation, predicate, predicate, Outcome.map_bind]
      simp only [Outcome.map_bind, compareTruth_negated]
      rfl
  | .isNull e negatedTest => by
      rw [Predicate.negation, predicate, predicate, Outcome.map_bind]
      simp only [Truth.negateIf_not]
      rfl
  | .inList e items negatedTest => by
      rw [Predicate.negation, predicate, predicate, Outcome.map_bind]
      simp only [Outcome.map_bind, Truth.negateIf_not]
      rfl
  | .like e pattern negatedTest => by
      rw [Predicate.negation, predicate, predicate, Outcome.map_bind]
      simp only [Outcome.map_bind, Truth.negateIf_not]
      rfl
  | .contains c wanted => by
      rw [Predicate.negation, predicate]
      rfl
  | .const t => by
      rw [Predicate.negation, predicate, predicate]
      rfl

theorem allOf_pushNotAll : forall (items : List Predicate) (sofar : Truth),
    allOf clock read sofar (Predicate.pushNotAll items) = allOf clock read sofar items
  | [] => by
      intro sofar
      rw [Predicate.pushNotAll]
  | p :: rest => by
      intro sofar
      rw [Predicate.pushNotAll, allOf, allOf, predicate_pushNot p]
      simp only [allOf_pushNotAll rest]

theorem anyOf_pushNotAll : forall (items : List Predicate) (sofar : Truth),
    anyOf clock read sofar (Predicate.pushNotAll items) = anyOf clock read sofar items
  | [] => by
      intro sofar
      rw [Predicate.pushNotAll]
  | p :: rest => by
      intro sofar
      rw [Predicate.pushNotAll, anyOf, anyOf, predicate_pushNot p]
      simp only [anyOf_pushNotAll rest]

theorem anyOf_negateAll : forall (items : List Predicate) (sofar : Truth),
    anyOf clock read sofar.not (Predicate.negateAll items) =
      (allOf clock read sofar items).map Truth.not
  | [] => by
      intro sofar
      rw [Predicate.negateAll, anyOf, allOf]
      rfl
  | p :: rest => by
      intro sofar
      rw [Predicate.negateAll, anyOf, allOf, predicate_negation p, Outcome.map_bind]
      cases predicate clock read p with
      | error e =>
          rfl
      | ok t =>
          change (if sofar.not.or t.not == .isTrue then Except.ok (sofar.not.or t.not)
            else anyOf clock read (sofar.not.or t.not) (Predicate.negateAll rest)) =
              (if sofar.and t == .isFalse then Except.ok (sofar.and t)
                else allOf clock read (sofar.and t) rest).map Truth.not
          rw [<- Truth.not_and, not_eq_isTrue, anyOf_negateAll rest]
          split <;> rfl

theorem allOf_negateAll : forall (items : List Predicate) (sofar : Truth),
    allOf clock read sofar.not (Predicate.negateAll items) =
      (anyOf clock read sofar items).map Truth.not
  | [] => by
      intro sofar
      rw [Predicate.negateAll, allOf, anyOf]
      rfl
  | p :: rest => by
      intro sofar
      rw [Predicate.negateAll, allOf, anyOf, predicate_negation p, Outcome.map_bind]
      cases predicate clock read p with
      | error e =>
          rfl
      | ok t =>
          change (if sofar.not.and t.not == .isFalse then Except.ok (sofar.not.and t.not)
            else allOf clock read (sofar.not.and t.not) (Predicate.negateAll rest)) =
              (if sofar.or t == .isTrue then Except.ok (sofar.or t)
                else anyOf clock read (sofar.or t) rest).map Truth.not
          rw [<- Truth.not_or, not_eq_isFalse, allOf_negateAll rest]
          split <;> rfl

end

/-- A condition and its negation keep their meaning when negations are pushed to the leaves. -/
theorem normal_forms_keep_truth (clock : Clock) (read : String -> Value) (p : Predicate) :
    (predicate clock read p.pushNot = predicate clock read p ∧ p.pushNot.isNormal = true) ∧
      (predicate clock read p.negation = (predicate clock read p).map Truth.not ∧
        p.negation.isNormal = true) := by
  constructor
  · exact ⟨predicate_pushNot p, p.isNormal_pushNot⟩
  · exact ⟨predicate_negation p, p.isNormal_negation⟩

/-!
# Conjuncts

A conjunction inside a conjunction is decided as if its members stood in its place.
-/

/-- What earlier members settled can be added at the end. -/
theorem allOf_eq_bind {sofar : Truth} (hsofar : sofar ≠ .isFalse) (items : List Predicate) :
    allOf clock read sofar items =
      allOf clock read .isTrue items >>= fun t => .ok (sofar.and t) := by
  induction items generalizing sofar with
  | nil =>
      rw [allOf, allOf]
      cases sofar <;> rfl
  | cons p rest ih =>
      rw [allOf, allOf]
      cases predicate clock read p with
      | error e =>
          rfl
      | ok t =>
          simp only [Outcome.ok_bind]
          cases t with
          | isFalse =>
              cases sofar <;> rfl
          | isTrue =>
              have hnow : sofar.and .isTrue = sofar := by
                cases sofar <;> rfl
              rw [hnow, if_neg (by simpa using hsofar), ih hsofar]
              rfl
          | unknown =>
              have hnow : sofar.and .unknown = .unknown := by
                cases sofar with
                | isFalse =>
                    exact absurd rfl hsofar
                | isTrue =>
                    rfl
                | unknown =>
                    rfl
              have hrest := @ih .unknown (by decide)
              rw [hnow]
              change allOf clock read .unknown rest = allOf clock read .unknown rest >>= _
              rw [hrest]
              cases allOf clock read .isTrue rest with
              | error e =>
                  rfl
              | ok u =>
                  simp only [Outcome.ok_bind]
                  rw [<- Truth.and_assoc, hnow]

theorem allOf_append {sofar : Truth} (hsofar : sofar ≠ .isFalse) (front back : List Predicate) :
    allOf clock read sofar (front ++ back) = (do
      let t <- allOf clock read sofar front
      if t == .isFalse then .ok t else allOf clock read t back) := by
  induction front generalizing sofar with
  | nil =>
      rw [allOf, Outcome.ok_bind, if_neg (by simpa using hsofar), List.nil_append]
  | cons p rest ih =>
      rw [List.cons_append, allOf, allOf]
      cases predicate clock read p with
      | error e =>
          rfl
      | ok t =>
          simp only [Outcome.ok_bind]
          by_cases hnow : (sofar.and t == .isFalse) = true
          · rw [if_pos hnow, if_pos hnow, Outcome.ok_bind, if_pos hnow]
          · rw [if_neg hnow, if_neg hnow, ih (by simpa using hnow)]

theorem allOf_singleton (p : Predicate) :
    allOf clock read .isTrue [p] = predicate clock read p := by
  rw [allOf]
  cases predicate clock read p with
  | error e =>
      rfl
  | ok t =>
      cases t <;> rfl

mutual

theorem allOf_conjuncts :
    forall p : Predicate, allOf clock read .isTrue p.conjuncts = predicate clock read p
  | .and items => by
      rw [Predicate.conjuncts, allOf_conjunctsOfAll items, predicate]
  | .or _ => allOf_singleton _
  | .not _ => allOf_singleton _
  | .compare _ _ _ => allOf_singleton _
  | .isNull _ _ => allOf_singleton _
  | .inList _ _ _ => allOf_singleton _
  | .like _ _ _ => allOf_singleton _
  | .contains _ _ => allOf_singleton _
  | .const _ => allOf_singleton _

theorem allOf_conjunctsOfAll : forall items : List Predicate,
    allOf clock read .isTrue (Predicate.conjunctsOfAll items) = allOf clock read .isTrue items
  | [] => by
      rw [Predicate.conjunctsOfAll]
  | p :: items => by
      rw [Predicate.conjunctsOfAll, allOf_append (by decide), allOf_conjuncts p, allOf]
      cases predicate clock read p with
      | error e =>
          rfl
      | ok t =>
          cases t with
          | isFalse =>
              rfl
          | isTrue =>
              exact allOf_conjunctsOfAll items
          | unknown =>
              change allOf clock read .unknown _ = allOf clock read .unknown _
              rw [allOf_eq_bind (by decide), allOf_conjunctsOfAll items,
                <- allOf_eq_bind (by decide)]

end

end Eval

/-!
# Qualified conditions

It makes no difference whether columns are bound before or after a condition is brought into form.
-/

namespace Plan
namespace Context

variable {ctx : Context}

mutual

theorem qualifyPredicate_pushNot : forall p : Predicate,
    ctx.qualifyPredicate p.pushNot = (ctx.qualifyPredicate p).map Predicate.pushNot
  | .and items => by
      rw [Predicate.pushNot, qualifyPredicate, qualifyPredicate, qualifyPredicates_pushNotAll items]
      cases ctx.qualifyPredicates items <;> rfl
  | .or items => by
      rw [Predicate.pushNot, qualifyPredicate, qualifyPredicate, qualifyPredicates_pushNotAll items]
      cases ctx.qualifyPredicates items <;> rfl
  | .not p => by
      rw [Predicate.pushNot, qualifyPredicate_negation p, qualifyPredicate]
      cases ctx.qualifyPredicate p <;> rfl
  | .compare l op r => by
      change ctx.qualifyPredicate (.compare l op r) = _
      simp only [qualifyPredicate, Outcome.map_bind]
      rfl
  | .isNull e negated => by
      change ctx.qualifyPredicate (.isNull e negated) = _
      simp only [qualifyPredicate, Outcome.map_bind]
      rfl
  | .inList e items negated => by
      change ctx.qualifyPredicate (.inList e items negated) = _
      simp only [qualifyPredicate, Outcome.map_bind]
      rfl
  | .like e pattern negated => by
      change ctx.qualifyPredicate (.like e pattern negated) = _
      simp only [qualifyPredicate, Outcome.map_bind]
      rfl
  | .contains c wanted => by
      change ctx.qualifyPredicate (.contains c wanted) = _
      rw [qualifyPredicate]
      cases ctx.resolve c with
      | error e =>
          rfl
      | ok found =>
          cases found with
          | none =>
              rfl
          | some b =>
              simp only [Outcome.ok_bind, Outcome.map_bind]
              rfl
  | .const _ => by
      rw [qualifyPredicate]
      rfl

theorem qualifyPredicate_negation : forall p : Predicate,
    ctx.qualifyPredicate p.negation = (ctx.qualifyPredicate p).map Predicate.negation
  | .and items => by
      rw [Predicate.negation, qualifyPredicate, qualifyPredicate, qualifyPredicates_negateAll items]
      cases ctx.qualifyPredicates items <;> rfl
  | .or items => by
      rw [Predicate.negation, qualifyPredicate, qualifyPredicate, qualifyPredicates_negateAll items]
      cases ctx.qualifyPredicates items <;> rfl
  | .not p => by
      rw [Predicate.negation, qualifyPredicate_pushNot p, qualifyPredicate]
      cases ctx.qualifyPredicate p <;> rfl
  | .compare _ _ _ => by
      simp only [Predicate.negation, qualifyPredicate, Outcome.map_bind]
      rfl
  | .isNull _ _ => by
      simp only [Predicate.negation, qualifyPredicate, Outcome.map_bind]
      rfl
  | .inList _ _ _ => by
      simp only [Predicate.negation, qualifyPredicate, Outcome.map_bind]
      rfl
  | .like _ _ _ => by
      simp only [Predicate.negation, qualifyPredicate, Outcome.map_bind]
      rfl
  | .contains c wanted => by
      rw [Predicate.negation, qualifyPredicate, qualifyPredicate]
      cases ctx.resolve c with
      | error e =>
          rfl
      | ok found =>
          cases found with
          | none =>
              rfl
          | some b =>
              simp only [Outcome.ok_bind, Outcome.map_bind]
              cases ctx.qualify wanted <;> rfl
  | .const _ => by
      rw [Predicate.negation, qualifyPredicate, qualifyPredicate]
      rfl

theorem qualifyPredicates_pushNotAll : forall items : List Predicate,
    ctx.qualifyPredicates (Predicate.pushNotAll items) =
      (ctx.qualifyPredicates items).map Predicate.pushNotAll
  | [] => by
      rw [Predicate.pushNotAll, qualifyPredicates]
      rfl
  | p :: rest => by
      rw [Predicate.pushNotAll, qualifyPredicates, qualifyPredicates, qualifyPredicate_pushNot p,
        qualifyPredicates_pushNotAll rest]
      cases ctx.qualifyPredicate p with
      | error e =>
          rfl
      | ok q =>
          cases ctx.qualifyPredicates rest <;> rfl

theorem qualifyPredicates_negateAll : forall items : List Predicate,
    ctx.qualifyPredicates (Predicate.negateAll items) =
      (ctx.qualifyPredicates items).map Predicate.negateAll
  | [] => by
      rw [Predicate.negateAll, qualifyPredicates]
      rfl
  | p :: rest => by
      rw [Predicate.negateAll, qualifyPredicates, qualifyPredicates, qualifyPredicate_negation p,
        qualifyPredicates_negateAll rest]
      cases ctx.qualifyPredicate p with
      | error e =>
          rfl
      | ok q =>
          cases ctx.qualifyPredicates rest <;> rfl

end

theorem qualifyPredicates_append (front back : List Predicate) :
    ctx.qualifyPredicates (front ++ back) = (do
      let front' <- ctx.qualifyPredicates front
      let back' <- ctx.qualifyPredicates back
      return front' ++ back') := by
  induction front with
  | nil =>
      rw [List.nil_append, qualifyPredicates]
      cases ctx.qualifyPredicates back <;> rfl
  | cons p rest ih =>
      rw [List.cons_append, qualifyPredicates, qualifyPredicates, ih]
      cases ctx.qualifyPredicate p with
      | error e =>
          rfl
      | ok q =>
          cases ctx.qualifyPredicates rest with
          | error e =>
              rfl
          | ok qs =>
              cases ctx.qualifyPredicates back <;> rfl

theorem qualifyPredicates_singleton {p : Predicate}
    (h : forall q, ctx.qualifyPredicate p = .ok q -> q.conjuncts = [q]) :
    ctx.qualifyPredicates [p] = (ctx.qualifyPredicate p).map Predicate.conjuncts := by
  rw [qualifyPredicates, qualifyPredicates]
  cases hq : ctx.qualifyPredicate p with
  | error e =>
      rfl
  | ok q =>
      exact congrArg Except.ok (h q hq).symm

mutual

theorem qualifyPredicates_conjuncts : forall p : Predicate,
    ctx.qualifyPredicates p.conjuncts = (ctx.qualifyPredicate p).map Predicate.conjuncts
  | .and items => by
      rw [Predicate.conjuncts, qualifyPredicates_conjunctsOfAll items, qualifyPredicate]
      cases ctx.qualifyPredicates items <;> rfl
  | .or items => by
      refine qualifyPredicates_singleton fun q hq => ?_
      cases qualifyPredicate_eq_ok.mp hq
      rfl
  | .not p => by
      refine qualifyPredicates_singleton fun q hq => ?_
      cases qualifyPredicate_eq_ok.mp hq
      rfl
  | .compare l op r => by
      refine qualifyPredicates_singleton fun q hq => ?_
      cases qualifyPredicate_eq_ok.mp hq
      rfl
  | .isNull e negated => by
      refine qualifyPredicates_singleton fun q hq => ?_
      cases qualifyPredicate_eq_ok.mp hq
      rfl
  | .inList e items negated => by
      refine qualifyPredicates_singleton fun q hq => ?_
      cases qualifyPredicate_eq_ok.mp hq
      rfl
  | .like e pattern negated => by
      refine qualifyPredicates_singleton fun q hq => ?_
      cases qualifyPredicate_eq_ok.mp hq
      rfl
  | .contains c wanted => by
      refine qualifyPredicates_singleton fun q hq => ?_
      cases qualifyPredicate_eq_ok.mp hq
      rfl
  | .const _ => by
      refine qualifyPredicates_singleton fun q hq => ?_
      cases qualifyPredicate_eq_ok.mp hq
      rfl

theorem qualifyPredicates_conjunctsOfAll : forall items : List Predicate,
    ctx.qualifyPredicates (Predicate.conjunctsOfAll items) =
      (ctx.qualifyPredicates items).map Predicate.conjunctsOfAll
  | [] => by
      rw [Predicate.conjunctsOfAll, qualifyPredicates]
      rfl
  | p :: rest => by
      rw [Predicate.conjunctsOfAll, qualifyPredicates_append, qualifyPredicates_conjuncts p,
        qualifyPredicates_conjunctsOfAll rest, qualifyPredicates]
      cases ctx.qualifyPredicate p with
      | error e =>
          rfl
      | ok q =>
          cases ctx.qualifyPredicates rest <;> rfl

end

end Context
end Plan

end RecordSql
