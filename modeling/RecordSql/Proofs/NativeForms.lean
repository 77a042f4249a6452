import Mathlib.Data.List.Forall2
import RecordSql.Plan.Filter
import RecordSql.Proofs.Outcome

/-!
# Rules for native forms

The native form of a condition is found by recursion on it.  Here it is said once which forms there
are, by a rule for every kind of condition that has any; a property of native forms is then proved
rule by rule.
-/

namespace RecordSql
namespace Plan

open Sql (Column Comparison Literal Predicate Scalar)

/-- Conditions of which all have native forms, and these forms as items of one scope. -/
structure NativeMembers (ctx : Context) (items : List Predicate) (scope : Nat)
    (found : List FilterItem) : Prop where
  nonempty : items ≠ []
  each : List.Forall₂ (fun p item => ctx.native p = .ok (some ⟨scope, item⟩)) items found

namespace NativeMembers

variable {ctx : Context} {items : List Predicate} {scope : Nat} {found : List FilterItem}

theorem found_ne_nil (h : NativeMembers ctx items scope found) : found ≠ [] := by
  cases h.each with
  | nil =>
      exact absurd rfl h.nonempty
  | cons _ _ =>
      exact List.cons_ne_nil _ _

theorem native_of_mem (h : NativeMembers ctx items scope found) {p : Predicate} (hp : p ∈ items) :
    exists item, ctx.native p = .ok (some ⟨scope, item⟩) := by
  rcases Outcome.exists_of_forall₂ (List.Forall₂.flip h.each) hp with ⟨item, _, hitem⟩
  exact ⟨item, hitem⟩

theorem exists_native (h : NativeMembers ctx items scope found) :
    exists p item, p ∈ items ∧ ctx.native p = .ok (some ⟨scope, item⟩) := by
  rcases List.exists_mem_of_ne_nil _ h.nonempty with ⟨p, hp⟩
  rcases h.native_of_mem hp with ⟨item, hitem⟩
  exact ⟨p, item, hp, hitem⟩

theorem exists_of_mem (h : NativeMembers ctx items scope found) {item : FilterItem}
    (hitem : item ∈ found) : exists p, p ∈ items ∧ ctx.native p = .ok (some ⟨scope, item⟩) :=
  Outcome.exists_of_forall₂ h.each hitem

end NativeMembers

/--
The native form of a condition, one rule for each way to come by it.  The operands of comparisons
are the columns, texts and literals that they stand for.
-/
inductive NativeForm (ctx : Context) : Predicate -> Native -> Prop where
  | and {items : List Predicate} {scope : Nat} {found : List FilterItem}
      (h : NativeMembers ctx items scope found) :
      NativeForm ctx (.and items) ⟨scope, .inr ⟨.all, found⟩⟩
  | or {items : List Predicate} {scope : Nat} {found : List FilterItem}
      (h : NativeMembers ctx items scope found) :
      NativeForm ctx (.or items) ⟨scope, .inr ⟨.any, found⟩⟩
  | columnLiteral {left right : Scalar} {op : Comparison} {b : Bound} {l : Literal} {text : String}
      (hleft : ctx.operand left = .ok (.column b)) (hright : ctx.operand right = .ok (.literal l))
      (htext : l.platformText = some text) (hcompatible : ctx.compatible b l = true) :
      NativeForm ctx (.compare left op right)
        ⟨b.scope, .inl (.single b.name (.compare op) (some text))⟩
  | literalColumn {left right : Scalar} {op : Comparison} {b : Bound} {l : Literal} {text : String}
      (hleft : ctx.operand left = .ok (.literal l)) (hright : ctx.operand right = .ok (.column b))
      (htext : l.platformText = some text) (hcompatible : ctx.compatible b l = true) :
      NativeForm ctx (.compare left op right)
        ⟨b.scope, .inl (.single b.name (.compare op.swapped) (some text))⟩
  | columns {left right : Scalar} {op : Comparison} {a b : Bound}
      (hleft : ctx.operand left = .ok (.column a)) (hright : ctx.operand right = .ok (.column b))
      (hscope : a.scope = b.scope) :
      NativeForm ctx (.compare left op right)
        ⟨a.scope, .inl (.between a.name (.compare op) b.name)⟩
  | function {left : Scalar} {b : Bound} {name : String} {distinct : Bool} {args : List Scalar}
      {found : Native} (hleft : ctx.operand left = .ok (.column b))
      (h : ctx.functionCondition b name args = .ok (some found)) :
      NativeForm ctx (.compare left .eq (.call name distinct args)) found
  | isNull {e : Scalar} {negated : Bool} {b : Bound} (he : ctx.operand e = .ok (.column b)) :
      NativeForm ctx (.isNull e negated) ⟨b.scope, .inl (.single b.name (.isNull negated) none)⟩
  | inList {e : Scalar} {items : List Scalar} {negated : Bool} {b : Bound} {texts : List String}
      (he : ctx.operand e = .ok (.column b))
      (htexts : ctx.literalTexts (ctx.compatible b) items = .ok (some texts)) :
      NativeForm ctx (.inList e items negated)
        ⟨b.scope, .inl (.multiple b.name (.oneOf negated) texts)⟩
  | like {e pattern : Scalar} {negated : Bool} {b : Bound} {text : String}
      (he : ctx.operand e = .ok (.column b))
      (hpattern : ctx.operand pattern = .ok (.literal (.str text))) :
      NativeForm ctx (.like e pattern negated)
        ⟨b.scope, .inl (.single b.name (.like negated) (some text))⟩
  | contains {c : Column} {wanted : Scalar} {b : Bound} {text : String}
      (hc : ctx.resolve c = .ok (some b))
      (hwanted : ctx.operand wanted = .ok (.literal (.str text))) :
      NativeForm ctx (.contains c wanted)
        ⟨b.scope, .inl (.multiple b.name (.containValues false) (Text.members text))⟩
  | notContains {c : Column} {wanted : Scalar} {b : Bound} {text : String}
      (hc : ctx.resolve c = .ok (some b))
      (hwanted : ctx.operand wanted = .ok (.literal (.str text))) :
      NativeForm ctx (.not (.contains c wanted))
        ⟨b.scope, .inl (.multiple b.name (.containValues true) (Text.members text))⟩

namespace Context

variable {ctx : Context} {found : Native}

/-!
# Conditions on a column
-/

theorem condition_eq {b : Bound} {c : Fetch.Condition} (h : ctx.condition b c = some found) :
    found = ⟨b.scope, .inl c⟩ := by
  unfold condition at h
  split at h
  · cases h
    rfl
  · cases h

theorem literalCondition_eq {b : Bound} {op : Comparison} {l : Literal}
    (h : ctx.literalCondition b op l = some found) :
    exists text, l.platformText = some text ∧ ctx.compatible b l = true ∧
      found = ⟨b.scope, .inl (.single b.name (.compare op) (some text))⟩ := by
  rw [literalCondition, Option.bind_eq_bind, Option.bind_eq_some_iff] at h
  rcases h with ⟨text, htext, h⟩
  split at h
  · rename_i hcompatible
    exact ⟨text, htext, hcompatible, condition_eq h⟩
  · cases h

theorem compareCondition_form {left right : Scalar} {op : Comparison}
    (h : ctx.compareCondition left op right = .ok (some found)) :
    NativeForm ctx (.compare left op right) found := by
  simp only [compareCondition, Outcome.bind_eq_ok] at h
  rcases h with ⟨l, hleft, r, hright, h⟩
  split at h
  · rcases literalCondition_eq (Except.ok.inj h) with ⟨text, htext, hcompatible, rfl⟩
    exact .columnLiteral hleft hright htext hcompatible
  · rcases literalCondition_eq (Except.ok.inj h) with ⟨text, htext, hcompatible, rfl⟩
    exact .literalColumn hleft hright htext hcompatible
  · split at h
    · rename_i hallowed
      cases condition_eq (Except.ok.inj h)
      exact .columns hleft hright (eq_of_beq (Bool.and_eq_true_iff.mp hallowed).2)
    · cases h
  · split at h
    · exact .function hleft h
    · cases h
  · cases h

theorem searchCondition_eq {c : Column} {wanted : Scalar} {negated : Bool}
    (h : ctx.searchCondition c wanted negated = .ok (some found)) :
    exists b text, ctx.resolve c = .ok (some b) ∧
      ctx.operand wanted = .ok (.literal (.str text)) ∧
      found = ⟨b.scope, .inl (.multiple b.name (.containValues negated) (Text.members text))⟩ := by
  simp only [searchCondition, Outcome.bind_eq_ok] at h
  rcases h with ⟨column, hcolumn, h⟩
  cases column with
  | none =>
      cases h
  | some b =>
      simp only [Outcome.bind_eq_ok] at h
      rcases h with ⟨o, ho, h⟩
      split at h
      · exact ⟨b, _, hcolumn, ho, condition_eq (Except.ok.inj h)⟩
      · cases h

theorem literalTexts_forall₂ {accept : Literal -> Bool} {items : List Scalar}
    {texts : List String} (h : ctx.literalTexts accept items = .ok (some texts)) :
    List.Forall₂ (fun e text => exists l, ctx.operand e = .ok (.literal l) ∧ accept l = true ∧
      l.platformText = some text) items texts := by
  induction items generalizing texts with
  | nil =>
      cases h
      exact .nil
  | cons e rest ih =>
      simp only [literalTexts, Outcome.bind_eq_ok] at h
      rcases h with ⟨o, ho, h⟩
      split at h
      · rename_i l
        split at h
        · rename_i text htext
          rcases Outcome.bind_eq_ok.mp h with ⟨more, hmore, h⟩
          cases more with
          | none =>
              cases h
          | some more =>
              cases h
              have haccept : accept l = true := by
                by_contra hrefused
                rw [if_neg hrefused] at htext
                cases htext
              rw [if_pos haccept] at htext
              exact .cons ⟨l, ho, haccept, htext⟩ (ih hmore)
        · cases h
      · cases h

/-!
# Members
-/

/-- Members have native forms one by one, in the scope that the first of them is about. -/
theorem nativeItems_forall₂ {items : List Predicate} {given : Option Nat} {scope : Nat}
    {found : List FilterItem} (h : nativeItems ctx given items = .ok (some (scope, found))) :
    (items = [] -> given = some scope) ∧ given.all (· == scope) = true ∧
      List.Forall₂ (fun p item => ctx.native p = .ok (some ⟨scope, item⟩)) items found := by
  induction items generalizing given found with
  | nil =>
      rw [nativeItems] at h
      cases given with
      | none =>
          cases h
      | some s =>
          cases h
          exact ⟨fun _ => rfl, beq_self_eq_true _, .nil⟩
  | cons p rest ih =>
      simp only [nativeItems, Outcome.bind_eq_ok] at h
      rcases h with ⟨first, hfirst, h⟩
      cases first with
      | none =>
          cases h
      | some n =>
          simp only at h
          split at h
          · rename_i hgiven
            rcases Outcome.bind_eq_ok.mp h with ⟨more, hmore, h⟩
            cases more with
            | none =>
                cases h
            | some more =>
                cases h
                rcases ih hmore with ⟨_, hscope, hrest⟩
                have hsame : n.scope = more.1 := eq_of_beq hscope
                rw [<- hsame] at hrest ⊢
                exact ⟨fun hnil => absurd hnil (List.cons_ne_nil _ _), hgiven, .cons hfirst hrest⟩
          · cases h

/-- The native form of a conjunction or disjunction, `build` makes it of the scope and the items. -/
theorem nativeMembers_of_map {items : List Predicate} {build : Nat × List FilterItem -> Native}
    (h : (do return (<- nativeItems ctx none items).map build) = Except.ok (some found)) :
    exists scope members, NativeMembers ctx items scope members ∧
      found = build (scope, members) := by
  rcases Outcome.bind_eq_ok.mp h with ⟨members, hmembers, h⟩
  cases members with
  | none =>
      cases h
  | some members =>
      cases h
      rcases nativeItems_forall₂ hmembers with ⟨hnil, _, heach⟩
      have hnonempty : items ≠ [] := by
        intro hitems
        cases hnil hitems
      exact ⟨members.1, members.2, ⟨hnonempty, heach⟩, rfl⟩

/-!
# Conditions
-/

theorem native_form {p : Predicate} (h : ctx.native p = .ok (some found)) :
    NativeForm ctx p found := by
  cases p with
  | and items =>
      rw [native] at h
      rcases nativeMembers_of_map h with ⟨scope, members, hmembers, rfl⟩
      exact .and hmembers
  | or items =>
      rw [native] at h
      rcases nativeMembers_of_map h with ⟨scope, members, hmembers, rfl⟩
      exact .or hmembers
  | compare left op right =>
      rw [native] at h
      exact compareCondition_form h
  | isNull e negated =>
      simp only [native, Outcome.bind_eq_ok] at h
      rcases h with ⟨o, ho, h⟩
      split at h
      · cases condition_eq (Except.ok.inj h)
        exact .isNull ho
      · cases h
  | inList e items negated =>
      simp only [native, Outcome.bind_eq_ok] at h
      rcases h with ⟨o, ho, h⟩
      split at h
      · rcases Outcome.bind_eq_ok.mp h with ⟨texts, htexts, h⟩
        split at h
        · cases condition_eq (Except.ok.inj h)
          exact .inList ho htexts
        · cases h
      · cases h
  | like e pattern negated =>
      simp only [native, Outcome.bind_eq_ok] at h
      rcases h with ⟨l, hl, r, hr, h⟩
      split at h
      · cases condition_eq (Except.ok.inj h)
        exact .like hl hr
      · cases h
  | contains c wanted =>
      rcases searchCondition_eq h with ⟨b, text, hb, htext, rfl⟩
      exact .contains hb htext
  | not p =>
      cases p with
      | contains c wanted =>
          rcases searchCondition_eq h with ⟨b, text, hb, htext, rfl⟩
          exact .notContains hb htext
      | _ =>
          cases h
  | const t =>
      cases h

/-!
# Splitting

Each conjunct becomes native or stays, qualified, with the local part of the condition.
-/

theorem splitAll_cons {p : Predicate} {rest : List Predicate} {split : Split}
    (hp : p ≠ .const .isTrue) (h : ctx.splitAll (p :: rest) = .ok split) :
    exists split', ctx.splitAll rest = .ok split' ∧
      ((exists n, ctx.native p = .ok (some n) ∧ ctx.scopes.isOuter n.scope = false ∧
          split = { split' with native := n :: split'.native }) ∨
        exists q, ctx.qualifyPredicate p = .ok q ∧
          split = ⟨split'.native, p :: split'.residual, q :: split'.qualified⟩) := by
  rw [splitAll, Outcome.bind_eq_ok] at h
  · rcases h with ⟨found, hfound, h⟩
    split at h
    · rename_i n hn
      rcases Option.filter_eq_some_iff.mp hn with ⟨rfl, hinner⟩
      rcases Outcome.bind_eq_ok.mp h with ⟨split', hsplit', h⟩
      cases h
      exact ⟨split', hsplit', Or.inl ⟨n, hfound, by simpa using hinner, rfl⟩⟩
    · simp only [Outcome.bind_eq_ok] at h
      rcases h with ⟨q, hq, split', hsplit', h⟩
      cases h
      exact ⟨split', hsplit', Or.inr ⟨q, hq, rfl⟩⟩
  · exact hp

/-- A condition is split into the conjuncts that it has in its normal form. -/
theorem applyWhere_some {clock : Clock} {p : Predicate} {ctx' : Context} {residual : Residual}
    (h : ctx.applyWhere clock (some p) = .ok (ctx', residual)) :
    exists split, ctx.splitAll (Eval.foldPredicate clock p).pushNot.conjuncts = .ok split ∧
      ctx' = ctx.attachAll split.native ∧
      residual = ⟨Predicate.andAll split.qualified,
        split.residual.foldl (fun used p => ctx.use used (readsOfPredicate p)) []⟩ := by
  simp only [applyWhere, Outcome.bind_eq_ok] at h
  rcases h with ⟨split, hsplit, h⟩
  cases h
  exact ⟨split, hsplit, rfl, rfl⟩

end Context

end Plan
end RecordSql
