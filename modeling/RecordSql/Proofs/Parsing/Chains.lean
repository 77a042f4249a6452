import RecordSql.Proofs.Parsing.Locality

/-!
# Chains of operators end with their statement

Operators never end a statement, and neither are they parentheses, so a chain of operators and
operands is as local as its operands are.
-/

namespace RecordSql
namespace Sql
namespace Parser

variable {α β : Type} {rest : List Mark} {here : Option Mark} {n m : Nat}

/-!
# Operators
-/

/-- A parser that takes a token for which it has a value, and says which. -/
def Spots (value : Mark -> Option α) (p : Parser (Option α)) : Prop :=
  forall c, p c = match c.marks.head? >>= value with
    | some a => .ok (some a) c.advance
    | none => .ok none c

namespace Spots

variable {value : Mark -> Option α} {p : Parser (Option α)}

theorem cases_ok (h : Spots value p) {c c' : Cursor} {found : Option α}
    (hfound : p c = .ok found c') :
    (exists k a, c.marks.head? = some k ∧ value k = some a ∧ found = some a ∧ c' = c.advance) ∨
      c.marks.head? >>= value = none ∧ found = none ∧ c' = c := by
  rw [h c] at hfound
  split at hfound
  · rename_i a ha
    cases hfound
    rcases Option.bind_eq_some_iff.mp ha with ⟨k, hk, hvalue⟩
    exact Or.inl ⟨k, a, hk, hvalue, rfl, rfl⟩
  · rename_i hnone
    cases hfound
    exact Or.inr ⟨hnone, rfl, rfl⟩

theorem takes (h : Spots value p) (hbalanced : forall k a, value k = some a -> Balanced [k]) :
    Takes here Balanced p := by
  intro c _ found c' hfound
  rcases h.cases_ok hfound with ⟨k, a, hk, hvalue, _, rfl⟩ | ⟨_, _, rfl⟩
  · rcases moves_advance hk with ⟨t, ht, hmark⟩
    refine ⟨[t], ht, ?_⟩
    rw [List.map_singleton, hmark]
    exact hbalanced k a hvalue
  · exact ⟨[], Moves.refl _, Balanced.nil⟩

theorem stops (h : Spots value p) {c : Cursor} (hc : c.marks.head? >>= value = none) :
    p c = .ok none c := by
  rw [h c, hc]

theorem length_lt (h : Spots value p) {c c' : Cursor} {a : α} (ha : p c = .ok (some a) c') :
    c'.ahead.length < c.ahead.length := by
  rcases h.cases_ok ha with ⟨k, _, hk, _, _, rfl⟩ | ⟨_, hnone, _⟩
  · rcases moves_advance hk with ⟨t, ht, _⟩
    rw [ht.ahead, List.length_append, List.length_singleton]
    omega
  · cases hnone

theorem toLocal (h : Spots value p) (hends : Ends rest)
    (hbalanced : forall k a, value k = some a -> Balanced [k])
    (hend : forall k, k.endsStatement = true -> value k = none) :
    Local rest here n m Balanced p p := by
  refine ⟨h.takes hbalanced, h.takes hbalanced, fun c d hcontinues _ _ _ => ?_⟩
  have hp := h c
  have hq := h d
  rcases hcontinues.head?_cases with ⟨k, hd, hc⟩ | ⟨hd, hc⟩
  · rw [hc] at hp
    rw [hd] at hq
    cases hk : value k with
    | some a =>
        simp only [Option.bind_eq_bind, Option.bind_some, hk] at hp hq
        have hnext := continues_advance hcontinues hd
        refine ⟨fun found c' hfound _ => ?_, fun found d' hfound => ?_⟩
        · rw [hp] at hfound
          cases hfound
          exact ⟨d.advance, hq, hnext⟩
        · rw [hq] at hfound
          cases hfound
          exact ⟨c.advance, hp, hnext⟩
    | none =>
        simp only [Option.bind_eq_bind, Option.bind_some, hk] at hp hq
        exact (Meets.pure hcontinues none).congr hp hq
  · refine (Meets.pure hcontinues none).congr (h.stops ?_) (h.stops ?_)
    · rw [hc]
      cases hrest : rest.head? with
      | none =>
          rfl
      | some k =>
          exact hend k (hends k hrest)
    · rw [hd]
      rfl

end Spots

/-- The value of a symbol. -/
def symbolValue (known : String -> Option α) (k : Mark) : Option α :=
  if k.1 == .symbol then known k.2 else none

theorem spots_operator (known : String -> Option Arithmetic) :
    Spots (symbolValue known) (operator known) := by
  intro c
  rw [Cursor.head?_marks]
  rw [operator, get_bind]
  cases c.current with
  | none =>
      rfl
  | some t =>
      have hvalue : symbolValue known t.mark = if t.kind == .symbol then known t.text else none :=
        rfl
      simp only [Option.map_some, Option.bind_eq_bind, Option.bind_some, hvalue]
      split
      · cases known t.text <;> rfl
      · rfl

theorem spots_comparisonSign : Spots (symbolValue Comparison.ofSign?) comparisonSign := by
  intro c
  rw [Cursor.head?_marks]
  rw [comparisonSign, get_bind]
  cases c.current with
  | none =>
      rfl
  | some t =>
      have hvalue : symbolValue Comparison.ofSign? t.mark =
          if t.kind == .symbol then Comparison.ofSign? t.text else none :=
        rfl
      simp only [Option.map_some, Option.bind_eq_bind, Option.bind_some, hvalue]
      split
      · cases Comparison.ofSign? t.text <;> rfl
      · rfl

/-- None of the symbols ends a statement or is a parenthesis. -/
structure IsOperator (known : String -> Option α) : Prop where
  semicolon : known ";" = none
  opening : known "(" = none
  closing : known ")" = none

namespace IsOperator

variable {known : String -> Option α}

theorem balanced (h : IsOperator known) {k : Mark} {a : α} (hk : symbolValue known k = some a) :
    Balanced [k] := by
  refine Balanced.single ?_ ?_
  · rintro rfl
    exact absurd (h.opening.symm.trans hk) (by simp)
  · rintro rfl
    exact absurd (h.closing.symm.trans hk) (by simp)

theorem ends (h : IsOperator known) {k : Mark} (hk : k.endsStatement = true) :
    symbolValue known k = none := by
  unfold symbolValue
  split
  · rename_i hsymbol
    have hname : k.2 = ";" := by
      rw [Mark.endsStatement, Mark.isWord, Mark.isWord, Mark.isWord, eq_of_beq hsymbol] at hk
      simp only [Mark.isSymbol, beq_iff_eq, Bool.or_eq_true, Bool.and_eq_true, reduceCtorEq,
        false_and, or_false] at hk
      rw [hk]
    rw [hname]
    exact h.semicolon
  · rfl

end IsOperator

theorem isOperator_multiplicative : IsOperator Arithmetic.ofMultiplicative? :=
  ⟨by decide, by decide, by decide⟩

theorem isOperator_additive : IsOperator Arithmetic.ofAdditive? :=
  ⟨by decide, by decide, by decide⟩

theorem isOperator_sign : IsOperator Comparison.ofSign? :=
  ⟨by decide, by decide, by decide⟩

section

variable {known : String -> Option Arithmetic} {operand operand' : Parser Scalar}

theorem takes_chain (hknown : IsOperator known) (hoperand : Takes none Balanced operand)
    (tokens : List Token) : forall left, Takes none Balanced (chain known operand tokens left) := by
  induction tokens with
  | nil =>
      intro left
      exact Takes.pure Balanced.nil
  | cons t tokens ih =>
      intro left
      refine ((spots_operator known).takes fun k a => hknown.balanced).bind (fun found => ?_)
        fun _ _ => Balanced.append
      cases found with
      | some op =>
          exact hoperand.bind (fun right => ih _) fun _ _ => Balanced.append
      | none =>
          exact Takes.pure Balanced.nil

theorem chain_eq {tokens : List Token} {c : Cursor} (htokens : c.ahead.length ≤ tokens.length)
    (left : Scalar) :
    chain known operand tokens left c = (operator known >>= fun found =>
      match found with
      | some op => operand >>= fun right => chain known operand tokens.tail (.binary left op right)
      | none => pure left : Parser Scalar) c := by
  cases tokens with
  | nil =>
      have hahead : c.ahead = [] := List.eq_nil_of_length_eq_zero (Nat.le_zero.mp htokens)
      have hstops : operator known c = .ok none c := by
        refine (spots_operator known).stops ?_
        rw [Cursor.marks, hahead]
        rfl
      symm
      exact bind_eq_ok.mpr ⟨none, c, hstops, rfl⟩
  | cons t tokens =>
      rfl

theorem meets_chain (hends : Ends rest) (hknown : IsOperator known)
    (hoperand : Local rest none n m Balanced operand operand') (bound : Nat) :
    forall (tokens tokens' : List Token) (left : Scalar) (c d : Cursor), c.ahead.length < bound ->
      c.ahead.length ≤ tokens.length -> d.ahead.length ≤ tokens'.length -> Continues rest c d ->
      c.ahead.length ≤ n -> d.ahead.length ≤ m ->
        Meets rest (chain known operand tokens left) (chain known operand' tokens' left) c d := by
  have hlocal : Local rest none n m Balanced (operator known) (operator known) :=
    (spots_operator known).toLocal hends (fun k a => hknown.balanced) fun k => hknown.ends
  induction bound with
  | zero =>
      intro tokens tokens' left c d hbound
      exact absurd hbound (Nat.not_lt_zero _)
  | succ bound ih =>
      intro tokens tokens' left c d hbound htokens htokens' hcontinues hc hd
      refine Meets.congr ?_ (chain_eq htokens left) (chain_eq htokens' left)
      refine (hlocal.meets c d hcontinues (at_none d) hc hd).bind (P := Balanced) (fun found => ?_)
        fun found c₁ d₁ hfound hfound' hcontinues₁ => ?_
      · cases found with
        | some op =>
            exact hoperand.long.bind (fun _ => takes_chain hknown hoperand.long _ _)
              fun _ _ => Balanced.append
        | none =>
            exact Takes.pure Balanced.nil
      · cases found with
        | none =>
            exact Meets.pure hcontinues₁ left
        | some op =>
            have hless := (spots_operator known).length_lt hfound
            have hless' := (spots_operator known).length_lt hfound'
            refine (hoperand.meets c₁ d₁ hcontinues₁ (at_none d₁) (by omega) (by omega)).bind
              (P := Balanced) (fun right => takes_chain hknown hoperand.long _ _)
              fun right c₂ d₂ hright hright' hcontinues₂ => ?_
            have hshorter := hoperand.long.length_le hright
            have hshorter' := hoperand.short.length_le hright'
            have htail := List.length_tail (l := tokens)
            have htail' := List.length_tail (l := tokens')
            exact ih tokens.tail tokens'.tail _ c₂ d₂ (by omega) (by omega) (by omega) hcontinues₂
              (by omega) (by omega)

/-- As many operators and operands as follow. -/
theorem local_chain (hends : Ends rest) (hknown : IsOperator known)
    (hoperand : Local rest none n m Balanced operand operand') (left : Scalar) :
    Local rest none n m Balanced (get >>= fun c : Cursor => chain known operand c.ahead left)
      (get >>= fun c : Cursor => chain known operand' c.ahead left) := by
  refine ⟨fun c hc => takes_chain hknown hoperand.long c.ahead left c hc,
    fun d hd => takes_chain hknown hoperand.short d.ahead left d hd,
    fun c d hcontinues _ hc hd => ?_⟩
  exact (meets_chain hends hknown hoperand _ c.ahead d.ahead left c d (Nat.lt_succ_self _)
    (Nat.le_refl _) (Nat.le_refl _) hcontinues hc hd).congr rfl rfl

end

end Parser
end Sql
end RecordSql
