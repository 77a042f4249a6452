import RecordSql.Proofs.Printing.Steps

/-!
# Reading rows of operands

Products are read before the sums that they are part of.  That is the same as reading the operands
one after the other, with a product still open to further factors behind the sum of all before it.
-/

namespace RecordSql
namespace Sql

/-!
# The marks of a row
-/

namespace Scalar

/-- The marks of an operand, an operation in parentheses. -/
def factorMarks (e : Scalar) : List Mark :=
  negatedMarks e e.marks

/-- The operators and operands behind the first operand. -/
def tailMarks (others : List (Arithmetic × Scalar)) : List Mark :=
  others.flatMap fun t => symbolMark t.1.sign :: t.2.factorMarks

theorem tailMarks_cons (op : Arithmetic) (e : Scalar) (others : List (Arithmetic × Scalar)) :
    tailMarks ((op, e) :: others) = symbolMark op.sign :: (e.factorMarks ++ tailMarks others) :=
  rfl

theorem tailMarks_append (others more : List (Arithmetic × Scalar)) :
    tailMarks (others ++ more) = tailMarks others ++ tailMarks more :=
  List.flatMap_append

theorem factorMarks_single {e : Scalar} (h : forall l op r, e = .binary l op r -> False) :
    e.factorMarks = e.marks := by
  cases e with
  | binary l op r =>
      exact (h l op r rfl).elim
  | _ =>
      rfl

theorem factorMarks_of_isEnclosed {parent : Arithmetic} {onRight : Bool} {e : Scalar}
    (h : isEnclosed parent onRight e = true) : e.factorMarks = enclosedMarks e.marks := by
  cases e with
  | binary l op r =>
      rfl
  | _ =>
      cases h

theorem operandMarks_eq {parent : Arithmetic} {onRight : Bool} {e : Scalar}
    (h : e.marks = e.terms.1.factorMarks ++ tailMarks e.terms.2) :
    operandMarks parent onRight e e.marks =
      (operandTerms parent onRight e).1.factorMarks ++
        tailMarks (operandTerms parent onRight e).2 := by
  rw [operandMarks, operandTerms]
  split
  · rename_i henclosed
    rw [factorMarks_of_isEnclosed henclosed]
    exact (List.append_nil _).symm
  · exact h

/-- The marks of an expression are its row of operands. -/
theorem marks_eq (e : Scalar) : e.marks = e.terms.1.factorMarks ++ tailMarks e.terms.2 := by
  induction e using Scalar.terms.induct with
  | case1 l op r ihl ihr =>
      rw [Scalar.marks, terms_binary, tailMarks_append, tailMarks_cons, operandMarks_eq ihl,
        operandMarks_eq ihr, List.append_assoc]
  | case2 e hsingle =>
      rw [(terms_single hsingle).1, factorMarks_single hsingle]
      exact (List.append_nil _).symm

/-- The operands of a canonical expression are canonical. -/
theorem canonical_terms {e : Scalar} (h : e.isCanonical = true) :
    e.terms.1.isCanonical = true ∧ forall t, t ∈ e.terms.2 -> t.2.isCanonical = true := by
  have hoperand : forall (parent : Arithmetic) (onRight : Bool) {e : Scalar}, e.isCanonical = true ->
      (e.terms.1.isCanonical = true ∧ forall t, t ∈ e.terms.2 -> t.2.isCanonical = true) ->
        (operandTerms parent onRight e).1.isCanonical = true ∧
          forall t, t ∈ (operandTerms parent onRight e).2 -> t.2.isCanonical = true := by
    intro parent onRight e he hterms
    rw [operandTerms]
    split
    · refine ⟨he, ?_⟩
      rintro t ⟨⟩
    · exact hterms
  induction e using Scalar.terms.induct with
  | case1 l op r ihl ihr =>
      rw [Scalar.isCanonical, Bool.and_eq_true] at h
      have hleft := hoperand op false h.1 (ihl h.1)
      have hright := hoperand op true h.2 (ihr h.2)
      rw [terms_binary]
      refine ⟨hleft.1, ?_⟩
      intro t ht
      rcases List.mem_append.mp ht with ht | ht
      · exact hleft.2 t ht
      · rcases List.mem_cons.mp ht with rfl | ht
        · exact hright.1
        · exact hright.2 t ht
  | case2 e hsingle =>
      rw [(terms_single hsingle).1]
      refine ⟨h, ?_⟩
      rintro t ⟨⟩

end Scalar

/-!
# Operators
-/

namespace Parser

open Scalar (close extend tailMarks factorMarks)

/-- What makes a word another thing than a name. -/
def continuesName (k : Mark) : Bool :=
  k.isSymbol "(" || k.isSymbol "."

/-- What goes on with an operand. -/
def continuesFactor (k : Mark) : Bool :=
  continuesName k || k.isWord "COLLATE"

/-- What goes on with an expression. -/
def continuesScalar (k : Mark) : Bool :=
  continuesFactor k || (symbolValue Arithmetic.ofMultiplicative? k).isSome ||
    (symbolValue Arithmetic.ofAdditive? k).isSome

variable {rest : List Mark}

theorem Stops.factor (h : Stops continuesScalar rest) : Stops continuesFactor rest := by
  refine h.mono fun k hk => ?_
  rw [continuesScalar, hk]
  rfl

theorem Stops.operator {known : String -> Option Arithmetic} {test : Mark -> Bool}
    (h : Stops test rest)
    (hknown : forall k, (symbolValue known k).isSome = true -> test k = true) :
    rest.head? >>= symbolValue known = none := by
  cases rest with
  | nil =>
      rfl
  | cons k rest =>
      change symbolValue known k = none
      cases hk : symbolValue known k with
      | none =>
          rfl
      | some op =>
          have htest := hknown k (by rw [hk]; rfl)
          rw [Stops, List.head?_cons, Option.any_some, htest] at h
          cases h

theorem Stops.multiplicative (h : Stops continuesScalar rest) :
    rest.head? >>= symbolValue Arithmetic.ofMultiplicative? = none :=
  h.operator fun k hk => by rw [continuesScalar, hk, Bool.or_true, Bool.true_or]

theorem Stops.additive (h : Stops continuesScalar rest) :
    rest.head? >>= symbolValue Arithmetic.ofAdditive? = none :=
  h.operator fun k hk => by rw [continuesScalar, hk, Bool.or_true]

theorem symbolValue_multiplicative (op : Arithmetic) :
    symbolValue Arithmetic.ofMultiplicative? (symbolMark op.sign) =
      if op.precedence = 1 then none else some op := by
  cases op <;> rfl

theorem symbolValue_additive {op : Arithmetic} (h : op.precedence = 1) :
    symbolValue Arithmetic.ofAdditive? (symbolMark op.sign) = some op := by
  cases op <;> first | rfl | cases h

theorem stops_tailMarks (others : List (Arithmetic × Scalar)) (h : Stops continuesFactor rest) :
    Stops continuesFactor (tailMarks others ++ rest) := by
  cases others with
  | nil =>
      exact h
  | cons t others =>
      refine Stops.cons ?_
      cases t.1 <;> rfl

/-!
# Sums of products
-/

section

variable {inner : Inner} {bound : Nat}

/-- An operand is read from so few marks. -/
def ReadsFactors (inner : Inner) (bound : Nat) (e : Scalar) : Prop :=
  forall tail, Stops continuesFactor tail -> e.factorMarks.length + tail.length ≤ bound ->
    Accepts (signedOperand inner) e.factorMarks tail e

theorem chain_stop {known : String -> Option Arithmetic} {operand : Parser Scalar}
    {tokens : List Token} {left : Scalar} {c : Cursor} (htokens : c.ahead.length ≤ tokens.length)
    (h : c.marks.head? >>= symbolValue known = none) :
    chain known operand tokens left c = .ok left c := by
  rw [chain_eq htokens, bind_eq_ok]
  exact ⟨none, c, (spots_operator known).stops h, rfl⟩

theorem chain_step {known : String -> Option Arithmetic} {operand : Parser Scalar}
    {tokens : List Token} {left right : Scalar} {op : Arithmetic} {c c' : Cursor}
    (htokens : c.ahead.length ≤ tokens.length)
    (h : c.marks.head? >>= symbolValue known = some op) (hright : operand c.advance = .ok right c') :
    chain known operand tokens left c =
      chain known operand tokens.tail (.binary left op right) c' := by
  have hfound : operator known c = .ok (some op) c.advance := by
    rw [spots_operator known c, h]
  rw [chain_eq htokens]
  change EStateM.bind (operator known) _ c = _
  rw [EStateM.bind, hfound]
  change EStateM.bind operand _ c.advance = _
  rw [EStateM.bind, hright]

/--
The operands of a row are read one after the other: first those of the product that is open, and
then those of the sum behind it.
-/
theorem accepts_row (others : List (Arithmetic × Scalar)) (hrest : Stops continuesScalar rest)
    (hothers : forall t, t ∈ others -> ReadsFactors inner bound t.2) :
    forall (tokens : List Token) (sum : Option (Scalar × Arithmetic)) (first : Scalar) (c : Cursor),
      c.marks = tailMarks others ++ rest -> c.ahead.length ≤ tokens.length ->
      c.ahead.length ≤ bound ->
        exists left c₁ c',
          chain Arithmetic.ofMultiplicative? (signedOperand inner) tokens first c = .ok left c₁ ∧
          c₁.ahead.length ≤ c.ahead.length ∧ c'.marks = rest ∧
          forall tokens', c₁.ahead.length ≤ tokens'.length ->
            chain Arithmetic.ofAdditive? (Parser.product inner) tokens' (close sum left) c₁ =
              .ok (close (others.foldl extend (sum, first)).1
                (others.foldl extend (sum, first)).2) c' := by
  induction others with
  | nil =>
      intro tokens sum first c hc htokens _
      refine ⟨first, c, c, chain_stop htokens ?_, Nat.le_refl _, hc, fun tokens' htokens' =>
        chain_stop htokens' ?_⟩
      · rw [hc]
        exact hrest.multiplicative
      · rw [hc]
        exact hrest.additive
  | cons t others ih =>
      intro tokens sum first c hc htokens hbound
      rcases t with ⟨op, e⟩
      rw [Scalar.tailMarks_cons, List.cons_append, List.append_assoc] at hc
      have hhead : c.marks.head? = some (symbolMark op.sign) := by
        rw [hc]
        rfl
      have hlength := congrArg List.length hc
      rw [Cursor.length_marks, List.length_cons, List.length_append] at hlength
      have hfactor : ReadsFactors inner bound e := hothers (op, e) List.mem_cons_self
      rcases hfactor _ (stops_tailMarks others hrest.factor) (by omega) c.advance
        (Accepts.marks_advance hc) with ⟨c₁, hc₁, hmarks₁⟩
      have hlength₁ := congrArg List.length hmarks₁
      rw [Cursor.length_marks] at hlength₁
      have htail := List.length_tail (l := tokens)
      have hmore := fun u hu => hothers u (List.mem_cons_of_mem (op, e) hu)
      by_cases hop : op.precedence = 1
      · -- The product is complete; the operand begins the next one.
        have hnone : c.marks.head? >>= symbolValue Arithmetic.ofMultiplicative? = none := by
          rw [hhead, Option.bind_eq_bind, Option.bind_some, symbolValue_multiplicative, if_pos hop]
        have hsome : c.marks.head? >>= symbolValue Arithmetic.ofAdditive? = some op := by
          rw [hhead, Option.bind_eq_bind, Option.bind_some, symbolValue_additive hop]
        rcases ih hmore c₁.ahead (some (close sum first, op)) e c₁ hmarks₁ (Nat.le_refl _)
          (by omega) with ⟨right, c₂, c', hright, hshorter, hmarks, hsum⟩
        refine ⟨first, c, c', chain_stop htokens hnone, Nat.le_refl _, hmarks,
          fun tokens' htokens' => ?_⟩
        have hproduct : Parser.product inner c.advance = .ok right c₂ :=
          bind_eq_ok.mpr ⟨e, c₁, hc₁, hright⟩
        have htail' := List.length_tail (l := tokens')
        rw [chain_step htokens' hsome hproduct, List.foldl_cons, extend, if_pos hop]
        exact hsum tokens'.tail (by omega)
      · -- The operand is one more factor.
        have hsome : c.marks.head? >>= symbolValue Arithmetic.ofMultiplicative? = some op := by
          rw [hhead, Option.bind_eq_bind, Option.bind_some, symbolValue_multiplicative, if_neg hop]
        rcases ih hmore tokens.tail sum (.binary first op e) c₁ hmarks₁ (by omega) (by omega) with
          ⟨left, c₂, c', hleft, hshorter, hmarks, hsum⟩
        refine ⟨left, c₂, c', ?_, by omega, hmarks, ?_⟩
        · rw [chain_step htokens hsome hc₁]
          exact hleft
        · rw [List.foldl_cons, extend, if_neg hop]
          exact hsum

/-- An expression is read if its operands are. -/
theorem accepts_sum {e : Scalar} (hrest : Stops continuesScalar rest)
    (hfirst : ReadsFactors inner bound e.terms.1)
    (hothers : forall t, t ∈ e.terms.2 -> ReadsFactors inner bound t.2)
    (hbound : e.marks.length + rest.length ≤ bound) : Accepts (Parser.sum inner) e.marks rest e := by
  intro c hc
  rw [Scalar.marks_eq, List.length_append] at hbound
  rw [Scalar.marks_eq, List.append_assoc] at hc
  rcases hfirst _ (stops_tailMarks e.terms.2 hrest.factor) (by rw [List.length_append]; omega) c hc
    with ⟨c₁, hc₁, hmarks₁⟩
  have hlength₁ := congrArg List.length hmarks₁
  rw [Cursor.length_marks, List.length_append] at hlength₁
  rcases accepts_row e.terms.2 hrest hothers c₁.ahead none e.terms.1 c₁ hmarks₁ (Nat.le_refl _)
    (by omega) with ⟨left, c₂, c', hleft, _, hmarks, hsum⟩
  rw [Scalar.close_foldl_terms] at hsum
  refine ⟨c', ?_, hmarks⟩
  exact bind_eq_ok.mpr ⟨left, c₂, bind_eq_ok.mpr ⟨e.terms.1, c₁, hc₁, hleft⟩,
    hsum c₂.ahead (Nat.le_refl _)⟩

end

end Parser
end Sql
end RecordSql
