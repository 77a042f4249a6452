import RecordSql.Proofs.Parsing.Expressions

/-!
# Expressions go on

No parser of expressions or conditions goes back: where it stops, it has the tokens behind it that
were behind it before, also when it fails.  The one that tries a condition in parentheses first
returns to the parenthesis, but not beyond it.  Since an operand takes a token before it looks for
what is inside of it, a few tokens only have few expressions inside of each other, and parsers that
agree on fewer tokens make parsers that agree on one token more.
-/

namespace RecordSql
namespace Sql
namespace Parser

variable {α β : Type}

/-!
# The same step
-/

/--
At the cursor both parsers do the same and do not go back, and take so many tokens at least before
they return something.
-/
structure InStep (least : Nat) (p q : Parser α) (c : Cursor) : Prop where
  same : p c = q c
  ok : forall {a c'}, q c = .ok a c' -> exists used, Moves used c c' ∧ least ≤ used.length
  error : forall {e c'}, q c = .error e c' -> exists used, Moves used c c'

namespace InStep

variable {k l : Nat} {p q : Parser α} {f g : α -> Parser β} {c : Cursor}

theorem congr {p' q' : Parser α} (h : InStep k p' q' c) (hp : p c = p' c) (hq : q c = q' c) :
    InStep k p q c := by
  refine ⟨by rw [hp, hq, h.same], fun ha => ?_, fun he => ?_⟩
  · rw [hq] at ha
    exact h.ok ha
  · rw [hq] at he
    exact h.error he

theorem mono (h : InStep k p q c) (hk : l ≤ k) : InStep l p q c := by
  refine ⟨h.same, fun ha => ?_, h.error⟩
  rcases h.ok ha with ⟨used, hused, hlength⟩
  exact ⟨used, hused, Nat.le_trans hk hlength⟩

theorem left (h : InStep k p q c) : InStep k p p c :=
  ⟨rfl, fun ha => h.ok (h.same.symm.trans ha), fun he => h.error (h.same.symm.trans he)⟩

theorem pure (a : α) : InStep 0 (Pure.pure a : Parser α) (Pure.pure a) c := by
  refine ⟨rfl, fun ha => ?_, fun he => ?_⟩
  · cases ha
    exact ⟨[], Moves.refl c, Nat.le_refl 0⟩
  · cases he

theorem fail {cause : ParseCause} {pivot : Nat} :
    InStep k (Parser.fail cause pivot : Parser α) (Parser.fail cause pivot) c := by
  refine ⟨rfl, fun ha => absurd ha fail_ne_ok, fun he => ?_⟩
  cases he
  exact ⟨[], Moves.refl c⟩

theorem failHere {cause : ParseCause} :
    InStep k (Parser.failHere cause : Parser α) (Parser.failHere cause) c :=
  fail.congr rfl rfl

theorem skip {t : Token} (hc : c.current = some t) :
    InStep 1 (Parser.skip : Parser Unit) Parser.skip c := by
  refine ⟨rfl, fun ha => ?_, fun he => ?_⟩
  · cases ha
    exact ⟨[t], Moves.advance hc, Nat.le_refl 1⟩
  · cases he

theorem look {f g : Cursor -> Parser α} (h : InStep k (f c) (g c) c) :
    InStep k (get >>= f) (get >>= g) c :=
  h.congr rfl rfl

/-- What the first step takes counts for both, and is no longer there for the second one. -/
theorem bind (h : InStep k p q c) (hf : forall a (c' : Cursor),
    k + c'.ahead.length ≤ c.ahead.length -> InStep l (f a) (g a) c') :
    InStep (k + l) (p >>= f) (q >>= g) c := by
  have hp : (p >>= f) c = EStateM.bind q f c := by
    change EStateM.bind p f c = _
    rw [EStateM.bind, h.same]
    rfl
  have hq : (q >>= g) c = EStateM.bind q g c := rfl
  rw [EStateM.bind] at hp hq
  cases hresult : q c with
  | ok a c' =>
      rcases h.ok hresult with ⟨used, hused, hk⟩
      have hlength := congrArg List.length hused.ahead
      rw [List.length_append] at hlength
      have hrest := hf a c' (by omega)
      simp only [hresult] at hp hq
      refine ⟨by rw [hp, hq, hrest.same], fun hb => ?_, fun he => ?_⟩
      · rw [hq] at hb
        rcases hrest.ok hb with ⟨more, hmore, hl⟩
        refine ⟨used ++ more, hused.trans hmore, ?_⟩
        rw [List.length_append]
        exact Nat.add_le_add hk hl
      · rw [hq] at he
        rcases hrest.error he with ⟨more, hmore⟩
        exact ⟨used ++ more, hused.trans hmore⟩
  | error e c' =>
      simp only [hresult] at hp hq
      refine ⟨by rw [hp, hq], fun hb => ?_, fun he => ?_⟩
      · rw [hq] at hb
        cases hb
      · rw [hq] at he
        cases he
        exact h.error hresult

end InStep

/-- The parsers are in step wherever there are fewer than so many tokens left. -/
def Below (n least : Nat) (p q : Parser α) : Prop :=
  forall c : Cursor, c.ahead.length < n -> InStep least p q c

/-- Once a token is taken, fewer are left. -/
theorem InStep.first {n : Nat} {p q : Parser α} {f g : α -> Parser β} {c : Cursor}
    (h : InStep 1 p q c) (hc : c.ahead.length < n + 1) (hf : forall a, Below n 0 (f a) (g a)) :
    InStep 1 (p >>= f) (q >>= g) c :=
  h.bind fun a c' hless => hf a c' (by omega)

namespace Below

variable {n m k l : Nat} {p q : Parser α} {f g : α -> Parser β}

theorem mono (h : Below n k p q) (hn : m ≤ n) (hk : l ≤ k) : Below m l p q :=
  fun c hc => (h c (Nat.lt_of_lt_of_le hc hn)).mono hk

theorem pure (a : α) : Below n 0 (Pure.pure a : Parser α) (Pure.pure a) :=
  fun _ _ => InStep.pure a

theorem fail {cause : ParseCause} {pivot : Nat} :
    Below n k (Parser.fail cause pivot : Parser α) (Parser.fail cause pivot) :=
  fun _ _ => InStep.fail

theorem failHere {cause : ParseCause} :
    Below n k (Parser.failHere cause : Parser α) (Parser.failHere cause) :=
  fun _ _ => InStep.failHere

theorem look {f g : Cursor -> Parser α}
    (h : forall c : Cursor, c.ahead.length < n -> InStep k (f c) (g c) c) :
    Below n k (get >>= f) (get >>= g) :=
  fun c hc => InStep.look (h c hc)

theorem andThen (hp : Below n 0 p q) (hf : forall a, Below n k (f a) (g a)) :
    Below n k (p >>= f) (q >>= g) :=
  fun c hc => ((hp c hc).bind fun a c' hless => hf a c' (by omega)).mono (Nat.le_add_left k 0)

theorem someThen (hp : Below n 1 p q) (hf : forall a, Below n 0 (f a) (g a)) :
    Below n 1 (p >>= f) (q >>= g) :=
  fun c hc => (hp c hc).bind fun a c' hless => hf a c' (by omega)

theorem first (hp : Below (n + 1) 1 p q) (hf : forall a, Below n 0 (f a) (g a)) :
    Below (n + 1) 1 (p >>= f) (q >>= g) :=
  fun c hc => (hp c hc).first hc hf

theorem any (h : Below n k p q) : Below n 0 p q :=
  h.mono (Nat.le_refl n) (Nat.zero_le k)

/-- The parsers in front of fewer tokens, where they need not take any. -/
theorem fewer (h : Below (n + 1) k p q) : Below n 0 p q :=
  h.mono (Nat.le_succ n) (Nat.zero_le k)

/-- A parser that is known to take something when it returns. -/
theorem strict (h : Below n 0 p q) {P : List Mark -> Prop} (htakes : Takes none P q)
    (hsome : forall used, P used -> 1 ≤ used.length) : Below n 1 p q := by
  intro c hc
  have hstep := h c hc
  refine ⟨hstep.same, fun ha => ?_, hstep.error⟩
  rcases htakes c (at_none c) _ _ ha with ⟨used, hused, hmarks⟩
  have hlength := hsome _ hmarks
  rw [List.length_map] at hlength
  exact ⟨used, hused, hlength⟩

end Below

/-!
# Single tokens
-/

section

variable {n : Nat}

theorem below_eats {test : Mark -> Bool} {p : Parser Bool} (h : Eats test p) : Below n 0 p p := by
  intro c _
  refine ⟨rfl, fun {b c'} hb => ?_, fun {e c'} he => ?_⟩
  · rcases h.takes c (at_none c) b c' hb with ⟨used, hused, _⟩
    exact ⟨used, hused, Nat.zero_le _⟩
  · rw [h c] at he
    split at he <;> cases he

theorem below_eatKeyword (word : String) : Below n 0 (eatKeyword word) (eatKeyword word) :=
  below_eats (eats_keyword word)

theorem below_eatSymbol (symbol : String) : Below n 0 (eatSymbol symbol) (eatSymbol symbol) :=
  below_eats (eats_symbol symbol)

theorem below_spots {value : Mark -> Option α} {p : Parser (Option α)} (h : Spots value p) :
    Below n 0 p p := by
  intro c _
  refine ⟨rfl, fun {found c'} hfound => ?_, fun {e c'} he => ?_⟩
  · rcases h.cases_ok hfound with ⟨k, a, hk, _, _, rfl⟩ | ⟨_, _, rfl⟩
    · rcases moves_advance hk with ⟨t, ht, _⟩
      exact ⟨[t], ht, Nat.zero_le _⟩
    · exact ⟨[], Moves.refl _, Nat.zero_le _⟩
  · rw [h c] at he
    split at he <;> cases he

theorem below_expects {test : Mark -> Bool} {eat : Parser Bool} (h : Eats test eat)
    (cause : ParseCause) :
    Below n 1 (do unless <- eat do failHere cause : Parser Unit)
      (do unless <- eat do failHere cause) := by
  have hany : Below n 0 (do unless <- eat do failHere cause : Parser Unit)
      (do unless <- eat do failHere cause) := by
    apply (below_eats h).andThen
    intro eaten
    cases eaten with
    | true =>
        exact Below.pure ()
    | false =>
        exact Below.failHere
  apply hany.strict (reads_of_eats h cause).takes
  rintro _ ⟨k, rfl, _⟩
  exact Nat.le_refl 1

theorem below_expectKeyword (word : String) :
    Below n 1 (expectKeyword word) (expectKeyword word) :=
  below_expects (eats_keyword word) (.expectedKeyword word)

theorem below_expectSymbol (symbol : String) :
    Below n 1 (expectSymbol symbol) (expectSymbol symbol) :=
  below_expects (eats_symbol symbol) (.expectedSymbol symbol)

theorem below_identifier : Below n 1 identifier identifier := by
  apply Below.look
  intro c _
  cases hc : c.current with
  | none =>
      exact InStep.failHere
  | some t =>
      dsimp only
      split
      · exact (InStep.skip hc).bind fun _ _ _ => InStep.pure _
      · exact InStep.failHere

theorem below_name : Below n 1 name name :=
  below_identifier.someThen fun _ => Below.pure _

end

/-!
# Repetition
-/

section

variable {n : Nat} {more : Parser Bool} {item item' : Parser α}

theorem below_repeated (hmore : Below n 0 more more) (hitem : Below n 0 item item')
    (left : List Token) : Below n 0 (repeated more item left) (repeated more item' left) := by
  induction left with
  | nil =>
      exact Below.pure []
  | cons t left ih =>
      apply hmore.andThen
      intro again
      cases again with
      | true =>
          apply hitem.andThen
          intro first
          apply ih.andThen
          intro others
          exact Below.pure _
      | false =>
          exact Below.pure []

theorem below_many (hmore : Below n 0 more more) (hitem : Below n 0 item item') :
    Below n 0 (many more item) (many more item') :=
  Below.look fun c hc => below_repeated hmore hitem c.ahead c hc

theorem below_commaList (hitem : Below n 0 item item') :
    Below n 0 (commaList item) (commaList item') := by
  apply hitem.andThen
  intro first
  apply (below_many (below_eatSymbol ",") hitem).andThen
  intro others
  exact Below.pure _

theorem below_chain (known : String -> Option Arithmetic) {operand operand' : Parser Scalar}
    (hoperand : Below n 0 operand operand') (tokens : List Token) :
    forall left,
      Below n 0 (chain known operand tokens left) (chain known operand' tokens left) := by
  induction tokens with
  | nil =>
      intro left
      exact Below.pure left
  | cons t tokens ih =>
      intro left
      apply (below_spots (spots_operator known)).andThen
      intro found
      cases found with
      | some op =>
          apply hoperand.andThen
          intro right
          exact ih _
      | none =>
          exact Below.pure left

end

/-!
# Operands
-/

/-- What may stand inside an operand takes a token, and is the same in front of few tokens. -/
structure InnerBelow (n : Nat) (inner inner' : Inner) : Prop where
  scalar : Below n 1 inner.scalar inner'.scalar
  predicate : Below n 1 inner.predicate inner'.predicate

section

variable {n : Nat} {inner inner' : Inner}

theorem below_numberLiteral (text : String) (pivot : Nat) :
    Below n 0 (numberLiteral text pivot) (numberLiteral text pivot) := by
  unfold numberLiteral
  dsimp only
  split
  · cases Number.readFloat text.toList with
    | some x =>
        exact Below.pure _
    | none =>
        exact Below.fail
  · cases Number.readInt text.toList with
    | some i =>
        exact Below.pure _
    | none =>
        exact Below.fail

theorem below_columnReference : Below n 1 columnReference columnReference := by
  apply below_identifier.someThen
  rintro ⟨first, quoted⟩
  apply (below_eatSymbol ".").andThen
  intro dot
  cases dot with
  | false =>
      exact Below.pure _
  | true =>
      apply (below_eatSymbol "*").andThen
      intro star
      cases star with
      | true =>
          exact Below.pure _
      | false =>
          apply below_name.any.andThen
          intro second
          apply (below_many (below_eatSymbol ".") below_name.any).andThen
          intro others
          cases (first :: second :: others).reverse with
          | nil =>
              exact Below.pure _
          | cons last parts =>
              cases parts <;> exact Below.pure _

theorem below_argument (h : InnerBelow n inner inner') :
    Below n 0 (argument inner) (argument inner') := by
  apply (below_eatSymbol "*").andThen
  intro star
  cases star with
  | true =>
      exact Below.pure _
  | false =>
      exact h.scalar.any

theorem below_callArguments (h : InnerBelow n inner inner') (function : String) :
    Below (n + 1) 1 (callArguments inner function) (callArguments inner' function) := by
  apply (below_expectSymbol "(").first
  intro _
  apply (below_eatKeyword "DISTINCT").andThen
  intro distinct
  have hclosed : forall args : List Scalar, Below n 0
      (expectSymbol ")" >>= fun _ =>
        pure (Scalar.call function distinct (withDatePart function args)))
      (expectSymbol ")" >>= fun _ =>
        pure (Scalar.call function distinct (withDatePart function args))) :=
    fun args => (below_expectSymbol ")").any.andThen fun _ => Below.pure _
  apply Below.look
  intro c hc
  split
  · exact hclosed [] c hc
  · exact (below_commaList (below_argument h)).andThen hclosed c hc

theorem below_caseElse (h : InnerBelow n inner inner') :
    Below n 0 (caseElse inner) (caseElse inner') := by
  apply (below_eatKeyword "ELSE").andThen
  intro given
  have hend : forall otherwise : Option Scalar, Below n 0
      (expectKeyword "END" >>= fun _ => pure otherwise)
      (expectKeyword "END" >>= fun _ => pure otherwise) :=
    fun otherwise => (below_expectKeyword "END").any.andThen fun _ => Below.pure _
  cases given with
  | true =>
      exact (h.scalar.any.andThen fun e => Below.pure (some e)).andThen hend
  | false =>
      exact hend none

theorem below_caseBranch {condition condition' : Parser α} (h : InnerBelow n inner inner')
    (hcondition : Below n 1 condition condition') :
    Below n 0 (caseBranch inner condition) (caseBranch inner' condition') := by
  apply hcondition.any.andThen
  intro c
  apply (below_expectKeyword "THEN").any.andThen
  intro _
  apply h.scalar.any.andThen
  intro e
  exact Below.pure _

theorem below_caseExpression (h : InnerBelow n inner inner') :
    Below (n + 1) 1 (caseExpression inner) (caseExpression inner') := by
  apply (below_expectKeyword "CASE").first
  intro _
  apply Below.look
  intro c hc
  split
  · refine (below_many (below_eatKeyword "WHEN") (below_caseBranch h h.predicate)).andThen
      (fun whens => ?_) c hc
    apply (below_caseElse h).andThen
    intro otherwise
    exact Below.pure _
  · refine h.scalar.any.andThen (fun input => ?_) c hc
    apply (below_many (below_eatKeyword "WHEN") (below_caseBranch h h.scalar)).andThen
    intro whens
    split
    · exact Below.failHere
    · apply (below_caseElse h).andThen
      intro otherwise
      exact Below.pure _

theorem inStep_parenthesized (h : InnerBelow n inner inner') {c : Cursor} {t : Token}
    (ht : c.current = some t) (hc : c.ahead.length < n + 1) :
    InStep 1 (parenthesized inner) (parenthesized inner') c := by
  apply (InStep.skip ht).first hc
  intro _
  apply h.scalar.any.andThen
  intro e
  apply (below_expectSymbol ")").any.andThen
  intro _
  exact Below.pure _

theorem inStep_wordOperand (h : InnerBelow n inner inner') {c : Cursor} {t : Token}
    (ht : c.current = some t) (hc : c.ahead.length < n + 1) (pivot : Nat) :
    InStep 1 (wordOperand inner t pivot) (wordOperand inner' t pivot) c := by
  unfold wordOperand
  split
  · exact (InStep.skip ht).first hc fun _ => Below.pure _
  · split
    · exact below_caseExpression h c hc
    · apply InStep.look
      split
      · exact (InStep.skip ht).first hc fun _ => (below_callArguments h t.text).fewer
      · split
        · exact below_columnReference c hc
        · exact InStep.fail

theorem inStep_tokenOperand (h : InnerBelow n inner inner') {c : Cursor} {t : Token}
    (ht : c.current = some t) (hc : c.ahead.length < n + 1) (pivot : Nat) :
    InStep 1 (tokenOperand inner t pivot) (tokenOperand inner' t pivot) c := by
  unfold tokenOperand
  cases t.kind with
  | number =>
      exact (InStep.skip ht).first hc fun _ => below_numberLiteral t.text pivot
  | text =>
      exact (InStep.skip ht).first hc fun _ => Below.pure _
  | symbol =>
      dsimp only
      split
      · exact inStep_parenthesized h ht hc
      · split
        · exact (InStep.skip ht).first hc fun _ => Below.pure _
        · exact InStep.fail
  | word =>
      exact inStep_wordOperand h ht hc pivot
  | quotedName =>
      exact below_columnReference c hc

theorem below_primary (h : InnerBelow n inner inner') :
    Below (n + 1) 1 (primary inner) (primary inner') := by
  intro c hc
  cases ht : c.current with
  | none =>
      exact InStep.failHere.congr (primary_none inner c ht) (primary_none inner' c ht)
  | some t =>
      exact (inStep_tokenOperand h ht hc t.start).congr (primary_some inner c t ht)
        (primary_some inner' c t ht)

/-!
# Signs, products and sums
-/

theorem below_signedOperand (h : InnerBelow n inner inner') :
    Below (n + 1) 1 (signedOperand inner) (signedOperand inner') := by
  apply (below_many (below_eatSymbol "-") (Below.pure ())).andThen
  intro minuses
  apply (below_eatSymbol "+").andThen
  intro _
  apply (below_primary h).someThen
  intro e
  apply (below_eatKeyword "COLLATE").andThen
  intro collated
  cases collated with
  | true =>
      exact below_name.any.andThen fun _ => Below.pure _
  | false =>
      exact Below.pure _

theorem below_product (h : InnerBelow n inner inner') :
    Below (n + 1) 1 (product inner) (product inner') := by
  apply (below_signedOperand h).someThen
  intro left
  apply Below.look
  intro c hc
  exact below_chain _ (below_signedOperand h).any c.ahead left c hc

theorem below_sum (h : InnerBelow n inner inner') :
    Below (n + 1) 1 (sum inner) (sum inner') := by
  apply (below_product h).someThen
  intro left
  apply Below.look
  intro c hc
  exact below_chain _ (below_product h).any c.ahead left c hc

/-!
# Conditions
-/

theorem below_containsCondition (h : InnerBelow n inner inner') :
    Below (n + 1) 1 (containsCondition inner) (containsCondition inner') := by
  apply Below.look
  intro c hc
  refine (below_expectKeyword "CONTAINS").someThen (fun _ => ?_) c hc
  apply (below_expectSymbol "(").any.andThen
  intro _
  apply (below_sum h).any.andThen
  intro e
  cases e with
  | column c =>
      apply (below_expectSymbol ",").any.andThen
      intro _
      apply (below_sum h).any.andThen
      intro wanted
      apply (below_expectSymbol ")").any.andThen
      intro _
      exact Below.pure _
  | _ =>
      exact Below.fail

theorem below_conditionTail (h : InnerBelow n inner inner') (left : Scalar) :
    Below (n + 1) 0 (conditionTail inner left) (conditionTail inner' left) := by
  have hsum := (below_sum h).any
  apply Below.look
  intro c hc
  refine (below_spots spots_comparisonSign).andThen (fun sign => ?_) c hc
  cases sign with
  | some op =>
      exact hsum.andThen fun _ => Below.pure _
  | none =>
      apply (below_eatKeyword "IS").andThen
      intro isTest
      cases isTest with
      | true =>
          apply (below_eatKeyword "NOT").andThen
          intro negated
          apply (below_expectKeyword "NULL").any.andThen
          intro _
          exact Below.pure _
      | false =>
          apply (below_eatKeyword "NOT").andThen
          intro negated
          apply (below_eatKeyword "IN").andThen
          intro isIn
          cases isIn with
          | true =>
              apply (below_expectSymbol "(").any.andThen
              intro _
              apply (below_commaList hsum).andThen
              intro items
              apply (below_expectSymbol ")").any.andThen
              intro _
              exact Below.pure _
          | false =>
              apply (below_eatKeyword "LIKE").andThen
              intro isLike
              cases isLike with
              | true =>
                  exact hsum.andThen fun _ => Below.pure _
              | false =>
                  apply (below_eatKeyword "BETWEEN").andThen
                  intro isBetween
                  cases isBetween with
                  | true =>
                      apply hsum.andThen
                      intro low
                      apply (below_expectKeyword "AND").any.andThen
                      intro _
                      apply hsum.andThen
                      intro high
                      exact Below.pure _
                  | false =>
                      exact Below.fail

theorem below_openCondition (h : InnerBelow n inner inner') :
    Below (n + 1) 1 (openCondition inner) (openCondition inner') := by
  apply Below.look
  intro c hc
  split
  · exact below_containsCondition h c hc
  · exact (below_sum h).someThen (fun left => below_conditionTail h left) c hc

theorem length_advance_lt {c : Cursor} {k : Mark} (hk : c.marks.head? = some k)
    (hc : c.ahead.length < n + 1) : c.advance.ahead.length < n := by
  rcases moves_advance hk with ⟨t, ht, _⟩
  rw [ht.ahead, List.length_append, List.length_singleton] at hc
  omega

/-- The parenthesis at the cursor is understood in the same way. -/
theorem enclosed_same (h : InnerBelow n inner inner') {c : Cursor}
    (hc : c.ahead.length < n + 1) : enclosed inner c = enclosed inner' c := by
  by_cases hopening : c.isSymbol "(" = true
  · have hinside := length_advance_lt (head?_of_isSymbol hopening) hc
    have hsame := (h.predicate c.advance hinside).same
    rw [enclosed_eq inner hopening, enclosed_eq inner' hopening]
    change EStateM.bind (attempt inner.predicate) (closeEnclosed c) c.advance =
      EStateM.bind (attempt inner'.predicate) (closeEnclosed c) c.advance
    rw [EStateM.bind, EStateM.bind, attempt, attempt, hsame]
  · change (if c.isSymbol "(" = true then _ else _ : Parser (Option Predicate)) c =
      (if c.isSymbol "(" = true then _ else _ : Parser (Option Predicate)) c
    rw [if_neg hopening, if_neg hopening]

theorem condition_some {c c' : Cursor} {p : Predicate}
    (h : enclosed inner c = .ok (some p) c') : condition inner c = .ok p c' :=
  bind_eq_ok.mpr ⟨some p, c', h, rfl⟩

theorem condition_none {c : Cursor} (h : enclosed inner c = .ok none c) :
    condition inner c = openCondition inner c := by
  change EStateM.bind (enclosed inner) _ c = _
  rw [EStateM.bind, h]
  rfl

/--
After a parenthesis that does not hold a condition the cursor is where it was, so that nothing is
lost when the same tokens are read as an operand.
-/
theorem below_condition (h : InnerBelow n inner inner') :
    Below (n + 1) 1 (condition inner) (condition inner') := by
  intro c hc
  have hsame := enclosed_same h hc
  rcases enclosed_cases inner' c with ⟨p, c', hencloses, henclosed⟩ | ⟨_, henclosed⟩
  · have hp := condition_some henclosed
    have hp' := condition_some (hsame.trans henclosed)
    refine ⟨hp'.trans hp.symm, fun ha => ?_, fun he => ?_⟩
    · cases hp.symm.trans ha
      rcases hencloses with ⟨hopening, _, closing, hpredicate, hclosing, rfl⟩
      have hfewer := length_advance_lt hopening hc
      rcases moves_advance hopening with ⟨first, hfirst, _⟩
      rcases moves_advance hclosing with ⟨last, hlast, _⟩
      rcases (h.predicate c.advance hfewer).ok hpredicate with ⟨inside, hinside, _⟩
      exact ⟨[first] ++ inside ++ [last], (hfirst.trans hinside).trans hlast,
        Nat.le_add_left 1 _⟩
    · cases hp.symm.trans he
  · exact (below_openCondition h c hc).congr (condition_none (hsame.trans henclosed))
      (condition_none henclosed)

theorem below_negation (h : InnerBelow n inner inner') :
    Below (n + 1) 1 (negation inner) (negation inner') := by
  apply (below_many (below_eatKeyword "NOT") (Below.pure ())).andThen
  intro nots
  apply (below_condition h).someThen
  intro p
  exact Below.pure _

theorem below_conjunction (h : InnerBelow n inner inner') :
    Below (n + 1) 1 (conjunction inner) (conjunction inner') := by
  apply (below_negation h).someThen
  intro first
  apply (below_many (below_eatKeyword "AND") (below_negation h).any).andThen
  intro others
  exact Below.pure _

theorem below_disjunction (h : InnerBelow n inner inner') :
    Below (n + 1) 1 (disjunction inner) (disjunction inner') := by
  apply (below_conjunction h).someThen
  intro first
  apply (below_many (below_eatKeyword "OR") (below_conjunction h).any).andThen
  intro others
  exact Below.pure _

end

/-!
# The knot
-/

theorem sum_nothing (inner : Inner) {c : Cursor} (hc : c.ahead = []) :
    sum inner c = failHere .invalidScalar c := by
  cases c with
  | mk source behind ahead =>
      cases hc
      rfl

theorem disjunction_nothing (inner : Inner) {c : Cursor} (hc : c.ahead = []) :
    disjunction inner c = failHere .invalidScalar c := by
  cases c with
  | mk source behind ahead =>
      cases hc
      rfl

/-- Expressions inside of each other so many times; those further inside are left to others. -/
def unrolled (deeper : Inner) : Nat -> Inner
  | 0 => deeper
  | depth + 1 => ⟨sum (unrolled deeper depth), disjunction (unrolled deeper depth)⟩

/-- What whole expressions and conditions are parsed with. -/
def expressions : Inner :=
  ⟨scalar, predicate⟩

theorem InnerBelow.tie {n : Nat} {inner inner' : Inner} (h : InnerBelow n inner inner') :
    InnerBelow (n + 1) ⟨sum inner, disjunction inner⟩ ⟨sum inner', disjunction inner'⟩ :=
  ⟨below_sum h, below_disjunction h⟩

theorem innerAt_unrolled (deeper : Inner) (tokens : List Token) :
    forall depth, tokens.length < depth ->
      InnerBelow (tokens.length + 1) (innerAt tokens) (unrolled deeper depth) := by
  induction tokens with
  | nil =>
      intro depth hdepth
      cases depth with
      | zero =>
          exact absurd hdepth (Nat.not_lt_zero 0)
      | succ depth =>
          have hnothing : forall c : Cursor, c.ahead.length < 1 -> c.ahead = [] :=
            fun c hc => List.eq_nil_of_length_eq_zero (Nat.lt_one_iff.mp hc)
          exact ⟨fun c hc => InStep.failHere.congr rfl (sum_nothing _ (hnothing c hc)),
            fun c hc => InStep.failHere.congr rfl (disjunction_nothing _ (hnothing c hc))⟩
  | cons t tokens ih =>
      intro depth hdepth
      cases depth with
      | zero =>
          exact absurd hdepth (Nat.not_lt_zero _)
      | succ depth =>
          exact (ih depth (Nat.lt_of_succ_lt_succ hdepth)).tie

/-- Fewer tokens than levels have no expression on the last level. -/
theorem expressions_unrolled (deeper : Inner) (depth : Nat) :
    InnerBelow depth expressions (unrolled deeper depth) :=
  ⟨fun c hc => ((innerAt_unrolled deeper c.ahead depth hc).scalar c (Nat.lt_succ_self _)).congr
      rfl rfl,
    fun c hc => ((innerAt_unrolled deeper c.ahead depth hc).predicate c (Nat.lt_succ_self _)).congr
      rfl rfl⟩

theorem expressions_below (n : Nat) : InnerBelow n expressions expressions :=
  ⟨fun c hc => ((expressions_unrolled expressions n).scalar c hc).left,
    fun c hc => ((expressions_unrolled expressions n).predicate c hc).left⟩

theorem scalar_eq (c : Cursor) : scalar c = sum expressions c := by
  have hknot := expressions_unrolled expressions c.ahead.length
  have hwhole := expressions_unrolled expressions (c.ahead.length + 1)
  calc
    scalar c = sum (unrolled expressions c.ahead.length) c :=
      (hwhole.scalar c (Nat.lt_succ_self _)).same
    _ = sum expressions c :=
      (hknot.tie.scalar c (Nat.lt_succ_self _)).same.symm

theorem predicate_eq (c : Cursor) : predicate c = disjunction expressions c := by
  have hknot := expressions_unrolled expressions c.ahead.length
  have hwhole := expressions_unrolled expressions (c.ahead.length + 1)
  calc
    predicate c = disjunction (unrolled expressions c.ahead.length) c :=
      (hwhole.predicate c (Nat.lt_succ_self _)).same
    _ = disjunction expressions c :=
      (hknot.tie.predicate c (Nat.lt_succ_self _)).same.symm

end Parser
end Sql
end RecordSql
