import RecordSql.Proofs.Parsing.Chains

/-!
# Expressions end with their statement

No parser of expressions or conditions looks beyond the end of a statement.  The one that tries a
condition in parentheses first may read on past that end, but then it has not found the parenthesis
that closes, and takes the parenthesis for that of an operand.
-/

namespace RecordSql
namespace Sql
namespace Parser

variable {α β : Type} {rest : List Mark} {n m : Nat}

/-- The parsers for what may stand inside an operand do not look beyond the end of a statement. -/
structure LocalInner (rest : List Mark) (n m : Nat) (inner inner' : Inner) : Prop where
  scalar : Local rest none n m Neat inner.scalar inner'.scalar
  predicate : Local rest none n m Neat inner.predicate inner'.predicate

/-!
# Operands
-/

section

variable {inner inner' : Inner}

theorem local_numberLiteral (text : String) (pivot pivot' : Nat) :
    Local rest none n m Balanced (numberLiteral text pivot) (numberLiteral text pivot') := by
  unfold numberLiteral
  dsimp only
  split
  · cases Number.readFloat text.toList with
    | some x =>
        exact Local.pure Balanced.nil
    | none =>
        exact Local.fail
  · cases Number.readInt text.toList with
    | some i =>
        exact Local.pure Balanced.nil
    | none =>
        exact Local.fail

theorem local_columnReference (hends : Ends rest) :
    Local rest none n m Neat columnReference columnReference := by
  apply local_identifier.neatThen
  rintro ⟨first, quoted⟩
  apply (local_eatSymbol hends (by decide) (by decide) (by decide)).andThen
  intro dot
  cases dot with
  | false =>
      exact Local.pure Balanced.nil
  | true =>
      apply (local_eatSymbol hends (by decide) (by decide) (by decide)).andThen
      intro star
      cases star with
      | true =>
          exact Local.pure Balanced.nil
      | false =>
          apply local_name.balanced.andThen
          intro second
          apply (local_manySymbol hends (by decide) (by decide) (by decide)
            local_name.balanced).andThen
          intro others
          cases (first :: second :: others).reverse with
          | nil =>
              exact Local.pure Balanced.nil
          | cons last parts =>
              cases parts <;> exact Local.pure Balanced.nil

theorem local_argument (hends : Ends rest) (h : LocalInner rest n m inner inner') :
    Local rest none n m Balanced (argument inner) (argument inner') := by
  apply (local_eatSymbol hends (by decide) (by decide) (by decide)).andThen
  intro star
  cases star with
  | true =>
      exact Local.pure Balanced.nil
  | false =>
      exact h.scalar.balanced

theorem local_callArguments (hends : Ends rest) (h : LocalInner rest n m inner inner')
    (function : String) :
    Local rest none (n + 1) (m + 1) Neat (callArguments inner function)
      (callArguments inner' function) := by
  apply (local_expectSymbol "(").opened
  intro _
  apply (local_eatKeyword hends (by decide)).inside
  intro distinct
  have hclosed : forall args : List Scalar, Local rest none n m Closes
      (expectSymbol ")" >>= fun _ => pure (Scalar.call function distinct (withDatePart function args)))
      (expectSymbol ")" >>= fun _ => pure (Scalar.call function distinct (withDatePart function args))) :=
    fun args => (local_expectSymbol ")").closed fun _ => Local.pure Balanced.nil
  apply Local.ifLook (fun c => c.isSymbol ")") (fun c => c.isSymbol ")")
  · intro c d hcontinues _
    exact hcontinues.isSymbol hends (by decide)
  · intro _ _
    exact hclosed []
  · intro _ _
    exact (local_commaList hends repeats_balanced (Balanced.single (by decide) (by decide))
      (local_argument hends h)).inside hclosed

theorem local_caseElse (hends : Ends rest) (h : LocalInner rest n m inner inner') :
    Local rest none n m Balanced (caseElse inner) (caseElse inner') := by
  apply (local_eatKeyword hends (by decide)).andThen
  intro given
  have hend : forall otherwise : Option Scalar, Local rest none n m Balanced
      (expectKeyword "END" >>= fun _ => pure otherwise)
      (expectKeyword "END" >>= fun _ => pure otherwise) :=
    fun otherwise => (local_expectKeyword "END").balanced.andThen fun _ => Local.pure Balanced.nil
  cases given with
  | true =>
      exact (h.scalar.balanced.map some).andThen hend
  | false =>
      exact hend none

theorem local_caseBranch {condition condition' : Parser α} (h : LocalInner rest n m inner inner')
    (hcondition : Local rest none n m Neat condition condition') :
    Local rest none n m Balanced (caseBranch inner condition) (caseBranch inner' condition') := by
  apply hcondition.balanced.andThen
  intro c
  apply (local_expectKeyword "THEN").balanced.andThen
  intro _
  apply h.scalar.balanced.andThen
  intro e
  exact Local.pure Balanced.nil

theorem local_caseExpression (hends : Ends rest) (h : LocalInner rest n m inner inner') :
    Local rest none (n + 1) (m + 1) Neat (caseExpression inner) (caseExpression inner') := by
  apply (local_expectKeyword "CASE").first
  intro _
  apply Local.ifLook (fun c => c.isKeyword "WHEN") (fun c => c.isKeyword "WHEN")
  · intro c d hcontinues _
    exact hcontinues.isKeyword hends (by decide)
  · intro _ _
    apply (local_manyWord hends (by decide) (local_caseBranch h h.predicate)).andThen
    intro whens
    apply (local_caseElse hends h).andThen
    intro otherwise
    exact Local.pure Balanced.nil
  · intro _ _
    apply h.scalar.balanced.andThen
    intro input
    apply (local_manyWord hends (by decide) (local_caseBranch h h.scalar)).andThen
    intro whens
    split
    · exact Local.failHere
    · apply (local_caseElse hends h).andThen
      intro otherwise
      exact Local.pure Balanced.nil

theorem local_parenthesized (h : LocalInner rest n m inner inner') :
    Local rest (some .opening) (n + 1) (m + 1) Neat (parenthesized inner) (parenthesized inner') := by
  apply (local_skip .opening).opened
  intro _
  apply h.scalar.balanced.inside
  intro e
  apply (local_expectSymbol ")").closed
  intro _
  exact Local.pure Balanced.nil

theorem local_wordOperand (hends : Ends rest) (h : LocalInner rest n m inner inner')
    {t t' : Token} (hword : t.kind = .word) (ht : t.mark = t'.mark) (pivot pivot' : Nat) :
    Local rest (some t.mark) (n + 1) (m + 1) Neat (wordOperand inner t pivot)
      (wordOperand inner' t' pivot') := by
  have hskip : Local rest (some t.mark) (n + 1) (m + 1) Neat (skip : Parser Unit) skip := by
    refine local_skipNeat ?_ ?_ <;>
      · intro hmark
        have hkind := congrArg Prod.fst hmark
        exact absurd (hword.symm.trans hkind) (by decide)
  have htext : t'.text = t.text := (congrArg Prod.snd ht).symm
  unfold wordOperand
  rw [Token.isWord_eq t', Token.isWord_eq t', Token.isIdentifier_eq t', <- ht, htext,
    <- Token.isWord_eq, <- Token.isWord_eq, <- Token.isIdentifier_eq]
  split
  · apply hskip.first
    intro _
    exact Local.pure Balanced.nil
  · split
    · exact (local_caseExpression hends h).anywhere
    · apply Local.ifLook (fun c => c.isSymbolAt 1 "(")
        (fun c => c.isSymbolAt 1 "(")
      · intro c d hcontinues hhere
        exact hcontinues.isSymbolAt hends (hhere t.mark rfl) (by decide)
      · intro _ _
        exact hskip.neatThen fun _ => (local_callArguments hends h t.text).balanced
      · intro _ _
        split
        · exact (local_columnReference hends).anywhere
        · exact Local.fail

/-- An operand that begins with the token. -/
def tokenOperand (inner : Inner) (t : Token) (pivot : Nat) : Parser Scalar :=
  match t.kind with
  | .number => do
      skip
      numberLiteral t.text pivot
  | .text => do
      skip
      return .literal (.str t.text)
  | .symbol =>
      if t.text == "(" then parenthesized inner
      else if t.text == "*" then do
        skip
        return .star
      else fail .invalidScalar pivot
  | .word => wordOperand inner t pivot
  | .quotedName => columnReference

theorem primary_eq (inner : Inner) (c : Cursor) :
    primary inner c = (match c.current with
      | none => fail .invalidScalar c.pivot
      | some t => tokenOperand inner t c.pivot : Parser Scalar) c :=
  rfl

theorem primary_some (inner : Inner) (c : Cursor) (t : Token) (hc : c.current = some t) :
    primary inner c = tokenOperand inner t t.start c := by
  rw [primary_eq, Cursor.pivot, hc]

theorem primary_none (inner : Inner) (c : Cursor) (hc : c.current = none) :
    primary inner c = failHere .invalidScalar c := by
  rw [primary_eq, hc]
  rfl

theorem local_tokenOperand (hends : Ends rest) (h : LocalInner rest n m inner inner')
    {t t' : Token} (ht : t.mark = t'.mark) (pivot pivot' : Nat) :
    Local rest (some t.mark) (n + 1) (m + 1) Neat (tokenOperand inner t pivot)
      (tokenOperand inner' t' pivot') := by
  have htext : t'.text = t.text := (congrArg Prod.snd ht).symm
  have hkind : t'.kind = t.kind := (congrArg Prod.fst ht).symm
  have hskip : t.kind ≠ .symbol ->
      Local rest (some t.mark) (n + 1) (m + 1) Neat (skip : Parser Unit) skip := fun hsymbol =>
    local_skipNeat (fun hmark => hsymbol (congrArg Prod.fst hmark))
      fun hmark => hsymbol (congrArg Prod.fst hmark)
  unfold tokenOperand
  rw [hkind, htext]
  cases ht' : t.kind with
  | number =>
      exact (hskip (by rw [ht']; decide)).neatThen fun _ => local_numberLiteral t.text pivot pivot'
  | text =>
      exact (hskip (by rw [ht']; decide)).neatThen fun _ => Local.pure Balanced.nil
  | symbol =>
      have hmark : t.mark = (.symbol, t.text) := by
        rw [Token.mark, ht']
      dsimp only
      split
      · rename_i hopening
        rw [hmark, eq_of_beq hopening]
        exact local_parenthesized h
      · split
        · rename_i hstar
          refine (local_skipNeat ?_ ?_).neatThen fun _ => Local.pure Balanced.nil <;>
            · rw [hmark, eq_of_beq hstar]
              decide
        · exact Local.fail
  | word =>
      exact local_wordOperand hends h ht' ht pivot pivot'
  | quotedName =>
      exact (local_columnReference hends).anywhere

theorem local_primary (hends : Ends rest) (h : LocalInner rest n m inner inner') :
    Local rest none (n + 1) (m + 1) Neat (primary inner) (primary inner') := by
  refine Local.onToken (primary_some inner) (primary_some inner') (primary_none inner)
    (primary_none inner') (fun t t' ht => local_tokenOperand hends h ht _ _) Local.failHere ?_ hends
  intro t c d _ hc hd hcontinues
  refine Meets.beyond hcontinues hd ?_ fun a d' => failHere_ne_ok
  intro a c' ha
  have hhere : At (some t.mark) c := by
    rintro k ⟨⟩
    rw [Cursor.head?_marks, hc]
    rfl
  exact (local_tokenOperand hends h rfl t.start t.start).long.length_lt ha hhere

/-!
# Signs, products and sums
-/

theorem local_signedOperand (hends : Ends rest) (h : LocalInner rest n m inner inner') :
    Local rest none (n + 1) (m + 1) Neat (signedOperand inner) (signedOperand inner') := by
  apply (local_manySymbol hends (by decide) (by decide) (by decide)
    (Local.pure Balanced.nil)).thenFirst
  intro minuses
  apply (local_eatSymbol hends (by decide) (by decide) (by decide)).thenFirst
  intro _
  apply (local_primary hends h).neatThen
  intro e
  apply (local_eatKeyword hends (by decide)).andThen
  intro collated
  cases collated with
  | true =>
      exact local_name.balanced.andThen fun _ => Local.pure Balanced.nil
  | false =>
      exact Local.pure Balanced.nil

theorem local_product (hends : Ends rest) (h : LocalInner rest n m inner inner') :
    Local rest none (n + 1) (m + 1) Neat (product inner) (product inner') :=
  (local_signedOperand hends h).neatThen fun left =>
    local_chain hends isOperator_multiplicative (local_signedOperand hends h).balanced left

theorem local_sum (hends : Ends rest) (h : LocalInner rest n m inner inner') :
    Local rest none (n + 1) (m + 1) Neat (sum inner) (sum inner') :=
  (local_product hends h).neatThen fun left =>
    local_chain hends isOperator_additive (local_product hends h).balanced left

/-!
# Conditions
-/

theorem local_containsCondition (hends : Ends rest) (h : LocalInner rest n m inner inner') :
    Local rest none (n + 1) (m + 1) Neat (containsCondition inner) (containsCondition inner') := by
  apply Local.afterLook
  intro _ _
  apply (local_expectKeyword "CONTAINS").neatThen
  intro _
  refine ((local_expectSymbol "(").opened (n := n) (m := m) fun _ => ?_).balanced
  apply (local_sum hends h).fewer.balanced.inside
  intro e
  cases e with
  | column c =>
      have hcomma : Local rest none n m Balanced (expectSymbol ",") (expectSymbol ",") := by
        refine (local_expectSymbol ",").mono (Nat.le_refl n) (Nat.le_refl m) ?_
        rintro _ rfl
        exact Balanced.single (by decide) (by decide)
      apply hcomma.inside
      intro _
      apply (local_sum hends h).fewer.balanced.inside
      intro wanted
      apply (local_expectSymbol ")").closed
      intro _
      exact Local.pure Balanced.nil
  | _ =>
      exact Local.fail

theorem local_conditionTail (hends : Ends rest) (h : LocalInner rest n m inner inner')
    (left : Scalar) :
    Local rest none (n + 1) (m + 1) Balanced (conditionTail inner left)
      (conditionTail inner' left) := by
  have hsum := (local_sum hends h).balanced
  apply Local.afterLook
  intro _ _
  apply (spots_comparisonSign.toLocal hends (fun _ _ => isOperator_sign.balanced)
    fun _ => isOperator_sign.ends).andThen
  intro sign
  cases sign with
  | some op =>
      exact hsum.andThen fun _ => Local.pure Balanced.nil
  | none =>
      apply (local_eatKeyword hends (by decide)).andThen
      intro isTest
      cases isTest with
      | true =>
          apply (local_eatKeyword hends (by decide)).andThen
          intro negated
          apply (local_expectKeyword "NULL").balanced.andThen
          intro _
          exact Local.pure Balanced.nil
      | false =>
          apply (local_eatKeyword hends (by decide)).andThen
          intro negated
          apply (local_eatKeyword hends (by decide)).andThen
          intro isIn
          cases isIn with
          | true =>
              refine ((local_expectSymbol "(").opened (n := n) (m := m) fun _ => ?_).balanced
              apply (local_commaList hends repeats_balanced
                (Balanced.single (by decide) (by decide)) hsum).fewer.inside
              intro items
              apply (local_expectSymbol ")").closed
              intro _
              exact Local.pure Balanced.nil
          | false =>
              apply (local_eatKeyword hends (by decide)).andThen
              intro isLike
              cases isLike with
              | true =>
                  exact hsum.andThen fun _ => Local.pure Balanced.nil
              | false =>
                  apply (local_eatKeyword hends (by decide)).andThen
                  intro isBetween
                  cases isBetween with
                  | true =>
                      apply hsum.andThen
                      intro low
                      apply (local_expectKeyword "AND").balanced.andThen
                      intro _
                      apply hsum.andThen
                      intro high
                      exact Local.pure Balanced.nil
                  | false =>
                      exact Local.fail

/-- A condition that does not stand in parentheses. -/
def openCondition (inner : Inner) : Parser Predicate := do
  let c <- get
  if c.isKeyword "CONTAINS" && c.isSymbolAt 1 "(" then containsCondition inner
  else
    let left <- sum inner
    conditionTail inner left

theorem local_openCondition (hends : Ends rest) (h : LocalInner rest n m inner inner') :
    Local rest none (n + 1) (m + 1) Neat (openCondition inner) (openCondition inner') := by
  apply Local.ifLook (fun c => c.isKeyword "CONTAINS" && c.isSymbolAt 1 "(")
    (fun c => c.isKeyword "CONTAINS" && c.isSymbolAt 1 "(")
  · intro c d hcontinues _
    refine Continues.look_and hcontinues (hcontinues.isKeyword hends (by decide)) (fun hd => ?_)
      fun k hd => hcontinues.isSymbolAt hends hd (by decide)
    rw [Cursor.isKeyword_eq, hd]
    rfl
  · intro _ _
    exact local_containsCondition hends h
  · intro _ _
    exact (local_sum hends h).neatThen fun left => local_conditionTail hends h left

theorem continuesOperand_eq (c : Cursor) :
    continuesOperand c = c.marks.head?.any fun k =>
      if k.1 == .symbol then
        (Arithmetic.ofAdditive? k.2).isSome || (Arithmetic.ofMultiplicative? k.2).isSome ||
          (Comparison.ofSign? k.2).isSome
      else
        k.isWord "IS" || k.isWord "IN" || k.isWord "LIKE" || k.isWord "BETWEEN" ||
          (k.isWord "NOT" &&
            (c.isKeywordAt 1 "IN" || c.isKeywordAt 1 "LIKE" || c.isKeywordAt 1 "BETWEEN")) := by
  rw [continuesOperand, Cursor.head?_marks]
  cases c.current with
  | none =>
      rfl
  | some t =>
      rfl

theorem continuesOperand_of_continues {c d : Cursor} (hends : Ends rest)
    (h : Continues rest c d) : continuesOperand c = continuesOperand d := by
  rw [continuesOperand_eq, continuesOperand_eq]
  rcases h.head?_cases with ⟨k, hd, hc⟩ | ⟨hd, hc⟩
  · rw [h.isKeywordAt hends hd (by decide), h.isKeywordAt hends hd (by decide),
      h.isKeywordAt hends hd (by decide), hd, hc]
  · rw [hd, hc]
    cases hrest : rest.head? with
    | none =>
        rfl
    | some k =>
        have hk := hends k hrest
        have hword : forall word, startsNothing word = true -> k.isWord word = false :=
          fun word => Mark.isWord_of_endsStatement hk
        have hsymbol : forall (β : Type) (known : String -> Option β), IsOperator known ->
            (k.1 == .symbol) = true -> known k.2 = none := by
          intro β known hknown hkind
          have hnone := hknown.ends hk
          rw [symbolValue, if_pos hkind] at hnone
          exact hnone
        simp only [Option.any_some, List.head?_nil, Option.any_none]
        split
        · rename_i hkind
          rw [hsymbol _ _ isOperator_additive hkind, hsymbol _ _ isOperator_multiplicative hkind,
            hsymbol _ _ isOperator_sign hkind]
          rfl
        · rw [hword "IS" (by decide), hword "IN" (by decide), hword "LIKE" (by decide),
            hword "BETWEEN" (by decide), hword "NOT" (by decide)]
          rfl

/-- The parenthesis at the cursor holds a condition that is not an operand of another one. -/
def Encloses (inner : Inner) (c : Cursor) (p : Predicate) (c' : Cursor) : Prop :=
  c.marks.head? = some .opening ∧ continuesOperand c' = false ∧
    exists closing, inner.predicate c.advance = .ok p closing ∧
      closing.marks.head? = some .closing ∧ c' = closing.advance

theorem head?_of_isSymbol {c : Cursor} {symbol : String} (h : c.isSymbol symbol = true) :
    c.marks.head? = some (.symbol, symbol) := by
  rw [Cursor.isSymbol_eq, Option.any_eq_true] at h
  rcases h with ⟨k, hk, hsymbol⟩
  rw [hk, eq_of_beq hsymbol]

theorem isSymbol_of_head? {c : Cursor} {symbol : String}
    (h : c.marks.head? = some (.symbol, symbol)) : c.isSymbol symbol = true := by
  rw [Cursor.isSymbol_eq, h]
  exact beq_self_eq_true _

theorem length_advance {c : Cursor} {k : Mark} (hk : c.marks.head? = some k)
    (hc : c.ahead.length ≤ n + 1) : c.advance.ahead.length ≤ n := by
  rcases moves_advance hk with ⟨t, ht, _⟩
  rw [ht.ahead, List.length_append, List.length_singleton] at hc
  omega

/-- What the parser does with what it has read in parentheses. -/
def closeEnclosed (start : Cursor) : Option Predicate -> Parser (Option Predicate)
  | some p => do
      if (<- eatSymbol ")") && !continuesOperand (<- get) then return some p
      else
        set start
        return none
  | none => do
      set start
      return none

theorem enclosed_eq (inner : Inner) {c : Cursor} (h : c.isSymbol "(" = true) :
    enclosed inner c = (attempt inner.predicate >>= closeEnclosed c) c.advance := by
  change (if c.isSymbol "(" = true then _ else _ : Parser (Option Predicate)) c = _
  rw [if_pos h]
  change (attempt inner.predicate >>= _) c.advance = _
  congr 2

theorem closeEnclosed_some (start : Cursor) (p : Predicate) (c : Cursor) :
    closeEnclosed start (some p) c =
      if c.isSymbol ")" = true then
        if continuesOperand c.advance = true then .ok none start else .ok (some p) c.advance
      else .ok none start := by
  have heat := eats_symbol ")" c
  rw [<- Cursor.isSymbol_eq] at heat
  change EStateM.bind (eatSymbol ")") _ c = _
  rw [EStateM.bind, heat]
  cases c.isSymbol ")" with
  | true =>
      change (if (true && !continuesOperand c.advance) = true then _ else _ :
        Parser (Option Predicate)) c.advance = _
      cases continuesOperand c.advance <;> rfl
  | false =>
      rfl

theorem enclosed_cases (inner : Inner) (c : Cursor) :
    (exists p c', Encloses inner c p c' ∧ enclosed inner c = .ok (some p) c') ∨
      (forall p c', ¬ Encloses inner c p c') ∧ enclosed inner c = .ok none c := by
  by_cases hopening : c.isSymbol "(" = true
  · cases hpredicate : inner.predicate c.advance with
    | error e c' =>
        right
        constructor
        · rintro p c' ⟨_, _, closing, hclosing, _⟩
          rw [hpredicate] at hclosing
          cases hclosing
        · rw [enclosed_eq inner hopening]
          refine bind_eq_ok.mpr ⟨none, c', ?_, rfl⟩
          rw [attempt, hpredicate]
    | ok p closing =>
        have hattempt : enclosed inner c = closeEnclosed c (some p) closing := by
          rw [enclosed_eq inner hopening]
          change EStateM.bind (attempt inner.predicate) (closeEnclosed c) c.advance = _
          rw [EStateM.bind, attempt, hpredicate]
        rw [hattempt, closeEnclosed_some]
        split
        · rename_i hclosing
          split
          · rename_i hcontinues
            right
            refine ⟨?_, rfl⟩
            rintro p' c' ⟨_, hnot, closing', hclosing', _, rfl⟩
            cases hpredicate.symm.trans hclosing'
            rw [hnot] at hcontinues
            cases hcontinues
          · rename_i hnot
            left
            exact ⟨p, closing.advance, ⟨head?_of_isSymbol hopening, Bool.not_eq_true _ ▸ hnot,
              closing, hpredicate, head?_of_isSymbol hclosing, rfl⟩, rfl⟩
        · rename_i hclosing
          right
          refine ⟨?_, rfl⟩
          rintro p' c' ⟨_, _, closing', hclosing', hhere, rfl⟩
          cases hpredicate.symm.trans hclosing'
          exact hclosing (isSymbol_of_head? hhere)
  · right
    constructor
    · rintro p c' ⟨hhere, _⟩
      exact hopening (isSymbol_of_head? hhere)
    · change (if c.isSymbol "(" = true then _ else _ : Parser (Option Predicate)) c = _
      rw [if_neg hopening]
      rfl

namespace Encloses

variable {c c' c'' d d' : Cursor} {p q : Predicate}

theorem unique (h : Encloses inner c p c') (h' : Encloses inner c q c'') : p = q ∧ c' = c'' := by
  rcases h with ⟨_, _, closing, hp, _, rfl⟩
  rcases h' with ⟨_, _, closing', hq, _, rfl⟩
  cases hp.symm.trans hq
  exact ⟨rfl, rfl⟩

theorem moves (h : Encloses inner c p c') (htakes : Takes none Neat inner.predicate) :
    exists used inside, Moves used c c' ∧ Balanced inside ∧
      used.map Token.mark = .opening :: (inside ++ [.closing]) := by
  rcases h with ⟨hopening, _, closing, hpredicate, hclosing, rfl⟩
  rcases moves_advance hopening with ⟨first, hfirst, hfirstMark⟩
  rcases htakes c.advance (at_none _) p closing hpredicate with ⟨inside, hinside, hneat⟩
  rcases moves_advance hclosing with ⟨last, hlast, hlastMark⟩
  refine ⟨[first] ++ inside ++ [last], inside.map Token.mark,
    (hfirst.trans hinside).trans hlast, hneat.balanced, ?_⟩
  rw [List.map_append, List.map_append, List.map_singleton, List.map_singleton, hfirstMark,
    hlastMark]
  rfl

theorem back (hends : Ends rest) (h : LocalInner rest n m inner inner')
    (hcontinues : Continues rest c d) (hc : c.ahead.length ≤ n + 1) (hd : d.ahead.length ≤ m + 1)
    (hencloses : Encloses inner' d p d') :
    exists c', Encloses inner c p c' ∧ Continues rest c' d' := by
  rcases hencloses with ⟨hopening, hoperand, closing, hpredicate, hclosing, rfl⟩
  have hopening' : c.marks.head? = some .opening := by
    rcases hcontinues.head?_cases with ⟨k, hdk, hck⟩ | ⟨hnil, _⟩
    · rw [hck, <- hdk, hopening]
    · rw [hnil] at hopening
      cases hopening
  have hinside := h.predicate.meets c.advance d.advance (continues_advance hcontinues hopening)
    (at_none _) (length_advance hopening' hc) (length_advance hopening hd)
  rcases hinside.back p closing hpredicate with ⟨closing', hpredicate', hcontinues'⟩
  have hclosing' : closing'.marks.head? = some .closing := by
    rcases hcontinues'.head?_cases with ⟨k, hdk, hck⟩ | ⟨hnil, _⟩
    · rw [hck, <- hdk, hclosing]
    · rw [hnil] at hclosing
      cases hclosing
  have hnext := continues_advance hcontinues' hclosing
  refine ⟨closing'.advance, ⟨hopening', ?_, closing', hpredicate', hclosing', rfl⟩, hnext⟩
  rw [continuesOperand_of_continues hends hnext, hoperand]

theorem onward (hends : Ends rest) (h : LocalInner rest n m inner inner')
    (hcontinues : Continues rest c d) (hc : c.ahead.length ≤ n + 1) (hd : d.ahead.length ≤ m + 1)
    (hopening : d.marks.head? = some .opening) (hencloses : Encloses inner c p c')
    (hlength : rest.length ≤ c'.ahead.length) :
    exists d', Encloses inner' d p d' ∧ Continues rest c' d' := by
  rcases hencloses with ⟨hopening', hoperand, closing, hpredicate, hclosing, rfl⟩
  have hinside := h.predicate.meets c.advance d.advance (continues_advance hcontinues hopening)
    (at_none _) (length_advance hopening' hc) (length_advance hopening hd)
  rcases moves_advance hclosing with ⟨last, hlast, _⟩
  have hless := congrArg List.length hlast.ahead
  rw [List.length_append, List.length_singleton] at hless
  rcases hinside.onward p closing hpredicate (by omega) with ⟨closing', hpredicate', hcontinues'⟩
  have hclosing' : closing'.marks.head? = some .closing := by
    rcases hcontinues'.head?_cases with ⟨k, hdk, hck⟩ | ⟨hnil, _⟩
    · rw [hdk, <- hck, hclosing]
    · have hsame := hcontinues'.length_eq
      rw [<- Cursor.length_marks closing', hnil, List.length_nil] at hsame
      omega
  have hnext := continues_advance hcontinues' hclosing'
  refine ⟨closing'.advance, ⟨hopening, ?_, closing', hpredicate', hclosing', rfl⟩, hnext⟩
  rw [<- continuesOperand_of_continues hends hnext, hoperand]

end Encloses

/-- A condition in parentheses, or else one that is not. -/
theorem condition_eq_ok {c c' : Cursor} {p : Predicate} :
    condition inner c = .ok p c' <->
      Encloses inner c p c' ∨
        (forall q c'', ¬ Encloses inner c q c'') ∧ openCondition inner c = .ok p c' := by
  change EStateM.bind (enclosed inner) _ c = _ <-> _
  rw [EStateM.bind]
  rcases enclosed_cases inner c with ⟨q, c'', hencloses, henclosed⟩ | ⟨hnone, henclosed⟩
  · rw [henclosed]
    constructor
    · intro h
      cases h
      exact Or.inl hencloses
    · rintro (h | ⟨hnone, _⟩)
      · rcases hencloses.unique h with ⟨rfl, rfl⟩
        rfl
      · exact absurd hencloses (hnone q c'')
  · rw [henclosed]
    constructor
    · intro h
      exact Or.inr ⟨hnone, h⟩
    · rintro (h | ⟨_, h⟩)
      · exact absurd h (hnone p c')
      · exact h

theorem takes_condition (hpredicate : Takes none Neat inner.predicate)
    (hopen : Takes none Neat (openCondition inner)) : Takes none Neat (condition inner) := by
  intro c hc p c' hp
  rcases condition_eq_ok.mp hp with hencloses | ⟨_, hp⟩
  · rcases hencloses.moves hpredicate with ⟨used, inside, hused, hinside, hmarks⟩
    refine ⟨used, hused, ?_, ?_⟩
    · rw [hmarks]
      exact Nat.le_add_left _ _
    · rw [hmarks]
      exact hinside.enclosed
  · exact hopen c hc p c' hp

/--
An operand that begins with a parenthesis has closed it again when it ends, so that a condition in
that parenthesis does not reach beyond the operand either.
-/
theorem Encloses.length_le {c c' c'' : Cursor} {p q : Predicate}
    (htakes : Takes none Neat inner.predicate) (hopen : Takes none Neat (openCondition inner))
    (hencloses : Encloses inner c p c') (hq : openCondition inner c = .ok q c'') :
    c''.ahead.length ≤ c'.ahead.length := by
  rcases hencloses.moves htakes with ⟨used, inside, hused, hinside, hmarks⟩
  rcases hopen c (at_none c) q c'' hq with ⟨more, hmore, hneat⟩
  have hsame := hused.marks.symm.trans hmore.marks
  rw [hmarks] at hsame
  cases hmap : more.map Token.mark with
  | nil =>
      have hlength := hneat.nonempty
      rw [hmap] at hlength
      exact absurd hlength (Nat.not_succ_le_zero 0)
  | cons k marks =>
      have hbalanced := hneat.balanced
      rw [hmap] at hsame hbalanced
      rw [List.cons_append, List.cons_append] at hsame
      rcases List.cons.inj hsame with ⟨rfl, hrest⟩
      rcases hbalanced.exists_closing with ⟨front, back, rfl, hfront⟩
      rw [List.append_assoc, List.append_assoc] at hrest
      have hback : c'.marks = back ++ c''.marks := (hinside.closing_unique hfront hrest).2
      have hlength := congrArg List.length hback
      rw [List.length_append, Cursor.length_marks, Cursor.length_marks] at hlength
      omega

theorem local_condition (hends : Ends rest) (h : LocalInner rest n m inner inner') :
    Local rest none (n + 1) (m + 1) Neat (condition inner) (condition inner') := by
  have hopen := local_openCondition hends h
  refine ⟨takes_condition h.predicate.long hopen.long, takes_condition h.predicate.short hopen.short,
    fun c d hcontinues hhere hc hd => ?_⟩
  have hmeets := hopen.meets c d hcontinues hhere hc hd
  constructor
  · intro p c' hp hlength
    rcases condition_eq_ok.mp hp with hencloses | ⟨hnone, hp⟩
    · have hopening : d.marks.head? = some .opening := by
        rcases hcontinues.head?_cases with ⟨k, hdk, hck⟩ | ⟨_, hrest⟩
        · rw [hdk, <- hck, hencloses.1]
        · rcases hencloses.moves h.predicate.long with ⟨used, inside, hused, _, hmarks⟩
          have hless := congrArg List.length hused.marks
          rw [hrest, hmarks, List.cons_append, List.length_cons, List.length_append,
            Cursor.length_marks] at hless
          omega
      rcases hencloses.onward hends h hcontinues hc hd hopening hlength with
        ⟨d', hencloses', hcontinues'⟩
      exact ⟨d', condition_eq_ok.mpr (Or.inl hencloses'), hcontinues'⟩
    · rcases hmeets.onward p c' hp hlength with ⟨d', hp', hcontinues'⟩
      refine ⟨d', condition_eq_ok.mpr (Or.inr ⟨?_, hp'⟩), hcontinues'⟩
      intro q d'' hencloses
      rcases hencloses.back hends h hcontinues hc hd with ⟨c'', hencloses', _⟩
      exact hnone q c'' hencloses'
  · intro p d' hp
    rcases condition_eq_ok.mp hp with hencloses | ⟨hnone, hp⟩
    · rcases hencloses.back hends h hcontinues hc hd with ⟨c', hencloses', hcontinues'⟩
      exact ⟨c', condition_eq_ok.mpr (Or.inl hencloses'), hcontinues'⟩
    · rcases hmeets.back p d' hp with ⟨c', hp', hcontinues'⟩
      refine ⟨c', condition_eq_ok.mpr (Or.inr ⟨?_, hp'⟩), hcontinues'⟩
      intro q c'' hencloses
      have hopening : d.marks.head? = some .opening := by
        rcases hcontinues.head?_cases with ⟨k, hdk, hck⟩ | ⟨hnil, _⟩
        · rw [hdk, <- hck, hencloses.1]
        · rcases hopen.short d (at_none d) p d' hp with ⟨used, hused, hneat⟩
          have hless := congrArg List.length hused.marks
          have hlength := hneat.nonempty
          rw [hnil, List.length_append, List.length_nil] at hless
          omega
      have hlength := hencloses.length_le h.predicate.long hopen.long hp'
      have hsame := hcontinues'.length_eq
      rcases hencloses.onward hends h hcontinues hc hd hopening (by omega) with ⟨d'', hencloses', _⟩
      exact hnone q d'' hencloses'

theorem local_negation (hends : Ends rest) (h : LocalInner rest n m inner inner') :
    Local rest none (n + 1) (m + 1) Neat (negation inner) (negation inner') := by
  apply (local_manyWord hends (by decide) (Local.pure Balanced.nil)).thenFirst
  intro nots
  apply (local_condition hends h).neatThen
  intro p
  exact Local.pure Balanced.nil

theorem local_conjunction (hends : Ends rest) (h : LocalInner rest n m inner inner') :
    Local rest none (n + 1) (m + 1) Neat (conjunction inner) (conjunction inner') := by
  apply (local_negation hends h).neatThen
  intro first
  apply (local_manyWord hends (by decide) (local_negation hends h).balanced).andThen
  intro others
  exact Local.pure Balanced.nil

theorem local_disjunction (hends : Ends rest) (h : LocalInner rest n m inner inner') :
    Local rest none (n + 1) (m + 1) Neat (disjunction inner) (disjunction inner') := by
  apply (local_conjunction hends h).neatThen
  intro first
  apply (local_manyWord hends (by decide) (local_conjunction hends h).balanced).andThen
  intro others
  exact Local.pure Balanced.nil

end

/-!
# The knot
-/

theorem LocalInner.tie (hends : Ends rest) {tokens tokens' : List Token} (t t' : Token)
    (h : LocalInner rest tokens.length tokens'.length (innerAt tokens) (innerAt tokens')) :
    LocalInner rest (tokens.length + 1) (tokens'.length + 1) (innerAt (t :: tokens))
      (innerAt (t' :: tokens')) :=
  ⟨local_sum hends h, local_disjunction hends h⟩

theorem ends_nil : Ends [] := by
  rintro m ⟨⟩

theorem localInner_self (tokens : List Token) :
    LocalInner [] tokens.length tokens.length (innerAt tokens) (innerAt tokens) := by
  induction tokens with
  | nil =>
      exact ⟨Local.failHere, Local.failHere⟩
  | cons t tokens ih =>
      exact ih.tie ends_nil t t

theorem Meets.nothing {p q : Parser α} {c d : Cursor} (hcontinues : Continues rest c d)
    (hd : d.ahead = []) (hlong : Takes none Neat p) (hshort : Takes none Neat q) :
    Meets rest p q c d := by
  refine Meets.beyond hcontinues ?_ (fun a c' ha => hlong.length_lt ha (at_none c)) ?_
  · rw [Cursor.marks, hd]
    rfl
  · intro a d' ha
    have hless := hshort.length_lt ha (at_none d)
    rw [hd] at hless
    exact Nat.not_lt_zero _ hless

theorem localInner_innerAt (hends : Ends rest) (tokens : List Token) :
    forall tokens', LocalInner rest tokens.length tokens'.length (innerAt tokens)
      (innerAt tokens') := by
  have hnothing : forall (tokens tokens' : List Token), tokens = [] ∨ tokens' = [] ->
      LocalInner rest tokens.length tokens'.length (innerAt tokens) (innerAt tokens') := by
    intro tokens tokens' hempty
    have hself := localInner_self tokens
    have hself' := localInner_self tokens'
    have hmeets : forall {c d : Cursor}, Continues rest c d -> c.ahead.length ≤ tokens.length ->
        d.ahead.length ≤ tokens'.length -> d.ahead = [] := by
      intro c d hcontinues hc hd
      have hsame := hcontinues.length_eq
      apply List.eq_nil_of_length_eq_zero
      rcases hempty with rfl | rfl
      · rw [List.length_nil] at hc
        omega
      · rw [List.length_nil] at hd
        omega
    exact ⟨⟨hself.scalar.long, hself'.scalar.long, fun c d hcontinues _ hc hd =>
        Meets.nothing hcontinues (hmeets hcontinues hc hd) hself.scalar.long hself'.scalar.long⟩,
      ⟨hself.predicate.long, hself'.predicate.long, fun c d hcontinues _ hc hd =>
        Meets.nothing hcontinues (hmeets hcontinues hc hd) hself.predicate.long
          hself'.predicate.long⟩⟩
  induction tokens with
  | nil =>
      intro tokens'
      exact hnothing [] tokens' (Or.inl rfl)
  | cons t tokens ih =>
      intro tokens'
      cases tokens' with
      | nil =>
          exact hnothing (t :: tokens) [] (Or.inr rfl)
      | cons t' tokens' =>
          exact (ih tokens').tie hends t t'

theorem local_scalar (hends : Ends rest) : Local rest none n m Neat scalar scalar := by
  have htakes : Takes none Neat scalar := fun c hc =>
    (localInner_self c.ahead).scalar.long c hc
  refine ⟨htakes, htakes, fun c d hcontinues hhere _ _ => ?_⟩
  exact ((localInner_innerAt hends c.ahead d.ahead).scalar.meets c d hcontinues hhere
    (Nat.le_refl _) (Nat.le_refl _)).congr rfl rfl

theorem local_predicate (hends : Ends rest) : Local rest none n m Neat predicate predicate := by
  have htakes : Takes none Neat predicate := fun c hc =>
    (localInner_self c.ahead).predicate.long c hc
  refine ⟨htakes, htakes, fun c d hcontinues hhere _ _ => ?_⟩
  exact ((localInner_innerAt hends c.ahead d.ahead).predicate.meets c d hcontinues hhere
    (Nat.le_refl _) (Nat.le_refl _)).congr rfl rfl

end Parser
end Sql
end RecordSql
