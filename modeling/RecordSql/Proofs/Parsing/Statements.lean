import RecordSql.Proofs.Parsing.Expressions
import RecordSql.Sql.StatementParser

/-!
# Statements end in front of the next one

Aliases, hints, joins and clauses are found by looking at most one token ahead, and what is looked
for never begins a statement.
-/

namespace RecordSql
namespace Sql
namespace Parser

variable {α β : Type} {rest : List Mark} {n m : Nat}

/-!
# Tables
-/

theorem local_hint : Local rest none n m Neat hint hint := by
  apply Local.afterLook
  intro _ _
  apply local_name.neatThen
  intro word
  split
  · exact Local.pure Balanced.nil
  · exact Local.fail

/-- The parenthesis with the hints. -/
def hintList : Parser Bool := do
  expectSymbol "("
  let _ <- commaList hint
  expectSymbol ")"
  return true

theorem local_hintList (hends : Ends rest) :
    Local rest none (n + 1) (m + 1) Neat hintList hintList := by
  apply (local_expectSymbol "(").opened
  intro _
  apply (local_commaList hends repeats_balanced (Balanced.single (by decide) (by decide))
    local_hint.balanced).inside
  intro _
  apply (local_expectSymbol ")").closed
  intro _
  exact Local.pure Balanced.nil

/-- The word in front of the hints may be taken as any word is. -/
theorem tableHints_eq : tableHints = (get >>= fun c : Cursor =>
    if (c.isKeyword "WITH" && c.isSymbolAt 1 "(") = true then eatKeyword "WITH" >>= fun _ => hintList
    else (get >>= fun c : Cursor =>
      if (c.isSymbol "(" && c.isKeywordAt 1 "NOLOCK") = true then hintList else pure false)) := by
  funext c
  have heat := eats_keyword "WITH" c
  rw [<- Cursor.isKeyword_eq] at heat
  change (if (c.isKeyword "WITH" && c.isSymbolAt 1 "(" || _) = true then
      if (c.isKeyword "WITH" && c.isSymbolAt 1 "(") = true then _ else _
    else _ : Parser Bool) c = (if _ then _ else _ : Parser Bool) c
  cases hwith : c.isKeyword "WITH" && c.isSymbolAt 1 "(" with
  | true =>
      rw [Bool.true_or, if_pos rfl, if_pos rfl, if_pos rfl]
      rw [if_pos (Bool.and_eq_true_iff.mp hwith).1] at heat
      change hintList c.advance = EStateM.bind (eatKeyword "WITH") _ c
      rw [EStateM.bind, heat]
  | false =>
      rw [Bool.false_or, if_neg Bool.false_ne_true, if_neg Bool.false_ne_true]
      rfl

theorem local_tableHints (hends : Ends rest) :
    Local rest none n m Balanced tableHints tableHints := by
  have hlist : Local rest none n m Balanced hintList hintList :=
    (local_hintList hends).fewer.balanced
  rw [tableHints_eq]
  apply Local.ifLook (fun c => c.isKeyword "WITH" && c.isSymbolAt 1 "(")
    (fun c => c.isKeyword "WITH" && c.isSymbolAt 1 "(")
  · intro c d hcontinues _
    refine Continues.look_and hcontinues (hcontinues.isKeyword hends (by decide)) (fun hd => ?_)
      fun k hd => hcontinues.isSymbolAt hends hd (by decide)
    rw [Cursor.isKeyword_eq, hd]
    rfl
  · intro _ _
    exact (local_eatKeyword hends (by decide)).andThen fun _ => hlist
  · intro _ _
    apply Local.ifLook (fun c => c.isSymbol "(" && c.isKeywordAt 1 "NOLOCK")
      (fun c => c.isSymbol "(" && c.isKeywordAt 1 "NOLOCK")
    · intro c d hcontinues _
      refine Continues.look_and hcontinues (hcontinues.isSymbol hends (by decide)) (fun hd => ?_)
        fun k hd => hcontinues.isKeywordAt hends hd (by decide)
      rw [Cursor.isSymbol_eq, hd]
      rfl
    · intro _ _
      exact hlist
    · intro _ _
      exact Local.pure Balanced.nil

/-- An alias, after the word in front of it was looked for. -/
def aliasAfter (explicit : Bool) : Parser (Option String) := do
  match (<- get).current with
  | some t =>
      if explicit && t.kind == .text then
        skip
        return some t.text
      else if t.isIdentifier then return some (<- name)
      else if explicit then failHere .expectedAlias
      else return none
  | none => if explicit then failHere .expectedAlias else return none

/-- An alias that begins with the token. -/
def tokenAlias (explicit : Bool) (t : Token) : Parser (Option String) := do
  if explicit && t.kind == .text then
    skip
    return some t.text
  else if t.isIdentifier then return some (<- name)
  else if explicit then failHere .expectedAlias
  else return none

def missingAlias (explicit : Bool) : Parser (Option String) := do
  if explicit then failHere .expectedAlias else return none

theorem local_missingAlias (explicit : Bool) :
    Local rest none n m Balanced (missingAlias explicit) (missingAlias explicit) := by
  unfold missingAlias
  split
  · exact Local.failHere
  · exact Local.pure Balanced.nil

theorem local_tokenAlias (explicit : Bool) {t t' : Token} (ht : t.mark = t'.mark) :
    Local rest (some t.mark) n m Balanced (tokenAlias explicit t) (tokenAlias explicit t') := by
  have htext : t'.text = t.text := (congrArg Prod.snd ht).symm
  have hkind : t'.kind = t.kind := (congrArg Prod.fst ht).symm
  unfold tokenAlias
  rw [Token.isIdentifier_eq t', <- ht, <- Token.isIdentifier_eq, htext, hkind]
  split
  · rename_i htextual
    have htextual := eq_of_beq (Bool.and_eq_true_iff.mp htextual).2
    refine (local_skipNeat ?_ ?_).balanced.andThen fun _ => Local.pure Balanced.nil <;>
      · intro hmark
        have hkind := congrArg Prod.fst hmark
        exact absurd (htextual.symm.trans hkind) (by decide)
  · split
    · exact local_name.anywhere.balanced.andThen fun _ => Local.pure Balanced.nil
    · exact (local_missingAlias explicit).anywhere

theorem tokenAlias_of_endsStatement (explicit : Bool) {t : Token}
    (h : t.mark.endsStatement = true) : tokenAlias explicit t = missingAlias explicit := by
  have hkind : (t.kind == .text) = false := by
    rcases Mark.kind_of_endsStatement h with hkind | hkind <;>
      · rw [show t.kind = _ from hkind]
        rfl
  unfold tokenAlias
  rw [Token.isIdentifier_eq, Mark.isIdentifier_of_endsStatement h, hkind, Bool.and_false,
    if_neg Bool.false_ne_true, if_neg Bool.false_ne_true]
  rfl

theorem local_alias (hends : Ends rest) :
    Local rest none n m Balanced Parser.alias Parser.alias := by
  have hsome : forall (explicit : Bool) (c : Cursor) (t : Token), c.current = some t ->
      aliasAfter explicit c = tokenAlias explicit t c := by
    intro explicit c t hc
    rw [aliasAfter, get_bind, hc]
    rfl
  have hnone : forall (explicit : Bool) (c : Cursor), c.current = none ->
      aliasAfter explicit c = missingAlias explicit c := by
    intro explicit c hc
    rw [aliasAfter, get_bind, hc]
    rfl
  have hafter : forall explicit : Bool,
      Local rest none n m Balanced (aliasAfter explicit) (aliasAfter explicit) := by
    intro explicit
    refine Local.onToken (hsome explicit) (hsome explicit) (hnone explicit) (hnone explicit)
      (fun t t' ht => local_tokenAlias explicit ht) (local_missingAlias explicit) ?_ hends
    intro t c d ht _ hd hcontinues
    rw [tokenAlias_of_endsStatement explicit ht]
    exact (local_missingAlias explicit).meets c d hcontinues (at_none d) (Nat.le_refl _)
      (Nat.le_refl _)
  exact (local_eatKeyword hends (by decide)).andThen hafter

theorem local_tableReference (hends : Ends rest) :
    Local rest none n m Neat tableReference tableReference := by
  apply local_name.neatThen
  intro first
  apply (local_manySymbol hends (by decide) (by decide) (by decide) local_name.balanced).andThen
  intro others
  apply (local_alias hends).andThen
  intro aliasName
  apply (local_tableHints hends).andThen
  intro noLock
  exact Local.pure Balanced.nil

/-!
# Joins
-/

theorem local_joinKind (hends : Ends rest) :
    Local rest none n m Balanced joinKind joinKind := by
  have hjoin : forall kind : JoinKind, Local rest none n m Balanced
      (expectKeyword "JOIN" >>= fun _ => pure (some kind))
      (expectKeyword "JOIN" >>= fun _ => pure (some kind)) := fun kind =>
    (local_expectKeyword "JOIN").balanced.andThen fun _ => Local.pure Balanced.nil
  have houter : forall kind : JoinKind, Local rest none n m Balanced
      (eatKeyword "OUTER" >>= fun _ => expectKeyword "JOIN" >>= fun _ => pure (some kind))
      (eatKeyword "OUTER" >>= fun _ => expectKeyword "JOIN" >>= fun _ => pure (some kind)) :=
    fun kind => (local_eatKeyword hends (by decide)).andThen fun _ => hjoin kind
  have hword : forall (word : String) {p q : Parser (Option JoinKind)}, startsNothing word = true ->
      Local rest none n m Balanced p p -> Local rest none n m Balanced q q ->
        Local rest none n m Balanced
          (eatKeyword word >>= fun found => if found = true then p else q)
          (eatKeyword word >>= fun found => if found = true then p else q) := by
    intro word p q hword hp hq
    apply (local_eatKeyword hends hword).andThen
    intro found
    cases found with
    | true =>
        exact hp
    | false =>
        exact hq
  apply hword "JOIN" (by decide) (Local.pure Balanced.nil)
  apply hword "INNER" (by decide) (hjoin .inner)
  apply hword "LEFT" (by decide) (houter .leftOuter)
  apply hword "RIGHT" (by decide) (houter .rightOuter)
  apply hword "FULL" (by decide) (houter .fullOuter)
  apply Local.ifLook (fun c => c.isKeyword "CROSS") (fun c => c.isKeyword "CROSS")
  · intro c d hcontinues _
    exact hcontinues.isKeyword hends (by decide)
  · intro _ _
    exact Local.failHere
  · intro _ _
    exact Local.pure Balanced.nil

/-- A join, after its kind. -/
def joinAfter (kind : JoinKind) : Parser Join := do
  let table <- tableReference
  expectKeyword "ON"
  let on <- predicate
  return ⟨kind, table, on⟩

theorem local_joinAfter (hends : Ends rest) (kind : JoinKind) :
    Local rest none n m Neat (joinAfter kind) (joinAfter kind) := by
  apply (local_tableReference hends).neatThen
  intro table
  apply (local_expectKeyword "ON").balanced.andThen
  intro _
  apply (local_predicate hends).balanced.andThen
  intro on
  exact Local.pure Balanced.nil

/-- What follows the kind of a join, if there was one. -/
def joinRound (others : Parser (List Join)) : Option JoinKind -> Parser (List Join)
  | none => return []
  | some kind => do
      let join <- joinAfter kind
      let rest <- others
      return join :: rest

theorem joins_cons (t : Token) (tokens : List Token) :
    joins (t :: tokens) = joinKind >>= joinRound (joins tokens) := by
  rw [joins]
  refine congrArg (joinKind >>= ·) (funext fun found => ?_)
  cases found with
  | none =>
      rfl
  | some kind =>
      simp only [joinRound, joinAfter, bind_assoc, pure_bind]

/-- A round of the joins, with enough tokens left to bound the others. -/
theorem joins_eq {tokens : List Token} {c : Cursor} (htokens : c.ahead.length ≤ tokens.length) :
    joins tokens c = (joinKind >>= joinRound (joins tokens.tail)) c := by
  cases tokens with
  | nil =>
      cases c with
      | mk source behind ahead =>
          cases List.eq_nil_of_length_eq_zero (Nat.le_zero.mp htokens)
          rfl
  | cons t tokens =>
      rw [joins_cons, List.tail_cons]

theorem takes_joinRound {others : Parser (List Join)} (hothers : Takes none Balanced others)
    (found : Option JoinKind) : Takes none Balanced (joinRound others found) := by
  cases found with
  | none =>
      exact Takes.pure Balanced.nil
  | some kind =>
      exact (local_joinAfter ends_nil kind (n := 0) (m := 0)).balanced.long.bind
        (fun _ => hothers.bind (fun _ => Takes.pure Balanced.nil) fun _ _ => Balanced.append)
        fun _ _ => Balanced.append

theorem takes_joins (tokens : List Token) : Takes none Balanced (joins tokens) := by
  induction tokens with
  | nil =>
      exact Takes.pure Balanced.nil
  | cons t tokens ih =>
      rw [joins_cons]
      exact (local_joinKind ends_nil (n := 0) (m := 0)).long.bind (takes_joinRound ih)
        fun _ _ => Balanced.append

theorem meets_joins (hends : Ends rest) (bound : Nat) :
    forall (tokens tokens' : List Token) (c d : Cursor), c.ahead.length < bound ->
      c.ahead.length ≤ tokens.length -> d.ahead.length ≤ tokens'.length -> Continues rest c d ->
        Meets rest (joins tokens) (joins tokens') c d := by
  induction bound with
  | zero =>
      intro tokens tokens' c d hbound
      exact absurd hbound (Nat.not_lt_zero _)
  | succ bound ih =>
      intro tokens tokens' c d hbound htokens htokens' hcontinues
      refine Meets.congr ?_ (joins_eq htokens) (joins_eq htokens')
      have hkind := local_joinKind hends (n := c.ahead.length) (m := d.ahead.length)
      refine (hkind.meets c d hcontinues (at_none d) (Nat.le_refl _) (Nat.le_refl _)).bind
        (takes_joinRound (takes_joins _)) fun found c₁ d₁ hfound hfound' hcontinues₁ => ?_
      cases found with
      | none =>
          exact Meets.pure hcontinues₁ []
      | some kind =>
          have hless := hkind.long.length_le hfound
          have hless' := hkind.short.length_le hfound'
          have hafter := local_joinAfter hends kind (n := c₁.ahead.length) (m := d₁.ahead.length)
          refine (hafter.meets c₁ d₁ hcontinues₁ (at_none d₁) (Nat.le_refl _) (Nat.le_refl _)).bind
            (P := Balanced)
            (fun _ => (takes_joins _).bind (fun _ => Takes.pure Balanced.nil)
              fun _ _ => Balanced.append)
            fun join c₂ d₂ hjoin hjoin' hcontinues₂ => ?_
          have hshorter := hafter.long.length_lt hjoin (at_none _)
          have hshorter' := hafter.short.length_lt hjoin' (at_none _)
          have htail := List.length_tail (l := tokens)
          have htail' := List.length_tail (l := tokens')
          exact (ih tokens.tail tokens'.tail c₂ d₂ (by omega) (by omega) (by omega)
            hcontinues₂).bind (P := Balanced) (fun _ => Takes.pure Balanced.nil)
            fun others _ _ _ _ hcontinues₃ => Meets.pure hcontinues₃ _

theorem local_joins (hends : Ends rest) :
    Local rest none n m Balanced (get >>= fun c : Cursor => joins c.ahead)
      (get >>= fun c : Cursor => joins c.ahead) := by
  refine ⟨fun c hc => takes_joins c.ahead c hc, fun d hd => takes_joins d.ahead d hd,
    fun c d hcontinues _ _ _ => ?_⟩
  exact (meets_joins hends _ c.ahead d.ahead c d (Nat.lt_succ_self _) (Nat.le_refl _)
    (Nat.le_refl _) hcontinues).congr rfl rfl

theorem local_source (hends : Ends rest) : Local rest none n m Neat source source :=
  (local_tableReference hends).neatThen fun _ =>
    (local_joins hends).andThen fun _ => Local.pure Balanced.nil

/-!
# Clauses
-/

/-- A whole number, after the parenthesis in front of it was looked for. -/
def integerAfter (wrapped : Bool) (pivot : Nat) : Option Int -> Parser Int
  | none => fail .expectedInteger pivot
  | some i => do
      skip
      if wrapped then expectSymbol ")"
      return i

/-- The whole number that the token stands for. -/
def integerOf (t : Token) : Option Int :=
  if t.kind == .number then Number.readInt t.text.toList else none

theorem integer_eq : integer = (get >>= fun start : Cursor => eatSymbol "(" >>= fun wrapped =>
    (get >>= fun c : Cursor => integerAfter wrapped start.pivot (c.current.bind integerOf))) := by
  refine congrArg (get >>= ·) (funext fun start => ?_)
  refine congrArg (eatSymbol "(" >>= ·) (funext fun wrapped => ?_)
  refine congrArg (get >>= ·) (funext fun c => ?_)
  cases c.current with
  | none =>
      rfl
  | some t =>
      change _ = integerAfter wrapped start.pivot (integerOf t)
      rw [integerOf]
      dsimp only
      cases (if t.kind == .number then Number.readInt t.text.toList else none : Option Int) with
      | none =>
          rfl
      | some i =>
          cases wrapped <;> rfl

theorem local_integer (hends : Ends rest) : Local rest none n m AnyMarks integer integer := by
  rw [integer_eq]
  apply Local.afterLook
  intro start start'
  have hopening : Local rest none n m AnyMarks (eatSymbol "(") (eatSymbol "(") :=
    ((eats_symbol "(").toLocal hends fun k hk =>
      Mark.isSymbol_of_endsStatement hk (by decide)).mono (Nat.le_refl n) (Nat.le_refl m)
      fun _ _ => trivial
  apply hopening.anyThen
  intro wrapped
  have hread : forall (pivot : Nat) (c : Cursor) (t : Token), c.current = some t ->
      (get >>= fun c : Cursor => integerAfter wrapped pivot (c.current.bind integerOf)) c =
        integerAfter wrapped pivot (integerOf t) c := by
    intro pivot c t hc
    change integerAfter wrapped pivot (c.current.bind integerOf) c = _
    rw [hc, Option.bind_some]
  have hnone : forall (pivot : Nat) (c : Cursor), c.current = none ->
      (get >>= fun c : Cursor => integerAfter wrapped pivot (c.current.bind integerOf)) c =
        (fail .expectedInteger pivot : Parser Int) c := by
    intro pivot c hc
    change integerAfter wrapped pivot (c.current.bind integerOf) c = _
    rw [hc]
    rfl
  refine Local.onToken (hread _) (hread _) (hnone _) (hnone _) ?_ Local.fail ?_ hends
  · intro t t' ht
    have hvalue : integerOf t' = integerOf t := by
      rw [integerOf, integerOf, show t'.kind = t.kind from (congrArg Prod.fst ht).symm,
        show t'.text = t.text from (congrArg Prod.snd ht).symm]
    rw [hvalue]
    cases integerOf t with
    | none =>
        exact Local.fail
    | some i =>
        apply Local.anyThen ((local_skip t.mark).mono (Nat.le_refl n) (Nat.le_refl m)
          fun _ _ => trivial)
        intro _
        cases wrapped with
        | false =>
            exact Local.pure trivial
        | true =>
            exact ((local_expectSymbol ")").mono (Nat.le_refl n) (Nat.le_refl m)
              fun _ _ => trivial).anyThen fun _ => Local.pure trivial
  · intro t c d ht _ _ _
    have hvalue : integerOf t = none := by
      refine if_neg ?_
      rcases Mark.kind_of_endsStatement ht with hkind | hkind <;>
        · rw [show t.kind = _ from hkind]
          decide
    rw [hvalue]
    exact Meets.failing (fun _ _ => fail_ne_ok) fun _ _ => fail_ne_ok

theorem local_eatAny (hends : Ends rest) {word : String} (hword : startsNothing word = true) :
    Local rest none n m AnyMarks (eatKeyword word) (eatKeyword word) :=
  (local_eatKeyword hends hword).any

theorem local_clause (hends : Ends rest) {word : String} (hword : startsNothing word = true)
    {body : Parser α} (hbody : Local rest none n m AnyMarks body body) :
    Local rest none n m AnyMarks (clause word body) (clause word body) := by
  apply (local_eatAny hends hword).anyThen
  intro found
  cases found with
  | true =>
      exact hbody.anyThen fun _ => Local.pure trivial
  | false =>
      exact Local.pure trivial

theorem local_byList (hends : Ends rest) {item : Parser α}
    (hitem : Local rest none n m AnyMarks item item) :
    Local rest none n m AnyMarks (byList item) (byList item) :=
  (local_expectKeyword "BY").any.anyThen fun _ => local_commaList hends repeats_any trivial hitem

theorem local_selectItem (hends : Ends rest) :
    Local rest none n m AnyMarks selectItem selectItem := by
  apply (local_scalar hends).any.anyThen
  intro e
  split
  · exact Local.pure trivial
  · exact (local_alias hends).any.anyThen fun _ => Local.pure trivial

theorem local_orderKey (hends : Ends rest) :
    Local rest none n m AnyMarks orderKey orderKey := by
  apply (local_scalar hends).any.anyThen
  intro e
  apply (local_eatAny hends (by decide)).anyThen
  intro descending
  cases descending with
  | true =>
      exact Local.pure trivial
  | false =>
      exact (local_eatAny hends (by decide)).anyThen fun _ => Local.pure trivial

theorem local_rowsWord (hends : Ends rest) :
    Local rest none n m AnyMarks rowsWord rowsWord := by
  apply (local_eatAny hends (by decide)).anyThen
  intro found
  cases found with
  | true =>
      exact Local.pure trivial
  | false =>
      exact (local_expectKeyword "ROW").any

theorem local_offsetClause (hends : Ends rest) :
    Local rest none n m AnyMarks offsetClause offsetClause := by
  apply (local_integer hends).anyThen
  intro skipped
  apply (local_rowsWord hends).anyThen
  intro _
  apply (local_eatAny hends (by decide)).anyThen
  intro fetches
  cases fetches with
  | false =>
      exact Local.pure trivial
  | true =>
      apply (local_eatAny hends (by decide)).anyThen
      have htaken : Local rest none n m AnyMarks
          (integer >>= fun taken => rowsWord >>= fun _ => expectKeyword "ONLY" >>= fun _ =>
            pure (Offset.mk skipped (some taken)))
          (integer >>= fun taken => rowsWord >>= fun _ => expectKeyword "ONLY" >>= fun _ =>
            pure (Offset.mk skipped (some taken))) :=
        (local_integer hends).anyThen fun _ => (local_rowsWord hends).anyThen fun _ =>
          (local_expectKeyword "ONLY").any.anyThen fun _ => Local.pure trivial
      intro next
      cases next with
      | true =>
          exact htaken
      | false =>
          exact (local_expectKeyword "FIRST").any.anyThen fun _ => htaken

/-!
# Statements
-/

/-- A selection, after the words that say whether rows are repeated. -/
def selectAfter (distinct : Bool) : Parser Select := do
  let top <- clause "TOP" integer
  let items <- commaList selectItem
  let sources <- clause "FROM" (commaList source)
  let criteria <- clause "WHERE" predicate
  let groupBy <- clause "GROUP" (byList scalar)
  let having <- clause "HAVING" predicate
  let orderBy <- clause "ORDER" (byList orderKey)
  let offset <- clause "OFFSET" offsetClause
  return {
    distinct, top, items, sources := sources.getD [], criteria, groupBy := groupBy.getD [],
    having, orderBy := orderBy.getD [], offset }

theorem local_selectAfter (hends : Ends rest) (distinct : Bool) :
    Local rest none n m AnyMarks (selectAfter distinct) (selectAfter distinct) := by
  apply (local_clause hends (by decide) (local_integer hends)).anyThen
  intro top
  apply (local_commaList hends repeats_any trivial (local_selectItem hends)).anyThen
  intro items
  apply (local_clause hends (by decide)
    (local_commaList hends repeats_any trivial (local_source hends).any)).anyThen
  intro sources
  apply (local_clause hends (by decide) (local_predicate hends).any).anyThen
  intro criteria
  apply (local_clause hends (by decide) (local_byList hends (local_scalar hends).any)).anyThen
  intro groupBy
  apply (local_clause hends (by decide) (local_predicate hends).any).anyThen
  intro having
  apply (local_clause hends (by decide) (local_byList hends (local_orderKey hends))).anyThen
  intro orderBy
  apply (local_clause hends (by decide) (local_offsetClause hends)).anyThen
  intro offset
  exact Local.pure trivial

theorem local_select (hends : Ends rest) : Local rest none n m SomeMarks select select := by
  apply (local_expectKeyword "SELECT").someThen
  intro _
  apply (local_eatAny hends (by decide)).anyThen
  intro distinct
  cases distinct with
  | true =>
      exact local_selectAfter hends true
  | false =>
      exact (local_eatAny hends (by decide)).anyThen fun _ => local_selectAfter hends false

theorem local_assignment (hends : Ends rest) :
    Local rest none n m AnyMarks assignment assignment := by
  apply Local.afterLook
  intro _ _
  apply (local_scalar hends).any.anyThen
  intro e
  cases e with
  | column c =>
      apply (local_expectSymbol "=").any.anyThen
      intro _
      exact (local_scalar hends).any.anyThen fun _ => Local.pure trivial
  | _ =>
      exact Local.fail

theorem local_update (hends : Ends rest) : Local rest none n m SomeMarks update update := by
  apply (local_expectKeyword "UPDATE").someThen
  intro _
  apply (local_tableReference hends).any.anyThen
  intro target
  apply (local_expectKeyword "SET").any.anyThen
  intro _
  apply (local_commaList hends repeats_any trivial (local_assignment hends)).anyThen
  intro assignments
  apply (local_clause hends (by decide) (local_source hends).any).anyThen
  intro source
  apply (local_clause hends (by decide) (local_predicate hends).any).anyThen
  intro criteria
  exact Local.pure trivial

theorem local_delete (hends : Ends rest) : Local rest none n m SomeMarks delete delete := by
  apply (local_expectKeyword "DELETE").someThen
  intro _
  apply (local_eatAny hends (by decide)).anyThen
  intro _
  apply (local_tableReference hends).any.anyThen
  intro target
  apply (local_clause hends (by decide) (local_source hends).any).anyThen
  intro source
  apply (local_clause hends (by decide) (local_predicate hends).any).anyThen
  intro criteria
  exact Local.pure trivial

/-- Each kind of statement may be looked for on its own. -/
theorem statement_eq : statement = (get >>= fun c : Cursor =>
    if c.isKeyword "SELECT" = true then Statement.select <$> select
    else (get >>= fun c : Cursor =>
      if c.isKeyword "UPDATE" = true then Statement.update <$> update
      else (get >>= fun c : Cursor =>
        if c.isKeyword "DELETE" = true then Statement.delete <$> delete
        else failHere .unsupportedStatement))) := by
  simp only [map_eq_pure_bind]
  funext c
  change (if c.isKeyword "SELECT" = true then _ else
      if c.isKeyword "UPDATE" = true then _ else
        if c.isKeyword "DELETE" = true then _ else _ : Parser Statement) c =
    (if c.isKeyword "SELECT" = true then _ else _ : Parser Statement) c
  split
  · rfl
  · split
    · rename_i hupdate
      change _ = (if c.isKeyword "UPDATE" = true then _ else _ : Parser Statement) c
      rw [if_pos hupdate]
    · rename_i hupdate
      change _ = (if c.isKeyword "UPDATE" = true then _ else _ : Parser Statement) c
      rw [if_neg hupdate]
      rfl

theorem local_statement (hends : Ends rest) (k : Mark) :
    Local rest (some k) n m SomeMarks statement statement := by
  have hlook : forall (word : String) {p q : Parser Statement},
      Local rest (some k) n m SomeMarks p p -> Local rest (some k) n m SomeMarks q q ->
        Local rest (some k) n m SomeMarks
          (get >>= fun c : Cursor => if c.isKeyword word = true then p else q)
          (get >>= fun c : Cursor => if c.isKeyword word = true then p else q) := by
    intro word p q hp hq
    apply Local.ifLook (fun c => c.isKeyword word) (fun c => c.isKeyword word)
    · intro c d hcontinues hhere
      have hd := hhere k rfl
      rw [Cursor.isKeyword_eq, Cursor.isKeyword_eq]
      rcases hcontinues.head?_cases with ⟨k', hdk, hck⟩ | ⟨hnil, _⟩
      · rw [hdk, hck]
      · rw [hnil] at hd
        cases hd
    · intro _ _
      exact hp
    · intro _ _
      exact hq
  rw [statement_eq]
  apply hlook "SELECT" ((local_select hends).map Statement.select).anywhere
  apply hlook "UPDATE" ((local_update hends).map Statement.update).anywhere
  apply hlook "DELETE" ((local_delete hends).map Statement.delete).anywhere
  exact Local.failHere

end Parser
end Sql
end RecordSql
