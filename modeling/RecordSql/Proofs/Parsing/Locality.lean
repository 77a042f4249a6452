import RecordSql.Proofs.Parsing.Consumption

/-!
# Parsers that do not look beyond a statement

A statement ends in front of a semicolon or of the first word of another statement.  A parser is
local when it makes no difference to it whether the tokens end there or go on: what it returns on
the tokens of the statement it also returns in front of more tokens, and the other way round, as
long as it does not take any of those.
-/

namespace RecordSql
namespace Sql

/-!
# Ends of statements
-/

/-- A semicolon or the first word of a statement. -/
def Mark.endsStatement (m : Mark) : Bool :=
  m.isSymbol ";" || m.isWord "SELECT" || m.isWord "UPDATE" || m.isWord "DELETE"

def Ends (rest : List Mark) : Prop :=
  forall m, m ∈ rest.head? -> m.endsStatement = true

/-- The word does not begin a statement. -/
def startsNothing (word : String) : Bool :=
  !(["SELECT", "UPDATE", "DELETE"].any (Text.sameName · word))

theorem Mark.endsStatement_cases {m : Mark} (h : m.endsStatement = true) :
    m = (.symbol, ";") ∨
      m.1 = .word ∧ exists first, first ∈ ["SELECT", "UPDATE", "DELETE"] ∧
        Text.sameName m.2 first = true := by
  simp only [Mark.endsStatement, Mark.isSymbol, Mark.isWord, Bool.or_eq_true, beq_iff_eq,
    Bool.and_eq_true] at h
  rcases h with ((h | h) | h) | h
  · exact Or.inl h
  · exact Or.inr ⟨h.1, _, by simp, h.2⟩
  · exact Or.inr ⟨h.1, _, by simp, h.2⟩
  · exact Or.inr ⟨h.1, _, by simp, h.2⟩

theorem Mark.isWord_of_endsStatement {m : Mark} (h : m.endsStatement = true) {word : String}
    (hword : startsNothing word = true) : m.isWord word = false := by
  rw [startsNothing, Bool.not_eq_true', List.any_eq_false] at hword
  apply Bool.eq_false_iff.mpr
  intro hm
  rw [Mark.isWord, Bool.and_eq_true] at hm
  rcases m.endsStatement_cases h with rfl | ⟨_, first, hfirst, hname⟩
  · exact absurd hm.1 (by decide)
  · refine hword first hfirst ?_
    have hsame := hm.2
    rw [Text.sameName, beq_iff_eq] at hname hsame ⊢
    exact hname.symm.trans hsame

theorem Mark.isSymbol_of_endsStatement {m : Mark} (h : m.endsStatement = true) {symbol : String}
    (hsymbol : symbol ≠ ";") : m.isSymbol symbol = false := by
  apply Bool.eq_false_iff.mpr
  intro hm
  rw [Mark.isSymbol, beq_iff_eq] at hm
  subst hm
  rcases Mark.endsStatement_cases h with hsame | ⟨hkind, _⟩
  · exact hsymbol (congrArg Prod.snd hsame)
  · cases hkind

theorem Mark.kind_of_endsStatement {m : Mark} (h : m.endsStatement = true) :
    m.1 = .symbol ∨ m.1 = .word := by
  rcases m.endsStatement_cases h with rfl | ⟨hkind, _⟩
  · exact Or.inl rfl
  · exact Or.inr hkind

theorem Mark.isIdentifier_of_endsStatement {m : Mark} (h : m.endsStatement = true) :
    m.isIdentifier = false := by
  rcases m.endsStatement_cases h with rfl | ⟨hkind, first, hfirst, hname⟩
  · rfl
  · have hwords : forall word, word ∈ ["SELECT", "UPDATE", "DELETE"] -> word ∈ reservedWords := by
      decide
    have hreserved : isReserved m.2 = true := by
      rw [isReserved, List.any_eq_true]
      refine ⟨first, hwords first hfirst, ?_⟩
      rw [Text.sameName_comm]
      exact hname
    rw [Mark.isIdentifier, hkind]
    dsimp only
    rw [hreserved]
    rfl

/-- The first cursor sees what the second one sees, and then some more. -/
def Continues (rest : List Mark) (c d : Cursor) : Prop :=
  c.marks = d.marks ++ rest

namespace Continues

variable {rest : List Mark} {c d : Cursor}

theorem length_eq (h : Continues rest c d) : c.ahead.length = d.ahead.length + rest.length := by
  rw [<- Cursor.length_marks, h, List.length_append, Cursor.length_marks]

/-- In front of the end, the next mark is the same, or there is none and the end comes next. -/
theorem head?_cases (h : Continues rest c d) :
    (exists m, d.marks.head? = some m ∧ c.marks.head? = some m) ∨
      d.marks = [] ∧ c.marks = rest := by
  unfold Continues at h
  cases hd : d.marks with
  | nil =>
      rw [hd] at h
      exact Or.inr ⟨rfl, h⟩
  | cons m marks =>
      rw [hd] at h
      rw [h]
      exact Or.inl ⟨m, rfl, rfl⟩

theorem isKeyword (h : Continues rest c d) (hends : Ends rest) {word : String}
    (hword : startsNothing word = true) : c.isKeyword word = d.isKeyword word := by
  rw [Cursor.isKeyword_eq, Cursor.isKeyword_eq]
  rcases h.head?_cases with ⟨m, hd, hc⟩ | ⟨hd, hc⟩
  · rw [hd, hc]
  · rw [hd, hc]
    cases hrest : rest.head? with
    | none =>
        rfl
    | some m =>
        exact Mark.isWord_of_endsStatement (hends m hrest) hword

theorem isSymbol (h : Continues rest c d) (hends : Ends rest) {symbol : String}
    (hsymbol : symbol ≠ ";") : c.isSymbol symbol = d.isSymbol symbol := by
  rw [Cursor.isSymbol_eq, Cursor.isSymbol_eq]
  rcases h.head?_cases with ⟨m, hd, hc⟩ | ⟨hd, hc⟩
  · rw [hd, hc]
  · rw [hd, hc]
    cases hrest : rest.head? with
    | none =>
        rfl
    | some m =>
        exact Mark.isSymbol_of_endsStatement (hends m hrest) hsymbol

/-- The mark after the next one, if there is a next one. -/
theorem second_cases (h : Continues rest c d) {m : Mark} (hhere : d.marks.head? = some m) :
    c.marks[1]? = d.marks[1]? ∨ d.marks[1]? = none ∧ c.marks[1]? = rest.head? := by
  unfold Continues at h
  cases hd : d.marks with
  | nil =>
      rw [hd] at hhere
      cases hhere
  | cons first marks =>
      rw [hd] at h
      rw [h]
      cases marks with
      | nil =>
          refine Or.inr ⟨rfl, ?_⟩
          cases rest <;> rfl
      | cons second marks =>
          exact Or.inl rfl

theorem isSymbolAt (h : Continues rest c d) (hends : Ends rest) {m : Mark}
    (hhere : d.marks.head? = some m) {symbol : String} (hsymbol : symbol ≠ ";") :
    c.isSymbolAt 1 symbol = d.isSymbolAt 1 symbol := by
  rw [Cursor.isSymbolAt_eq, Cursor.isSymbolAt_eq]
  rcases h.second_cases hhere with hsame | ⟨hd, hc⟩
  · rw [hsame]
  · rw [hd, hc]
    cases hrest : rest.head? with
    | none =>
        rfl
    | some m =>
        exact Mark.isSymbol_of_endsStatement (hends m hrest) hsymbol

theorem isKeywordAt (h : Continues rest c d) (hends : Ends rest) {m : Mark}
    (hhere : d.marks.head? = some m) {word : String} (hword : startsNothing word = true) :
    c.isKeywordAt 1 word = d.isKeywordAt 1 word := by
  rw [Cursor.isKeywordAt_eq, Cursor.isKeywordAt_eq]
  rcases h.second_cases hhere with hsame | ⟨hd, hc⟩
  · rw [hsame]
  · rw [hd, hc]
    cases hrest : rest.head? with
    | none =>
        rfl
    | some m =>
        exact Mark.isWord_of_endsStatement (hends m hrest) hword

/-- A look at the next mark and at the one after it. -/
theorem look_and (h : Continues rest c d) {first first' second second' : Bool}
    (hfirst : first = first') (hnone : d.marks.head? = none -> first' = false)
    (hsecond : forall m, d.marks.head? = some m -> second = second') :
    (first && second) = (first' && second') := by
  rcases h.head?_cases with ⟨m, hd, _⟩ | ⟨hd, _⟩
  · rw [hfirst, hsecond m hd]
  · rw [hfirst, hnone (by rw [hd]; rfl), Bool.false_and, Bool.false_and]

end Continues

namespace Parser

variable {α β : Type} {rest : List Mark}

/-!
# The same outcome
-/

/--
The two parsers return the same from the two cursors, and go on to return the same from where they
stop, unless the first one takes what comes after the end.
-/
structure Meets (rest : List Mark) (p q : Parser α) (c d : Cursor) : Prop where
  onward : forall a c', p c = .ok a c' -> rest.length ≤ c'.ahead.length ->
    exists d', q d = .ok a d' ∧ Continues rest c' d'
  back : forall a d', q d = .ok a d' -> exists c', p c = .ok a c' ∧ Continues rest c' d'

namespace Meets

variable {p q : Parser α} {c d : Cursor}

theorem congr {p' q' : Parser α} (h : Meets rest p' q' c d) (hp : p c = p' c) (hq : q d = q' d) :
    Meets rest p q c d := by
  refine ⟨fun a c' ha => ?_, fun a d' ha => ?_⟩
  · rw [hp] at ha
    rw [hq]
    exact h.onward a c' ha
  · rw [hq] at ha
    rw [hp]
    exact h.back a d' ha

theorem pure (h : Continues rest c d) (a : α) : Meets rest (Pure.pure a) (Pure.pure a) c d := by
  refine ⟨fun b c' hb _ => ?_, fun b d' hb => ?_⟩
  · cases hb
    exact ⟨d, rfl, h⟩
  · cases hb
    exact ⟨c, rfl, h⟩

theorem failing (hp : forall a c', p c ≠ .ok a c') (hq : forall a d', q d ≠ .ok a d') :
    Meets rest p q c d :=
  ⟨fun a c' ha => absurd ha (hp a c'), fun a d' ha => absurd ha (hq a d')⟩

/-- Nothing is in front of the end, so whatever the first parser takes comes after it. -/
theorem beyond (h : Continues rest c d) (hd : d.marks = [])
    (hp : forall a c', p c = .ok a c' -> c'.ahead.length < c.ahead.length)
    (hq : forall a d', q d ≠ .ok a d') : Meets rest p q c d := by
  refine ⟨fun a c' ha hlength => ?_, fun a d' ha => absurd ha (hq a d')⟩
  have hless := hp a c' ha
  have hc := h.length_eq
  rw [<- Cursor.length_marks d, hd, List.length_nil] at hc
  omega

theorem bind {P : List Mark -> Prop} {f g : α -> Parser β} (h : Meets rest p q c d)
    (hlong : forall a, Takes none P (f a))
    (hf : forall a c' d', p c = .ok a c' -> q d = .ok a d' -> Continues rest c' d' ->
      Meets rest (f a) (g a) c' d') : Meets rest (p >>= f) (q >>= g) c d := by
  constructor
  · intro b c'' hb hlength
    rcases bind_eq_ok.mp hb with ⟨a, c', ha, hfa⟩
    have hless := (hlong a).length_le hfa
    rcases h.onward a c' ha (Nat.le_trans hlength hless) with ⟨d', hqa, hcontinues⟩
    rcases (hf a c' d' ha hqa hcontinues).onward b c'' hfa hlength with ⟨d'', hga, hcontinues'⟩
    exact ⟨d'', bind_eq_ok.mpr ⟨a, d', hqa, hga⟩, hcontinues'⟩
  · intro b d'' hb
    rcases bind_eq_ok.mp hb with ⟨a, d', ha, hga⟩
    rcases h.back a d' ha with ⟨c', hpa, hcontinues⟩
    rcases (hf a c' d' hpa ha hcontinues).back b d'' hga with ⟨c'', hfa, hcontinues'⟩
    exact ⟨c'', bind_eq_ok.mpr ⟨a, c', hpa, hfa⟩, hcontinues'⟩

end Meets

/-!
# Local parsers
-/

/--
The two parsers take tokens of such marks, and return the same whether or not the tokens end with
the statement, as long as there are at most so many of them.
-/
structure Local (rest : List Mark) (here : Option Mark) (n m : Nat) (P : List Mark -> Prop)
    (p q : Parser α) : Prop where
  long : Takes here P p
  short : Takes here P q
  meets : forall c d, Continues rest c d -> At here d -> c.ahead.length ≤ n -> d.ahead.length ≤ m ->
    Meets rest p q c d

namespace Local

variable {here : Option Mark} {n m n₁ m₁ : Nat} {P P₁ P₂ : List Mark -> Prop} {p q : Parser α}

theorem mono (h : Local rest here n₁ m₁ P₁ p q) (hn : n ≤ n₁) (hm : m ≤ m₁)
    (hP : forall used, P₁ used -> P used) : Local rest here n m P p q :=
  ⟨h.long.mono hP, h.short.mono hP, fun c d hcontinues hhere hc hd =>
    h.meets c d hcontinues hhere (Nat.le_trans hc hn) (Nat.le_trans hd hm)⟩

/-- What is in front of the cursor need not be known. -/
theorem anywhere (h : Local rest none n m P p q) : Local rest here n m P p q :=
  ⟨fun c _ => h.long c (at_none c), fun c _ => h.short c (at_none c),
    fun c d hcontinues _ => h.meets c d hcontinues (at_none d)⟩

theorem pure {a : α} (h : P []) :
    Local rest here n m P (Pure.pure a : Parser α) (Pure.pure a) :=
  ⟨Takes.pure h, Takes.pure h, fun _ _ hcontinues _ _ _ => Meets.pure hcontinues a⟩

theorem failing (hp : forall c a c', p c ≠ .ok a c') (hq : forall d a d', q d ≠ .ok a d') :
    Local rest here n m P p q :=
  ⟨fun c _ a c' ha => absurd ha (hp c a c'), fun d _ a d' ha => absurd ha (hq d a d'),
    fun c d _ _ _ _ => Meets.failing (hp c) (hq d)⟩

theorem fail {cause cause' : ParseCause} {pivot pivot' : Nat} :
    Local rest here n m P (Parser.fail cause pivot : Parser α) (Parser.fail cause' pivot') :=
  failing (fun _ _ _ => fail_ne_ok) fun _ _ _ => fail_ne_ok

theorem failHere {cause cause' : ParseCause} :
    Local rest here n m P (Parser.failHere cause : Parser α) (Parser.failHere cause') :=
  failing (fun _ _ _ => failHere_ne_ok) fun _ _ _ => failHere_ne_ok

theorem bind {f g : α -> Parser β} (hp : Local rest here n m P₁ p q)
    (hf : forall a, Local rest none n₁ m₁ P₂ (f a) (g a))
    (hjoin : forall front back, P₁ front -> P₂ back -> P (front ++ back))
    (hbound : forall used, P₁ used -> n ≤ n₁ + used.length ∧ m ≤ m₁ + used.length) :
    Local rest here n m P (p >>= f) (q >>= g) := by
  refine ⟨hp.long.bind (fun a => (hf a).long) hjoin, hp.short.bind (fun a => (hf a).short) hjoin,
    fun c d hcontinues hhere hc hd => ?_⟩
  refine (hp.meets c d hcontinues hhere hc hd).bind (fun a => (hf a).long)
    fun a c' d' _ hqa hcontinues' => ?_
  rcases hp.short d hhere a d' hqa with ⟨used, hused, hpost⟩
  have hbounds := hbound _ hpost
  have hahead := congrArg List.length hused.ahead
  have hlength := hcontinues.length_eq
  have hlength' := hcontinues'.length_eq
  rw [List.length_map] at hbounds
  rw [List.length_append] at hahead
  exact (hf a).meets c' d' hcontinues' (at_none d') (by omega) (by omega)

theorem map (f : α -> β) (h : Local rest here n m P p q) :
    Local rest here n m P (f <$> p) (f <$> q) := by
  rw [map_eq_pure_bind, map_eq_pure_bind]
  have hpure : forall a, Local rest none n m (fun used => used = []) (Pure.pure (f a))
      (Pure.pure (f a)) :=
    fun _ => Local.pure rfl
  refine h.bind hpure ?_ fun _ _ => ⟨Nat.le_add_right _ _, Nat.le_add_right _ _⟩
  rintro front _ hfront rfl
  rw [List.append_nil]
  exact hfront

/-- A look at the cursor that only matters to the place of a failure. -/
theorem afterLook {f g : Cursor -> Parser α} (h : forall c d, Local rest here n m P (f c) (g d)) :
    Local rest here n m P (get >>= f) (get >>= g) :=
  ⟨fun c hc => (h c c).long c hc, fun d hd => (h d d).short d hd,
    fun c d hcontinues hhere hc hd => ((h c d).meets c d hcontinues hhere hc hd).congr rfl rfl⟩

/-- A look at the cursor that shows the same on both sides. -/
theorem ifLook (look look' : Cursor -> Bool) {f f' g g' : Cursor -> Parser α}
    (hlook : forall c d, Continues rest c d -> At here d -> look c = look' d)
    (hthen : forall c d, Local rest here n m P (f c) (f' d))
    (helse : forall c d, Local rest here n m P (g c) (g' d)) :
    Local rest here n m P (get >>= fun c => if look c = true then f c else g c)
      (get >>= fun d => if look' d = true then f' d else g' d) := by
  have htakes : forall {look : Cursor -> Bool} {f g : Cursor -> Parser α},
      (forall c, Takes here P (f c)) -> (forall c, Takes here P (g c)) ->
        Takes here P (get >>= fun c => if look c = true then f c else g c) := by
    intro look f g hf hg c hc a c' ha
    change (if look c = true then f c else g c) c = _ at ha
    split at ha
    · exact hf c c hc a c' ha
    · exact hg c c hc a c' ha
  refine ⟨htakes (fun c => (hthen c c).long) fun c => (helse c c).long,
    htakes (fun d => (hthen d d).short) fun d => (helse d d).short,
    fun c d hcontinues hhere hc hd => ?_⟩
  have hsame := hlook c d hcontinues hhere
  cases hd' : look' d with
  | true =>
      rw [hd'] at hsame
      refine ((hthen c d).meets c d hcontinues hhere hc hd).congr ?_ ?_
      · change (if look c = true then f c else g c) c = _
        rw [if_pos hsame]
      · change (if look' d = true then f' d else g' d) d = _
        rw [if_pos hd']
  | false =>
      rw [hd'] at hsame
      refine ((helse c d).meets c d hcontinues hhere hc hd).congr ?_ ?_
      · change (if look c = true then f c else g c) c = _
        rw [if_neg (Bool.not_eq_true _ ▸ hsame)]
      · change (if look' d = true then f' d else g' d) d = _
        rw [if_neg (Bool.not_eq_true _ ▸ hd')]

/-- The token in front of the cursor decides how to go on. -/
theorem onToken {f f' : Token -> Parser α} {g g' : Parser α}
    (hp : forall c t, c.current = some t -> p c = f t c)
    (hq : forall d t, d.current = some t -> q d = f' t d)
    (hp₀ : forall c, c.current = none -> p c = g c) (hq₀ : forall d, d.current = none -> q d = g' d)
    (htoken : forall t t', t.mark = t'.mark ->
      Local rest (some t.mark) n m P (f t) (f' t'))
    (hnone : Local rest none n m P g g')
    (hend : forall t c d, t.mark.endsStatement = true -> c.current = some t -> d.marks = [] ->
      Continues rest c d -> Meets rest (f t) g' c d) (hends : Ends rest) :
    Local rest here n m P p q := by
  have htakes : forall {p : Parser α} {f : Token -> Parser α} {g : Parser α},
      (forall c t, c.current = some t -> p c = f t c) ->
      (forall c, c.current = none -> p c = g c) ->
      (forall t, Takes (some t.mark) P (f t)) -> Takes none P g -> Takes here P p := by
    intro p f g hp hp₀ hf hg c _ a c' ha
    cases hcurrent : c.current with
    | none =>
        rw [hp₀ c hcurrent] at ha
        exact hg c (at_none c) a c' ha
    | some t =>
        rw [hp c t hcurrent] at ha
        refine hf t c ?_ a c' ha
        rintro m ⟨⟩
        rw [Cursor.head?_marks, hcurrent]
        rfl
  refine ⟨htakes hp hp₀ (fun t => (htoken t t rfl).long) hnone.long,
    htakes hq hq₀ (fun t => (htoken t t rfl).short) hnone.short, fun c d hcontinues _ hc hd => ?_⟩
  rcases hcontinues.head?_cases with ⟨m, hdm, hcm⟩ | ⟨hdm, hcm⟩
  · rw [Cursor.head?_marks, Option.map_eq_some_iff] at hdm hcm
    rcases hdm with ⟨t', ht', hmark'⟩
    rcases hcm with ⟨t, ht, hmark⟩
    have hhere : At (some t.mark) d := by
      rintro k ⟨⟩
      rw [Cursor.head?_marks, ht', hmark, <- hmark']
      rfl
    exact ((htoken t t' (hmark.trans hmark'.symm)).meets c d hcontinues hhere hc hd).congr
      (hp c t ht) (hq d t' ht')
  · have hnot : d.current = none := by
      have hhead := d.head?_marks
      rw [hdm] at hhead
      exact Option.map_eq_none_iff.mp hhead.symm
    cases hcurrent : c.current with
    | none =>
        exact (hnone.meets c d hcontinues (at_none d) hc hd).congr (hp₀ c hcurrent) (hq₀ d hnot)
    | some t =>
        refine (hend t c d ?_ hcurrent hdm hcontinues).congr (hp c t hcurrent) (hq₀ d hnot)
        refine hends _ ?_
        have hhead := c.head?_marks
        rw [hcm, hcurrent] at hhead
        exact hhead

end Local

/-!
# Shapes of what is taken
-/

/-- Something with balanced parentheses. -/
structure Neat (used : List Mark) : Prop where
  nonempty : 1 ≤ used.length
  balanced : Balanced used

theorem Takes.length_lt {here : Option Mark} {p : Parser α} (h : Takes here Neat p)
    {c c' : Cursor} {a : α} (ha : p c = .ok a c') (hc : At here c) :
    c'.ahead.length < c.ahead.length := by
  rcases h c hc a c' ha with ⟨used, hused, hneat⟩
  have hlength := hneat.nonempty
  rw [List.length_map] at hlength
  rw [hused.ahead, List.length_append]
  omega

/-- What is left of something with balanced parentheses after one that was opened. -/
def Closes (used : List Mark) : Prop :=
  nesting 1 used = some 0

def AnyMarks (_ : List Mark) : Prop :=
  True

def SomeMarks (used : List Mark) : Prop :=
  1 ≤ used.length

theorem Balanced.append_closes {front back : List Mark} (hfront : Balanced front)
    (hback : Closes back) : Closes (front ++ back) := by
  have hopened := nesting_add hfront 1
  rw [Closes, nesting_append, hopened]
  exact hback

namespace Local

variable {here : Option Mark} {n m : Nat} {P : List Mark -> Prop} {p q : Parser α}
  {f g : α -> Parser β}

theorem balanced (h : Local rest here n m Neat p q) : Local rest here n m Balanced p q :=
  h.mono (Nat.le_refl n) (Nat.le_refl m) fun _ hused => hused.balanced

/-- The parser in front of fewer tokens. -/
theorem fewer (h : Local rest here (n + 1) (m + 1) P p q) : Local rest here n m P p q :=
  h.mono (Nat.le_succ n) (Nat.le_succ m) fun _ hused => hused

theorem any (h : Local rest here n m P p q) : Local rest here n m AnyMarks p q :=
  h.mono (Nat.le_refl n) (Nat.le_refl m) fun _ _ => trivial

theorem andThen (hp : Local rest here n m Balanced p q)
    (hf : forall a, Local rest none n m Balanced (f a) (g a)) :
    Local rest here n m Balanced (p >>= f) (q >>= g) :=
  hp.bind hf (fun _ _ => Balanced.append) fun _ _ => ⟨Nat.le_add_right _ _, Nat.le_add_right _ _⟩

/-- After something was taken there are fewer tokens left. -/
theorem first (hp : Local rest here (n + 1) (m + 1) Neat p q)
    (hf : forall a, Local rest none n m Balanced (f a) (g a)) :
    Local rest here (n + 1) (m + 1) Neat (p >>= f) (q >>= g) := by
  refine hp.bind hf (fun front back hfront hback => ⟨?_, hfront.balanced.append hback⟩)
    fun used hused => ?_
  · rw [List.length_append]
    exact Nat.le_trans hfront.nonempty (Nat.le_add_right _ _)
  · have hlength := hused.nonempty
    omega

theorem thenFirst (hp : Local rest here n m Balanced p q)
    (hf : forall a, Local rest none n m Neat (f a) (g a)) :
    Local rest here n m Neat (p >>= f) (q >>= g) := by
  refine hp.bind hf (fun front back hfront hback => ⟨?_, hfront.append hback.balanced⟩)
    fun _ _ => ⟨Nat.le_add_right _ _, Nat.le_add_right _ _⟩
  rw [List.length_append]
  exact Nat.le_trans hback.nonempty (Nat.le_add_left _ _)

/-- An opening parenthesis, and all up to what closes it. -/
theorem opened (hp : Local rest here (n + 1) (m + 1) (fun used => used = [.opening]) p q)
    (hf : forall a, Local rest none n m Closes (f a) (g a)) :
    Local rest here (n + 1) (m + 1) Neat (p >>= f) (q >>= g) := by
  refine hp.bind hf ?_ ?_
  · rintro _ back rfl hback
    refine ⟨?_, hback⟩
    rw [List.length_append]
    exact Nat.le_add_right _ _
  · rintro _ rfl
    exact ⟨Nat.le_refl _, Nat.le_refl _⟩

theorem inside (hp : Local rest here n m Balanced p q)
    (hf : forall a, Local rest none n m Closes (f a) (g a)) :
    Local rest here n m Closes (p >>= f) (q >>= g) :=
  hp.bind hf (fun _ _ => Balanced.append_closes)
    fun _ _ => ⟨Nat.le_add_right _ _, Nat.le_add_right _ _⟩

theorem closed (hp : Local rest here n m (fun used => used = [.closing]) p q)
    (hf : forall a, Local rest none n m Balanced (f a) (g a)) :
    Local rest here n m Closes (p >>= f) (q >>= g) := by
  refine hp.bind hf ?_ fun _ _ => ⟨Nat.le_add_right _ _, Nat.le_add_right _ _⟩
  rintro _ back rfl hback
  exact hback

theorem neatThen (hp : Local rest here n m Neat p q)
    (hf : forall a, Local rest none n m Balanced (f a) (g a)) :
    Local rest here n m Neat (p >>= f) (q >>= g) := by
  refine hp.bind hf (fun front back hfront hback => ⟨?_, hfront.balanced.append hback⟩)
    fun _ _ => ⟨Nat.le_add_right _ _, Nat.le_add_right _ _⟩
  rw [List.length_append]
  exact Nat.le_trans hfront.nonempty (Nat.le_add_right _ _)

theorem someThen (hp : Local rest here n m Neat p q)
    (hf : forall a, Local rest none n m AnyMarks (f a) (g a)) :
    Local rest here n m SomeMarks (p >>= f) (q >>= g) := by
  refine hp.bind hf (fun front back hfront _ => ?_)
    fun _ _ => ⟨Nat.le_add_right _ _, Nat.le_add_right _ _⟩
  rw [SomeMarks, List.length_append]
  exact Nat.le_trans hfront.nonempty (Nat.le_add_right _ _)

theorem anyThen (hp : Local rest here n m AnyMarks p q)
    (hf : forall a, Local rest none n m AnyMarks (f a) (g a)) :
    Local rest here n m AnyMarks (p >>= f) (q >>= g) :=
  hp.bind hf (fun _ _ _ _ => trivial) fun _ _ => ⟨Nat.le_add_right _ _, Nat.le_add_right _ _⟩

end Local

/-!
# Single tokens
-/

section

variable {here : Option Mark} {n m : Nat}

theorem moves_advance {c : Cursor} {k : Mark} (h : c.marks.head? = some k) :
    exists t, Moves [t] c c.advance ∧ t.mark = k := by
  rw [Cursor.head?_marks, Option.map_eq_some_iff] at h
  rcases h with ⟨t, ht, hmark⟩
  exact ⟨t, Moves.advance ht, hmark⟩

theorem continues_advance {c d : Cursor} {k : Mark} (h : Continues rest c d)
    (hd : d.marks.head? = some k) : Continues rest c.advance d.advance := by
  rcases h.head?_cases with ⟨k', hd', hc'⟩ | ⟨hnil, _⟩
  · cases hd.symm.trans hd'
    rcases moves_advance hd with ⟨t, ht, hmark⟩
    rcases moves_advance hc' with ⟨u, hu, hmark'⟩
    have hcd := h
    rw [Continues, ht.marks, hu.marks, List.map_singleton, List.map_singleton, hmark, hmark',
      List.singleton_append, List.singleton_append, List.cons_append] at hcd
    exact (List.cons.inj hcd).2
  · rw [hnil] at hd
    cases hd

theorem local_skip (k : Mark) :
    Local rest (some k) n m (fun used => used = [k]) (skip : Parser Unit) skip := by
  have htakes : Takes (some k) (fun used => used = [k]) (skip : Parser Unit) := by
    intro c hc a c' ha
    cases ha
    rcases moves_advance (hc k rfl) with ⟨t, ht, hmark⟩
    exact ⟨[t], ht, by rw [List.map_singleton, hmark]⟩
  refine ⟨htakes, htakes, fun c d hcontinues hhere _ _ => ?_⟩
  have hnext := continues_advance hcontinues (hhere k rfl)
  refine ⟨fun a c' ha _ => ?_, fun a d' ha => ?_⟩
  · cases ha
    exact ⟨d.advance, rfl, hnext⟩
  · cases ha
    exact ⟨c.advance, rfl, hnext⟩

theorem local_skipNeat {k : Mark} (hopening : k ≠ .opening) (hclosing : k ≠ .closing) :
    Local rest (some k) n m Neat (skip : Parser Unit) skip := by
  refine (local_skip k).mono (Nat.le_refl _) (Nat.le_refl _) ?_
  rintro _ rfl
  exact ⟨Nat.le_refl 1, Balanced.single hopening hclosing⟩

/-- A parser that takes a token that looks right, and says whether it did. -/
def Eats (test : Mark -> Bool) (p : Parser Bool) : Prop :=
  forall c, p c = if c.marks.head?.any test then .ok true c.advance else .ok false c

theorem eats_keyword (word : String) : Eats (·.isWord word) (eatKeyword word) := by
  intro c
  rw [<- Cursor.isKeyword_eq]
  change (if c.isKeyword word = true then _ else _ : Parser Bool) c = _
  split <;> rfl

theorem eats_symbol (symbol : String) : Eats (·.isSymbol symbol) (eatSymbol symbol) := by
  intro c
  rw [<- Cursor.isSymbol_eq]
  change (if c.isSymbol symbol = true then _ else _ : Parser Bool) c = _
  split <;> rfl

namespace Eats

variable {test : Mark -> Bool} {p : Parser Bool}

theorem cases_ok (h : Eats test p) {c c' : Cursor} {b : Bool} (hb : p c = .ok b c') :
    (exists k, c.marks.head? = some k ∧ test k = true ∧ b = true ∧ c' = c.advance) ∨
      c.marks.head?.any test = false ∧ b = false ∧ c' = c := by
  rw [h c] at hb
  split at hb
  · rename_i hany
    cases hb
    rw [Option.any_eq_true] at hany
    rcases hany with ⟨k, hk, htest⟩
    exact Or.inl ⟨k, hk, htest, rfl, rfl⟩
  · rename_i hany
    cases hb
    exact Or.inr ⟨Bool.not_eq_true _ ▸ hany, rfl, rfl⟩

theorem takes (h : Eats test p) :
    Takes here (fun used => used = [] ∨ exists k, used = [k] ∧ test k = true) p := by
  intro c _ b c' hb
  rcases h.cases_ok hb with ⟨k, hk, htest, _, rfl⟩ | ⟨_, _, rfl⟩
  · rcases moves_advance hk with ⟨t, ht, hmark⟩
    exact ⟨[t], ht, Or.inr ⟨k, by rw [List.map_singleton, hmark], htest⟩⟩
  · exact ⟨[], Moves.refl _, Or.inl rfl⟩

theorem stops (h : Eats test p) {c : Cursor} (hc : c.marks.head?.any test = false) :
    p c = .ok false c := by
  rw [h c, if_neg (Bool.eq_false_iff.mp hc)]

/-- A token was taken when the parser says so. -/
theorem length_lt (h : Eats test p) {c c' : Cursor} (hb : p c = .ok true c') :
    c'.ahead.length < c.ahead.length := by
  rcases h.cases_ok hb with ⟨k, hk, _, _, rfl⟩ | ⟨_, hfalse, _⟩
  · rcases moves_advance hk with ⟨t, ht, _⟩
    rw [ht.ahead, List.length_append, List.length_singleton]
    omega
  · cases hfalse

theorem toLocal (h : Eats test p) (hends : Ends rest)
    (htest : forall k, k.endsStatement = true -> test k = false) :
    Local rest here n m (fun used => used = [] ∨ exists k, used = [k] ∧ test k = true) p p := by
  refine ⟨h.takes, h.takes, fun c d hcontinues _ _ _ => ?_⟩
  rcases hcontinues.head?_cases with ⟨k, hd, hc⟩ | ⟨hd, hc⟩
  · have hp := h c
    have hq := h d
    rw [hc] at hp
    rw [hd] at hq
    by_cases hk : test k = true
    · rw [Option.any_some, if_pos hk] at hp hq
      have hnext := continues_advance hcontinues hd
      refine ⟨fun b c' hb _ => ?_, fun b d' hb => ?_⟩
      · rw [hp] at hb
        cases hb
        exact ⟨d.advance, hq, hnext⟩
      · rw [hq] at hb
        cases hb
        exact ⟨c.advance, hp, hnext⟩
    · rw [Option.any_some, if_neg hk] at hp hq
      exact (Meets.pure hcontinues false).congr hp hq
  · refine (Meets.pure hcontinues false).congr (h.stops ?_) (h.stops ?_)
    · rw [hc]
      cases hrest : rest.head? with
      | none =>
          rfl
      | some k =>
          exact htest k (hends k hrest)
    · rw [hd]
      rfl

end Eats

theorem ne_parentheses_of_isWord {k : Mark} {word : String} (h : k.isWord word = true) :
    k ≠ .opening ∧ k ≠ .closing := by
  refine ⟨?_, ?_⟩ <;>
    · rintro rfl
      cases h

theorem local_eatKeyword (hends : Ends rest) {word : String} (hword : startsNothing word = true) :
    Local rest here n m Balanced (eatKeyword word) (eatKeyword word) := by
  refine ((eats_keyword word).toLocal hends fun k hk => Mark.isWord_of_endsStatement hk hword).mono
    (Nat.le_refl n) (Nat.le_refl m) ?_
  rintro used (rfl | ⟨k, rfl, hk⟩)
  · exact Balanced.nil
  · exact Balanced.single (ne_parentheses_of_isWord hk).1 (ne_parentheses_of_isWord hk).2

theorem balanced_symbol {symbol : String} (hopening : symbol ≠ "(") (hclosing : symbol ≠ ")")
    {k : Mark} (hk : k.isSymbol symbol = true) : Balanced [k] := by
  rw [Mark.isSymbol, beq_iff_eq] at hk
  subst hk
  exact Balanced.single (fun h => hopening (Prod.mk.inj h).2) fun h => hclosing (Prod.mk.inj h).2

theorem local_eatSymbol (hends : Ends rest) {symbol : String} (hsymbol : symbol ≠ ";")
    (hopening : symbol ≠ "(") (hclosing : symbol ≠ ")") :
    Local rest here n m Balanced (eatSymbol symbol) (eatSymbol symbol) := by
  refine ((eats_symbol symbol).toLocal hends
    fun k hk => Mark.isSymbol_of_endsStatement hk hsymbol).mono (Nat.le_refl n) (Nat.le_refl m) ?_
  rintro used (rfl | ⟨k, rfl, hk⟩)
  · exact Balanced.nil
  · rw [Mark.isSymbol, beq_iff_eq] at hk
    subst hk
    exact Balanced.single (fun h => hopening (Prod.mk.inj h).2) fun h => hclosing (Prod.mk.inj h).2

/-- A parser that takes one token, for which it returns a value. -/
def Reads (value : Mark -> Option α) (p : Parser α) : Prop :=
  forall c a c', p c = .ok a c' <->
    exists k, c.marks.head? = some k ∧ value k = some a ∧ c' = c.advance

namespace Reads

variable {value : Mark -> Option α} {p : Parser α}

theorem takes (h : Reads value p) :
    Takes here (fun used => exists k, used = [k] ∧ (value k).isSome = true) p := by
  intro c _ a c' ha
  rcases (h c a c').mp ha with ⟨k, hk, hvalue, rfl⟩
  rcases moves_advance hk with ⟨t, ht, hmark⟩
  exact ⟨[t], ht, k, by rw [List.map_singleton, hmark], by rw [hvalue]; rfl⟩

theorem toLocal (h : Reads value p) :
    Local rest here n m (fun used => exists k, used = [k] ∧ (value k).isSome = true) p p := by
  refine ⟨h.takes, h.takes, fun c d hcontinues _ _ _ => ?_⟩
  rcases hcontinues.head?_cases with ⟨k, hd, hc⟩ | ⟨hd, hc⟩
  · have hnext := continues_advance hcontinues hd
    refine ⟨fun a c' ha _ => ?_, fun a d' ha => ?_⟩
    · rcases (h c a c').mp ha with ⟨k', hk', hvalue, rfl⟩
      cases hc.symm.trans hk'
      exact ⟨d.advance, (h d a _).mpr ⟨k, hd, hvalue, rfl⟩, hnext⟩
    · rcases (h d a d').mp ha with ⟨k', hk', hvalue, rfl⟩
      cases hd.symm.trans hk'
      exact ⟨c.advance, (h c a _).mpr ⟨k, hc, hvalue, rfl⟩, hnext⟩
  · refine Meets.beyond hcontinues hd (fun a c' ha => ?_) fun a d' ha => ?_
    · rcases h.takes c (at_none c) a c' ha with ⟨used, hused, k, hk, _⟩
      have hlength := congrArg List.length hk
      rw [List.length_map, List.length_singleton] at hlength
      rw [hused.ahead, List.length_append]
      omega
    · rcases (h d a d').mp ha with ⟨k, hk, _⟩
      rw [hd] at hk
      cases hk

end Reads

theorem of_isSome_ite {b : Bool} (h : (if b = true then some () else none).isSome = true) :
    b = true := by
  cases b with
  | true =>
      rfl
  | false =>
      cases h

theorem reads_of_eats {test : Mark -> Bool} {eat : Parser Bool} (h : Eats test eat)
    (cause : ParseCause) :
    Reads (fun k => if test k then some () else none)
      (do unless <- eat do failHere cause : Parser Unit) := by
  intro c a c'
  rw [bind_eq_ok]
  constructor
  · rintro ⟨b, c'', hb, ha⟩
    rcases h.cases_ok hb with ⟨k, hk, htest, rfl, rfl⟩ | ⟨_, rfl, rfl⟩
    · cases ha
      exact ⟨k, hk, if_pos htest, rfl⟩
    · cases ha
  · rintro ⟨k, hk, hvalue, rfl⟩
    refine ⟨true, c.advance, ?_, rfl⟩
    rw [h c, hk, Option.any_some, if_pos (of_isSome_ite (Option.isSome_of_eq_some hvalue))]

theorem local_expectKeyword (word : String) :
    Local rest here n m Neat (expectKeyword word) (expectKeyword word) := by
  refine (reads_of_eats (eats_keyword word) (.expectedKeyword word)).toLocal.mono (Nat.le_refl n)
    (Nat.le_refl m) ?_
  rintro _ ⟨k, rfl, hk⟩
  have hword := of_isSome_ite hk
  exact ⟨Nat.le_refl 1, Balanced.single (ne_parentheses_of_isWord hword).1
    (ne_parentheses_of_isWord hword).2⟩

theorem local_expectSymbol (symbol : String) :
    Local rest here n m (fun used => used = [(.symbol, symbol)]) (expectSymbol symbol)
      (expectSymbol symbol) := by
  refine (reads_of_eats (eats_symbol symbol) (.expectedSymbol symbol)).toLocal.mono (Nat.le_refl n)
    (Nat.le_refl m) ?_
  rintro _ ⟨k, rfl, hk⟩
  have hsymbol := of_isSome_ite hk
  rw [Mark.isSymbol, beq_iff_eq] at hsymbol
  rw [hsymbol]

/-- The name that a mark stands for, and whether it is quoted. -/
def nameOf (k : Mark) : Option (String × Bool) :=
  if k.isIdentifier then some (k.2, k.1 == .quotedName) else none

theorem reads_identifier : Reads nameOf identifier := by
  intro c a c'
  have hnext : forall t : Token, c.current = some t -> (identifier c = .ok a c' <->
      nameOf t.mark = some a ∧ c' = c.advance) := by
    intro t ht
    have hread : identifier c = (if t.isIdentifier = true then do
        skip
        return (t.text, t.kind == .quotedName) else failHere .expectedIdentifier :
        Parser (String × Bool)) c := by
      rw [identifier, get_bind, ht]
    rw [hread, nameOf, <- Token.isIdentifier_eq]
    split
    · constructor
      · intro h
        cases h
        exact ⟨rfl, rfl⟩
      · rintro ⟨h, rfl⟩
        cases h
        rfl
    · constructor
      · intro h
        cases h
      · rintro ⟨h, _⟩
        cases h
  rw [Cursor.head?_marks]
  cases hcurrent : c.current with
  | none =>
      constructor
      · intro h
        have hread : identifier c = failHere .expectedIdentifier c := by
          rw [identifier, get_bind, hcurrent]
        rw [hread] at h
        cases h
      · rintro ⟨k, hk, _⟩
        cases hk
  | some t =>
      rw [hnext t hcurrent]
      constructor
      · rintro ⟨hvalue, rfl⟩
        exact ⟨t.mark, rfl, hvalue, rfl⟩
      · rintro ⟨k, hk, hvalue, rfl⟩
        cases hk
        exact ⟨hvalue, rfl⟩

theorem local_identifier : Local rest here n m Neat identifier identifier := by
  refine reads_identifier.toLocal.mono (Nat.le_refl n) (Nat.le_refl m) ?_
  rintro _ ⟨k, rfl, hk⟩
  refine ⟨Nat.le_refl 1, Balanced.single ?_ ?_⟩ <;>
    · rintro rfl
      cases hk

theorem local_name : Local rest here n m Neat name name :=
  local_identifier.neatThen fun _ => Local.pure Balanced.nil

end

/-!
# Repetition
-/

/-- Marks of which any number may stand in a row. -/
structure Repeats (P : List Mark -> Prop) : Prop where
  nil : P []
  append : forall front back, P front -> P back -> P (front ++ back)

theorem repeats_balanced : Repeats Balanced :=
  ⟨Balanced.nil, fun _ _ => Balanced.append⟩

theorem repeats_any : Repeats AnyMarks :=
  ⟨trivial, fun _ _ _ _ => trivial⟩

section

variable {here : Option Mark} {n m : Nat} {P : List Mark -> Prop} {test : Mark -> Bool}
  {more : Parser Bool} {item item' : Parser α}

theorem Eats.takesRepeated (h : Eats test more) (hP : Repeats P)
    (hmarks : forall k, test k = true -> P [k]) : Takes here P more := by
  refine h.takes.mono ?_
  rintro used (rfl | ⟨k, rfl, hk⟩)
  · exact hP.nil
  · exact hmarks k hk

theorem takes_repeated (hP : Repeats P) (hmore : Takes none P more) (hitem : Takes none P item)
    (left : List Token) : Takes none P (repeated more item left) := by
  induction left with
  | nil =>
      exact Takes.pure hP.nil
  | cons t left ih =>
      refine hmore.bind (fun again => ?_) hP.append
      cases again with
      | true =>
          refine hitem.bind (fun first => ?_) hP.append
          exact ih.bind (fun others => Takes.pure hP.nil) fun _ _ hfront hback =>
            hP.append _ _ hfront hback
      | false =>
          exact Takes.pure hP.nil

/-- A round of a repetition, with enough tokens left to bound the others. -/
theorem repeated_eq (hmore : Eats test more) {left : List Token} {c : Cursor}
    (hleft : c.ahead.length ≤ left.length) :
    repeated more item left c = (more >>= fun again =>
      if again = true then
        item >>= fun first => repeated more item left.tail >>= fun others => pure (first :: others)
      else pure [] : Parser (List α)) c := by
  cases left with
  | nil =>
      have hahead : c.ahead = [] := List.eq_nil_of_length_eq_zero (Nat.le_zero.mp hleft)
      have hstops : more c = .ok false c := by
        refine hmore.stops ?_
        rw [Cursor.marks, hahead]
        rfl
      symm
      exact (bind_eq_ok (b := [])).mpr ⟨false, c, hstops, rfl⟩
  | cons t left =>
      rfl

theorem meets_repeated (hends : Ends rest) (hP : Repeats P) (hmore : Eats test more)
    (htest : forall k, k.endsStatement = true -> test k = false)
    (hmarks : forall k, test k = true -> P [k]) (hitem : Local rest none n m P item item')
    (bound : Nat) :
    forall (left left' : List Token) (c d : Cursor), c.ahead.length < bound ->
      c.ahead.length ≤ left.length -> d.ahead.length ≤ left'.length -> Continues rest c d ->
      c.ahead.length ≤ n -> d.ahead.length ≤ m ->
        Meets rest (repeated more item left) (repeated more item' left') c d := by
  have hmoreP : Takes none P more := hmore.takesRepeated hP hmarks
  have hlocal : Local rest none n m (fun used => used = [] ∨ exists k, used = [k] ∧ test k = true)
      more more := hmore.toLocal hends htest
  have hrounds : forall left, Takes none P (item >>= fun first =>
      repeated more item left >>= fun others => pure (first :: others)) := fun left =>
    hitem.long.bind (fun _ => (takes_repeated hP hmoreP hitem.long left).bind
      (fun _ => Takes.pure hP.nil) hP.append) hP.append
  induction bound with
  | zero =>
      intro left left' c d hbound
      exact absurd hbound (Nat.not_lt_zero _)
  | succ bound ih =>
      intro left left' c d hbound hleft hleft' hcontinues hc hd
      refine Meets.congr ?_ (repeated_eq hmore hleft) (repeated_eq hmore hleft')
      refine (hlocal.meets c d hcontinues (at_none d) hc hd).bind (P := P) (fun again => ?_)
        fun again c₁ d₁ hagain hagain' hcontinues₁ => ?_
      · cases again with
        | true =>
            exact hrounds left.tail
        | false =>
            exact Takes.pure hP.nil
      · cases again with
        | false =>
            exact Meets.pure hcontinues₁ []
        | true =>
            have hless := hmore.length_lt hagain
            have hless' := hmore.length_lt hagain'
            refine (hitem.meets c₁ d₁ hcontinues₁ (at_none d₁) (by omega) (by omega)).bind (P := P)
              (fun first => (takes_repeated hP hmoreP hitem.long _).bind
                (fun _ => Takes.pure hP.nil) hP.append)
              fun first c₂ d₂ hfirst hfirst' hcontinues₂ => ?_
            have hshorter := hitem.long.length_le hfirst
            have hshorter' := hitem.short.length_le hfirst'
            have htail := List.length_tail (l := left)
            have htail' := List.length_tail (l := left')
            exact (ih left.tail left'.tail c₂ d₂ (by omega) (by omega) (by omega) hcontinues₂
              (by omega) (by omega)).bind (P := P) (fun others => Takes.pure hP.nil)
              fun others _ _ _ _ hcontinues₃ => Meets.pure hcontinues₃ _

theorem local_many (hends : Ends rest) (hP : Repeats P) (hmore : Eats test more)
    (htest : forall k, k.endsStatement = true -> test k = false)
    (hmarks : forall k, test k = true -> P [k]) (hitem : Local rest none n m P item item') :
    Local rest none n m P (many more item) (many more item') := by
  have hmoreP : Takes none P more := hmore.takesRepeated hP hmarks
  refine ⟨fun c hc => takes_repeated hP hmoreP hitem.long c.ahead c hc,
    fun d hd => takes_repeated hP hmoreP hitem.short d.ahead d hd,
    fun c d hcontinues _ hc hd => ?_⟩
  exact (meets_repeated hends hP hmore htest hmarks hitem _ c.ahead d.ahead c d (Nat.lt_succ_self _)
    (Nat.le_refl _) (Nat.le_refl _) hcontinues hc hd).congr rfl rfl

theorem local_manyWord (hends : Ends rest) {word : String} (hword : startsNothing word = true)
    (hitem : Local rest none n m Balanced item item') :
    Local rest none n m Balanced (many (eatKeyword word) item) (many (eatKeyword word) item') :=
  local_many hends repeats_balanced (eats_keyword word)
    (fun _ hk => Mark.isWord_of_endsStatement hk hword)
    (fun _ hk => Balanced.single (ne_parentheses_of_isWord hk).1 (ne_parentheses_of_isWord hk).2)
    hitem

theorem local_manySymbol (hends : Ends rest) {symbol : String} (hsymbol : symbol ≠ ";")
    (hopening : symbol ≠ "(") (hclosing : symbol ≠ ")")
    (hitem : Local rest none n m Balanced item item') :
    Local rest none n m Balanced (many (eatSymbol symbol) item)
      (many (eatSymbol symbol) item') :=
  local_many hends repeats_balanced (eats_symbol symbol)
    (fun _ hk => Mark.isSymbol_of_endsStatement hk hsymbol)
    (fun _ hk => balanced_symbol hopening hclosing hk) hitem

theorem local_commaList (hends : Ends rest) (hP : Repeats P) (hcomma : P [(.symbol, ",")])
    (hitem : Local rest none n m P item item') :
    Local rest none n m P (commaList item) (commaList item') := by
  refine hitem.bind (fun first => ?_) hP.append fun _ _ =>
    ⟨Nat.le_add_right _ _, Nat.le_add_right _ _⟩
  refine (local_many hends hP (eats_symbol ",")
    (fun _ hk => Mark.isSymbol_of_endsStatement hk (by decide)) (fun k hk => ?_) hitem).bind
    (fun others => Local.pure hP.nil) hP.append fun _ _ =>
      ⟨Nat.le_add_right _ _, Nat.le_add_right _ _⟩
  rw [Mark.isSymbol, beq_iff_eq] at hk
  rw [hk]
  exact hcomma

end

end Parser
end Sql
end RecordSql
