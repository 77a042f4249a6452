import RecordSql.Sql.ExprParser

/-!
# What a parser takes

A parser takes some of the tokens in front of it and leaves the rest.  What an expression takes has
as many closing parentheses as opening ones, and none is closed that was not opened, so that the
parenthesis that closes another one is the same however the tokens between them are understood.
-/

namespace RecordSql
namespace Sql

/-!
# Marks
-/

/-- What a token is, without its place in the source. -/
abbrev Mark := TokenKind × String

def Token.mark (t : Token) : Mark :=
  (t.kind, t.text)

def Cursor.marks (c : Cursor) : List Mark :=
  c.ahead.map Token.mark

namespace Mark

def isWord (m : Mark) (word : String) : Bool :=
  m.1 == .word && Text.sameName m.2 word

def isSymbol (m : Mark) (symbol : String) : Bool :=
  m == (.symbol, symbol)

def isIdentifier (m : Mark) : Bool :=
  match m.1 with
  | .quotedName => true
  | .word => !isReserved m.2
  | _ => false

def opening : Mark :=
  (.symbol, "(")

def closing : Mark :=
  (.symbol, ")")

end Mark

theorem Token.isWord_eq (t : Token) (word : String) : t.isWord word = t.mark.isWord word :=
  rfl

theorem Token.isSymbol_eq (t : Token) (symbol : String) :
    t.isSymbol symbol = t.mark.isSymbol symbol :=
  rfl

theorem Token.isIdentifier_eq (t : Token) : t.isIdentifier = t.mark.isIdentifier :=
  rfl

namespace Cursor

variable {c d : Cursor}

theorem head?_marks (c : Cursor) : c.marks.head? = c.current.map Token.mark :=
  List.head?_map

theorem length_marks (c : Cursor) : c.marks.length = c.ahead.length :=
  List.length_map _

theorem getElem?_marks (c : Cursor) (n : Nat) : c.marks[n]? = (c.peek n).map Token.mark :=
  List.getElem?_map

theorem isKeyword_eq (c : Cursor) (word : String) :
    c.isKeyword word = c.marks.head?.any (·.isWord word) := by
  rw [head?_marks, Option.any_map]
  rfl

theorem isSymbol_eq (c : Cursor) (symbol : String) :
    c.isSymbol symbol = c.marks.head?.any (·.isSymbol symbol) := by
  rw [head?_marks, Option.any_map]
  rfl

theorem isKeywordAt_eq (c : Cursor) (n : Nat) (word : String) :
    c.isKeywordAt n word = c.marks[n]?.any (·.isWord word) := by
  rw [getElem?_marks, Option.any_map]
  rfl

theorem isSymbolAt_eq (c : Cursor) (n : Nat) (symbol : String) :
    c.isSymbolAt n symbol = c.marks[n]?.any (·.isSymbol symbol) := by
  rw [getElem?_marks, Option.any_map]
  rfl

end Cursor

/-!
# Parentheses
-/

/-- How many parentheses are open after a mark, unless it closes one that was not opened. -/
def nest (n : Nat) (m : Mark) : Option Nat :=
  if m = .opening then some (n + 1)
  else if m = .closing then if n = 0 then none else some (n - 1)
  else some n

def nesting (n : Nat) (marks : List Mark) : Option Nat :=
  marks.foldlM nest n

def Balanced (marks : List Mark) : Prop :=
  nesting 0 marks = some 0

theorem nest_cases (m : Mark) :
    (m = .opening ∧ forall n, nest n m = some (n + 1)) ∨
      (m = .closing ∧ nest 0 m = none ∧ forall n, nest (n + 1) m = some n) ∨
      (m ≠ .opening ∧ m ≠ .closing ∧ forall n, nest n m = some n) := by
  by_cases hopening : m = .opening
  · refine Or.inl ⟨hopening, fun n => ?_⟩
    rw [nest, if_pos hopening]
  · by_cases hclosing : m = .closing
    · refine Or.inr (Or.inl ⟨hclosing, ?_, fun n => ?_⟩)
      · rw [nest, if_neg hopening, if_pos hclosing, if_pos rfl]
      · rw [nest, if_neg hopening, if_pos hclosing, if_neg (Nat.succ_ne_zero n),
          Nat.add_sub_cancel]
    · refine Or.inr (Or.inr ⟨hopening, hclosing, fun n => ?_⟩)
      rw [nest, if_neg hopening, if_neg hclosing]

theorem nesting_cons (n : Nat) (m : Mark) (marks : List Mark) :
    nesting n (m :: marks) = nest n m >>= fun k => nesting k marks :=
  rfl

theorem nesting_append (n : Nat) (front back : List Mark) :
    nesting n (front ++ back) = nesting n front >>= fun k => nesting k back :=
  List.foldlM_append

theorem nesting_add {n k : Nat} {marks : List Mark} (h : nesting n marks = some k) (more : Nat) :
    nesting (n + more) marks = some (k + more) := by
  induction marks generalizing n with
  | nil =>
      cases h
      rfl
  | cons m rest ih =>
      rw [nesting_cons] at h ⊢
      rcases nest_cases m with ⟨_, hm⟩ | ⟨_, hzero, hm⟩ | ⟨_, _, hm⟩
      · rw [hm] at h ⊢
        have hrest := ih h
        rw [Nat.add_right_comm] at hrest
        exact hrest
      · cases n with
        | zero =>
            rw [hzero] at h
            cases h
        | succ n =>
            rw [hm] at h
            rw [Nat.add_right_comm, hm]
            exact ih h
      · rw [hm] at h ⊢
        exact ih h

namespace Balanced

theorem nil : Balanced [] :=
  rfl

theorem single {m : Mark} (hopening : m ≠ .opening) (hclosing : m ≠ .closing) : Balanced [m] := by
  rcases nest_cases m with ⟨h, _⟩ | ⟨h, _⟩ | ⟨_, _, hm⟩
  · exact absurd h hopening
  · exact absurd h hclosing
  · rw [Balanced, nesting_cons, hm]
    rfl

theorem append {front back : List Mark} (hfront : Balanced front) (hback : Balanced back) :
    Balanced (front ++ back) := by
  rw [Balanced, nesting_append, hfront]
  exact hback

theorem enclosed {marks : List Mark} (h : Balanced marks) :
    Balanced (.opening :: (marks ++ [.closing])) := by
  have hinner := nesting_add h 1
  change nesting 1 (marks ++ [.closing]) = some 0
  rw [nesting_append, hinner]
  rfl

/-- What opens a parenthesis closes it. -/
theorem exists_closing {marks : List Mark} (h : Balanced (.opening :: marks)) :
    exists front back, marks = front ++ .closing :: back ∧ Balanced front := by
  have hclosed : forall (marks : List Mark) (n : Nat), nesting (n + 1) marks = some 0 ->
      exists front back, marks = front ++ .closing :: back ∧ nesting n front = some 0 := by
    intro marks
    induction marks with
    | nil =>
        intro n hn
        cases hn
    | cons m rest ih =>
        intro n hn
        rw [nesting_cons] at hn
        have hinner : forall k, nest n m = some k -> nesting (k + 1) rest = some 0 ->
            exists front back, m :: rest = front ++ .closing :: back ∧
              nesting n front = some 0 := by
          intro k hk hrest
          rcases ih k hrest with ⟨front, back, rfl, hfront⟩
          refine ⟨m :: front, back, rfl, ?_⟩
          rw [nesting_cons, hk]
          exact hfront
        rcases nest_cases m with ⟨_, hm⟩ | ⟨rfl, _, hm⟩ | ⟨_, _, hm⟩
        · rw [hm] at hn
          exact hinner (n + 1) (hm n) hn
        · rw [hm] at hn
          cases n with
          | zero =>
              exact ⟨[], rest, rfl, rfl⟩
          | succ n =>
              exact hinner n (hm n) hn
        · rw [hm] at hn
          exact hinner n (hm n) hn
  exact hclosed marks 0 h

/-- There is only one parenthesis that closes another one. -/
theorem closing_unique {front front' back back' : List Mark} (hfront : Balanced front)
    (hfront' : Balanced front') (h : front ++ .closing :: back = front' ++ .closing :: back') :
    front = front' ∧ back = back' := by
  have hnever : forall front mid : List Mark, Balanced front -> Balanced (front ++ .closing :: mid) ->
      False := by
    intro front mid hfront hmid
    rw [Balanced, nesting_append, hfront] at hmid
    cases hmid
  rcases List.append_eq_append_iff.mp h with ⟨mid, rfl, hmid⟩ | ⟨mid, rfl, hmid⟩
  · cases mid with
    | nil =>
        rw [List.append_nil]
        exact ⟨rfl, (List.cons.inj hmid).2⟩
    | cons m mid =>
        cases (List.cons.inj hmid).1
        exact (hnever front mid hfront hfront').elim
  · cases mid with
    | nil =>
        rw [List.append_nil]
        exact ⟨rfl, (List.cons.inj hmid).2.symm⟩
    | cons m mid =>
        cases (List.cons.inj hmid).1
        exact (hnever front' mid hfront' hfront).elim

end Balanced

/-!
# Taking tokens
-/

/-- The tokens lie between two cursors. -/
structure Moves (used : List Token) (c c' : Cursor) : Prop where
  source : c'.source = c.source
  ahead : c.ahead = used ++ c'.ahead
  behind : c'.behind = used.reverse ++ c.behind

namespace Moves

theorem refl (c : Cursor) : Moves [] c c :=
  ⟨rfl, rfl, rfl⟩

theorem trans {used more : List Token} {c c' c'' : Cursor} (h : Moves used c c')
    (h' : Moves more c' c'') : Moves (used ++ more) c c'' := by
  refine ⟨h'.source.trans h.source, ?_, ?_⟩
  · rw [h.ahead, h'.ahead, List.append_assoc]
  · rw [h'.behind, h.behind, List.reverse_append, List.append_assoc]

theorem marks {used : List Token} {c c' : Cursor} (h : Moves used c c') :
    c.marks = used.map Token.mark ++ c'.marks := by
  rw [Cursor.marks, Cursor.marks, h.ahead, List.map_append]

theorem advance {c : Cursor} {t : Token} (h : c.current = some t) : Moves [t] c c.advance := by
  cases c with
  | mk source behind ahead =>
      cases ahead with
      | nil =>
          cases h
      | cons first rest =>
          cases h
          exact ⟨rfl, rfl, rfl⟩

end Moves

namespace Parser

variable {α β : Type}

/-- The mark, if there is one, is the one in front of the cursor. -/
def At (here : Option Mark) (c : Cursor) : Prop :=
  forall m, m ∈ here -> c.marks.head? = some m

theorem at_none (c : Cursor) : At none c := by
  intro m hm
  cases hm

/-- Whenever the parser returns a value, it has taken tokens of such marks. -/
def Takes (here : Option Mark) (P : List Mark -> Prop) (p : Parser α) : Prop :=
  forall c, At here c -> forall a c', p c = .ok a c' ->
    exists used, Moves used c c' ∧ P (used.map Token.mark)

/-- A value that comes out of two steps. -/
theorem bind_eq_ok {p : Parser α} {f : α -> Parser β} {c c'' : Cursor} {b : β} :
    (p >>= f) c = .ok b c'' <-> exists a c', p c = .ok a c' ∧ f a c' = .ok b c'' := by
  change EStateM.bind p f c = _ <-> _
  unfold EStateM.bind
  cases hp : p c with
  | ok a c' =>
      constructor
      · intro h
        exact ⟨a, c', rfl, h⟩
      · rintro ⟨a', w, ha, h⟩
        cases ha
        exact h
  | error e c' =>
      constructor
      · intro h
        cases h
      · rintro ⟨a', w, ha, _⟩
        cases ha

/-- A step that looks at the cursor. -/
theorem get_bind (f : Cursor -> Parser α) (c : Cursor) :
    ((get : Parser Cursor) >>= f) c = f c c :=
  rfl

namespace Takes

variable {here : Option Mark} {P P₁ P₂ : List Mark -> Prop} {p : Parser α} {f : α -> Parser β}

theorem bind (hp : Takes here P₁ p) (hf : forall a, Takes none P₂ (f a))
    (hjoin : forall front back, P₁ front -> P₂ back -> P (front ++ back)) :
    Takes here P (p >>= f) := by
  intro c hc b c'' h
  rcases bind_eq_ok.mp h with ⟨a, c', ha, hb⟩
  rcases hp c hc a c' ha with ⟨used, hused, hfront⟩
  rcases hf a c' (at_none c') b c'' hb with ⟨more, hmore, hback⟩
  refine ⟨used ++ more, hused.trans hmore, ?_⟩
  rw [List.map_append]
  exact hjoin _ _ hfront hback

theorem pure {a : α} (h : P []) : Takes here P (Pure.pure a : Parser α) := by
  intro c _ b c' hb
  cases hb
  exact ⟨[], Moves.refl c, h⟩

theorem mono (h : Takes here P₁ p) (hP : forall used, P₁ used -> P used) : Takes here P p := by
  intro c hc a c' ha
  rcases h c hc a c' ha with ⟨used, hused, hp⟩
  exact ⟨used, hused, hP _ hp⟩

theorem length_le (h : Takes none P p) {c c' : Cursor} {a : α} (ha : p c = .ok a c') :
    c'.ahead.length ≤ c.ahead.length := by
  rcases h c (at_none c) a c' ha with ⟨used, hused, _⟩
  rw [hused.ahead, List.length_append]
  exact Nat.le_add_left _ _

end Takes

theorem fail_ne_ok {cause : ParseCause} {pivot : Nat} {c c' : Cursor} {a : α} :
    Parser.fail cause pivot c ≠ .ok a c' := by
  intro h
  cases h

theorem failHere_ne_ok {cause : ParseCause} {c c' : Cursor} {a : α} :
    Parser.failHere cause c ≠ .ok a c' := by
  intro h
  cases h

end Parser
end Sql
end RecordSql
