import RecordSql.Proofs.Parsing.Chains
import RecordSql.Proofs.Printing.Forms

/-!
# Reading marks

What a parser makes of the marks in front of it when it takes some of them and leaves the others.
-/

namespace RecordSql
namespace Sql
namespace Parser

variable {α β : Type}

/-- In front of the marks the parser takes those to be used and returns the value. -/
def Accepts (p : Parser α) (used rest : List Mark) (a : α) : Prop :=
  forall c, c.marks = used ++ rest -> exists c', p c = .ok a c' ∧ c'.marks = rest

/-- The marks do not begin with one of the kind. -/
def Stops (test : Mark -> Bool) (marks : List Mark) : Prop :=
  marks.head?.any test = false

theorem Stops.nil {test : Mark -> Bool} : Stops test [] :=
  rfl

theorem Stops.cons {test : Mark -> Bool} {k : Mark} {marks : List Mark} (h : test k = false) :
    Stops test (k :: marks) :=
  h

theorem Stops.mono {test test' : Mark -> Bool} {marks : List Mark} (h : Stops test marks)
    (hfewer : forall k, test' k = true -> test k = true) : Stops test' marks := by
  cases marks with
  | nil =>
      rfl
  | cons k marks =>
      apply Bool.eq_false_iff.mpr
      intro hk
      have htest := hfewer k hk
      rw [Stops, List.head?_cons, Option.any_some, htest] at h
      cases h

namespace Accepts

variable {p : Parser α} {f : α -> Parser β} {used more rest : List Mark} {a : α} {b : β} {k : Mark}

theorem pure : Accepts (Pure.pure a : Parser α) [] rest a :=
  fun c hc => ⟨c, rfl, hc⟩

theorem bind (hp : Accepts p used (more ++ rest) a) (hf : Accepts (f a) more rest b) :
    Accepts (p >>= f) (used ++ more) rest b := by
  intro c hc
  rw [List.append_assoc] at hc
  rcases hp c hc with ⟨c', hc', hmarks⟩
  rcases hf c' hmarks with ⟨c'', hc'', hrest⟩
  exact ⟨c'', bind_eq_ok.mpr ⟨a, c', hc', hc''⟩, hrest⟩

theorem map (g : α -> β) (hp : Accepts p used rest a) : Accepts (g <$> p) used rest (g a) := by
  intro c hc
  rcases hp c hc with ⟨c', hc', hmarks⟩
  refine ⟨c', ?_, hmarks⟩
  change EStateM.map g p c = _
  rw [EStateM.map, hc']

/-- A step that takes one mark. -/
theorem one (hp : Accepts p [k] (more ++ rest) a) (hf : Accepts (f a) more rest b) :
    Accepts (p >>= f) (k :: more) rest b :=
  hp.bind hf

/-- A step that takes nothing. -/
theorem pass (hp : Accepts p [] (more ++ rest) a) (hf : Accepts (f a) more rest b) :
    Accepts (p >>= f) more rest b :=
  hp.bind hf

/-- A last step that takes nothing. -/
theorem last (hp : Accepts p used rest a) (hf : Accepts (f a) [] rest b) :
    Accepts (p >>= f) used rest b := by
  have hboth : Accepts (p >>= f) (used ++ []) rest b := Accepts.bind hp hf
  rw [List.append_nil] at hboth
  exact hboth

theorem look {f : Cursor -> Parser α}
    (hf : forall c, c.marks = used ++ rest -> Accepts (f c) used rest a) :
    Accepts (get >>= f) used rest a :=
  fun c hc => hf c hc c hc

/-- A look at the cursor that decides between two ways. -/
theorem lookTrue {look : Cursor -> Bool} {f g : Cursor -> Parser α}
    (hlook : forall c, c.marks = used ++ rest -> look c = true)
    (hf : forall c, Accepts (f c) used rest a) :
    Accepts (get >>= fun c => if look c = true then f c else g c) used rest a := by
  apply Accepts.look
  intro c hc
  rw [if_pos (hlook c hc)]
  exact hf c

theorem lookFalse {look : Cursor -> Bool} {f g : Cursor -> Parser α}
    (hlook : forall c, c.marks = used ++ rest -> look c = false)
    (hg : forall c, Accepts (g c) used rest a) :
    Accepts (get >>= fun c => if look c = true then f c else g c) used rest a := by
  apply Accepts.look
  intro c hc
  rw [if_neg (Bool.eq_false_iff.mp (hlook c hc))]
  exact hg c

theorem marks_advance {c : Cursor} (hc : c.marks = k :: rest) : c.advance.marks = rest := by
  rcases moves_advance (c := c) (k := k) (by rw [hc]; rfl) with ⟨t, ht, hmark⟩
  have hmarks := ht.marks
  rw [hc, List.map_singleton, hmark] at hmarks
  exact (List.cons.inj hmarks).2.symm

theorem eat {test : Mark -> Bool} {p : Parser Bool} (h : Eats test p) (hk : test k = true) :
    Accepts p [k] rest true := by
  intro c hc
  refine ⟨c.advance, ?_, marks_advance hc⟩
  rw [h c, hc, List.singleton_append, List.head?_cons, Option.any_some, if_pos hk]

theorem leave {test : Mark -> Bool} {p : Parser Bool} (h : Eats test p) (hrest : Stops test rest) :
    Accepts p [] rest false := by
  intro c hc
  refine ⟨c, ?_, hc⟩
  rw [h c, hc, List.nil_append, if_neg (Bool.eq_false_iff.mp hrest)]

/-- A mark that stands there or does not. -/
theorem flag {test : Mark -> Bool} {p : Parser Bool} {f : Bool -> Parser β} (h : Eats test p)
    (hk : test k = true) (given : Bool) (hmore : given = false -> Stops test (more ++ rest))
    (hf : Accepts (f given) more rest b) :
    Accepts (p >>= f) ((if given = true then [k] else []) ++ more) rest b := by
  cases given with
  | true =>
      exact Accepts.one (Accepts.eat h hk) hf
  | false =>
      exact Accepts.pass (Accepts.leave h (hmore rfl)) hf

theorem spot {value : Mark -> Option α} {p : Parser (Option α)} (h : Spots value p)
    (hk : value k = some a) : Accepts p [k] rest (some a) := by
  intro c hc
  refine ⟨c.advance, ?_, marks_advance hc⟩
  rw [h c, hc, List.singleton_append, List.head?_cons, Option.bind_eq_bind, Option.bind_some, hk]

theorem miss {value : Mark -> Option α} {p : Parser (Option α)} (h : Spots value p)
    (hrest : rest.head? >>= value = none) : Accepts p [] rest none :=
  fun c hc => ⟨c, h.stops (by rw [hc]; exact hrest), hc⟩

theorem skip : Accepts (Parser.skip : Parser Unit) [k] rest () :=
  fun c hc => ⟨c.advance, rfl, marks_advance hc⟩

theorem read {value : Mark -> Option α} (h : Reads value p) (hk : value k = some a) :
    Accepts p [k] rest a := by
  intro c hc
  exact ⟨c.advance, (h c a _).mpr ⟨k, by rw [hc]; rfl, hk, rfl⟩, marks_advance hc⟩

theorem keyword {word : String} (hk : k.isWord word = true) :
    Accepts (expectKeyword word) [k] rest () :=
  Accepts.read (reads_of_eats (eats_keyword word) (.expectedKeyword word)) (if_pos hk)

theorem symbol (s : String) : Accepts (expectSymbol s) [(.symbol, s)] rest () :=
  Accepts.read (reads_of_eats (eats_symbol s) (.expectedSymbol s)) (if_pos (beq_self_eq_true _))

end Accepts

/-!
# Refusal
-/

/-- In front of the marks the parser returns nothing. -/
def Refuses (p : Parser α) (marks : List Mark) : Prop :=
  forall c, c.marks = marks -> forall a c', p c ≠ .ok a c'

namespace Refuses

variable {p : Parser α} {f : α -> Parser β} {used rest : List Mark} {a : α}

theorem fail {cause : ParseCause} {pivot : Nat} {marks : List Mark} :
    Refuses (Parser.fail cause pivot : Parser α) marks :=
  fun _ _ _ _ => fail_ne_ok

theorem bind {marks : List Mark} (h : Refuses p marks) : Refuses (p >>= f) marks := by
  intro c hc b c'' hb
  rcases bind_eq_ok.mp hb with ⟨a, c', ha, _⟩
  exact h c hc a c' ha

/-- The marks that the first step leaves are refused. -/
theorem after (hp : Accepts p used rest a) (hf : Refuses (f a) rest) :
    Refuses (p >>= f) (used ++ rest) := by
  intro c hc b c'' hb
  rcases hp c hc with ⟨c', hc', hmarks⟩
  rcases bind_eq_ok.mp hb with ⟨a', c₁, ha, hb⟩
  cases hc'.symm.trans ha
  exact hf c' hmarks b c'' hb

theorem pass (hp : Accepts p [] rest a) (hf : Refuses (f a) rest) : Refuses (p >>= f) rest :=
  Refuses.after hp hf

theorem look {f : Cursor -> Parser α} {marks : List Mark}
    (hf : forall c, c.marks = marks -> Refuses (f c) marks) : Refuses (get >>= f) marks :=
  fun c hc => hf c hc c hc

end Refuses

/-!
# Repetition
-/

section

variable {test : Mark -> Bool} {more : Parser Bool} {item : Parser α} {marks : α -> List Mark}
  {k : Mark} {rest : List Mark}

/-- Items with a mark in front of each. -/
def markedItems (k : Mark) (marks : α -> List Mark) (items : List α) : List Mark :=
  items.flatMap fun a => k :: marks a

theorem markedItems_cons (k : Mark) (marks : α -> List Mark) (a : α) (items : List α) :
    markedItems k marks (a :: items) = k :: (marks a ++ markedItems k marks items) :=
  rfl

theorem stops_markedItems {follow : Mark -> Bool} (hk : follow k = false)
    (hrest : Stops follow rest) (items : List α) :
    Stops follow (markedItems k marks items ++ rest) := by
  cases items with
  | nil =>
      exact hrest
  | cons a items =>
      exact Stops.cons hk

theorem accepts_none (hmore : Eats test more) (hrest : Stops test rest) :
    Accepts (many more item) [] rest [] := by
  intro c hc
  rcases Accepts.leave hmore hrest c hc with ⟨c', hc', hmarks⟩
  refine ⟨c', ?_, hmarks⟩
  change repeated more item c.ahead c = _
  rw [repeated_eq hmore (Nat.le_refl _)]
  exact bind_eq_ok.mpr ⟨false, c', hc', rfl⟩

theorem accepts_repeated {follow : Mark -> Bool} (hmore : Eats test more) (hk : test k = true)
    (hfollow : follow k = false) (hrest : Stops test rest) (hrest' : Stops follow rest)
    {bound : Nat} (items : List α)
    (hitem : forall a tail, a ∈ items -> Stops follow tail ->
      (marks a).length + tail.length < bound -> Accepts item (marks a) tail a) :
    forall (left : List Token) (c : Cursor), c.marks = markedItems k marks items ++ rest ->
      c.ahead.length ≤ left.length -> c.ahead.length ≤ bound ->
        exists c', repeated more item left c = .ok items c' ∧ c'.marks = rest := by
  induction items with
  | nil =>
      intro left c hc hleft _
      rcases Accepts.leave hmore hrest c hc with ⟨c', hc', hmarks⟩
      refine ⟨c', ?_, hmarks⟩
      rw [repeated_eq hmore hleft]
      exact (bind_eq_ok (b := [])).mpr ⟨false, c', hc', rfl⟩
  | cons a items ih =>
      intro left c hc hleft hbound
      rw [markedItems_cons, List.cons_append, List.append_assoc] at hc
      have hlength := congrArg List.length hc
      rw [Cursor.length_marks, List.length_cons, List.length_append] at hlength
      rcases Accepts.eat hmore hk c hc with ⟨c₁, hc₁, hmarks₁⟩
      have hfirst := hitem a (markedItems k marks items ++ rest) List.mem_cons_self
        (stops_markedItems hfollow hrest' items) (by omega)
      rcases hfirst c₁ hmarks₁ with ⟨c₂, hc₂, hmarks₂⟩
      have hlength₂ := congrArg List.length hmarks₂
      rw [Cursor.length_marks] at hlength₂
      have htail := List.length_tail (l := left)
      rcases ih (fun b tail hb => hitem b tail (List.mem_cons_of_mem _ hb)) left.tail c₂ hmarks₂
        (by omega) (by omega) with ⟨c₃, hc₃, hmarks₃⟩
      refine ⟨c₃, ?_, hmarks₃⟩
      rw [repeated_eq hmore hleft]
      refine bind_eq_ok.mpr ⟨true, c₁, hc₁, ?_⟩
      exact bind_eq_ok.mpr ⟨a, c₂, hc₂, bind_eq_ok.mpr ⟨items, c₃, hc₃, rfl⟩⟩

theorem accepts_many {follow : Mark -> Bool} (hmore : Eats test more) (hk : test k = true)
    (hfollow : follow k = false) (hrest : Stops test rest) (hrest' : Stops follow rest)
    {bound : Nat} {items : List α}
    (hbound : (markedItems k marks items).length + rest.length ≤ bound)
    (hitem : forall a tail, a ∈ items -> Stops follow tail ->
      (marks a).length + tail.length < bound -> Accepts item (marks a) tail a) :
    Accepts (many more item) (markedItems k marks items) rest items := by
  intro c hc
  have hlength := congrArg List.length hc
  rw [Cursor.length_marks, List.length_append] at hlength
  exact accepts_repeated hmore hk hfollow hrest hrest' items hitem c.ahead c hc (Nat.le_refl _)
    (by omega)

/-- One mark that says nothing but that it is there. -/
theorem accepts_once (hmore : Eats test more) (hk : test k = true) (hrest : Stops test rest) :
    Accepts (many more (Pure.pure ())) [k] rest [()] := by
  have hnone : Stops (fun _ => false) rest := hrest.mono fun _ => fun h => by cases h
  have hmany : Accepts (many more (Pure.pure ())) (markedItems k (fun _ : Unit => []) [()]) rest
      [()] :=
    accepts_many hmore hk rfl hrest hnone (Nat.le_refl _) fun _ _ _ _ _ => Accepts.pure
  exact hmany

/-- Items with a mark between them, from which a value is made. -/
theorem accepts_separated (follow : Mark -> Bool) (g : List α -> β) (hmore : Eats test more)
    (hk : test k = true) (hfollow : follow k = false) (hrest : Stops test rest)
    (hrest' : Stops follow rest) {bound : Nat} {first : α} {others : List α}
    (hbound : (marks first ++ markedItems k marks others).length + rest.length ≤ bound)
    (hitem : forall a tail, a ∈ first :: others -> Stops follow tail ->
      (marks a).length + tail.length ≤ bound -> Accepts item (marks a) tail a) :
    Accepts (item >>= fun a => many more item >>= fun rest => Pure.pure (g (a :: rest)))
      (marks first ++ markedItems k marks others) rest (g (first :: others)) := by
  rw [List.length_append] at hbound
  have hfirst := hitem first (markedItems k marks others ++ rest) List.mem_cons_self
    (stops_markedItems hfollow hrest' others) (by rw [List.length_append]; omega)
  refine hfirst.bind (Accepts.last ?_ Accepts.pure)
  refine accepts_many hmore hk hfollow hrest hrest'
    (Nat.le_of_add_left_le (Nat.add_assoc _ _ _ ▸ hbound)) ?_
  intro a tail ha htail hlength
  exact hitem a tail (List.mem_cons_of_mem _ ha) htail (Nat.le_of_lt hlength)

theorem accepts_commaList (follow : Mark -> Bool) (hfollow : follow (symbolMark ",") = false)
    (hrest : Stops (·.isSymbol ",") rest) (hrest' : Stops follow rest) {bound : Nat} {first : α}
    {others : List α}
    (hbound : (marks first ++ markedItems (symbolMark ",") marks others).length + rest.length ≤ bound)
    (hitem : forall a tail, a ∈ first :: others -> Stops follow tail ->
      (marks a).length + tail.length ≤ bound -> Accepts item (marks a) tail a) :
    Accepts (commaList item) (marks first ++ markedItems (symbolMark ",") marks others) rest
      (first :: others) :=
  accepts_separated follow id (eats_symbol ",") (beq_self_eq_true _) hfollow hrest hrest' hbound hitem

end

end Parser
end Sql
end RecordSql
