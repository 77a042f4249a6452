import RecordSql.Proofs.ParsedForms
import RecordSql.Proofs.Spelling

/-!
# Legible expressions

The text of an expression leaves out the marks around names, and it writes a whole double like the
whole number.  An expression is legible when nothing of that hides what it is: its names are plain
words, its doubles have a fraction, and a collation stands behind a single item.
-/

namespace RecordSql
namespace Sql

/-!
# Names
-/

/-- The text is a word as a query writes it without marks. -/
def isName (s : String) : Bool :=
  match s.toList with
  | [] => false
  | c :: rest => startsWord c && rest.all continuesWord

def isLowerName (s : String) : Bool :=
  isName s && Text.lower s == s

/-- A character of a word, or the point between two of them or in a number. -/
def isRun (c : Char) : Bool :=
  continuesWord c || c == '.'

theorem continuesWord_of_startsWord {c : Char} (h : startsWord c = true) :
    continuesWord c = true := by
  have halpha : Text.isAlphabetic c = true -> Text.isAlphanumeric c = true := by
    intro halpha
    rw [Text.isAlphabetic] at halpha
    rw [Text.isAlphanumeric]
    split
    · rename_i hascii
      rw [if_pos hascii] at halpha
      rw [Char.isAlphanum, halpha]
      rfl
    · rename_i hwide
      rw [if_neg hwide] at halpha
      rw [halpha]
      rfl
  simp only [startsWord, continuesWord, Bool.or_eq_true] at h ⊢
  rcases h with ((h | h) | h) | h
  · exact Or.inl (Or.inl (Or.inl (Or.inl (halpha h))))
  · exact Or.inl (Or.inl (Or.inl (Or.inr h)))
  · exact Or.inl (Or.inl (Or.inr h))
  · exact Or.inl (Or.inr h)

theorem isRun_of_continuesWord {c : Char} (h : continuesWord c = true) : isRun c = true := by
  rw [isRun, h]
  rfl

theorem toNat_lt_of_isDigit {c : Char} (h : c.isDigit = true) : c.toNat < 128 := by
  rw [Char.isDigit, Bool.and_eq_true, decide_eq_true_eq, decide_eq_true_eq] at h
  have hle : c.toNat ≤ 57 := h.2
  omega

theorem isRun_of_isDigit {c : Char} (h : c.isDigit = true) : isRun c = true :=
  Text.ascii_cases (fun c => c.isDigit = true -> isRun c = true) (by decide)
    (toNat_lt_of_isDigit h) h

theorem not_isDigit_of_startsWord {c : Char} (h : startsWord c = true) : c.isDigit = false := by
  cases hdigit : c.isDigit with
  | false =>
      rfl
  | true =>
      have hnot := Text.ascii_cases (fun c => c.isDigit = true -> startsWord c = false)
        (by decide) (toNat_lt_of_isDigit hdigit) hdigit
      rw [h] at hnot
      cases hnot

theorem isName_iff {s : String} : isName s = true <->
    exists c w, s.toList = c :: w ∧ startsWord c = true ∧
      forall d, d ∈ w -> continuesWord d = true := by
  rw [isName]
  cases s.toList with
  | nil =>
      simp
  | cons c w =>
      simp only [Bool.and_eq_true, List.all_eq_true]
      constructor
      · intro h
        exact ⟨c, w, rfl, h⟩
      · rintro ⟨d, v, heq, h⟩
        cases heq
        exact h

theorem continuesWord_of_mem_name {s : String} (h : isName s = true) {c : Char}
    (hc : c ∈ s.toList) : continuesWord c = true := by
  rcases isName_iff.mp h with ⟨d, w, hs, hd, hw⟩
  rw [hs] at hc
  rcases List.mem_cons.mp hc with rfl | hc
  · exact continuesWord_of_startsWord hd
  · exact hw c hc

/-- The upper case of an ASCII name is a name. -/
theorem isName_upper {s : String} (h : isName s = true) (hascii : Text.isAscii s = true) :
    isName (Text.upper s) = true := by
  have hstart : forall {c : Char}, c.toNat < 128 -> startsWord c = true ->
      startsWord c.toUpper = true :=
    Text.ascii_cases (fun c => startsWord c = true -> startsWord c.toUpper = true)
      (by decide)
  have hcontinue : forall {c : Char}, c.toNat < 128 -> continuesWord c = true ->
      continuesWord c.toUpper = true :=
    Text.ascii_cases (fun c => continuesWord c = true -> continuesWord c.toUpper = true)
      (by decide)
  rcases isName_iff.mp h with ⟨c, w, hs, hc, hw⟩
  rw [isName_iff, Text.toList_upper hascii, hs]
  rw [Text.isAscii, List.all_eq_true, hs] at hascii
  simp only [decide_eq_true_eq] at hascii
  rw [List.forall_mem_cons] at hascii
  refine ⟨c.toUpper, w.map Char.toUpper, rfl, hstart hascii.1 hc, ?_⟩
  intro d hd
  rcases List.mem_map.mp hd with ⟨e, he, rfl⟩
  exact hcontinue (hascii.2 e he) (hw e he)

/-!
# Legible parts
-/

namespace Scalar

/-- A collation behind the expression belongs to all of it. -/
def isItem : Scalar -> Bool
  | .binary _ _ _ => false
  | .negate _ => false
  | .literal l => l.text.toList.head? != some '-'
  | _ => true

/-- The text of the expression, apart from what is inside it, shows what it is. -/
def showsItself : Scalar -> Bool
  | .literal (.float x) => (Number.floatText x).toList.contains '.'
  | .column c => c.collection.all isLowerName && isLowerName c.name
  | .call name _ _ => isName name && Text.isAscii name
  | .collate e collation => e.isItem && isName collation
  | .starOf table => isLowerName table
  | _ => true

/-- Every part of the expression shows what it is. -/
def IsLegible (e : Scalar) : Prop :=
  forall x, x ∈ e.parts -> x.showsItself = true

instance (e : Scalar) : Decidable e.IsLegible :=
  inferInstanceAs (Decidable (forall x, x ∈ e.parts -> x.showsItself = true))

/-- A legible expression in a form that parsing gives. -/
structure IsReadable (e : Scalar) : Prop where
  wellFormed : e.wellFormed = true
  legible : e.IsLegible

end Scalar

structure Predicate.IsReadable (p : Predicate) : Prop where
  wellFormed : p.wellFormed = true
  legible : forall x, x ∈ p.parts -> x.showsItself = true

theorem forall_partsOfAll {good : Scalar -> Prop} {items : List Scalar} :
    (forall x, x ∈ partsOfAll items -> good x) <->
      forall e, e ∈ items -> forall x, x ∈ e.parts -> good x := by
  induction items with
  | nil =>
      simp [partsOfAll]
  | cons e rest ih =>
      rw [partsOfAll, List.forall_mem_append, List.forall_mem_cons, ih]

theorem forall_partsOfPredicates {good : Scalar -> Prop} {items : List Predicate} :
    (forall x, x ∈ partsOfPredicates items -> good x) <->
      forall p, p ∈ items -> forall x, x ∈ p.parts -> good x := by
  induction items with
  | nil =>
      simp [partsOfPredicates]
  | cons p rest ih =>
      rw [partsOfPredicates, List.forall_mem_append, List.forall_mem_cons, ih]

theorem forall_partsOfBranches {good : Scalar -> Prop} {whens : List (Predicate × Scalar)} :
    (forall x, x ∈ partsOfBranches whens -> good x) <->
      forall w, w ∈ whens ->
        (forall x, x ∈ w.1.parts -> good x) ∧ forall x, x ∈ w.2.parts -> good x := by
  induction whens with
  | nil =>
      simp [partsOfBranches]
  | cons w rest ih =>
      rw [partsOfBranches, List.forall_mem_append, List.forall_mem_append, List.forall_mem_cons,
        ih]

theorem forall_partsOfPairs {good : Scalar -> Prop} {whens : List (Scalar × Scalar)} :
    (forall x, x ∈ partsOfPairs whens -> good x) <->
      forall w, w ∈ whens ->
        (forall x, x ∈ w.1.parts -> good x) ∧ forall x, x ∈ w.2.parts -> good x := by
  induction whens with
  | nil =>
      simp [partsOfPairs]
  | cons w rest ih =>
      rw [partsOfPairs, List.forall_mem_append, List.forall_mem_append, List.forall_mem_cons, ih]

namespace Scalar.IsReadable

variable {l r e input : Scalar} {op : Arithmetic} {name : String} {distinct : Bool}
  {args : List Scalar} {otherwise : Option Scalar}

theorem shows (h : e.IsReadable) : e.showsItself = true := by
  apply h.legible
  cases e <;> simp [Scalar.parts]

theorem binary (h : (Scalar.binary l op r).IsReadable) : l.IsReadable ∧ r.IsReadable := by
  rcases h with ⟨hform, hlegible⟩
  rw [Scalar.wellFormed, Bool.and_eq_true] at hform
  rw [IsLegible, Scalar.parts, List.forall_mem_cons, List.forall_mem_append] at hlegible
  exact ⟨⟨hform.1, hlegible.2.1⟩, ⟨hform.2, hlegible.2.2⟩⟩

theorem negate (h : (Scalar.negate e).IsReadable) : e.isNumber = false ∧ e.IsReadable := by
  rcases h with ⟨hform, hlegible⟩
  rw [Scalar.wellFormed, Bool.and_eq_true, Bool.not_eq_true'] at hform
  rw [IsLegible, Scalar.parts, List.forall_mem_cons] at hlegible
  exact ⟨hform.1, ⟨hform.2, hlegible.2⟩⟩

theorem collate {collation : String} (h : (Scalar.collate e collation).IsReadable) :
    e.isItem = true ∧ isName collation = true ∧ e.IsReadable := by
  have hshows := h.shows
  rw [showsItself, Bool.and_eq_true] at hshows
  rcases h with ⟨hform, hlegible⟩
  rw [IsLegible, Scalar.parts, List.forall_mem_cons] at hlegible
  exact ⟨hshows.1, hshows.2, ⟨hform, hlegible.2⟩⟩

theorem call (h : (Scalar.call name distinct args).IsReadable) :
    forall e, e ∈ args -> e.IsReadable := by
  rcases h with ⟨hform, hlegible⟩
  rw [Scalar.wellFormed, wellFormedAll_iff] at hform
  rw [IsLegible, Scalar.parts, List.forall_mem_cons, forall_partsOfAll] at hlegible
  exact fun e he => ⟨hform e he, hlegible.2 e he⟩

theorem searchedCase {whens : List (Predicate × Scalar)}
    (h : (Scalar.searchedCase whens otherwise).IsReadable) :
    (forall w, w ∈ whens -> w.1.IsReadable ∧ w.2.IsReadable) ∧
      forall e, otherwise = some e -> e.IsReadable := by
  rcases h with ⟨hform, hlegible⟩
  rw [Scalar.wellFormed, Bool.and_eq_true, wellFormedBranches_iff] at hform
  rw [IsLegible, Scalar.parts, List.forall_mem_cons, List.forall_mem_append,
    forall_partsOfBranches] at hlegible
  refine ⟨fun w hw => ⟨⟨(hform.1 w hw).1, (hlegible.2.1 w hw).1⟩,
    ⟨(hform.1 w hw).2, (hlegible.2.1 w hw).2⟩⟩, ?_⟩
  rintro e rfl
  exact ⟨hform.2, hlegible.2.2⟩

theorem simpleCase {whens : List (Scalar × Scalar)}
    (h : (Scalar.simpleCase input whens otherwise).IsReadable) :
    input.IsReadable ∧ (forall w, w ∈ whens -> w.1.IsReadable ∧ w.2.IsReadable) ∧
      forall e, otherwise = some e -> e.IsReadable := by
  rcases h with ⟨hform, hlegible⟩
  rw [Scalar.wellFormed, Bool.and_eq_true, Bool.and_eq_true, wellFormedPairs_iff] at hform
  rw [IsLegible, Scalar.parts, List.forall_mem_cons, List.forall_mem_append,
    List.forall_mem_append, forall_partsOfPairs] at hlegible
  refine ⟨⟨hform.1.1, hlegible.2.1.1⟩, fun w hw => ⟨⟨(hform.1.2 w hw).1, (hlegible.2.1.2 w hw).1⟩,
    ⟨(hform.1.2 w hw).2, (hlegible.2.1.2 w hw).2⟩⟩, ?_⟩
  rintro e rfl
  exact ⟨hform.2, hlegible.2.2⟩

end Scalar.IsReadable

namespace Predicate.IsReadable

variable {l r e pattern wanted : Scalar} {op : Comparison} {negated : Bool}
  {items : List Predicate}

theorem compare (h : (Predicate.compare l op r).IsReadable) : l.IsReadable ∧ r.IsReadable := by
  rcases h with ⟨hform, hlegible⟩
  rw [Predicate.wellFormed, Bool.and_eq_true] at hform
  rw [Predicate.parts, List.forall_mem_append] at hlegible
  exact ⟨⟨hform.1, hlegible.1⟩, ⟨hform.2, hlegible.2⟩⟩

theorem isNull (h : (Predicate.isNull e negated).IsReadable) : e.IsReadable :=
  ⟨h.wellFormed, h.legible⟩

theorem inList {list : List Scalar} (h : (Predicate.inList e list negated).IsReadable) :
    e.IsReadable ∧ forall f, f ∈ list -> f.IsReadable := by
  rcases h with ⟨hform, hlegible⟩
  rw [Predicate.wellFormed, Bool.and_eq_true, wellFormedAll_iff] at hform
  rw [Predicate.parts, List.forall_mem_append, forall_partsOfAll] at hlegible
  exact ⟨⟨hform.1, hlegible.1⟩, fun f hf => ⟨hform.2 f hf, hlegible.2 f hf⟩⟩

theorem like (h : (Predicate.like e pattern negated).IsReadable) :
    e.IsReadable ∧ pattern.IsReadable := by
  rcases h with ⟨hform, hlegible⟩
  rw [Predicate.wellFormed, Bool.and_eq_true] at hform
  rw [Predicate.parts, List.forall_mem_append] at hlegible
  exact ⟨⟨hform.1, hlegible.1⟩, ⟨hform.2, hlegible.2⟩⟩

theorem contains {c : Column} (h : (Predicate.contains c wanted).IsReadable) :
    (Scalar.column c).IsReadable ∧ wanted.IsReadable := by
  rcases h with ⟨hform, hlegible⟩
  rw [Predicate.parts, List.forall_mem_cons] at hlegible
  refine ⟨⟨rfl, ?_⟩, ⟨hform, hlegible.2⟩⟩
  intro x hx
  rw [List.mem_singleton.mp hx]
  exact hlegible.1

theorem not {p : Predicate} (h : (Predicate.not p).IsReadable) : p.IsReadable :=
  ⟨h.wellFormed, h.legible⟩

/-- A conjunction or disjunction joins at least two conditions. -/
theorem members (hform : (decide (2 ≤ items.length) && wellFormedMembers items) = true)
    (hlegible : forall x, x ∈ partsOfPredicates items -> x.showsItself = true) :
    exists first second rest, items = first :: second :: rest ∧
      forall p, p ∈ items -> p.IsReadable := by
  rw [Bool.and_eq_true, decide_eq_true_eq, wellFormedMembers_iff] at hform
  rw [forall_partsOfPredicates] at hlegible
  have hmembers : forall p, p ∈ items -> p.IsReadable :=
    fun p hp => ⟨hform.2 p hp, hlegible p hp⟩
  cases items with
  | nil =>
      cases hform.1
  | cons first items =>
      cases items with
      | nil =>
          exact absurd hform.1 (by simp)
      | cons second rest =>
          exact ⟨first, second, rest, rfl, hmembers⟩

end Predicate.IsReadable

end Sql
end RecordSql
