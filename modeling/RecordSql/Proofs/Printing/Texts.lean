import RecordSql.Proofs.Printing.Tokens

/-!
# The tokens of canonical expressions

The canonical text of an expression is cut into the marks of the expression, whatever stands behind
it after a blank, a comma or a parenthesis.
-/

namespace RecordSql
namespace Sql

/-- Wherever the text breaks off, it is cut into the marks. -/
def Spells (text : List Char) (marks : List Mark) : Prop :=
  forall cs more, Breaks cs -> Cuts cs more -> Cuts (text ++ cs) (marks ++ more)

/-!
# Names
-/

theorem isName_of_isPlainName {s : String} (h : isPlainName s = true) : isName s = true :=
  (Bool.and_eq_true_iff.mp h).1

theorem lower_of_isColumnName {s : String} (h : isColumnName s = true) :
    isName s = true ∧ Text.lower s = s := by
  rw [isColumnName, isLowerName, Bool.and_eq_true, Bool.and_eq_true, beq_iff_eq] at h
  exact h.1

theorem upper_of_isFunctionName {s : String} (h : isFunctionName s = true) :
    isName s = true ∧ Text.upper s = s := by
  simp only [isFunctionName, isPlainName, Bool.or_eq_true, Bool.and_eq_true, beq_iff_eq] at h
  rcases h with (⟨⟨⟨hname, _⟩, hupper⟩, _⟩ | rfl) | rfl
  · exact ⟨hname, hupper⟩
  · exact ⟨isName_of_isUpperWord (by decide), by decide⟩
  · exact ⟨isName_of_isUpperWord (by decide), by decide⟩

theorem Cuts.keyword {w : String} {cs : List Char} {marks : List Mark} (hw : isUpperWord w = true)
    (h : Cuts cs marks) : Cuts (w.toList ++ ' ' :: cs) (wordMark w :: marks) :=
  Cuts.word (isName_of_isUpperWord hw) (Breaks.cons (by decide)).notWord h.blank

/-- The point in a name. -/
theorem Cuts.point {c : Char} {cs : List Char} {marks : List Mark} (hc : c.isDigit = false)
    (h : Cuts (c :: cs) marks) : Cuts ('.' :: c :: cs) (symbolMark "." :: marks) := by
  refine Cuts.single ?_ h
  have hnumber : startsNumber ('.' :: c :: cs) = false := hc
  change (if startsNumber ('.' :: c :: cs) = true then _ else _ :
    Except ParseCause (Lexeme × Nat)) = _
  rw [hnumber]
  rfl

theorem spells_name {s : String} (h : isName s = true) : Spells s.toList [wordMark s] :=
  fun _ _ hcs hcuts => Cuts.word h hcs.notWord hcuts

theorem spells_keyword {w : String} (h : isUpperWord w = true) : Spells w.toList [wordMark w] :=
  spells_name (isName_of_isUpperWord h)

/-- A name with a point behind it. -/
theorem Cuts.qualifier {s : String} {c : Char} {cs : List Char} {marks : List Mark}
    (hs : isName s = true) (hc : c.isDigit = false) (h : Cuts (c :: cs) marks) :
    Cuts (s.toList ++ '.' :: c :: cs) (wordMark s :: symbolMark "." :: marks) := by
  refine Cuts.word hs ?_ (Cuts.point hc h)
  rintro _ ⟨⟩
  decide

theorem spells_column {c : Column} (h : c.isCanonical = true) : Spells c.text.toList c.marks := by
  intro cs more hcs hcuts
  rcases c with ⟨collection, name, quoted⟩
  simp only [Column.isCanonical, Bool.and_eq_true] at h
  rcases lower_of_isColumnName h.1.2 with ⟨hname, hlower⟩
  have hlast := spells_name hname cs more hcs hcuts
  cases collection with
  | none =>
      rw [Column.text, Column.marks, hlower]
      exact hlast
  | some collection =>
      rcases lower_of_isColumnName h.1.1 with ⟨hcollection, hlower'⟩
      rcases isName_iff.mp hname with ⟨c, w, hw, hc, _⟩
      rw [hw] at hlast
      have hqualified := Cuts.qualifier hcollection (not_isDigit_of_startsWord hc) hlast
      rw [Column.text, Column.marks]
      simp only [hlower, hlower', String.toList_append, hw, List.append_assoc]
      exact hqualified

theorem spells_starOf {table : String} (h : isColumnName table = true) :
    Spells (Scalar.starOf table).text.toList (Scalar.starOf table).marks := by
  intro cs more _ hcuts
  rcases lower_of_isColumnName h with ⟨hname, hlower⟩
  rw [Scalar.text, Scalar.marks, hlower, String.toList_append, List.append_assoc]
  exact Cuts.qualifier hname (by decide) hcuts.star

/-!
# Literals
-/

theorem head?_digitsOf (n : Nat) (cs : List Char) :
    (Number.digitsOf n ++ cs).head? ≠ some '-' := by
  cases hdigits : Number.digitsOf n with
  | nil =>
      exact absurd hdigits Nat.toDigits_ne_nil
  | cons d digits =>
      rintro ⟨⟩
      have hmem : '-' ∈ Number.digitsOf n := by
        rw [hdigits]
        exact List.mem_cons_self
      exact absurd (Number.isDigit_of_mem_digitsOf hmem) (by decide)

theorem spells_int (i : Int) : Spells (Number.intText i).toList (intMarks i) := by
  intro cs more hcs hcuts
  have hdigits := hcuts.digits (n := i.natAbs) hcs
  rw [Number.intText, String.toList_ofList, Number.signed, intMarks]
  by_cases hi : i < 0
  · rw [if_pos (decide_eq_true hi), if_pos hi]
    exact hdigits.minus (head?_digitsOf _ _)
  · rw [if_neg (by simpa using hi), if_neg hi]
    exact hdigits

theorem spells_literal {l : Literal} (h : (Scalar.literal l).isCanonical = true) :
    Spells l.text.toList l.marks := by
  intro cs more hcs hcuts
  cases l with
  | str s =>
      exact hcuts.text hcs
  | int i =>
      exact spells_int i cs more hcs hcuts
  | null =>
      exact spells_keyword (by decide) cs more hcs hcuts
  | _ =>
      cases h

/-!
# Negated operands
-/

theorem head?_of_isName {s : String} (h : isName s = true) (cs : List Char) :
    (s.toList ++ cs).head? ≠ some '-' := by
  rcases isName_iff.mp h with ⟨c, w, hw, hc, _⟩
  rw [hw]
  rintro ⟨⟩
  exact absurd hc (by decide)

theorem head?_column {c : Column} (h : c.isCanonical = true) (cs : List Char) :
    (c.text.toList ++ cs).head? ≠ some '-' := by
  rcases c with ⟨collection, name, quoted⟩
  simp only [Column.isCanonical, Bool.and_eq_true] at h
  rcases lower_of_isColumnName h.1.2 with ⟨hname, hlower⟩
  cases collection with
  | none =>
      rw [Column.text, hlower]
      exact head?_of_isName hname cs
  | some collection =>
      rcases lower_of_isColumnName h.1.1 with ⟨hcollection, hlower'⟩
      rw [Column.text]
      simp only [hlower', String.toList_append, List.append_assoc]
      exact head?_of_isName hcollection _

theorem head?_collatable {e : Scalar} (h : e.isCanonical = true) (hcollatable : e.isCollatable = true)
    (cs : List Char) : (e.text.toList ++ cs).head? ≠ some '-' := by
  cases e with
  | literal l =>
      cases l with
      | str s =>
          rw [Scalar.text, Literal.text, Literal.quoted, String.toList_ofList]
          rintro ⟨⟩
      | int i =>
          have hi : ¬ i < 0 := Int.not_lt.mpr (of_decide_eq_true hcollatable)
          rw [Scalar.text, Literal.text, Number.intText, String.toList_ofList, Number.signed,
            if_neg (by simpa using hi)]
          exact head?_digitsOf _ cs
      | null =>
          exact head?_of_isName (s := "NULL") (isName_of_isUpperWord (by decide)) cs
      | _ =>
          cases hcollatable
  | column c =>
      exact head?_column h cs
  | call name distinct args =>
      rw [Scalar.isCanonical, Bool.and_eq_true, Bool.and_eq_true] at h
      rcases upper_of_isFunctionName h.1.1 with ⟨hname, hupper⟩
      rw [Scalar.text, hupper]
      simp only [String.toList_append, List.append_assoc]
      exact head?_of_isName hname _
  | searchedCase whens otherwise =>
      rw [Scalar.text]
      simp only [String.toList_append, List.append_assoc]
      exact head?_of_isName (s := "CASE") (isName_of_isUpperWord (by decide)) _
  | simpleCase input whens otherwise =>
      rw [Scalar.text]
      simp only [String.toList_append, List.append_assoc]
      rintro ⟨⟩
  | _ =>
      cases hcollatable

/-- What a minus is put in front of does not begin with one. -/
theorem head?_negated {e : Scalar} (h : (Scalar.negate e).isCanonical = true) (cs : List Char) :
    (e.operandChars ++ cs).head? ≠ some '-' := by
  simp only [Scalar.isCanonical, Bool.and_eq_true, Bool.not_eq_true'] at h
  rcases h with ⟨⟨hcanonical, hnumber⟩, hnegation⟩
  cases e with
  | literal l =>
      refine head?_collatable hcanonical ?_ cs
      cases l with
      | str s =>
          rfl
      | null =>
          rfl
      | int i =>
          cases hnumber
      | _ =>
          cases hcanonical
  | binary l op r =>
      rintro ⟨⟩
  | negate e =>
      cases hnegation
  | collate e collation =>
      simp only [Scalar.isCanonical, Bool.and_eq_true] at hcanonical
      change ((Scalar.collate e collation).text.toList ++ cs).head? ≠ some '-'
      rw [Scalar.text]
      simp only [String.toList_append, List.append_assoc]
      exact head?_collatable hcanonical.1.1 hcanonical.1.2 _
  | star =>
      cases hcanonical
  | starOf table =>
      cases hcanonical
  | _ =>
      exact head?_collatable hcanonical rfl cs

/-!
# Parentheses
-/

theorem Spells.enclosed {text : List Char} {marks : List Mark} (h : Spells text marks) :
    Spells ('(' :: (text ++ [')'])) (enclosedMarks marks) := by
  intro cs more hcs hcuts
  have hinner := h (')' :: cs) (.closing :: more) (Breaks.cons (by decide)) hcuts.closing
  rw [enclosedMarks]
  simp only [List.cons_append, List.append_assoc, List.nil_append]
  exact hinner.opening

theorem Spells.operand {e : Scalar} (h : Spells e.text.toList e.marks) (parent : Arithmetic)
    (onRight : Bool) : Spells (operandText parent onRight e e.text).toList
      (operandMarks parent onRight e e.marks) := by
  rw [Scalar.operandText_eq, operandMarks]
  split
  · rw [String.toList_append, String.toList_append]
    exact h.enclosed
  · exact h

theorem Spells.negated {e : Scalar} (h : Spells e.text.toList e.marks) :
    Spells e.operandChars (negatedMarks e e.marks) := by
  cases e with
  | binary l op r =>
      exact h.enclosed
  | _ =>
      exact h

theorem Spells.member {p : Predicate} (h : Spells p.text.toList p.marks) :
    Spells (memberText p p.text).toList (memberMarks p p.marks) := by
  cases p with
  | and items =>
      rw [memberText, String.toList_append, String.toList_append]
      exact h.enclosed
  | or items =>
      rw [memberText, String.toList_append, String.toList_append]
      exact h.enclosed
  | _ =>
      exact h

/-!
# Whole expressions
-/

theorem Cuts.negation (negated : Bool) {cs : List Char} {marks : List Mark} (h : Cuts cs marks) :
    Cuts ((notText negated).toList ++ cs) (notMarks negated ++ marks) := by
  cases negated with
  | false =>
      exact h
  | true =>
      exact Cuts.keyword (w := "NOT") (by decide) h

theorem Spells.argument {e : Scalar} (h : (e.isWildcard || e.isCanonical) = true)
    (hscalar : e.isCanonical = true -> Spells e.text.toList e.marks) :
    Spells e.text.toList e.marks := by
  rw [Bool.or_eq_true] at h
  rcases h with hwildcard | hcanonical
  · cases e with
    | star =>
        exact fun _ _ _ hcuts => hcuts.star
    | starOf table =>
        exact spells_starOf hwildcard
    | _ =>
        cases hwildcard
  · exact hscalar hcanonical

theorem breaks_else (otherwise : Option Scalar) (cs : List Char) :
    Breaks ((textOfElse otherwise).toList ++ ' ' :: cs) := by
  cases otherwise with
  | none =>
      exact Breaks.cons (by decide)
  | some e =>
      rw [textOfElse, String.toList_append, List.append_assoc]
      exact Breaks.cons (by decide)

theorem breaks_branches (whens : List (Predicate × Scalar)) {cs : List Char} (hcs : Breaks cs) :
    Breaks ((textOfBranches whens).toList ++ cs) := by
  cases whens with
  | nil =>
      exact hcs
  | cons branch rest =>
      rw [textOfBranches]
      simp only [String.toList_append, List.append_assoc]
      exact Breaks.cons (by decide)

theorem breaks_pairs (whens : List (Scalar × Scalar)) {cs : List Char} (hcs : Breaks cs) :
    Breaks ((textOfPairs whens).toList ++ cs) := by
  cases whens with
  | nil =>
      exact hcs
  | cons pair rest =>
      rw [textOfPairs]
      simp only [String.toList_append, List.append_assoc]
      exact Breaks.cons (by decide)

mutual

theorem spells_scalar : forall e : Scalar, e.isCanonical = true -> Spells e.text.toList e.marks
  | .literal l, h => by
      rw [Scalar.text, Scalar.marks]
      exact spells_literal h
  | .column c, h => by
      rw [Scalar.text, Scalar.marks]
      exact spells_column h
  | .call name distinct args, h => by
      intro cs more hcs hcuts
      rw [Scalar.isCanonical, Bool.and_eq_true, Bool.and_eq_true] at h
      rcases upper_of_isFunctionName h.1.1 with ⟨hname, hupper⟩
      have hargs := spells_arguments args h.1.2 (')' :: cs) (.closing :: more)
        (Breaks.cons (by decide)) hcuts.closing
      have hinside : Cuts ((if distinct then "DISTINCT " else "").toList ++
            ((textOfAll args).toList ++ ')' :: cs))
          ((if distinct then [wordMark "DISTINCT"] else []) ++
            (marksOfAll args ++ .closing :: more)) := by
        cases distinct with
        | false =>
            exact hargs
        | true =>
            exact Cuts.keyword (w := "DISTINCT") (by decide) hargs
      rw [Scalar.text, Scalar.marks, hupper]
      simp only [String.toList_append, List.append_assoc, List.cons_append, List.nil_append]
      exact Cuts.word hname (Breaks.cons (by decide)).notWord hinside.opening
  | .binary l op r, h => by
      intro cs more hcs hcuts
      rw [Scalar.isCanonical, Bool.and_eq_true] at h
      have hright := ((spells_scalar r h.2).operand op true) cs more hcs hcuts
      have hleft := ((spells_scalar l h.1).operand op false) _ _ (Breaks.cons (by decide))
        (hright.sign op).blank
      rw [Scalar.text, Scalar.marks]
      simp only [String.toList_append, List.append_assoc, List.cons_append]
      exact hleft
  | .negate e, h => by
      intro cs more hcs hcuts
      have hcanonical : e.isCanonical = true := by
        simp only [Scalar.isCanonical, Bool.and_eq_true] at h
        exact h.1.1
      rw [Scalar.text, Scalar.marks, Scalar.toList_negatedText]
      exact ((spells_scalar e hcanonical).negated cs more hcs hcuts).minus (head?_negated h cs)
  | .searchedCase whens otherwise, h => by
      intro cs more hcs hcuts
      rw [Scalar.isCanonical, Bool.and_eq_true, Bool.and_eq_true] at h
      have hend := (spells_keyword (w := "END") (by decide) cs more hcs hcuts).blank
      have hotherwise := spells_else otherwise h.2 _ _ (Breaks.cons (by decide)) hend
      have hbreaks := breaks_else otherwise ("END".toList ++ cs)
      have hwhens := spells_branches whens h.1.2 _ _ hbreaks hotherwise
      have hcase := Cuts.word (w := "CASE") (isName_of_isUpperWord (by decide))
        (breaks_branches whens hbreaks).notWord hwhens
      rw [Scalar.text, Scalar.marks]
      simp only [String.toList_append, List.append_assoc, List.cons_append]
      exact hcase
  | .simpleCase input whens otherwise, h => by
      intro cs more hcs hcuts
      rw [Scalar.isCanonical, Bool.and_eq_true, Bool.and_eq_true, Bool.and_eq_true] at h
      have hend := (spells_keyword (w := "END") (by decide) cs more hcs hcuts).blank
      have hotherwise := spells_else otherwise h.2 _ _ (Breaks.cons (by decide)) hend
      have hbreaks := breaks_else otherwise ("END".toList ++ cs)
      have hwhens := spells_pairs whens h.1.2 _ _ hbreaks hotherwise
      have hinput := spells_scalar input h.1.1.1 _ _ (breaks_pairs whens hbreaks) hwhens
      have hcase := Cuts.keyword (w := "CASE") (by decide) hinput
      rw [Scalar.text, Scalar.marks]
      simp only [String.toList_append, List.append_assoc, List.cons_append]
      exact hcase
  | .collate e collation, h => by
      intro cs more hcs hcuts
      rw [Scalar.isCanonical, Bool.and_eq_true, Bool.and_eq_true] at h
      have hname := spells_name (isName_of_isPlainName h.2) cs more hcs hcuts
      have hkeyword := Cuts.keyword (w := "COLLATE") (by decide) hname
      have hitem := spells_scalar e h.1.1 _ _ (Breaks.cons (by decide)) hkeyword.blank
      rw [Scalar.text, Scalar.marks]
      simp only [String.toList_append, List.append_assoc, List.cons_append]
      exact hitem
  | .star, h => by
      cases h
  | .starOf _, h => by
      cases h

theorem spells_predicate : forall p : Predicate, p.isCanonical = true ->
    Spells p.text.toList p.marks
  | .and items, h => by
      rw [Predicate.isCanonical, Bool.and_eq_true] at h
      rw [Predicate.text, Predicate.marks]
      exact spells_members "AND" (by decide) items h.2
  | .or items, h => by
      rw [Predicate.isCanonical, Bool.and_eq_true] at h
      rw [Predicate.text, Predicate.marks]
      exact spells_members "OR" (by decide) items h.2
  | .not p, h => by
      intro cs more hcs hcuts
      rw [Predicate.isCanonical] at h
      have henclosed := (spells_predicate p h).enclosed cs more hcs hcuts
      have hnot := Cuts.keyword (w := "NOT") (by decide) henclosed
      rw [Predicate.text, Predicate.marks]
      simp only [String.toList_append, List.append_assoc]
      simp only [List.cons_append, List.append_assoc] at hnot
      exact hnot
  | .compare l op r, h => by
      intro cs more hcs hcuts
      rw [Predicate.isCanonical, Bool.and_eq_true] at h
      have hright := spells_scalar r h.2 cs more hcs hcuts
      have hleft := spells_scalar l h.1 _ _ (Breaks.cons (by decide))
        (hright.comparison op).blank
      rw [Predicate.text, Predicate.marks]
      simp only [String.toList_append, List.append_assoc, List.cons_append]
      exact hleft
  | .isNull e negated, h => by
      intro cs more hcs hcuts
      rw [Predicate.isCanonical] at h
      have hnull := spells_keyword (w := "NULL") (by decide) cs more hcs hcuts
      have his := Cuts.keyword (w := "IS") (by decide) (hnull.negation negated)
      have he := spells_scalar e h _ _ (Breaks.cons (by decide)) his.blank
      rw [Predicate.text, Predicate.marks]
      simp only [String.toList_append, List.append_assoc, List.cons_append]
      exact he
  | .inList e items negated, h => by
      intro cs more hcs hcuts
      rw [Predicate.isCanonical, Bool.and_eq_true, Bool.and_eq_true] at h
      have hitems := (spells_all items h.2).enclosed cs more hcs hcuts
      have hin := (Cuts.keyword (w := "IN") (by decide) hitems).negation negated
      have he := spells_scalar e h.1.1 _ _ (Breaks.cons (by decide)) hin.blank
      rw [Predicate.text, Predicate.marks]
      simp only [String.toList_append, List.append_assoc, List.cons_append]
      simp only [List.cons_append, List.append_assoc] at he
      exact he
  | .like e pattern negated, h => by
      intro cs more hcs hcuts
      rw [Predicate.isCanonical, Bool.and_eq_true] at h
      have hpattern := spells_scalar pattern h.2 cs more hcs hcuts
      have hlike := (Cuts.keyword (w := "LIKE") (by decide) hpattern).negation
        negated
      have he := spells_scalar e h.1 _ _ (Breaks.cons (by decide)) hlike.blank
      rw [Predicate.text, Predicate.marks]
      simp only [String.toList_append, List.append_assoc, List.cons_append]
      exact he
  | .contains c wanted, h => by
      intro cs more hcs hcuts
      rw [Predicate.isCanonical, Bool.and_eq_true] at h
      have hwanted := spells_scalar wanted h.2 _ _ (Breaks.cons (by decide)) hcuts.closing
      have hcolumn := spells_column h.1 _ _ (Breaks.cons (by decide)) hwanted.blank.comma
      have hcontains := Cuts.word (w := "CONTAINS") (isName_of_isUpperWord (by decide))
        (Breaks.cons (by decide)).notWord hcolumn.opening
      rw [Predicate.text, Predicate.marks, enclosedMarks]
      simp only [String.toList_append, List.append_assoc, List.cons_append]
      exact hcontains
  | .const _, h => by
      cases h

theorem spells_all : forall items : List Scalar, canonicalAll items = true ->
    Spells (textOfAll items).toList (marksOfAll items)
  | [], _ => fun _ _ _ hcuts => hcuts
  | [e], h => by
      rw [canonicalAll, Bool.and_eq_true] at h
      rw [textOfAll, marksOfAll]
      exact spells_scalar e h.1
  | e :: f :: rest, h => by
      intro cs more hcs hcuts
      rw [canonicalAll, Bool.and_eq_true] at h
      have hothers := spells_all (f :: rest) h.2 cs more hcs hcuts
      have he := spells_scalar e h.1 _ _ (Breaks.cons (by decide)) hothers.blank.comma
      change Cuts ((e.text ++ ", " ++ textOfAll (f :: rest)).toList ++ cs)
        (e.marks ++ symbolMark "," :: marksOfAll (f :: rest) ++ more)
      simp only [String.toList_append, List.append_assoc, List.cons_append]
      exact he

theorem spells_arguments : forall args : List Scalar, canonicalArguments args = true ->
    Spells (textOfAll args).toList (marksOfAll args)
  | [], _ => fun _ _ _ hcuts => hcuts
  | [e], h => by
      rw [canonicalArguments, Bool.and_eq_true] at h
      rw [textOfAll, marksOfAll]
      exact Spells.argument h.1 fun he => spells_scalar e he
  | e :: f :: rest, h => by
      intro cs more hcs hcuts
      rw [canonicalArguments, Bool.and_eq_true] at h
      have hothers := spells_arguments (f :: rest) h.2 cs more hcs hcuts
      have he := Spells.argument h.1 (fun he => spells_scalar e he) _ _ (Breaks.cons (by decide))
        hothers.blank.comma
      change Cuts ((e.text ++ ", " ++ textOfAll (f :: rest)).toList ++ cs)
        (e.marks ++ symbolMark "," :: marksOfAll (f :: rest) ++ more)
      simp only [String.toList_append, List.append_assoc, List.cons_append]
      exact he

theorem spells_members (word : String) (hword : isUpperWord word = true) :
    forall items : List Predicate, canonicalMembers items = true ->
      Spells (textOfMembers word items).toList (marksOfMembers word items)
  | [], _ => fun _ _ _ hcuts => hcuts
  | [p], h => by
      rw [canonicalMembers, Bool.and_eq_true] at h
      rw [textOfMembers, marksOfMembers]
      exact (spells_predicate p h.1).member
  | p :: q :: rest, h => by
      intro cs more hcs hcuts
      rw [canonicalMembers, Bool.and_eq_true] at h
      have hothers := spells_members word hword (q :: rest) h.2 cs more hcs hcuts
      have hp := (spells_predicate p h.1).member _ _ (Breaks.cons (by decide))
        (Cuts.keyword hword hothers).blank
      change Cuts ((memberText p p.text ++ " " ++ word ++ " " ++
          textOfMembers word (q :: rest)).toList ++ cs)
        (memberMarks p p.marks ++ wordMark word :: marksOfMembers word (q :: rest) ++ more)
      simp only [String.toList_append, List.append_assoc, List.cons_append]
      exact hp

theorem spells_branches : forall whens : List (Predicate × Scalar), canonicalBranches whens = true ->
    Spells (textOfBranches whens).toList (marksOfBranches whens)
  | [], _ => fun _ _ _ hcuts => hcuts
  | (p, e) :: rest, h => by
      intro cs more hcs hcuts
      rw [canonicalBranches, Bool.and_eq_true, Bool.and_eq_true] at h
      have hothers := spells_branches rest h.2 cs more hcs hcuts
      have he := spells_scalar e h.1.2 _ _ (breaks_branches rest hcs) hothers
      have hthen := (Cuts.keyword (w := "THEN") (by decide) he).blank
      have hp := spells_predicate p h.1.1 _ _ (Breaks.cons (by decide)) hthen
      have hwhen := (Cuts.keyword (w := "WHEN") (by decide) hp).blank
      rw [textOfBranches, marksOfBranches]
      simp only [String.toList_append, List.append_assoc, List.cons_append]
      exact hwhen

theorem spells_pairs : forall whens : List (Scalar × Scalar), canonicalPairs whens = true ->
    Spells (textOfPairs whens).toList (marksOfPairs whens)
  | [], _ => fun _ _ _ hcuts => hcuts
  | (w, e) :: rest, h => by
      intro cs more hcs hcuts
      rw [canonicalPairs, Bool.and_eq_true, Bool.and_eq_true] at h
      have hothers := spells_pairs rest h.2 cs more hcs hcuts
      have he := spells_scalar e h.1.2 _ _ (breaks_pairs rest hcs) hothers
      have hthen := (Cuts.keyword (w := "THEN") (by decide) he).blank
      have hw := spells_scalar w h.1.1 _ _ (Breaks.cons (by decide)) hthen
      have hwhen := (Cuts.keyword (w := "WHEN") (by decide) hw).blank
      rw [textOfPairs, marksOfPairs]
      simp only [String.toList_append, List.append_assoc, List.cons_append]
      exact hwhen

theorem spells_else : forall otherwise : Option Scalar, canonicalElse otherwise = true ->
    Spells (textOfElse otherwise).toList (marksOfElse otherwise)
  | none, _ => fun _ _ _ hcuts => hcuts
  | some e, h => by
      intro cs more hcs hcuts
      rw [canonicalElse] at h
      have he := spells_scalar e h cs more hcs hcuts
      have helse := (Cuts.keyword (w := "ELSE") (by decide) he).blank
      rw [textOfElse, marksOfElse, String.toList_append, List.append_assoc]
      exact helse

end

end Sql
end RecordSql
