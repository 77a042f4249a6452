import RecordSql.Proofs.DocumentText
import RecordSql.Proofs.Parsing.Expressions
import RecordSql.Proofs.Printing.Rows

/-!
# Reading operands

The marks of a canonical operand are read as that operand, if what may stand inside it is read
already.
-/

namespace RecordSql
namespace Sql

/-!
# First marks
-/

theorem isWord_of_isReserved {w word : String} (hw : isReserved w = false)
    (hword : word ∈ reservedWords) : (wordMark w).isWord word = false := by
  apply Bool.eq_false_iff.mpr
  intro h
  rw [isReserved, List.any_eq_false] at hw
  refine hw word hword ?_
  rw [Text.sameName_comm]
  exact h

theorem isReserved_of_isColumnName {s : String} (h : isColumnName s = true) :
    isReserved s = false := by
  rw [isColumnName, Bool.and_eq_true, Bool.not_eq_true'] at h
  exact h.2

theorem isWord_of_isFunctionName {name word : String} (h : isFunctionName name = true)
    (hword : word ∈ reservedWords) (hleft : Text.sameName "LEFT" word = false)
    (hright : Text.sameName "RIGHT" word = false) : (wordMark name).isWord word = false := by
  simp only [isFunctionName, isPlainName, Bool.or_eq_true, Bool.and_eq_true, beq_iff_eq,
    Bool.not_eq_true'] at h
  rcases h with (⟨⟨⟨_, hreserved⟩, _⟩, _⟩ | rfl) | rfl
  · exact isWord_of_isReserved hreserved hword
  · exact hleft
  · exact hright

/-- A mark that no canonical expression begins with. -/
def startsOther (k : Mark) : Bool :=
  k.isWord "NOT" || k.isWord "DISTINCT" || k.isWord "WHEN" || k.isSymbol ")" || k.isSymbol "*" ||
    k.isSymbol "+"

/-- A mark that no canonical operand without signs begins with. -/
def startsSigned (k : Mark) : Bool :=
  startsOther k || k.isSymbol "-"

/-- A mark that no canonical operand of one item begins with. -/
def startsGrouped (k : Mark) : Bool :=
  startsSigned k || k.isSymbol "("

/-- The marks begin with a mark that is not one of the kind. -/
def Begins (test : Mark -> Bool) (marks : List Mark) : Prop :=
  exists k rest, marks = k :: rest ∧ test k = false

namespace Begins

variable {test : Mark -> Bool} {marks : List Mark}

theorem append (h : Begins test marks) (more : List Mark) : Begins test (marks ++ more) := by
  rcases h with ⟨k, rest, rfl, hk⟩
  exact ⟨k, rest ++ more, rfl, hk⟩

theorem stops (h : Begins test marks) : Parser.Stops test marks := by
  rcases h with ⟨k, rest, rfl, hk⟩
  exact hk

theorem pos (h : Begins test marks) : 0 < marks.length := by
  rcases h with ⟨k, rest, rfl, _⟩
  exact Nat.succ_pos _

theorem signed (h : Begins startsSigned marks) : Begins startsOther marks := by
  rcases h with ⟨k, rest, rfl, hk⟩
  exact ⟨k, rest, rfl, (Bool.or_eq_false_iff.mp hk).1⟩

theorem grouped (h : Begins startsGrouped marks) : Begins startsSigned marks := by
  rcases h with ⟨k, rest, rfl, hk⟩
  exact ⟨k, rest, rfl, (Bool.or_eq_false_iff.mp hk).1⟩

/-- What a single item begins with is no parenthesis. -/
theorem notOpening (h : Begins startsGrouped marks) : Begins (·.isSymbol "(") marks := by
  rcases h with ⟨k, rest, rfl, hk⟩
  exact ⟨k, rest, rfl, (Bool.or_eq_false_iff.mp hk).2⟩

theorem name {s : String} (h : isReserved s = false) :
    Begins startsGrouped (wordMark s :: marks) := by
  refine ⟨_, _, rfl, ?_⟩
  rw [startsGrouped, startsSigned, startsOther, isWord_of_isReserved h (by decide),
    isWord_of_isReserved h (by decide), isWord_of_isReserved h (by decide)]
  rfl

end Begins

theorem Column.begins {c : Column} (h : c.isCanonical = true) : Begins startsGrouped c.marks := by
  rcases c with ⟨collection, name, quoted⟩
  simp only [Column.isCanonical, Bool.and_eq_true] at h
  cases collection with
  | none =>
      exact Begins.name (isReserved_of_isColumnName h.1.2)
  | some collection =>
      exact Begins.name (isReserved_of_isColumnName h.1.1)

namespace Scalar

variable {e : Scalar}

theorem begins_collatable (h : e.isCanonical = true) (hitem : e.isCollatable = true) :
    Begins startsGrouped e.marks := by
  cases e with
  | literal l =>
      cases l with
      | str s =>
          exact ⟨_, _, rfl, rfl⟩
      | null =>
          exact ⟨_, _, rfl, by decide⟩
      | int i =>
          rw [isCollatable, decide_eq_true_iff] at hitem
          rw [Scalar.marks, Literal.marks, intMarks, if_neg (by omega)]
          exact ⟨_, _, rfl, rfl⟩
      | _ =>
          cases hitem
  | column c =>
      rw [Scalar.isCanonical] at h
      exact Column.begins h
  | call name distinct args =>
      simp only [Scalar.isCanonical, Bool.and_eq_true] at h
      refine ⟨_, _, rfl, ?_⟩
      rw [startsGrouped, startsSigned, startsOther,
        isWord_of_isFunctionName h.1.1 (by decide) (by decide) (by decide),
        isWord_of_isFunctionName h.1.1 (by decide) (by decide) (by decide),
        isWord_of_isFunctionName h.1.1 (by decide) (by decide) (by decide)]
      rfl
  | searchedCase whens otherwise =>
      exact ⟨_, _, rfl, by decide⟩
  | simpleCase input whens otherwise =>
      exact ⟨_, _, rfl, by decide⟩
  | _ =>
      cases hitem

/-- The operands of a row that are no signed ones. -/
def isUnsigned : Scalar -> Bool
  | .collate e _ => e.isCollatable
  | .binary _ _ _ => true
  | .starOf _ => true
  | e => e.isCollatable

theorem begins_unsigned (h : e.isCanonical = true) (hunsigned : e.isUnsigned = true) :
    Begins startsSigned e.factorMarks := by
  cases e with
  | collate e collation =>
      simp only [Scalar.isCanonical, Bool.and_eq_true] at h
      exact (begins_collatable h.1.1 h.1.2).grouped.append _
  | binary l op r =>
      exact ⟨_, _, rfl, rfl⟩
  | starOf table =>
      cases h
  | _ =>
      exact (begins_collatable h hunsigned).grouped

/-- An operand has a sign if it is a negation or a negative number. -/
theorem unsigned_cases (h : e.isCanonical = true) :
    e.isUnsigned = true ∨ (exists f, e = .negate f) ∨ exists i, e = .literal (.int i) ∧ i < 0 := by
  cases e with
  | literal l =>
      cases l with
      | int i =>
          by_cases hi : 0 ≤ i
          · exact Or.inl (decide_eq_true hi)
          · exact Or.inr (Or.inr ⟨i, rfl, by omega⟩)
      | str s =>
          exact Or.inl rfl
      | null =>
          exact Or.inl rfl
      | _ =>
          cases h
  | negate f =>
      exact Or.inr (Or.inl ⟨f, rfl⟩)
  | collate f collation =>
      simp only [Scalar.isCanonical, Bool.and_eq_true] at h
      exact Or.inl h.1.2
  | star =>
      cases h
  | _ =>
      exact Or.inl rfl

theorem begins_factor (h : e.isCanonical = true) : Begins startsOther e.factorMarks := by
  rcases unsigned_cases h with hunsigned | ⟨f, rfl⟩ | ⟨i, rfl, hneg⟩
  · exact (begins_unsigned h hunsigned).signed
  · exact ⟨_, _, rfl, rfl⟩
  · change Begins startsOther (intMarks i)
    rw [intMarks, if_pos hneg]
    exact ⟨_, _, rfl, rfl⟩

theorem begins (h : e.isCanonical = true) : Begins startsOther e.marks := by
  rw [marks_eq]
  exact (begins_factor (canonical_terms h).1).append _

end Scalar

namespace Parser

variable {rest : List Mark} {inner : Inner} {n : Nat}

/-!
# Single tokens
-/

theorem accepts_token {k : Mark} {used : List Mark} {e : Scalar}
    (h : forall t : Token, t.kind = k.1 -> t.text = k.2 ->
      Accepts (tokenOperand inner t t.start) (k :: used) rest e) :
    Accepts (primary inner) (k :: used) rest e := by
  intro c hc
  have hhead : c.marks.head? = some k := by
    rw [hc]
    rfl
  rw [Cursor.head?_marks, Option.map_eq_some_iff] at hhead
  rcases hhead with ⟨t, ht, rfl⟩
  rcases h t rfl rfl c hc with ⟨c', hc', hrest⟩
  refine ⟨c', ?_, hrest⟩
  rw [primary_some inner c t ht]
  exact hc'

theorem accepts_text (s : String) :
    Accepts (primary inner) [(.text, s)] rest (.literal (.str s)) := by
  apply accepts_token
  intro t hkind htext
  rw [tokenOperand, hkind, htext]
  exact Accepts.one Accepts.skip Accepts.pure

theorem splitSign_digits {digits : List Char} (h : forall d, d ∈ digits -> d.isDigit = true) :
    Number.splitSign digits = (false, digits) := by
  cases digits with
  | nil =>
      rfl
  | cons d digits =>
      have hd := h d List.mem_cons_self
      rw [Number.splitSign]
      · rintro rest ⟨⟩
        cases hd
      · rintro rest ⟨⟩
        cases hd

theorem readInt_digitsOf {i : Int} (hpos : 0 ≤ i) (hmax : i ≤ Number.maxWord) :
    Number.readInt (Number.digitsOf i.natAbs) = some i := by
  have hdigits : forall d, d ∈ Number.digitsOf i.natAbs -> d.isDigit = true := fun _ =>
    Number.isDigit_of_mem_digitsOf
  have hvalue : Number.natOfDigits (Number.digitsOf i.natAbs) = i.natAbs :=
    Nat.ofDigitChars_ten_toDigits
  have hempty : (Number.digitsOf i.natAbs).isEmpty = false :=
    List.isEmpty_eq_false_iff.mpr Nat.toDigits_ne_nil
  rw [Number.readInt, splitSign_digits hdigits]
  dsimp only
  rw [hempty, List.all_eq_true.mpr hdigits, hvalue, Int.natAbs_of_nonneg hpos]
  have hmin : Number.minWord ≤ i := Int.le_trans (by decide) hpos
  exact Number.checked_eq_some_iff.mpr ⟨Number.fits_iff.mpr ⟨hmin, hmax⟩, rfl⟩

theorem accepts_number {i : Int} (hpos : 0 ≤ i) (hmax : i ≤ Number.maxWord) :
    Accepts (primary inner) [(.number, String.ofList (Number.digitsOf i.natAbs))] rest
      (.literal (.int i)) := by
  apply accepts_token
  intro t hkind htext
  rw [tokenOperand, hkind, htext]
  refine Accepts.one Accepts.skip ?_
  have hpoint : (Number.digitsOf i.natAbs).contains '.' = false := by
    apply Bool.eq_false_iff.mpr
    intro h
    exact absurd (Number.isDigit_of_mem_digitsOf (List.contains_iff_mem.mp h)) (by decide)
  rw [numberLiteral, String.toList_ofList, hpoint, readInt_digitsOf hpos hmax]
  exact Accepts.pure

theorem accepts_word {w : String} {used : List Mark} {e : Scalar}
    (h : forall t : Token, t.mark = wordMark w ->
      Accepts (wordOperand inner t t.start) (wordMark w :: used) rest e) :
    Accepts (primary inner) (wordMark w :: used) rest e := by
  apply accepts_token
  intro t hkind htext
  rw [tokenOperand, hkind]
  exact h t (Prod.ext hkind htext)

theorem accepts_null : Accepts (primary inner) [wordMark "NULL"] rest (.literal .null) := by
  apply accepts_word
  intro t ht
  rw [wordOperand, Token.isWord_eq, ht, if_pos (by decide)]
  exact Accepts.one Accepts.skip Accepts.pure

theorem accepts_caseToken {used : List Mark} {e : Scalar}
    (h : Accepts (caseExpression inner) (wordMark "CASE" :: used) rest e) :
    Accepts (primary inner) (wordMark "CASE" :: used) rest e := by
  apply accepts_word
  intro t ht
  rw [wordOperand, Token.isWord_eq, Token.isWord_eq, ht, if_neg (by decide), if_pos (by decide)]
  exact h

/-!
# Names
-/

theorem accepts_identifier {s : String} (h : isReserved s = false) :
    Accepts identifier [wordMark s] rest (s, false) := by
  have hname : nameOf (wordMark s) = some (s, false) := by
    have hidentifier : (wordMark s).isIdentifier = true := by
      change (!isReserved s) = true
      rw [h]
      rfl
    rw [nameOf, if_pos hidentifier]
    rfl
  exact Accepts.read reads_identifier hname

theorem accepts_name {s : String} (h : isReserved s = false) :
    Accepts name [wordMark s] rest s :=
  Accepts.last (accepts_identifier h) Accepts.pure

theorem Stops.symbol {s : String} (h : Stops continuesName rest) (hs : s = "(" ∨ s = ".") :
    Stops (·.isSymbol s) rest := by
  refine h.mono fun k hk => ?_
  rw [continuesName, Bool.or_eq_true]
  rcases hs with rfl | rfl
  · exact Or.inl hk
  · exact Or.inr hk

theorem accepts_columnReference {c : Column} (h : c.isCanonical = true)
    (hrest : Stops continuesName rest) : Accepts columnReference c.marks rest (.column c) := by
  rcases c with ⟨collection, s, quoted⟩
  simp only [Column.isCanonical, Bool.and_eq_true, Bool.not_eq_true'] at h
  rcases h with ⟨⟨hcollection, hs⟩, rfl⟩
  have hname := isReserved_of_isColumnName hs
  have hdot := hrest.symbol (Or.inr rfl)
  cases collection with
  | none =>
      refine Accepts.one (accepts_identifier hname) ?_
      exact Accepts.pass (Accepts.leave (eats_symbol ".") hdot) Accepts.pure
  | some collection =>
      refine Accepts.one (accepts_identifier (isReserved_of_isColumnName hcollection)) ?_
      refine Accepts.one (Accepts.eat (eats_symbol ".") (beq_self_eq_true _)) ?_
      refine Accepts.pass (Accepts.leave (eats_symbol "*") (Stops.cons rfl)) ?_
      refine Accepts.one (accepts_name hname) ?_
      exact Accepts.pass (accepts_none (eats_symbol ".") hdot) Accepts.pure

theorem accepts_tableStar {table : String} (h : isColumnName table = true) :
    Accepts columnReference [wordMark table, symbolMark ".", symbolMark "*"] rest
      (.starOf table) := by
  refine Accepts.one (accepts_identifier (isReserved_of_isColumnName h)) ?_
  refine Accepts.one (Accepts.eat (eats_symbol ".") (beq_self_eq_true _)) ?_
  exact Accepts.one (Accepts.eat (eats_symbol "*") (beq_self_eq_true _)) Accepts.pure

theorem Accepts.isSymbolAt {c : Cursor} {k : Mark} {marks : List Mark} (hc : c.marks = k :: marks)
    (s : String) : c.isSymbolAt 1 s = marks.head?.any (·.isSymbol s) := by
  rw [Cursor.isSymbolAt_eq, hc, List.getElem?_cons_succ, List.head?_eq_getElem?]

theorem accepts_nameOperand {w : String} {used : List Mark} {e : Scalar} (hw : isReserved w = false)
    (hnext : Stops (·.isSymbol "(") (used ++ rest))
    (h : Accepts columnReference (wordMark w :: used) rest e) :
    Accepts (primary inner) (wordMark w :: used) rest e := by
  apply accepts_word
  intro t ht
  have hword : forall word, word ∈ reservedWords -> ¬ t.isWord word = true := by
    intro word hmem
    rw [Token.isWord_eq, ht]
    exact Bool.eq_false_iff.mp (isWord_of_isReserved hw hmem)
  have hidentifier : t.isIdentifier = true := by
    rw [Token.isIdentifier_eq, ht]
    change (!isReserved w) = true
    rw [hw]
    rfl
  rw [wordOperand, if_neg (hword _ (by decide)), if_neg (hword _ (by decide))]
  apply Accepts.lookFalse
  · intro c hc
    rw [Accepts.isSymbolAt hc]
    exact hnext
  · intro _
    rw [if_pos hidentifier]
    exact h

theorem accepts_column {c : Column} (h : c.isCanonical = true) (hrest : Stops continuesName rest) :
    Accepts (primary inner) c.marks rest (.column c) := by
  have hreference := accepts_columnReference h hrest
  rcases c with ⟨collection, s, quoted⟩
  simp only [Column.isCanonical, Bool.and_eq_true] at h
  cases collection with
  | none =>
      exact accepts_nameOperand (isReserved_of_isColumnName h.1.2) (hrest.symbol (Or.inl rfl))
        hreference
  | some collection =>
      exact accepts_nameOperand (isReserved_of_isColumnName h.1.1) (Stops.cons rfl) hreference

theorem accepts_starOf {table : String} (h : isColumnName table = true) :
    Accepts (primary inner) (Scalar.starOf table).marks rest (.starOf table) :=
  accepts_nameOperand (isReserved_of_isColumnName h) (Stops.cons rfl) (accepts_tableStar h)

/-!
# What stands inside an operand
-/

/-- What goes on with a condition without `AND`, `OR` and `NOT` around it. -/
def continuesMember (k : Mark) : Bool :=
  continuesScalar k || (symbolValue Comparison.ofSign? k).isSome || k.isWord "IS" ||
    k.isWord "IN" || k.isWord "LIKE" || k.isWord "BETWEEN" || k.isWord "NOT"

/-- What goes on with a condition. -/
def continuesPredicate (k : Mark) : Bool :=
  continuesMember k || k.isWord "AND" || k.isWord "OR"

/--
Among so many marks the parsers read canonical expressions, and they do not take one in parentheses
for a condition.
-/
structure Knows (n : Nat) (inner : Inner) : Prop where
  scalar : forall (e : Scalar) (rest : List Mark), e.isCanonical = true ->
    Stops continuesScalar rest -> e.marks.length + rest.length ≤ n ->
      Accepts inner.scalar e.marks rest e
  table : forall (table : String) (rest : List Mark), isColumnName table = true ->
    Stops continuesScalar rest -> (Scalar.starOf table).marks.length + rest.length ≤ n ->
      Accepts inner.scalar (Scalar.starOf table).marks rest (.starOf table)
  predicate : forall (p : Predicate) (rest : List Mark), p.isCanonical = true ->
    Stops continuesPredicate rest -> p.marks.length + rest.length ≤ n ->
      Accepts inner.predicate p.marks rest p
  refuses : forall (e : Scalar) (rest : List Mark), e.isCanonical = true ->
    e.marks.length + rest.length < n -> Refuses inner.predicate (e.marks ++ .closing :: rest)

/-!
# Lists
-/

theorem marksOfAll_cons (e : Scalar) (others : List Scalar) :
    marksOfAll (e :: others) = e.marks ++ markedItems (symbolMark ",") Scalar.marks others := by
  induction others generalizing e with
  | nil =>
      exact (List.append_nil _).symm
  | cons f others ih =>
      rw [marksOfAll, ih, markedItems_cons]
      rintro ⟨⟩

theorem canonicalArguments_iff {args : List Scalar} : canonicalArguments args = true <->
    forall e, e ∈ args -> (e.isWildcard || e.isCanonical) = true := by
  induction args with
  | nil =>
      exact ⟨fun _ e he => absurd he List.not_mem_nil, fun _ => rfl⟩
  | cons e rest ih =>
      rw [canonicalArguments, Bool.and_eq_true, ih, List.forall_mem_cons]

theorem canonicalAll_iff {items : List Scalar} :
    canonicalAll items = true <-> forall e, e ∈ items -> e.isCanonical = true := by
  induction items with
  | nil =>
      exact ⟨fun _ e he => absurd he List.not_mem_nil, fun _ => rfl⟩
  | cons e rest ih =>
      rw [canonicalAll, Bool.and_eq_true, ih, List.forall_mem_cons]

/-- The marks of a branch behind its `WHEN`. -/
def branchMarks {α : Type} (marks : α -> List Mark) (branch : α × Scalar) : List Mark :=
  marks branch.1 ++ wordMark "THEN" :: branch.2.marks

theorem marksOfBranches_eq (whens : List (Predicate × Scalar)) :
    marksOfBranches whens = markedItems (wordMark "WHEN") (branchMarks Predicate.marks) whens := by
  induction whens with
  | nil =>
      rfl
  | cons branch rest ih =>
      rw [marksOfBranches, ih, markedItems_cons, branchMarks, List.append_assoc, List.cons_append]

theorem marksOfPairs_eq (whens : List (Scalar × Scalar)) :
    marksOfPairs whens = markedItems (wordMark "WHEN") (branchMarks Scalar.marks) whens := by
  induction whens with
  | nil =>
      rfl
  | cons branch rest ih =>
      rw [marksOfPairs, ih, markedItems_cons, branchMarks, List.append_assoc, List.cons_append]

theorem canonicalBranches_iff {whens : List (Predicate × Scalar)} :
    canonicalBranches whens = true <->
      forall b, b ∈ whens -> b.1.isCanonical = true ∧ b.2.isCanonical = true := by
  induction whens with
  | nil =>
      exact ⟨fun _ b hb => absurd hb List.not_mem_nil, fun _ => rfl⟩
  | cons b rest ih =>
      rw [canonicalBranches, Bool.and_eq_true, Bool.and_eq_true, ih, List.forall_mem_cons]

theorem canonicalPairs_iff {whens : List (Scalar × Scalar)} :
    canonicalPairs whens = true <->
      forall b, b ∈ whens -> b.1.isCanonical = true ∧ b.2.isCanonical = true := by
  induction whens with
  | nil =>
      exact ⟨fun _ b hb => absurd hb List.not_mem_nil, fun _ => rfl⟩
  | cons b rest ih =>
      rw [canonicalPairs, Bool.and_eq_true, Bool.and_eq_true, ih, List.forall_mem_cons]

/-- The marks behind the branches of a `CASE`. -/
def endMarks (otherwise : Option Scalar) : List Mark :=
  marksOfElse otherwise ++ [wordMark "END"]

theorem stops_endMarks (otherwise : Option Scalar) (rest : List Mark) :
    Stops continuesScalar (endMarks otherwise ++ rest) ∧
      Stops (·.isWord "WHEN") (endMarks otherwise ++ rest) := by
  cases otherwise <;> exact ⟨Stops.cons (by decide), Stops.cons (by decide)⟩

/-!
# Functions
-/

theorem withDatePart_eq {name : String} {args : List Scalar}
    (h : (takesDatePart name && args.head?.any Scalar.isBareColumn) = false) :
    withDatePart name args = args := by
  unfold withDatePart
  split
  · rename_i hname
    rw [hname, Bool.true_and] at h
    split
    · cases h
    · rfl
  · rfl

theorem begins_argument {e : Scalar} (h : (e.isWildcard || e.isCanonical) = true) :
    Begins (fun k => k.isWord "DISTINCT" || k.isSymbol ")") e.marks := by
  by_cases hcanonical : e.isCanonical = true
  · rcases Scalar.begins hcanonical with ⟨k, marks, hmarks, hk⟩
    refine ⟨k, marks, hmarks, ?_⟩
    simp only [startsOther, Bool.or_eq_false_iff] at hk
    exact Bool.or_eq_false_iff.mpr ⟨hk.1.1.1.1.2, hk.1.1.2⟩
  · rw [Bool.eq_false_iff.mpr hcanonical, Bool.or_false] at h
    cases e with
    | star =>
        exact ⟨_, _, rfl, rfl⟩
    | starOf table =>
        refine ⟨_, _, rfl, Bool.or_eq_false_iff.mpr ⟨?_, rfl⟩⟩
        exact isWord_of_isReserved (isReserved_of_isColumnName h) (by decide)
    | _ =>
        cases h

section

variable (h : Knows n inner)

include h

theorem accepts_argument {e : Scalar} (he : (e.isWildcard || e.isCanonical) = true)
    (hrest : Stops continuesScalar rest) (hlength : e.marks.length + rest.length ≤ n) :
    Accepts (argument inner) e.marks rest e := by
  by_cases hcanonical : e.isCanonical = true
  · refine Accepts.pass (Accepts.leave (eats_symbol "*") ?_) (h.scalar e rest hcanonical hrest hlength)
    refine ((Scalar.begins hcanonical).append rest).stops.mono fun k hk => ?_
    simp only [startsOther, hk, Bool.or_true, Bool.true_or]
  · rw [Bool.eq_false_iff.mpr hcanonical, Bool.or_false] at he
    cases e with
    | star =>
        exact Accepts.one (Accepts.eat (eats_symbol "*") (beq_self_eq_true _)) Accepts.pure
    | starOf table =>
        exact Accepts.pass (Accepts.leave (eats_symbol "*") (Stops.cons rfl))
          (h.table table rest he hrest hlength)
    | _ =>
        cases he

theorem accepts_callArguments {name : String} {distinct : Bool} {args : List Scalar}
    (hargs : canonicalArguments args = true)
    (hpart : (takesDatePart name && args.head?.any Scalar.isBareColumn) = false)
    (hlength : (marksOfAll args).length + rest.length < n) :
    Accepts (callArguments inner name)
      (.opening :: ((if distinct then [wordMark "DISTINCT"] else []) ++
        (marksOfAll args ++ [.closing]))) rest (.call name distinct args) := by
  have hend : forall distinct, Accepts (expectSymbol ")" >>= fun _ =>
      pure (Scalar.call name distinct (withDatePart name args))) [.closing] rest
      (.call name distinct args) := by
    intro distinct
    rw [withDatePart_eq hpart]
    exact Accepts.one (Accepts.symbol ")") Accepts.pure
  refine Accepts.one (Accepts.symbol "(") ?_
  rw [canonicalArguments_iff] at hargs
  refine Accepts.flag (eats_keyword "DISTINCT") (by decide) distinct (fun _ => ?_) ?_
  · cases args with
    | nil =>
        exact Stops.cons rfl
    | cons e others =>
        rw [marksOfAll_cons, List.append_assoc, List.append_assoc]
        refine ((begins_argument (hargs e List.mem_cons_self)).append _).stops.mono fun k hk => ?_
        rw [hk, Bool.true_or]
  · cases args with
    | nil =>
        exact Accepts.lookTrue (fun c hc => by rw [Cursor.isSymbol_eq, hc]; rfl) fun _ => hend distinct
    | cons e others =>
        rw [marksOfAll_cons] at hlength ⊢
        apply Accepts.lookFalse
        · intro c hc
          rw [Cursor.isSymbol_eq, hc, List.append_assoc, List.append_assoc]
          refine ((begins_argument (hargs e List.mem_cons_self)).append _).stops.mono fun k hk => ?_
          rw [hk, Bool.or_true]
        · intro _
          refine (accepts_commaList continuesScalar (by decide) (Stops.cons rfl)
            (Stops.cons (by decide)) hlength ?_).bind (hend distinct)
          intro f tail hf htail hshort
          exact accepts_argument h (hargs f hf) htail hshort

theorem accepts_call {name : String} {distinct : Bool} {args : List Scalar}
    (hcall : (Scalar.call name distinct args).isCanonical = true)
    (hlength : (Scalar.call name distinct args).marks.length + rest.length ≤ n + 1) :
    Accepts (primary inner) (Scalar.call name distinct args).marks rest
      (.call name distinct args) := by
  simp only [Scalar.isCanonical, Bool.and_eq_true, Bool.not_eq_true'] at hcall
  apply accepts_word
  intro t ht
  have hword : forall word, word ∈ reservedWords -> Text.sameName "LEFT" word = false ->
      Text.sameName "RIGHT" word = false -> ¬ t.isWord word = true := by
    intro word hmem hleft hright
    rw [Token.isWord_eq, ht]
    exact Bool.eq_false_iff.mp (isWord_of_isFunctionName hcall.1.1 hmem hleft hright)
  have htext : t.text = name := congrArg Prod.snd ht
  rw [wordOperand, if_neg (hword _ (by decide) (by decide) (by decide)),
    if_neg (hword _ (by decide) (by decide) (by decide)), htext]
  apply Accepts.lookTrue
  · intro c hc
    rw [Accepts.isSymbolAt hc]
    rfl
  · intro _
    refine Accepts.one Accepts.skip (accepts_callArguments h hcall.1.2 hcall.2 ?_)
    simp only [Scalar.marks, List.length_cons, List.length_append] at hlength
    omega

/-!
# Cases
-/

/-- The branches of a `CASE`, behind which its `ELSE` or its end stands. -/
theorem accepts_branches {α : Type} {condition : Parser α} {marks : α -> List Mark}
    {whens : List (α × Scalar)} (hrest : Stops continuesScalar rest)
    (hrest' : Stops (·.isWord "WHEN") rest)
    (hlength : (markedItems (wordMark "WHEN") (branchMarks marks) whens).length + rest.length ≤ n)
    (hcanonical : forall b, b ∈ whens -> b.2.isCanonical = true)
    (hcondition : forall b tail, b ∈ whens -> (marks b.1).length + tail.length < n ->
      Accepts condition (marks b.1) (wordMark "THEN" :: tail) b.1) :
    Accepts (many (eatKeyword "WHEN") (caseBranch inner condition))
      (markedItems (wordMark "WHEN") (branchMarks marks) whens) rest whens := by
  refine accepts_many (eats_keyword "WHEN") (by decide) (by decide) hrest' hrest hlength ?_
  intro b tail hb htail hshort
  rw [branchMarks, List.length_append, List.length_cons] at hshort
  refine (hcondition b (b.2.marks ++ tail) hb (by rw [List.length_append]; omega)).bind ?_
  refine Accepts.one (Accepts.keyword (by decide)) ?_
  exact Accepts.last (h.scalar b.2 tail (hcanonical b hb) htail (by omega)) Accepts.pure

theorem accepts_caseElse {otherwise : Option Scalar} (hcanonical : canonicalElse otherwise = true)
    (hlength : (endMarks otherwise).length + rest.length ≤ n) :
    Accepts (caseElse inner) (endMarks otherwise) rest otherwise := by
  have hend : Accepts (expectKeyword "END" >>= fun _ => pure otherwise) [wordMark "END"] rest
      otherwise :=
    Accepts.one (Accepts.keyword (by decide)) Accepts.pure
  cases otherwise with
  | none =>
      exact Accepts.pass (Accepts.leave (eats_keyword "ELSE") (Stops.cons (by decide))) hend
  | some e =>
      simp only [endMarks, marksOfElse, List.length_append, List.length_cons, List.length_nil]
        at hlength
      have he : Accepts inner.scalar e.marks ([wordMark "END"] ++ rest) e :=
        h.scalar e _ hcanonical (Stops.cons (by decide)) (by simp; omega)
      refine Accepts.one (Accepts.eat (eats_keyword "ELSE") (by decide)) ?_
      exact (he.map some).bind hend

theorem accepts_searchedCase {whens : List (Predicate × Scalar)} {otherwise : Option Scalar}
    (hcase : (Scalar.searchedCase whens otherwise).isCanonical = true)
    (hlength : (Scalar.searchedCase whens otherwise).marks.length + rest.length ≤ n + 1) :
    Accepts (primary inner) (Scalar.searchedCase whens otherwise).marks rest
      (.searchedCase whens otherwise) := by
  simp only [Scalar.isCanonical, Bool.and_eq_true, canonicalBranches_iff, Bool.not_eq_true'] at hcase
  rcases hcase with ⟨⟨hwhens, hbranches⟩, hotherwise⟩
  rw [Scalar.marks, marksOfBranches_eq, <- endMarks] at hlength ⊢
  rw [List.length_cons, List.length_append] at hlength
  apply accepts_caseToken
  unfold caseExpression
  refine Accepts.one (Accepts.keyword (by decide)) ?_
  apply Accepts.lookTrue
  · intro c hc
    rw [Cursor.isKeyword_eq, hc]
    cases whens with
    | nil =>
        cases hwhens
    | cons b whens =>
        exact (by decide : (wordMark "WHEN").isWord "WHEN" = true)
  · intro _
    have hstops := stops_endMarks otherwise rest
    refine Accepts.bind (accepts_branches h hstops.1 hstops.2 ?_ (fun b hb => (hbranches b hb).2)
      fun b tail hb hshort => ?_) ?_
    · rw [List.length_append]
      omega
    · exact h.predicate b.1 _ (hbranches b hb).1 (Stops.cons (by decide)) hshort
    · exact Accepts.last (accepts_caseElse h hotherwise (by omega)) Accepts.pure

theorem accepts_simpleCase {input : Scalar} {whens : List (Scalar × Scalar)}
    {otherwise : Option Scalar}
    (hcase : (Scalar.simpleCase input whens otherwise).isCanonical = true)
    (hlength : (Scalar.simpleCase input whens otherwise).marks.length + rest.length ≤ n + 1) :
    Accepts (primary inner) (Scalar.simpleCase input whens otherwise).marks rest
      (.simpleCase input whens otherwise) := by
  simp only [Scalar.isCanonical, Bool.and_eq_true, canonicalPairs_iff, Bool.not_eq_true'] at hcase
  rcases hcase with ⟨⟨⟨hinput, hwhens⟩, hpairs⟩, hotherwise⟩
  rw [Scalar.marks, marksOfPairs_eq, <- endMarks] at hlength ⊢
  rw [List.length_cons, List.length_append, List.length_append] at hlength
  apply accepts_caseToken
  unfold caseExpression
  refine Accepts.one (Accepts.keyword (by decide)) ?_
  apply Accepts.lookFalse
  · intro c hc
    rw [Cursor.isKeyword_eq, hc, List.append_assoc]
    refine ((Scalar.begins hinput).append _).stops.mono fun k hk => ?_
    simp only [startsOther, hk, Bool.or_true, Bool.true_or]
  · intro _
    have hstops := stops_endMarks otherwise rest
    have hwhen : Stops continuesScalar
        (markedItems (wordMark "WHEN") (branchMarks Scalar.marks) whens ++ (endMarks otherwise ++ rest)) :=
      stops_markedItems (by decide) hstops.1 whens
    refine Accepts.bind (h.scalar input _ hinput ?_ ?_) ?_
    · rw [List.append_assoc]
      exact hwhen
    · rw [List.length_append, List.length_append]
      omega
    · refine Accepts.bind (accepts_branches h hstops.1 hstops.2 ?_ (fun b hb => (hpairs b hb).2)
        fun b tail hb hshort => ?_) ?_
      · rw [List.length_append]
        omega
      · exact h.scalar b.1 _ (hpairs b hb).1 (Stops.cons (by decide)) hshort
      · rw [hwhens]
        exact Accepts.last (accepts_caseElse h hotherwise (by omega)) Accepts.pure

/-!
# Operands without signs
-/

theorem accepts_enclosed {e : Scalar} (he : e.isCanonical = true)
    (hlength : (enclosedMarks e.marks).length + rest.length ≤ n + 1) :
    Accepts (primary inner) (enclosedMarks e.marks) rest e := by
  rw [enclosedMarks, List.length_cons, List.length_append, List.length_singleton] at hlength
  apply accepts_token
  intro t hkind htext
  rw [tokenOperand, hkind, htext]
  refine Accepts.one Accepts.skip ?_
  refine Accepts.bind (h.scalar e _ he (Stops.cons (by decide)) ?_) ?_
  · rw [List.length_append, List.length_singleton]
    omega
  · exact Accepts.one (Accepts.symbol ")") Accepts.pure

/-- What may stand behind its collation is read as one operand. -/
theorem accepts_collatable {e : Scalar} (he : e.isCanonical = true) (hitem : e.isCollatable = true)
    (hrest : Stops continuesName rest) (hlength : e.marks.length + rest.length ≤ n + 1) :
    Accepts (primary inner) e.marks rest e := by
  cases e with
  | literal l =>
      cases l with
      | str s =>
          exact accepts_text s
      | null =>
          exact accepts_null
      | int i =>
          simp only [Scalar.isCanonical, Bool.and_eq_true, decide_eq_true_iff] at he
          rw [Scalar.isCollatable, decide_eq_true_iff] at hitem
          rw [Scalar.marks, Literal.marks, intMarks, if_neg (by omega)]
          exact accepts_number hitem he.2
      | _ =>
          cases hitem
  | column c =>
      rw [Scalar.isCanonical] at he
      exact accepts_column he hrest
  | call name distinct args =>
      exact accepts_call h he hlength
  | searchedCase whens otherwise =>
      exact accepts_searchedCase h he hlength
  | simpleCase input whens otherwise =>
      exact accepts_simpleCase h he hlength
  | _ =>
      cases hitem

end

end Parser
end Sql
end RecordSql
