import RecordSql.Proofs.DocumentText
import RecordSql.Proofs.Canonical.Openings
import RecordSql.Proofs.Parsing.Lexing
import RecordSql.Proofs.Printing.Forms

/-!
# The tokens of a canonical text

Every piece of a canonical text is cut off as one token by what stands behind it: a blank, a comma
or a parenthesis.
-/

namespace RecordSql
namespace Sql

/-!
# Cutting off one token
-/

/-- The characters are cut into tokens of such marks. -/
def Cuts (cs : List Char) (marks : List Mark) : Prop :=
  exists tokens, Lexed 0 cs tokens ∧ tokens.map Token.mark = marks

namespace Cuts

variable {cs rest : List Char} {marks : List Mark} {c : Char} {n : Nat}

theorem nil : Cuts [] [] :=
  ⟨[], Lexed.done, rfl⟩

theorem ofLexeme {kind : TokenKind} {text : List Char}
    (hfound : lexeme c rest = .ok (.token kind text, n)) (hcut : (c :: rest).drop n = cs)
    (h : Cuts cs marks) : Cuts (c :: rest) ((kind, String.ofList text) :: marks) := by
  subst hcut
  rcases h with ⟨tokens, htokens, rfl⟩
  rcases htokens.shift (0 + byteSize ((c :: rest).take n)) with ⟨tokens', htokens', hshifted⟩
  refine ⟨_, Lexed.token hfound htokens', ?_⟩
  rw [List.map_cons, Lexed.Shifted.marks hshifted]
  rfl

/-- A symbol of one character. -/
theorem single (hfound : lexeme c cs = .ok (.token .symbol [c], 1)) (h : Cuts cs marks) :
    Cuts (c :: cs) ((.symbol, String.ofList [c]) :: marks) :=
  ofLexeme hfound rfl h

theorem blank (h : Cuts cs marks) : Cuts (' ' :: cs) marks := by
  rcases h with ⟨tokens, htokens, rfl⟩
  rcases htokens.shift (0 + byteSize ((' ' :: cs).take 1)) with ⟨tokens', htokens', hshifted⟩
  exact ⟨tokens', Lexed.gap rfl htokens', Lexed.Shifted.marks hshifted⟩

end Cuts

/-- A token does not go on with the first of the characters. -/
def Breaks (cs : List Char) : Prop :=
  forall d, d ∈ cs.head? -> d ∈ [' ', '(', ')', ',']

theorem Breaks.nil : Breaks [] := by
  rintro d ⟨⟩

theorem Breaks.cons {d : Char} {cs : List Char} (hd : d ∈ [' ', '(', ')', ',']) :
    Breaks (d :: cs) := by
  rintro _ ⟨⟩
  exact hd

/-- What holds of the four characters that end a token holds of the character that ends one. -/
theorem Breaks.head {p : Char -> Prop} {cs : List Char} (h : Breaks cs) (hblank : p ' ')
    (hopen : p '(') (hclose : p ')') (hcomma : p ',') : forall d, d ∈ cs.head? -> p d := by
  intro d hd
  have hmem := h d hd
  simp only [List.mem_cons, List.not_mem_nil, or_false] at hmem
  rcases hmem with rfl | rfl | rfl | rfl
  · exact hblank
  · exact hopen
  · exact hclose
  · exact hcomma

/-!
# Words
-/

/-- A word of upper-case letters, as the words of the grammar are written. -/
def isUpperWord (w : String) : Bool :=
  !w.toList.isEmpty && w.toList.all Char.isUpper

theorem startsWord_of_isUpper {c : Char} (h : c.isUpper = true) : startsWord c = true := by
  have hascii : c.toNat < 128 := by
    unfold Char.isUpper at h
    rw [decide_eq_true_eq] at h
    exact Nat.lt_of_le_of_lt h.2 (by decide)
  exact Text.ascii_cases (fun c => c.isUpper = true -> startsWord c = true) (by decide)
    hascii h

theorem isName_of_isUpperWord {w : String} (h : isUpperWord w = true) : isName w = true := by
  rw [isUpperWord, Bool.and_eq_true, Bool.not_eq_true', List.all_eq_true] at h
  rw [isName_iff]
  cases hw : w.toList with
  | nil =>
      rw [hw] at h
      cases h.1
  | cons c v =>
      rw [hw, List.forall_mem_cons] at h
      exact ⟨c, v, rfl, startsWord_of_isUpper h.2.1, fun d hd =>
        continuesWord_of_startsWord (startsWord_of_isUpper (h.2.2 d hd))⟩

/-- The letters of all scripts lie between the blanks. -/
theorem letters_between_blanks : forall r, r ∈ Text.alphabeticRanges ->
    r.2 < 0x85 ∨ (0x85 < r.1 ∧ r.2 < 0xA0) ∨ (0xA0 < r.1 ∧ r.2 < 0x1680) ∨
      (0x1680 < r.1 ∧ r.2 < 0x2000) ∨ (0x200A < r.1 ∧ r.2 < 0x2028) ∨
      (0x2029 < r.1 ∧ r.2 < 0x202F) ∨ (0x202F < r.1 ∧ r.2 < 0x205F) ∨
      (0x205F < r.1 ∧ r.2 < 0x3000) ∨ 0x3000 < r.1 := by
  decide +kernel

theorem not_startsWord_of_isBlank {c : Char} (h : Text.isBlank c = true) :
    startsWord c = false := by
  by_cases hascii : c.toNat < 128
  · exact Text.ascii_cases (fun c => Text.isBlank c = true -> startsWord c = false) (by decide)
      hascii h
  · have hletter : Text.isAlphabetic c = false := by
      rw [Text.isAlphabetic, if_neg hascii, Text.inRanges, List.any_eq_false]
      intro r hr hinside
      have hbetween := letters_between_blanks r hr
      simp only [Bool.and_eq_true, decide_eq_true_eq] at hinside
      simp only [Text.isBlank, Bool.or_eq_true, Bool.and_eq_true, decide_eq_true_eq,
        beq_iff_eq] at h
      omega
    have hsign : forall d : Char, d.toNat < 128 -> (c == d) = false := by
      intro d hd
      rw [beq_eq_false_iff_ne]
      rintro rfl
      exact hascii hd
    rw [startsWord, hletter, hsign '_' (by decide), hsign '@' (by decide), hsign '#' (by decide)]
    rfl

/-- What does not begin a word. -/
theorem ne_of_startsWord {c d : Char} (hc : startsWord c = true) (hd : startsWord d = false) :
    c ≠ d := by
  rintro rfl
  rw [hc] at hd
  cases hd

theorem lexeme_word {c : Char} {w cs : List Char} (hc : startsWord c = true)
    (hw : forall d, d ∈ w -> continuesWord d = true)
    (hcs : forall d, d ∈ cs.head? -> continuesWord d = false ∧ d ≠ '\'') :
    lexeme c (w ++ cs) = .ok (.token .word (c :: w), (c :: w).length) := by
  have hnot : forall d, startsWord d = false -> (c == d) = false := fun d hd =>
    beq_eq_false_iff_ne.mpr (ne_of_startsWord hc hd)
  have hblank : Text.isBlank c = false := by
    rw [Bool.eq_false_iff]
    intro hblank
    rw [not_startsWord_of_isBlank hblank] at hc
    cases hc
  have hquote : ((w ++ cs).head? == some '\'') = false := by
    rw [beq_eq_false_iff_ne]
    intro hhead
    cases w with
    | nil =>
        exact (hcs _ hhead).2 rfl
    | cons d w =>
        cases hhead
        exact absurd (hw _ List.mem_cons_self) (by decide)
  have hnumber : startsNumber (c :: (w ++ cs)) = false := by
    rw [startsNumber_cons, not_isDigit_of_startsWord hc, hnot '.' (by decide)]
    rfl
  have hrun : (w ++ cs).takeWhile continuesWord = w := by
    rw [List.takeWhile_append_of_pos hw]
    cases cs with
    | nil =>
        exact List.append_nil _
    | cons d cs =>
        have hd := (hcs d rfl).1
        rw [List.takeWhile_cons_of_neg (Bool.eq_false_iff.mp hd), List.append_nil]
  rw [lexeme]
  simp only [hblank, hnot '-' (by decide), hnot '/' (by decide),
    hnot '\'' (by decide), hnot '"' (by decide), hnot '[' (by decide),
    hquote, hnumber, hc, hrun, Bool.false_and, Bool.and_false, if_true, Bool.false_eq_true, if_false]

theorem Cuts.word {w : String} {cs : List Char} {marks : List Mark} (hw : isName w = true)
    (hcs : forall d, d ∈ cs.head? -> continuesWord d = false ∧ d ≠ '\'') (h : Cuts cs marks) :
    Cuts (w.toList ++ cs) (wordMark w :: marks) := by
  rcases isName_iff.mp hw with ⟨c, v, hv, hc, hmore⟩
  have hname : w = String.ofList (c :: v) := by
    rw [<- hv, String.ofList_toList]
  rw [hv, wordMark, hname]
  have hcut : (c :: v ++ cs).drop (c :: v).length = cs := List.drop_left
  exact Cuts.ofLexeme (lexeme_word hc hmore hcs) hcut h

theorem Breaks.notWord {cs : List Char} (h : Breaks cs) :
    forall d, d ∈ cs.head? -> continuesWord d = false ∧ d ≠ '\'' :=
  h.head (by decide) (by decide) (by decide) (by decide)

/-!
# Numbers
-/

theorem numberLength_digits {digits cs : List Char} (hdigits : forall d, d ∈ digits -> d.isDigit = true)
    (hcs : Breaks cs) : numberLength false (digits ++ cs) = digits.length := by
  induction digits with
  | nil =>
      cases cs with
      | nil =>
          rfl
      | cons d cs =>
          have hd : d.isDigit = false ∧ (d == '.') = false :=
            hcs.head (p := fun d => d.isDigit = false ∧ (d == '.') = false) ⟨rfl, rfl⟩ ⟨rfl, rfl⟩
              ⟨rfl, rfl⟩ ⟨rfl, rfl⟩ d rfl
          rw [List.nil_append, numberLength, hd.1, hd.2]
          rfl
  | cons d digits ih =>
      rw [List.forall_mem_cons] at hdigits
      rw [List.cons_append, numberLength, if_pos hdigits.1, ih hdigits.2]
      rfl

theorem lexeme_number {d : Char} {digits cs : List Char} (hd : d.isDigit = true)
    (hdigits : forall d, d ∈ digits -> d.isDigit = true) (hcs : Breaks cs) :
    lexeme d (digits ++ cs) = .ok (.token .number (d :: digits), (d :: digits).length) := by
  have hnot : forall e, e.isDigit = false -> (d == e) = false := by
    intro e he
    rw [beq_eq_false_iff_ne]
    rintro rfl
    rw [hd] at he
    cases he
  have hblank : Text.isBlank d = false :=
    Text.ascii_cases (fun d => d.isDigit = true -> Text.isBlank d = false) (by decide)
      (toNat_lt_of_isDigit hd) hd
  have hnumber : startsNumber (d :: (digits ++ cs)) = true := by
    rw [startsNumber_cons, hd]
    rfl
  have hlength : numberLength false (d :: (digits ++ cs)) = (d :: digits).length :=
    numberLength_digits (List.forall_mem_cons.mpr ⟨hd, hdigits⟩) hcs
  have htake : (d :: (digits ++ cs)).take (d :: digits).length = d :: digits :=
    List.take_left
  rw [lexeme]
  simp only [hblank, hnot '-' (by decide), hnot '/' (by decide), hnot '\'' (by decide),
    hnot 'N' (by decide), hnot 'n' (by decide), hnot '"' (by decide), hnot '[' (by decide), hnumber,
    hlength, htake, Bool.false_and, Bool.or_false, if_true, Bool.false_eq_true, if_false]

theorem Cuts.digits {n : Nat} {cs : List Char} {marks : List Mark} (hcs : Breaks cs)
    (h : Cuts cs marks) :
    Cuts (Number.digitsOf n ++ cs) ((.number, String.ofList (Number.digitsOf n)) :: marks) := by
  have hall : forall d, d ∈ Number.digitsOf n -> d.isDigit = true := fun d hd =>
    Number.isDigit_of_mem_digitsOf hd
  cases hdigits : Number.digitsOf n with
  | nil =>
      exact absurd hdigits (Nat.toDigits_ne_nil)
  | cons d digits =>
      rw [hdigits, List.forall_mem_cons] at hall
      have hcut : (d :: digits ++ cs).drop (d :: digits).length = cs := List.drop_left
      exact Cuts.ofLexeme (lexeme_number hall.1 hall.2 hcs) hcut h

/-!
# Texts
-/

theorem delimited_doubled {text cs : List Char} (hcs : cs.head? ≠ some '\'') :
    delimited '\'' (doubled text ++ '\'' :: cs) = some (text, (doubled text).length + 1) := by
  induction text with
  | nil =>
      cases cs with
      | nil =>
          rfl
      | cons d cs =>
          have hd : (d == '\'') = false := beq_eq_false_iff_ne.mpr fun h => hcs (by rw [h]; rfl)
          change delimited '\'' ('\'' :: d :: cs) = _
          rw [delimited, if_pos (by decide), hd]
          rfl
  | cons c text ih =>
      have hnext : forall more : List Char, exists d rest, doubled text ++ '\'' :: more = d :: rest := by
        intro more
        cases doubled text with
        | nil =>
            exact ⟨_, _, rfl⟩
        | cons d rest =>
            exact ⟨_, _, rfl⟩
      rcases hnext cs with ⟨d, rest, hrest⟩
      by_cases hc : c = '\''
      · rw [doubled_cons, if_pos hc]
        change delimited '\'' ('\'' :: '\'' :: (doubled text ++ '\'' :: cs)) = _
        rw [delimited, if_pos (by decide), if_pos (by decide), ih, hc]
        rfl
      · rw [doubled_cons, if_neg hc]
        change delimited '\'' (c :: (doubled text ++ '\'' :: cs)) = _
        rw [hrest, delimited, if_neg (by simpa using hc), <- hrest, ih]
        rfl

theorem Cuts.text {s : String} {cs : List Char} {marks : List Mark} (hcs : Breaks cs)
    (h : Cuts cs marks) :
    Cuts ((Literal.quoted s).toList ++ cs) ((.text, s) :: marks) := by
  have hnot : cs.head? ≠ some '\'' := fun hhead => absurd (hcs _ hhead) (by decide)
  have hchars : (Literal.quoted s).toList ++ cs = '\'' :: (doubled s.toList ++ '\'' :: cs) := by
    rw [toList_quoted, List.cons_append, List.append_assoc]
    rfl
  have hfound : lexeme '\'' (doubled s.toList ++ '\'' :: cs) =
      .ok (.token .text s.toList, 1 + ((doubled s.toList).length + 1)) := by
    change quotedLexeme .unterminatedText .text 1 '\'' ('\'' :: (doubled s.toList ++ '\'' :: cs)) = _
    rw [quotedLexeme, List.drop_one, List.tail_cons, delimited_doubled hnot]
  have hcut : ('\'' :: (doubled s.toList ++ '\'' :: cs)).drop (1 + ((doubled s.toList).length + 1)) =
      cs := by
    rw [Nat.add_comm, List.drop_succ_cons, <- List.drop_drop, List.drop_left]
    rfl
  have hcuts := Cuts.ofLexeme hfound hcut h
  rw [String.ofList_toList] at hcuts
  rw [hchars]
  exact hcuts

/-!
# Symbols
-/

theorem Cuts.opening {cs : List Char} {marks : List Mark} (h : Cuts cs marks) :
    Cuts ('(' :: cs) (.opening :: marks) :=
  Cuts.single rfl h

theorem Cuts.closing {cs : List Char} {marks : List Mark} (h : Cuts cs marks) :
    Cuts (')' :: cs) (.closing :: marks) :=
  Cuts.single rfl h

theorem Cuts.comma {cs : List Char} {marks : List Mark} (h : Cuts cs marks) :
    Cuts (',' :: cs) (symbolMark "," :: marks) :=
  Cuts.single rfl h

theorem Cuts.star {cs : List Char} {marks : List Mark} (h : Cuts cs marks) :
    Cuts ('*' :: cs) (symbolMark "*" :: marks) :=
  Cuts.single rfl h

theorem Cuts.minus {cs : List Char} {marks : List Mark} (hcs : cs.head? ≠ some '-')
    (h : Cuts cs marks) : Cuts ('-' :: cs) (symbolMark "-" :: marks) := by
  refine Cuts.single ?_ h
  have hdash : (cs.head? == some '-') = false := beq_eq_false_iff_ne.mpr hcs
  change (if ('-' == '-' && cs.head? == some '-') = true then _ else _ :
    Except ParseCause (Lexeme × Nat)) = _
  rw [hdash]
  rfl

/-- The sign of an operator stands between blanks. -/
theorem Cuts.sign (op : Arithmetic) {cs : List Char} {marks : List Mark} (h : Cuts cs marks) :
    Cuts (op.sign.toList ++ ' ' :: cs) (symbolMark op.sign :: marks) := by
  cases op <;> exact Cuts.ofLexeme (n := 1) rfl rfl h.blank

theorem Cuts.comparison (op : Comparison) {cs : List Char} {marks : List Mark} (h : Cuts cs marks) :
    Cuts (op.sign.toList ++ ' ' :: cs) (symbolMark op.sign :: marks) := by
  cases op with
  | ne => exact Cuts.ofLexeme (n := 2) rfl rfl h.blank
  | le => exact Cuts.ofLexeme (n := 2) rfl rfl h.blank
  | ge => exact Cuts.ofLexeme (n := 2) rfl rfl h.blank
  | _ => exact Cuts.ofLexeme (n := 1) rfl rfl h.blank

end Sql
end RecordSql
