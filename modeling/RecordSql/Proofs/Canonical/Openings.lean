import RecordSql.Proofs.DoubleText
import RecordSql.Proofs.Canonical.Legibility
import RecordSql.Proofs.Canonical.Operands

/-!
# The first item of a text

The text of an operand starts with an item: a name, a number, a quoted text, a call, a choice or
something in parentheses.  The first characters show which, and an item without others inside it is
determined by its text up to the blank, parenthesis or comma that ends it.
-/

namespace RecordSql
namespace Sql

/-!
# What may follow an item

An item ends at a blank, a parenthesis or a comma.  Behind the blank stands an operator or a word,
and its first character tells the operators and words that may go on with the item from others.
-/

/-- The text goes on behind an item, at a blank with none of the barred characters. -/
inductive Follows (barred : List Char) : List Char -> Prop where
  | nil : Follows barred []
  | close (r : List Char) : Follows barred (')' :: r)
  | comma (r : List Char) : Follows barred (',' :: r)
  | trailing : Follows barred [' ']
  | blank {c : Char} (h : c ∉ barred) (r : List Char) : Follows barred (' ' :: c :: r)

namespace Follows

variable {barred fewer : List Char} {r : List Char}

theorem mono (h : Follows barred r) (hfewer : forall c, c ∈ fewer -> c ∈ barred) :
    Follows fewer r := by
  cases h with
  | nil =>
      exact .nil
  | close r =>
      exact .close r
  | comma r =>
      exact .comma r
  | trailing =>
      exact .trailing
  | blank hc r =>
      exact .blank (fun hfew => hc (hfewer _ hfew)) r

theorem any (h : Follows barred r) : Follows [] r :=
  h.mono (by simp)

theorem space (r : List Char) : Follows [] (' ' :: r) := by
  cases r with
  | nil =>
      exact .trailing
  | cons c r =>
      exact .blank (by simp) r

theorem not_mem_of_blank {c : Char} (h : Follows barred (' ' :: c :: r)) : c ∉ barred := by
  cases h with
  | blank hc r =>
      exact hc

theorem stops (h : Follows barred r) : Text.Stops isRun r := by
  cases h with
  | nil =>
      exact Text.Stops.nil _
  | _ =>
      exact Text.Stops.cons (by decide) _

end Follows

/-!
# Openings
-/

/-- What the first characters of a text show. -/
inductive Opening where
  | text
  | enclosed
  | star
  | sign
  | number
  | call
  | starOf
  | null
  | case
  | word (w : List Char)
  | none
deriving DecidableEq

namespace Opening

/-- A run of word characters is told by what follows it, or by itself if it is a keyword. -/
def ofWord (w rest : List Char) : Opening :=
  if rest.head? = some '(' then .call
  else if rest.head? = some '*' then .starOf
  else if w = "NULL".toList then .null
  else if w = "CASE".toList then .case
  else .word w

def ofChars : List Char -> Opening
  | [] => .none
  | c :: rest =>
      if c = '\'' then .text
      else if c = '(' then .enclosed
      else if c = '*' then .star
      else if c = '-' then .sign
      else if c.isDigit then .number
      else if isRun c then ofWord (c :: rest.takeWhile isRun) (rest.dropWhile isRun)
      else .none

theorem ofChars_word {c : Char} {w r : List Char} (hc : startsWord c = true)
    (hw : forall d, d ∈ w -> isRun d = true) (hr : Text.Stops isRun r) :
    ofChars (c :: (w ++ r)) = ofWord (c :: w) r := by
  have hne : forall {d : Char}, startsWord d = false -> c ≠ d := by
    rintro d hd rfl
    rw [hc] at hd
    cases hd
  have hrest : r.takeWhile isRun = [] ∧ r.dropWhile isRun = r := by
    cases r with
    | nil =>
        exact ⟨rfl, rfl⟩
    | cons d r =>
        have hd := hr d rfl
        simp [hd]
  rw [ofChars, if_neg (hne (by decide)), if_neg (hne (by decide)), if_neg (hne (by decide)),
    if_neg (hne (by decide)), not_isDigit_of_startsWord hc, if_neg Bool.false_ne_true,
    if_pos (isRun_of_continuesWord (continuesWord_of_startsWord hc)),
    List.takeWhile_append_of_pos hw, List.dropWhile_append_of_pos hw, hrest.1, hrest.2,
    List.append_nil]

theorem ofWord_of_follows {w r : List Char} (hr : Follows [] r) :
    ofWord w r = if w = "NULL".toList then .null else if w = "CASE".toList then .case
      else .word w := by
  have hhead : r.head? ≠ some '(' ∧ r.head? ≠ some '*' := by
    cases hr <;> simp
  rw [ofWord, if_neg hhead.1, if_neg hhead.2]

theorem ofChars_digit {c : Char} {r : List Char} (hc : c.isDigit = true) :
    ofChars (c :: r) = .number := by
  have hne : forall {d : Char}, d.isDigit = false -> c ≠ d := by
    rintro d hd rfl
    rw [hc] at hd
    cases hd
  rw [ofChars, if_neg (hne (by decide)), if_neg (hne (by decide)), if_neg (hne (by decide)),
    if_neg (hne (by decide)), if_pos hc]

end Opening

/-!
# Texts of items
-/

theorem lower_of_isLowerName {s : String} (h : isLowerName s = true) :
    isName s = true ∧ Text.lower s = s := by
  simpa [isLowerName] using h

theorem not_mem_name {s : String} (h : isName s = true) : '.' ∉ s.toList := by
  intro hpoint
  exact absurd (continuesWord_of_mem_name h hpoint) (by decide)

namespace Column

variable {c d : Column}

theorem shows_iff : (Scalar.column c).showsItself = true <->
    (forall k, c.collection = some k -> isLowerName k = true) ∧ isLowerName c.name = true := by
  rw [Scalar.showsItself, Bool.and_eq_true]
  cases c.collection with
  | none =>
      simp
  | some k =>
      simp

theorem toList_text (h : (Scalar.column c).showsItself = true) :
    c.text.toList = (c.collection.map fun k => k.toList ++ ['.']).getD [] ++ c.name.toList := by
  rcases shows_iff.mp h with ⟨hcollection, hname⟩
  rw [text]
  split
  · rename_i k hk
    rw [(lower_of_isLowerName (hcollection k hk)).2, (lower_of_isLowerName hname).2, hk]
    simp
  · rename_i hnone
    rw [(lower_of_isLowerName hname).2, hnone]
    rfl

/-- The text of a column is a run that starts like a word. -/
theorem text_cons (h : (Scalar.column c).showsItself = true) :
    exists d w, c.text.toList = d :: w ∧ startsWord d = true ∧
      forall e, e ∈ w -> isRun e = true := by
  rcases shows_iff.mp h with ⟨hcollection, hname⟩
  rcases isName_iff.mp (lower_of_isLowerName hname).1 with ⟨a, w, ha, hstart, hw⟩
  rw [toList_text h]
  cases hc : c.collection with
  | none =>
      exact ⟨a, w, ha, hstart, fun e he => isRun_of_continuesWord (hw e he)⟩
  | some k =>
      rcases isName_iff.mp (lower_of_isLowerName (hcollection k hc)).1 with ⟨b, v, hb, hbegin, hv⟩
      refine ⟨b, v ++ '.' :: c.name.toList, by simp [hb], hbegin, ?_⟩
      intro e he
      simp only [List.mem_append, List.mem_cons] at he
      rcases he with he | rfl | he
      · exact isRun_of_continuesWord (hv e he)
      · rfl
      · exact isRun_of_continuesWord (continuesWord_of_mem_name (lower_of_isLowerName hname).1 he)

/-- The text of a column tells its table and its name. -/
theorem plain_eq_of_text (hc : (Scalar.column c).showsItself = true)
    (hd : (Scalar.column d).showsItself = true) (h : c.text = d.text) : c.plain = d.plain := by
  have hchars := congrArg String.toList h
  rw [toList_text hc, toList_text hd] at hchars
  rcases shows_iff.mp hc with ⟨hcollection, hname⟩
  rcases shows_iff.mp hd with ⟨hcollection', hname'⟩
  have hpoint := not_mem_name (lower_of_isLowerName hname).1
  have hpoint' := not_mem_name (lower_of_isLowerName hname').1
  rcases c with ⟨k, name, quoted⟩
  rcases d with ⟨k', name', quoted'⟩
  cases k with
  | none =>
      cases k' with
      | none =>
          have heq : name = name' := String.toList_injective hchars
          rw [heq]
          rfl
      | some k' =>
          refine absurd ?_ hpoint
          rw [show name.toList = _ from hchars]
          simp
  | some k =>
      cases k' with
      | none =>
          refine absurd ?_ hpoint'
          rw [show name'.toList = _ from hchars.symm]
          simp
      | some k' =>
          have hk := (lower_of_isLowerName (hcollection k rfl)).1
          have hk' := (lower_of_isLowerName (hcollection' k' rfl)).1
          simp only [Option.map_some, Option.getD_some, List.append_assoc] at hchars
          rcases Text.append_inj_of_stops (fun _ => continuesWord_of_mem_name hk)
            (fun _ => continuesWord_of_mem_name hk') (Text.Stops.cons (by decide) _)
            (Text.Stops.cons (by decide) _) hchars with ⟨hcollections, hrest⟩
          have hnames := (List.cons.inj hrest).2
          rw [String.toList_injective hcollections, String.toList_injective hnames]
          rfl

end Column

/-!
# Numbers
-/

namespace Literal

/-- The text of a number starts with a digit, after a sign if it is negative. -/
theorem toList_text_number {l : Literal} (hnumber : (Scalar.literal l).isNumber = true)
    (h : (Scalar.literal l).showsItself = true) :
    exists negative c w, l.text.toList = Number.signed negative (c :: w) ∧ c.isDigit = true ∧
      forall d, d ∈ w -> isRun d = true := by
  cases l with
  | int i =>
      cases hdigits : Number.digitsOf i.natAbs with
      | nil =>
          simp [Number.digitsOf] at hdigits
      | cons c w =>
          have hall : forall d, d ∈ c :: w -> d.isDigit = true := by
            rw [<- hdigits]
            exact fun d hd => Number.isDigit_of_mem_digitsOf hd
          rw [List.forall_mem_cons] at hall
          refine ⟨decide (i < 0), c, w, ?_, hall.1, fun d hd => isRun_of_isDigit (hall.2 d hd)⟩
          rw [text, Number.intText, String.toList_ofList, hdigits]
  | float x =>
      have hpoint : '.' ∈ (Number.floatText x).toList := by simpa [Scalar.showsItself] using h
      rcases Number.floatText_eq hpoint with ⟨b, _, _, htext, hin⟩
      rcases Number.head?_inPlace hin with ⟨c, w, hcons, hc, hw⟩
      refine ⟨b.negative, c, w, by rw [text, htext, hcons], hc, ?_⟩
      intro d hd
      rcases hw d hd with hdigit | rfl
      · exact isRun_of_isDigit hdigit
      · rfl
  | _ =>
      cases hnumber

/-- The text of a number tells it. -/
theorem eq_of_text {l k : Literal} (hl : (Scalar.literal l).isNumber = true)
    (hk : (Scalar.literal k).isNumber = true) (hshows : (Scalar.literal l).showsItself = true)
    (hshows' : (Scalar.literal k).showsItself = true) (h : l.text = k.text) : l = k := by
  have hwhole : forall {i : Int} {x : Float}, Number.intText i = Number.floatText x ->
      (Scalar.literal (.float x)).showsItself = true -> False := by
    intro i x heq hx
    have hpoint : '.' ∈ (Number.intText i).toList := by
      rw [heq]
      simpa [Scalar.showsItself] using hx
    rcases Number.mem_intText hpoint with hdash | hdigit
    · exact absurd hdash (by decide)
    · exact absurd hdigit (by decide)
  cases l with
  | int i =>
      cases k with
      | int j =>
          rw [Number.intText_inj h]
      | float y =>
          exact (hwhole h hshows').elim
      | _ =>
          cases hk
  | float x =>
      cases k with
      | int j =>
          exact (hwhole h.symm hshows).elim
      | float y =>
          have hpoint : '.' ∈ (Number.floatText x).toList := by
            simpa [Scalar.showsItself] using hshows
          rw [Number.floatText_inj hpoint h]
      | _ =>
          cases hk
  | _ =>
      cases hl

theorem number_append_inj {l k : Literal} (hl : (Scalar.literal l).isNumber = true)
    (hk : (Scalar.literal k).isNumber = true) (hshows : (Scalar.literal l).showsItself = true)
    (hshows' : (Scalar.literal k).showsItself = true) {r s : List Char} (hr : Follows [] r)
    (hs : Follows [] s) (h : l.text.toList ++ r = k.text.toList ++ s) : l = k ∧ r = s := by
  have hchars : forall {l : Literal}, (Scalar.literal l).isNumber = true ->
      (Scalar.literal l).showsItself = true ->
      forall c, c ∈ l.text.toList -> (isRun c || c == '-') = true := by
    intro l hl hshows c hc
    rcases toList_text_number hl hshows with ⟨negative, d, w, htext, hd, hw⟩
    have hdigits : c ∈ d :: w -> isRun c = true := by
      intro hmem
      rcases List.mem_cons.mp hmem with rfl | hmem
      · exact isRun_of_isDigit hd
      · exact hw c hmem
    rw [htext] at hc
    cases negative with
    | true =>
        rcases List.mem_cons.mp hc with rfl | hc
        · rfl
        · rw [hdigits hc]
          rfl
    | false =>
        rw [hdigits hc]
        rfl
  have hstops : forall {r : List Char}, Follows [] r ->
      Text.Stops (fun c => isRun c || c == '-') r := by
    intro r hr
    cases hr with
    | nil =>
        exact Text.Stops.nil _
    | _ =>
        exact Text.Stops.cons (by decide) _
  rcases Text.append_inj_of_stops (hchars hl hshows) (hchars hk hshows') (hstops hr) (hstops hs) h
    with ⟨htext, hrest⟩
  exact ⟨eq_of_text hl hk hshows hshows' (String.toList_injective htext), hrest⟩

end Literal

/-!
# Quoted texts
-/

/-- The characters of a text with its quotation marks doubled. -/
def doubled (cs : List Char) : List Char :=
  cs.flatMap fun c => if c == '\'' then ['\'', '\''] else [c]

theorem doubled_cons (c : Char) (cs : List Char) :
    doubled (c :: cs) = (if c = '\'' then ['\'', '\''] else [c]) ++ doubled cs := by
  simp [doubled]

theorem toList_quoted (s : String) :
    (Literal.quoted s).toList = '\'' :: (doubled s.toList ++ ['\'']) := by
  simp [Literal.quoted, doubled]

/-- A doubled text ends at the first quotation mark that is not doubled. -/
theorem doubled_append_inj {a b r s : List Char} (hr : r.head? ≠ some '\'')
    (hs : s.head? ≠ some '\'') (h : doubled a ++ '\'' :: r = doubled b ++ '\'' :: s) :
    a = b ∧ r = s := by
  have hfirst : forall {c : Char} {b r s : List Char}, r.head? ≠ some '\'' ->
      '\'' :: r ≠ doubled (c :: b) ++ '\'' :: s := by
    intro c b r s hr heq
    rw [doubled_cons] at heq
    split at heq
    · cases heq
      exact hr rfl
    · rename_i hc
      exact hc (List.cons.inj heq).1.symm
  induction a generalizing b with
  | nil =>
      cases b with
      | nil =>
          exact ⟨rfl, (List.cons.inj h).2⟩
      | cons d b =>
          exact (hfirst hr h).elim
  | cons c a ih =>
      cases b with
      | nil =>
          exact (hfirst hs h.symm).elim
      | cons d b =>
          rw [doubled_cons, doubled_cons] at h
          by_cases hc : c = '\''
          · by_cases hd : d = '\''
            · rw [if_pos hc, if_pos hd, List.append_assoc, List.append_assoc] at h
              rcases ih (List.append_cancel_left h) with ⟨rfl, hrest⟩
              exact ⟨by rw [hc, hd], hrest⟩
            · rw [if_pos hc, if_neg hd] at h
              exact (hd (List.cons.inj h).1.symm).elim
          · by_cases hd : d = '\''
            · rw [if_neg hc, if_pos hd] at h
              exact (hc (List.cons.inj h).1).elim
            · rw [if_neg hc, if_neg hd] at h
              have hcons := List.cons.inj h
              rcases ih hcons.2 with ⟨rfl, hrest⟩
              exact ⟨by rw [hcons.1], hrest⟩

theorem quoted_append_inj {a b : String} {r s : List Char} (hr : Follows [] r) (hs : Follows [] s)
    (h : (Literal.quoted a).toList ++ r = (Literal.quoted b).toList ++ s) : a = b ∧ r = s := by
  have hhead : forall {r : List Char}, Follows [] r -> r.head? ≠ some '\'' := by
    intro r hr
    cases hr <;> simp
  rw [toList_quoted, toList_quoted] at h
  simp only [List.cons_append, List.append_assoc, List.nil_append, List.cons.injEq, true_and] at h
  rcases doubled_append_inj (hhead hr) (hhead hs) h with ⟨hchars, hrest⟩
  exact ⟨String.toList_injective hchars, hrest⟩

/-!
# Openings of expressions
-/

/-- What the text of the literal opens with. -/
def Literal.opening : Literal -> Opening
  | .str _ => .text
  | .null => .null
  | l => if l.text.toList.head? = some '-' then .sign else .number

namespace Scalar

/-- What the text of the expression as an operand opens with. -/
def opening : Scalar -> Opening
  | .literal l => l.opening
  | .column c => .word c.text.toList
  | .call _ _ _ => .call
  | .binary _ _ _ => .enclosed
  | .negate _ => .sign
  | .searchedCase _ _ => .case
  | .simpleCase _ _ _ => .case
  | .collate e _ => e.opening
  | .star => .star
  | .starOf _ => .starOf

theorem opening_number {l : Literal} (h : (Scalar.literal l).isNumber = true) :
    l.opening = if l.text.toList.head? = some '-' then .sign else .number := by
  cases l with
  | str s =>
      cases h
  | null =>
      cases h
  | _ =>
      rfl

theorem operandChars_of_isItem {e : Scalar} (h : e.isItem = true) :
    e.operandChars = e.text.toList := by
  cases e with
  | binary l op r =>
      cases h
  | _ =>
      rfl

theorem text_ne_of_lower {c : Column} (h : (Scalar.column c).showsItself = true) {w : String}
    (hpoint : '.' ∉ w.toList) (hlower : Text.lower w ≠ w) : c.text.toList ≠ w.toList := by
  intro heq
  rw [Column.toList_text h] at heq
  cases hc : c.collection with
  | none =>
      rw [hc] at heq
      have hname : c.name = w := String.toList_injective heq
      exact hlower (hname ▸ (lower_of_isLowerName (Column.shows_iff.mp h).2).2)
  | some k =>
      rw [hc] at heq
      apply hpoint
      rw [<- heq]
      simp

theorem ofChars_literal {l : Literal} (h : (Scalar.literal l).IsReadable) {r : List Char}
    (hr : Follows [] r) : Opening.ofChars (l.text.toList ++ r) = l.opening := by
  have hnumber : (Scalar.literal l).isNumber = true ->
      Opening.ofChars (l.text.toList ++ r) = l.opening := by
    intro hnumber
    rcases Literal.toList_text_number hnumber h.shows with ⟨negative, c, w, htext, hc, hw⟩
    rw [opening_number hnumber, htext]
    cases negative with
    | true =>
        rfl
    | false =>
        have hdash : c ≠ '-' := by
          rintro rfl
          exact absurd hc (by decide)
        simp only [Number.signed, Bool.false_eq_true, if_false, List.cons_append, List.head?_cons,
          Option.some.injEq, hdash]
        exact Opening.ofChars_digit hc
  cases l with
  | str s =>
      show Opening.ofChars ((Literal.quoted s).toList ++ r) = .text
      rw [toList_quoted]
      rfl
  | null =>
      show Opening.ofChars ('N' :: ("ULL".toList ++ r)) = .null
      rw [Opening.ofChars_word (by decide) (List.all_eq_true.mp rfl) hr.stops,
        Opening.ofWord_of_follows hr]
      rfl
  | bool b =>
      cases h.wellFormed
  | int i =>
      exact hnumber rfl
  | float x =>
      exact hnumber rfl

theorem ofChars_column {c : Column} (h : (Scalar.column c).showsItself = true) {r : List Char}
    (hr : Follows [] r) : Opening.ofChars (c.text.toList ++ r) = .word c.text.toList := by
  rcases Column.text_cons h with ⟨d, w, htext, hd, hw⟩
  have hword := Opening.ofChars_word hd hw hr.stops
  rw [Opening.ofWord_of_follows hr, <- List.cons_append, <- htext] at hword
  rwa [if_neg (text_ne_of_lower h (by decide) (by decide)),
    if_neg (text_ne_of_lower h (by decide) (by decide))] at hword

/-- A name in front of a parenthesis opens a call. -/
theorem ofChars_call {name : String} (h : isName name = true) (r : List Char) :
    Opening.ofChars (name.toList ++ '(' :: r) = .call := by
  rcases isName_iff.mp h with ⟨c, w, hname, hc, hw⟩
  rw [hname, List.cons_append, Opening.ofChars_word hc
    (fun d hd => isRun_of_continuesWord (hw d hd)) (Text.Stops.cons (by decide) _)]
  rfl

theorem toList_text_call (name : String) (distinct : Bool) (args : List Scalar) :
    (Scalar.call name distinct args).text.toList =
      (Text.upper name).toList ++ '(' :: ((if distinct then "DISTINCT ".toList else []) ++
        ((textOfAll args).toList ++ [')'])) := by
  cases distinct <;> simp [Scalar.text]

theorem isName_call {name : String} {distinct : Bool} {args : List Scalar}
    (h : (Scalar.call name distinct args).IsReadable) :
    isName (Text.upper name) = true ∧ Text.isAscii name = true := by
  have hshows := h.shows
  rw [showsItself, Bool.and_eq_true] at hshows
  exact ⟨isName_upper hshows.1 hshows.2, hshows.2⟩

/-- The word that opens a choice. -/
theorem ofChars_case {r : List Char} :
    Opening.ofChars ("CASE".toList ++ ' ' :: r) = .case := by
  show Opening.ofChars ('C' :: ("ASE".toList ++ ' ' :: r)) = .case
  rw [Opening.ofChars_word (by decide) (List.all_eq_true.mp rfl)
    (Text.Stops.cons (by decide) _)]
  rfl

/-- The branches of a choice as they are written. -/
def whenChars {α : Type} (text : α -> String) (whens : List (α × Scalar)) : List Char :=
  whens.flatMap fun w =>
    " WHEN ".toList ++ ((text w.1).toList ++ (" THEN ".toList ++ w.2.text.toList))

/-- The end of a choice as it is written. -/
def endChars (otherwise : Option Scalar) : List Char :=
  match otherwise with
  | none => " END".toList
  | some e => " ELSE ".toList ++ (e.text.toList ++ " END".toList)

theorem endChars_some (e : Scalar) (r : List Char) :
    endChars (some e) ++ r = " ELSE ".toList ++ (e.text.toList ++ (" END".toList ++ r)) := by
  show (" ELSE ".toList ++ (e.text.toList ++ " END".toList)) ++ r = _
  generalize " ELSE ".toList = word
  generalize " END".toList = last
  rw [List.append_assoc, List.append_assoc]

theorem toList_textOfBranches (whens : List (Predicate × Scalar)) :
    (textOfBranches whens).toList = whenChars Predicate.text whens := by
  induction whens with
  | nil =>
      rw [textOfBranches]
      rfl
  | cons w rest ih =>
      rw [textOfBranches]
      simp only [String.toList_append, ih, whenChars, List.flatMap_cons, List.append_assoc]

theorem toList_textOfPairs (whens : List (Scalar × Scalar)) :
    (textOfPairs whens).toList = whenChars Scalar.text whens := by
  induction whens with
  | nil =>
      rw [textOfPairs]
      rfl
  | cons w rest ih =>
      rw [textOfPairs]
      simp only [String.toList_append, ih, whenChars, List.flatMap_cons, List.append_assoc]

theorem toList_textOfElse (otherwise : Option Scalar) :
    (textOfElse otherwise).toList ++ " END".toList = endChars otherwise := by
  cases otherwise with
  | none =>
      rw [textOfElse]
      rfl
  | some e =>
      rw [textOfElse, String.toList_append, List.append_assoc]
      rfl

theorem toList_text_searchedCase (whens : List (Predicate × Scalar)) (otherwise : Option Scalar) :
    (Scalar.searchedCase whens otherwise).text.toList =
      "CASE".toList ++ (whenChars Predicate.text whens ++ endChars otherwise) := by
  rw [Scalar.text]
  simp only [String.toList_append, List.append_assoc, toList_textOfBranches, toList_textOfElse]

theorem toList_text_simpleCase (input : Scalar) (whens : List (Scalar × Scalar))
    (otherwise : Option Scalar) :
    (Scalar.simpleCase input whens otherwise).text.toList =
      "CASE ".toList ++
        (input.text.toList ++ (whenChars Scalar.text whens ++ endChars otherwise)) := by
  rw [Scalar.text]
  simp only [String.toList_append, List.append_assoc, toList_textOfPairs, toList_textOfElse]

/-- The branches and the end of a choice follow on a blank. -/
theorem whenChars_blank {α : Type} (text : α -> String) (whens : List (α × Scalar))
    (otherwise : Option Scalar) (r : List Char) :
    exists c rest, whenChars text whens ++ (endChars otherwise ++ r) = ' ' :: c :: rest ∧
      (c = 'W' ∨ c = 'E') := by
  cases whens with
  | cons w rest =>
      exact ⟨'W', _, rfl, Or.inl rfl⟩
  | nil =>
      cases otherwise with
      | none =>
          exact ⟨'E', _, rfl, Or.inr rfl⟩
      | some e =>
          exact ⟨'E', _, rfl, Or.inr rfl⟩

theorem toList_text_starOf {table : String} (h : (Scalar.starOf table).showsItself = true) :
    (Scalar.starOf table).text.toList = table.toList ++ ['.', '*'] := by
  rw [Scalar.text, (lower_of_isLowerName h).2]
  simp

/-- The first characters of an operand show what it is. -/
theorem ofChars_operand {e : Scalar} (h : e.IsReadable) {r : List Char} (hr : Follows [] r) :
    Opening.ofChars (e.operandChars ++ r) = e.opening := by
  induction e using Scalar.collated.induct generalizing r with
  | case1 e collation ih =>
      rcases h.collate with ⟨hitem, _, he⟩
      have hfollows : Follows [] (" COLLATE ".toList ++ (collation.toList ++ r)) :=
        .blank (by simp) _
      have hopen := ih he hfollows
      rw [operandChars_of_isItem hitem] at hopen
      rw [opening, <- hopen]
      show Opening.ofChars ((Scalar.collate e collation).text.toList ++ r) = _
      rw [Scalar.text]
      simp
  | case2 e hsingle =>
      cases e with
      | literal l =>
          exact ofChars_literal h hr
      | column c =>
          exact ofChars_column h.shows hr
      | call name distinct args =>
          show Opening.ofChars ((Scalar.call name distinct args).text.toList ++ r) = .call
          rw [toList_text_call, List.append_assoc]
          exact ofChars_call (isName_call h).1 _
      | binary l op right =>
          rfl
      | negate e =>
          show Opening.ofChars ((Scalar.negate e).text.toList ++ r) = .sign
          rw [Scalar.text, toList_negatedText]
          rfl
      | searchedCase whens otherwise =>
          show Opening.ofChars ((Scalar.searchedCase whens otherwise).text.toList ++ r) = .case
          rcases whenChars_blank Predicate.text whens otherwise r with ⟨c, rest, hblank, _⟩
          rw [toList_text_searchedCase, List.append_assoc, List.append_assoc, hblank]
          exact ofChars_case
      | simpleCase input whens otherwise =>
          show Opening.ofChars ((Scalar.simpleCase input whens otherwise).text.toList ++ r) = .case
          rw [toList_text_simpleCase, List.append_assoc]
          exact ofChars_case
      | collate e collation =>
          exact (hsingle e collation rfl).elim
      | star =>
          rfl
      | starOf table =>
          show Opening.ofChars ((Scalar.starOf table).text.toList ++ r) = .starOf
          rcases isName_iff.mp (lower_of_isLowerName h.shows).1 with ⟨c, w, htable, hc, hw⟩
          have hword : forall d, d ∈ w ++ ['.'] -> isRun d = true := by
            intro d hd
            rcases List.mem_append.mp hd with hd | hd
            · exact isRun_of_continuesWord (hw d hd)
            · rw [List.mem_singleton.mp hd]
              rfl
          have hsplit : c :: w ++ ['.', '*'] ++ r = c :: (w ++ ['.'] ++ '*' :: r) := by simp
          rw [toList_text_starOf h.shows, htable, hsplit,
            Opening.ofChars_word hc hword (Text.Stops.cons (by decide) _)]
          rfl

end Scalar

end Sql
end RecordSql
