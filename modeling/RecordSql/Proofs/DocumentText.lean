import Mathlib.Algebra.Group.Nat.Defs
import Mathlib.Data.List.Forall2
import Mathlib.Tactic.SplitIfs
import RecordSql.Json.Reader
import RecordSql.Proofs.ValueOrder

/-!
# Texts of documents can be told apart

Numbers, times and identifiers are written so that the text determines them, and a quoted text ends
where its quotation mark is.  The text of a tuple therefore determines its members, provided that
those in the same place are of one kind.
-/

namespace RecordSql

/-!
# Splitting texts

A run of characters of one class ends at the first character that is not in it.
-/

/-- The text does not go on with a character of the class. -/
def Text.Stops (p : Char -> Bool) (cs : List Char) : Prop :=
  forall c, cs.head? = some c -> p c = false

theorem Text.Stops.nil (p : Char -> Bool) : Stops p [] := by
  intro c hc
  cases hc

theorem Text.Stops.cons {p : Char -> Bool} {c : Char} (h : p c = false) (cs : List Char) :
    Stops p (c :: cs) := by
  intro d hd
  cases hd
  exact h

theorem Text.append_inj_of_stops {p : Char -> Bool} {a b r s : List Char}
    (ha : forall c, c ∈ a -> p c = true) (hb : forall c, c ∈ b -> p c = true) (hr : Stops p r)
    (hs : Stops p s) (h : a ++ r = b ++ s) : a = b ∧ r = s := by
  induction a generalizing b with
  | nil =>
      cases b with
      | nil =>
          exact ⟨rfl, h⟩
      | cons d b =>
          have hhead := hr d (by rw [List.nil_append] at h; rw [h]; rfl)
          rw [hb d List.mem_cons_self] at hhead
          cases hhead
  | cons c a ih =>
      cases b with
      | nil =>
          have hhead := hs c (by rw [List.nil_append] at h; rw [<- h]; rfl)
          rw [ha c List.mem_cons_self] at hhead
          cases hhead
      | cons d b =>
          rw [List.cons_append, List.cons_append, List.cons.injEq] at h
          rcases h with ⟨rfl, h⟩
          rcases ih (fun c hc => ha c (List.mem_cons_of_mem _ hc))
            (fun c hc => hb c (List.mem_cons_of_mem _ hc)) h with ⟨rfl, hrest⟩
          exact ⟨rfl, hrest⟩

/-!
# Numbers
-/

namespace Number

theorem isDigit_of_mem_digitsOf {n : Nat} {c : Char} (h : c ∈ digitsOf n) : c.isDigit = true :=
  Nat.isDigit_of_mem_toDigits (by decide) (by decide) h

theorem digitsOf_inj {n m : Nat} (h : digitsOf n = digitsOf m) : n = m := by
  have hvalue := congrArg (Nat.ofDigitChars 10 · 0) h
  simpa [digitsOf] using hvalue

theorem intText_inj {i j : Int} (h : intText i = intText j) : i = j := by
  have hdash : forall (k : Nat) rest, digitsOf k ≠ '-' :: rest := by
    intro k rest hk
    have hmem : '-' ∈ digitsOf k := by
      rw [hk]
      exact List.mem_cons_self
    exact absurd (isDigit_of_mem_digitsOf hmem) (by decide)
  have hchars := String.ofList_injective h
  by_cases hi : i < 0
  · by_cases hj : j < 0
    · simp only [signed, hi, hj, decide_true, if_true, List.cons.injEq, true_and] at hchars
      have habs := digitsOf_inj hchars
      omega
    · simp only [signed, hi, hj, decide_true, decide_false, if_true, Bool.false_eq_true,
        if_false] at hchars
      exact absurd hchars.symm (hdash _ _)
  · by_cases hj : j < 0
    · simp only [signed, hi, hj, decide_true, decide_false, if_true, Bool.false_eq_true,
        if_false] at hchars
      exact absurd hchars (hdash _ _)
    · simp only [signed, hi, hj, decide_false, Bool.false_eq_true, if_false] at hchars
      have habs := digitsOf_inj hchars
      omega

theorem mem_intText {i : Int} {c : Char} (h : c ∈ (intText i).toList) :
    c = '-' ∨ c.isDigit = true := by
  rw [intText, String.toList_ofList, signed] at h
  split at h
  · rcases List.mem_cons.mp h with rfl | h
    · exact Or.inl rfl
    · exact Or.inr (isDigit_of_mem_digitsOf h)
  · exact Or.inr (isDigit_of_mem_digitsOf h)

/-- The test accepts every character that a number in a document is written with. -/
structure AcceptsNumerals (p : Char -> Bool) : Prop where
  digit : forall c, c.isDigit = true -> p c = true
  marks : ['-', '+', '.', 'e'].all p = true

namespace AcceptsNumerals

variable {p : Char -> Bool} (h : AcceptsNumerals p)
include h

theorem mark (c : Char) (hc : c ∈ ['-', '+', '.', 'e']) : p c = true :=
  List.all_eq_true.mp h.marks c hc

theorem all_digitsOf (n : Nat) : (digitsOf n).all p = true :=
  List.all_eq_true.mpr fun c hc => h.digit c (isDigit_of_mem_digitsOf hc)

theorem all_zeros (n : Nat) : (zeros n).all p = true := by
  refine List.all_eq_true.mpr fun c hc => ?_
  rw [List.eq_of_mem_replicate hc]
  exact h.digit '0' (by decide)

theorem all_signed (negative : Bool) {text : List Char} (htext : text.all p = true) :
    (signed negative text).all p = true := by
  cases negative with
  | false =>
      exact htext
  | true =>
      rw [signed, if_pos rfl, List.all_cons, htext, h.mark '-' (by decide)]
      rfl

theorem all_inPlace (d : Decimal) : (inPlace d).all p = true := by
  have hdigits := List.all_eq_true.mp (h.all_digitsOf d.digits)
  have htake : forall n, ((digitsOf d.digits).take n).all p = true := fun n =>
    List.all_eq_true.mpr fun c hc => hdigits c (List.mem_of_mem_take hc)
  have hdrop : forall n, ((digitsOf d.digits).drop n).all p = true := fun n =>
    List.all_eq_true.mpr fun c hc => hdigits c (List.mem_of_mem_drop hc)
  have hpoint := h.mark '.' (by decide)
  simp only [inPlace]
  split_ifs
  · rw [List.all_append, h.all_digitsOf, h.all_zeros]
    rfl
  · rw [List.all_append, List.all_cons, htake, hdrop, hpoint]
    rfl
  · rw [List.cons_append, List.all_cons, List.cons_append, List.all_cons, List.all_append,
      h.all_digitsOf, h.all_zeros, h.digit '0' (by decide), hpoint]
    rfl

theorem all_withExponent (d : Decimal) : (withExponent d).all p = true := by
  have hdigits := List.all_eq_true.mp (h.all_digitsOf d.digits)
  have hlead : ((digitsOf d.digits).take 1).all p = true :=
    List.all_eq_true.mpr fun c hc => hdigits c (List.mem_of_mem_take hc)
  have hsign : p (if d.exponent + (digitsOf d.digits).length - 1 < 0 then '-' else '+') =
      true := by
    split
    · exact h.mark '-' (by decide)
    · exact h.mark '+' (by decide)
  have hfraction : (if ((digitsOf d.digits).drop 1).isEmpty then []
      else '.' :: (digitsOf d.digits).drop 1).all p = true := by
    split
    · rfl
    · rw [List.all_cons, h.mark '.' (by decide), Bool.true_and]
      exact List.all_eq_true.mpr fun c hc => hdigits c (List.mem_of_mem_drop hc)
  simp only [withExponent, List.all_append, List.all_cons, hlead, hfraction, hsign,
    h.mark 'e' (by decide), h.all_digitsOf, Bool.and_true]

theorem all_documentText {x : Float} {text : String} (htext : documentText x = some text) :
    text.toList.all p = true := by
  have hzero : "0.0".toList.all p = true := by
    simp [h.digit '0' (by decide), h.mark '.' (by decide)]
  unfold documentText at htext
  split at htext
  · split at htext
    · cases htext
      rw [String.toList_ofList]
      exact h.all_signed _ hzero
    · cases htext
      rw [String.toList_ofList]
      refine h.all_signed _ ?_
      split
      · rw [List.all_append, h.all_inPlace]
        split
        · simp [h.digit '0' (by decide), h.mark '.' (by decide)]
        · rfl
      · exact h.all_withExponent _
  · cases htext

end AcceptsNumerals

end Number

/-!
# Times

Every part of a written time is a run of digits, and what follows it is not a digit.
-/

namespace Calendar

theorem isDigit_of_mem_padded {width n : Nat} {c : Char} (h : c ∈ padded width n) :
    c.isDigit = true := by
  rcases List.mem_append.mp h with h | h
  · rw [List.eq_of_mem_replicate h]
    rfl
  · exact Number.isDigit_of_mem_digitsOf h

theorem ofDigitChars_padded (width n : Nat) : Nat.ofDigitChars 10 (padded width n) 0 = n := by
  simp [padded, Number.zeros, Number.digitsOf, Nat.ofDigitChars_append]

theorem length_padded {width n : Nat} (hwidth : 0 < width) (hn : n < 10 ^ width) :
    (padded width n).length = width := by
  have hlength := (Nat.length_toDigits_le_iff (by decide : 1 < 10) hwidth).mpr hn
  simp only [padded, Number.zeros, Number.digitsOf, List.length_append, List.length_replicate]
  omega

/-- A run of digits that stands for a number, and what follows it. -/
theorem padded_append_inj {width n m : Nat} {r s : List Char} (hr : Text.Stops Char.isDigit r)
    (hs : Text.Stops Char.isDigit s) (h : padded width n ++ r = padded width m ++ s) :
    n = m ∧ r = s := by
  rcases Text.append_inj_of_stops (fun _ => isDigit_of_mem_padded)
    (fun _ => isDigit_of_mem_padded) hr hs h with ⟨hdigits, hrest⟩
  have hvalue := congrArg (Nat.ofDigitChars 10 · 0) hdigits
  simp only [ofDigitChars_padded] at hvalue
  exact ⟨hvalue, hrest⟩

theorem head?_padded {width n : Nat} {rest : List Char} {c : Char}
    (h : (padded width n ++ rest).head? = some c) : c.isDigit = true := by
  cases hpadded : padded width n with
  | nil =>
      simp [padded, Number.digitsOf] at hpadded
  | cons d digits =>
      rw [hpadded] at h
      cases h
      refine @isDigit_of_mem_padded width n c ?_
      rw [hpadded]
      exact List.mem_cons_self

theorem yearText_append_inj {y z : Int} {r s : List Char} (hr : Text.Stops Char.isDigit r)
    (hs : Text.Stops Char.isDigit s) (h : yearText y ++ r = yearText z ++ s) : y = z ∧ r = s := by
  have hsign : forall (a b : Nat) (c : Char) (u v : List Char), c.isDigit = false ->
      padded 4 a ++ u ≠ c :: (padded 4 b ++ v) := by
    intro a b c u v hc heq
    have hdigit := head?_padded (by rw [heq]; rfl : (padded 4 a ++ u).head? = some c)
    rw [hc] at hdigit
    cases hdigit
  have hmark : forall x : Int, (if x < 0 then '-' else '+').isDigit = false := by
    intro x
    split <;> rfl
  unfold yearText at h
  by_cases hy : 0 ≤ y ∧ y ≤ 9999
  · by_cases hz : 0 ≤ z ∧ z ≤ 9999
    · rw [if_pos hy, if_pos hz] at h
      rcases padded_append_inj hr hs h with ⟨hvalue, hrest⟩
      exact ⟨by omega, hrest⟩
    · rw [if_pos hy, if_neg hz] at h
      exact absurd h (hsign _ _ _ _ _ (hmark z))
  · by_cases hz : 0 ≤ z ∧ z ≤ 9999
    · rw [if_neg hy, if_pos hz] at h
      exact absurd h.symm (hsign _ _ _ _ _ (hmark y))
    · rw [if_neg hy, if_neg hz, List.cons_append, List.cons_append, List.cons.injEq] at h
      rcases h with ⟨hchar, h⟩
      rcases padded_append_inj hr hs h with ⟨hvalue, hrest⟩
      have hnegative : y < 0 <-> z < 0 := by
        by_cases hy' : y < 0 <;> by_cases hz' : z < 0 <;> simp [hy', hz'] at hchar ⊢
      exact ⟨by omega, hrest⟩

theorem Date.text_append_inj {d e : Date} {r s : List Char} (hr : Text.Stops Char.isDigit r)
    (hs : Text.Stops Char.isDigit s) (h : d.text ++ r = e.text ++ s) : d = e ∧ r = s := by
  simp only [Date.text, List.append_assoc, List.cons_append] at h
  rcases yearText_append_inj (.cons rfl _) (.cons rfl _) h with ⟨hyear, h⟩
  rcases padded_append_inj (.cons rfl _) (.cons rfl _) (List.cons.inj h).2 with ⟨hmonth, h⟩
  rcases padded_append_inj hr hs (List.cons.inj h).2 with ⟨hday, hrest⟩
  cases d
  cases e
  cases hyear
  cases hmonth
  cases hday
  exact ⟨rfl, hrest⟩

namespace DateTime

/-- A fraction is a number of nanoseconds without the zeros at its end. -/
theorem fractionText_eq (t : DateTime) : t.fractionText = [] ∧ t.nanos % 1000000000 = 0 ∨
    exists width n, t.fractionText = '.' :: padded width n ∧ (padded width n).length = width ∧
      t.nanos % 1000000000 = n * 10 ^ (9 - width) := by
  have hbound : t.nanos % 1000000000 < 1000000000 := Nat.mod_lt _ (by decide)
  unfold fractionText
  simp only [beq_iff_eq]
  split
  · exact Or.inl ⟨rfl, by assumption⟩
  · split
    · exact Or.inr ⟨3, _, rfl, length_padded (by decide) (by omega), by omega⟩
    · split
      · exact Or.inr ⟨6, _, rfl, length_padded (by decide) (by omega), by omega⟩
      · exact Or.inr ⟨9, _, rfl, length_padded (by decide) hbound, by omega⟩

theorem fractionText_inj {t u : DateTime} (h : t.fractionText = u.fractionText) :
    t.nanos % 1000000000 = u.nanos % 1000000000 := by
  rcases fractionText_eq t with ⟨ht, htnanos⟩ | ⟨width, n, ht, htwidth, htnanos⟩
  · rcases fractionText_eq u with ⟨_, hunanos⟩ | ⟨_, _, hu, _⟩
    · rw [htnanos, hunanos]
    · rw [ht, hu] at h
      cases h
  · rcases fractionText_eq u with ⟨hu, _⟩ | ⟨width', m, hu, huwidth, hunanos⟩
    · rw [ht, hu] at h
      cases h
    · rw [ht, hu] at h
      have hdigits := (List.cons.inj h).2
      have hwidth : width = width' := by
        rw [<- htwidth, <- huwidth, hdigits]
      have hvalue := congrArg (Nat.ofDigitChars 10 · 0) hdigits
      simp only [ofDigitChars_padded] at hvalue
      rw [htnanos, hunanos, hwidth, hvalue]

theorem stops_fractionText (t : DateTime) : Text.Stops Char.isDigit t.fractionText := by
  rcases fractionText_eq t with ⟨ht, _⟩ | ⟨_, _, ht, _⟩
  · rw [ht]
    exact .nil _
  · rw [ht]
    exact .cons rfl _

/-- The form used in data documents determines the time. -/
theorem iso_inj {t u : DateTime} (h : t.iso = u.iso) : t = u := by
  have hchars := String.ofList_injective h
  simp only [clockText, List.append_assoc, List.cons_append] at hchars
  rcases Date.text_append_inj (.cons rfl _) (.cons rfl _) hchars with ⟨hdate, hchars⟩
  rcases padded_append_inj (.cons rfl _) (.cons rfl _) (List.cons.inj hchars).2 with
    ⟨hhour, hchars⟩
  rcases padded_append_inj (.cons rfl _) (.cons rfl _) (List.cons.inj hchars).2 with
    ⟨hminute, hchars⟩
  rcases padded_append_inj (stops_fractionText t) (stops_fractionText u)
    (List.cons.inj hchars).2 with ⟨hsec, hchars⟩
  have hfraction := fractionText_inj hchars
  rcases t with ⟨d, seconds, nanos, ht⟩
  rcases u with ⟨e, seconds', nanos', hu⟩
  unfold IsClock at ht hu
  simp only [hour, minute, sec] at hhour hminute hsec hfraction hdate
  cases hdate
  have hseconds : seconds = seconds' := by omega
  have hnanos : nanos = nanos' := by omega
  cases hseconds
  cases hnanos
  rfl

end DateTime

end Calendar

/-!
# Identifiers
-/

namespace Guid

theorem hexDigit_inj {n m : Nat} (hn : n < 16) (hm : m < 16) (h : hexDigit n = hexDigit m) :
    n = m := by
  have hall : forall a b : Fin 16, hexDigit a = hexDigit b -> a = b := by decide
  exact congrArg Fin.val (hall ⟨n, hn⟩ ⟨m, hm⟩ h)

theorem hexDigits_inj {n m count : Nat} (h : hexDigits n count = hexDigits m count) :
    n % 16 ^ count = m % 16 ^ count := by
  induction count generalizing n m with
  | zero =>
      rw [Nat.pow_zero, Nat.mod_one, Nat.mod_one]
  | succ count ih =>
      rcases List.append_inj' h rfl with ⟨hfront, hlast⟩
      have hdigit := hexDigit_inj (Nat.mod_lt n (by decide)) (Nat.mod_lt m (by decide))
        (List.cons.inj hlast).1
      rw [Nat.pow_succ, Nat.mul_comm, Nat.mod_mul, Nat.mod_mul, hdigit, ih hfront]

theorem mem_hexDigits {n count : Nat} {c : Char} (h : c ∈ hexDigits n count) : c ≠ '-' := by
  have hall : forall a : Fin 16, hexDigit a ≠ '-' := by decide
  induction count generalizing n with
  | zero =>
      cases h
  | succ count ih =>
      rcases List.mem_append.mp h with h | h
      · exact ih h
      · rcases List.mem_singleton.mp h with rfl
        exact hall ⟨n % 16, Nat.mod_lt n (by decide)⟩

/-- The digits are what is left of a written identifier without its dashes. -/
theorem filter_group {digits : List Char} (h : forall c, c ∈ digits -> c ≠ '-') :
    (group digits).filter (· != '-') = digits := by
  have hkeep : forall part, part ⊆ digits -> part.filter (· != '-') = part := by
    intro part hpart
    rw [List.filter_eq_self]
    intro c hc
    simpa using h c (hpart hc)
  have htake : forall i n, ((digits.drop i).take n).filter (· != '-') = (digits.drop i).take n :=
    fun i n => hkeep _ fun _ hc => List.mem_of_mem_drop (List.mem_of_mem_take hc)
  have hfirst := hkeep _ (List.take_subset 8 digits)
  have hlast := hkeep _ (List.drop_subset 20 digits)
  have hjoin : forall i n rest, digits.drop (i + n) = rest ->
      (digits.drop i).take n ++ rest = digits.drop i := by
    rintro i n _ rfl
    rw [<- List.drop_drop, List.take_append_drop]
  have hdash : forall part, ('-' :: part).filter (· != '-') = part.filter (· != '-') := by
    intro part
    rfl
  simp only [group, List.append_assoc, List.cons_append, List.filter_append, hdash, htake, hfirst,
    hlast]
  rw [hjoin 16 4 _ rfl, hjoin 12 4 _ rfl, hjoin 8 4 _ rfl, List.take_append_drop]

theorem text_inj {g h : Guid} (heq : g.text = h.text) : g = h := by
  have hchars := congrArg (List.filter (· != '-')) (String.ofList_injective heq)
  rw [filter_group fun _ => mem_hexDigits, filter_group fun _ => mem_hexDigits] at hchars
  have hbits := hexDigits_inj hchars
  rw [Nat.mod_eq_of_lt (by have := g.bits.isLt; omega),
    Nat.mod_eq_of_lt (by have := h.bits.isLt; omega)] at hbits
  cases g
  cases h
  exact congrArg mk (BitVec.eq_of_toNat_eq hbits)

end Guid

/-!
# Quoted texts

A written text is read back as it was, up to its closing quotation mark.
-/

namespace Json

theorem hexQuad?_hexQuad {n : Nat} (h : n < 32) (rest : List Char) :
    hexQuad? (hexQuad n ++ rest) = some (n, rest) := by
  have hall : forall k : Fin 32, hexQuad? (hexQuad k) = some (k.val, []) := by decide
  have hdigits := hall ⟨n, h⟩
  simp only [hexQuad, hexQuad?, Option.bind_eq_bind, Option.bind_eq_some_iff] at hdigits
  rcases hdigits with ⟨digits, hdigits, hvalue⟩
  simp only [hexQuad, List.cons_append, List.nil_append, hexQuad?, hdigits, Option.bind_eq_bind,
    Option.bind_some]
  cases hvalue
  rfl

/-- The codes of the characters that have a mark of their own behind the backslash. -/
def marked : List (Nat × Char) :=
  [(34, '"'), (92, '\\'), (8, 'b'), (9, 't'), (10, 'n'), (12, 'f'), (13, 'r')]

theorem escapeChar_marked : forall entry, entry ∈ marked ->
    entry.2 ≠ 'u' ∧ escape? entry.2 = some (Char.ofNat entry.1) ∧
      escapeChar (Char.ofNat entry.1) = ['\\', entry.2] := by
  decide

/-- A character is written as itself, or else after a backslash. -/
theorem escapeChar_cases (c : Char) :
    (c ≠ '"' ∧ c ≠ '\\' ∧ 32 ≤ c.toNat ∧ escapeChar c = [c]) ∨
    (exists mark, mark ≠ 'u' ∧ escape? mark = some c ∧ escapeChar c = ['\\', mark]) ∨
    (c.toNat < 32 ∧ escapeChar c = '\\' :: 'u' :: hexQuad c.toNat) := by
  by_cases hmarked : exists entry, entry ∈ marked ∧ entry.1 = c.toNat
  · rcases hmarked with ⟨entry, hentry, hcode⟩
    rcases escapeChar_marked entry hentry with ⟨hmark, hescape, hwritten⟩
    rw [hcode, Char.ofNat_toNat] at hescape hwritten
    exact Or.inr (Or.inl ⟨entry.2, hmark, hescape, hwritten⟩)
  · have hcodes : c.toNat ≠ 34 ∧ c.toNat ≠ 92 ∧ c.toNat ≠ 8 ∧ c.toNat ≠ 9 ∧ c.toNat ≠ 10 ∧
        c.toNat ≠ 12 ∧ c.toNat ≠ 13 := by
      simpa [marked, eq_comm] using hmarked
    rcases hcodes with ⟨hcode, hcode', hback, htab, hline, hpage, hreturn⟩
    have hquote : c ≠ '"' := fun h => hcode (congrArg Char.toNat h)
    have hslash : c ≠ '\\' := fun h => hcode' (congrArg Char.toNat h)
    have hwritten : escapeChar c =
        if c.toNat < 32 then '\\' :: 'u' :: hexQuad c.toNat else [c] := by
      simp [escapeChar, hquote, hslash, hback, htab, hline, hpage, hreturn]
    by_cases hsmall : c.toNat < 32
    · rw [if_pos hsmall] at hwritten
      exact Or.inr (Or.inr ⟨hsmall, hwritten⟩)
    · rw [if_neg hsmall] at hwritten
      exact Or.inl ⟨hquote, hslash, Nat.le_of_not_lt hsmall, hwritten⟩

theorem splitText_plain {c : Char} (hquote : c ≠ '"') (hslash : c ≠ '\\') (rest : List Char) :
    splitText (c :: rest) = (splitText rest).map fun (text, left) => (c :: text, left) := by
  rw [splitText]
  · exact hquote
  · intro _ _ h
    exact absurd h hslash

theorem splitText_escapeChar (c : Char) (rest : List Char) :
    splitText (escapeChar c ++ rest) =
      (splitText rest).map fun (text, left) => (escapeChar c ++ text, left) := by
  rcases escapeChar_cases c with ⟨hquote, hslash, _, h⟩ | ⟨mark, _, _, h⟩ | ⟨hsmall, h⟩
  · rw [h]
    exact splitText_plain hquote hslash rest
  · rw [h]
    rfl
  · have hall : forall k : Fin 32, (hexQuad k).all (fun d => d ≠ '"' ∧ d ≠ '\\') = true := by decide
    have hmarks : forall d, d ∈ hexQuad c.toNat -> d ≠ '"' ∧ d ≠ '\\' := by
      simpa using hall ⟨c.toNat, hsmall⟩
    rw [h]
    have hplain : forall digits : List Char, (forall d, d ∈ digits -> d ≠ '"' ∧ d ≠ '\\') ->
        splitText (digits ++ rest) =
          (splitText rest).map fun (text, left) => (digits ++ text, left) := by
      intro digits hdigits
      induction digits with
      | nil =>
          simp
      | cons d digits ih =>
          rcases hdigits d List.mem_cons_self with ⟨hquote, hslash⟩
          rw [List.cons_append, splitText_plain hquote hslash,
            ih fun e he => hdigits e (List.mem_cons_of_mem _ he), Option.map_map]
          rfl
    rw [List.cons_append, List.cons_append, splitText, hplain _ hmarks, Option.map_map]
    rfl

theorem unescape_plain {c : Char} (hlarge : 32 ≤ c.toNat) (hslash : c ≠ '\\') (fuel : Nat)
    (rest : List Char) : unescape (fuel + 1) (c :: rest) = (unescape fuel rest).map (c :: ·) := by
  rw [unescape.eq_def]
  simp only [Nat.not_lt.mpr hlarge, if_false, beq_iff_eq, hslash]
  cases unescape fuel rest <;> rfl

theorem unescape_escapeChar (c : Char) (fuel : Nat) (rest : List Char) :
    unescape (fuel + 1) (escapeChar c ++ rest) = (unescape fuel rest).map (c :: ·) := by
  rcases escapeChar_cases c with ⟨_, hslash, hlarge, h⟩ | ⟨mark, hmark, hescape, h⟩ | ⟨hsmall, h⟩
  · rw [h]
    exact unescape_plain hlarge hslash fuel rest
  · rw [h, List.cons_append, List.cons_append, List.nil_append, unescape.eq_4 _ _ _ _ hmark,
      if_neg (by decide), if_pos (by decide), hescape]
    cases unescape fuel rest <;> rfl
  · have hescape : unicodeEscape? (hexQuad c.toNat ++ rest) = some (c, rest) := by
      rw [unicodeEscape?, hexQuad?_hexQuad hsmall]
      simp only [Option.bind_eq_bind, Option.bind_some]
      rw [if_neg (by omega), if_neg (by omega), Char.ofNat_toNat]
    rw [h, List.cons_append, List.cons_append, unescape.eq_3, if_neg (by decide),
      if_pos (by decide), hescape]
    simp only [Option.bind_eq_bind, Option.bind_some]
    cases unescape fuel rest <;> rfl

theorem splitText_quote (cs rest : List Char) :
    splitText (cs.flatMap escapeChar ++ '"' :: rest) = some (cs.flatMap escapeChar, rest) := by
  induction cs with
  | nil =>
      rfl
  | cons c cs ih =>
      rw [List.flatMap_cons, List.append_assoc, splitText_escapeChar, ih]
      rfl

theorem unescape_quote (cs : List Char) {fuel : Nat} (hfuel : cs.length ≤ fuel) :
    unescape fuel (cs.flatMap escapeChar) = some cs := by
  induction cs generalizing fuel with
  | nil =>
      rw [List.flatMap_nil, unescape]
  | cons c cs ih =>
      obtain ⟨fuel, rfl⟩ := Nat.exists_eq_add_of_lt hfuel
      rw [List.flatMap_cons, unescape_escapeChar, ih (by omega)]
      rfl

theorem length_le_length_flatMap_escapeChar (cs : List Char) :
    cs.length ≤ (cs.flatMap escapeChar).length := by
  induction cs with
  | nil =>
      exact Nat.le_refl _
  | cons c cs ih =>
      have hone : 1 ≤ (escapeChar c).length := by
        rcases escapeChar_cases c with ⟨_, _, _, h⟩ | ⟨mark, _, _, h⟩ | ⟨_, h⟩ <;> rw [h] <;> simp
      rw [List.flatMap_cons, List.length_append, List.length_cons]
      omega

theorem readString_quote (s : String) (rest : List Char) :
    readString (s.toList.flatMap escapeChar ++ '"' :: rest) = some (s, rest) := by
  rw [readString, splitText_quote]
  simp only [Option.bind_eq_bind, Option.bind_some,
    unescape_quote s.toList (length_le_length_flatMap_escapeChar s.toList), String.ofList_toList]

theorem quote_append_inj {s t : String} {r u : List Char} (h : quote s ++ r = quote t ++ u) :
    s = t ∧ r = u := by
  simp only [quote, List.cons_append, List.append_assoc, List.nil_append, List.cons.injEq,
    true_and] at h
  have hread := readString_quote s r
  rw [h, readString_quote] at hread
  cases hread
  exact ⟨rfl, rfl⟩

end Json

/-!
# Tuples
-/

namespace Value

/-- A member of a list is followed by a comma or by nothing. -/
def Ends (cs : List Char) : Prop :=
  Text.Stops (· != ',') cs

theorem ne_comma_of_mem_intText {i : Int} (c : Char) (h : c ∈ (Number.intText i).toList) :
    (c != ',') = true := by
  rw [bne_iff_ne]
  rintro rfl
  rcases Number.mem_intText h with hdash | hdigit
  · exact absurd hdash (by decide)
  · exact absurd hdigit (by decide)

theorem intText_append_inj {i j : Int} {r s : List Char} (hr : Ends r) (hs : Ends s)
    (h : (Number.intText i).toList ++ r = (Number.intText j).toList ++ s) : i = j ∧ r = s := by
  rcases Text.append_inj_of_stops ne_comma_of_mem_intText ne_comma_of_mem_intText hr hs h with
    ⟨htext, hrest⟩
  exact ⟨Number.intText_inj (String.toList_injective htext), hrest⟩

theorem chars_null : Json.null.chars = ['n', 'u', 'l', 'l'] := by
  decide

theorem chars_bool (b : Bool) :
    (Json.bool b).chars = if b then ['t', 'r', 'u', 'e'] else ['f', 'a', 'l', 's', 'e'] := by
  cases b <;> decide

theorem intText_append_ne_null {i : Int} {r s : List Char} (hr : Ends r) (hs : Ends s) :
    (Number.intText i).toList ++ r ≠ ['n', 'u', 'l', 'l'] ++ s := by
  intro h
  have hall : forall c, c ∈ ['n', 'u', 'l', 'l'] -> (c != ',') = true := by simp
  rcases Text.append_inj_of_stops ne_comma_of_mem_intText hall hr hs h with ⟨htext, _⟩
  have hn : 'n' ∈ (Number.intText i).toList := by
    rw [htext]
    exact List.mem_cons_self
  rcases Number.mem_intText hn with hdash | hdigit
  · exact absurd hdash (by decide)
  · exact absurd hdigit (by decide)

theorem chars_ref (ref : Reference) (r : List Char) : (Value.ref ref).toJson.chars ++ r =
    '\x7b' :: (Json.quote "id" ++ ':' :: (Json.quote ref.id.text ++ ',' ::
      (Json.quote "logical_name" ++ ':' :: (Json.quote ref.table ++ '\x7d' :: r)))) := by
  simp only [toJson, Json.chars, Json.fieldsChars, List.cons_append, List.append_assoc,
    List.nil_append]

theorem chars_append_ne_null {v : Value} (hv : v.kind? ≠ none) (hfloat : v.kind? ≠ some .float)
    {r s : List Char} (hr : Ends r) (hs : Ends s) :
    v.toJson.chars ++ r ≠ Json.null.chars ++ s := by
  rw [chars_null]
  cases v with
  | null =>
      exact absurd rfl hv
  | bool b =>
      rw [toJson, chars_bool]
      cases b <;> simp
  | int i =>
      exact intText_append_ne_null hr hs
  | float x =>
      exact absurd rfl hfloat
  | ref ref =>
      rw [chars_ref]
      simp
  | _ =>
      simp [toJson, Json.chars, Json.quote]

/-- A value that is there is known from its text and what follows it, given its kind. -/
theorem chars_append_inj_of_kind {v w : Value} (hkinds : v.kind? = w.kind?) (hv : v.kind? ≠ none)
    (hfloat : v.kind? ≠ some .float) {r s : List Char} (hr : Ends r) (hs : Ends s)
    (h : v.toJson.chars ++ r = w.toJson.chars ++ s) : v = w ∧ r = s := by
  cases v with
  | null =>
      exact absurd rfl hv
  | float x =>
      exact absurd rfl hfloat
  | bool b =>
      cases w with
      | bool c =>
          rw [toJson, toJson, chars_bool, chars_bool] at h
          cases b <;> cases c <;> simp at h ⊢ <;> exact h
      | _ =>
          cases hkinds
  | int i =>
      cases w with
      | int j =>
          rcases intText_append_inj hr hs h with ⟨rfl, hrest⟩
          exact ⟨rfl, hrest⟩
      | _ =>
          cases hkinds
  | str a =>
      cases w with
      | str b =>
          rcases Json.quote_append_inj h with ⟨rfl, hrest⟩
          exact ⟨rfl, hrest⟩
      | _ =>
          cases hkinds
  | dateTime t =>
      cases w with
      | dateTime u =>
          rcases Json.quote_append_inj h with ⟨htext, hrest⟩
          rw [Calendar.DateTime.iso_inj htext]
          exact ⟨rfl, hrest⟩
      | _ =>
          cases hkinds
  | guid g =>
      cases w with
      | guid k =>
          rcases Json.quote_append_inj h with ⟨htext, hrest⟩
          rw [Guid.text_inj htext]
          exact ⟨rfl, hrest⟩
      | _ =>
          cases hkinds
  | ref a =>
      cases w with
      | ref b =>
          rw [chars_ref, chars_ref, List.cons.injEq] at h
          have hid := (Json.quote_append_inj h.2).2
          rcases Json.quote_append_inj (List.cons.inj hid).2 with ⟨htext, hname⟩
          have htable := (Json.quote_append_inj (List.cons.inj hname).2).2
          rcases Json.quote_append_inj (List.cons.inj htable).2 with ⟨hsame, hrest⟩
          rcases a with ⟨table, id⟩
          rcases b with ⟨table', id'⟩
          cases hsame
          cases Guid.text_inj htext
          exact ⟨rfl, (List.cons.inj hrest).2⟩
      | _ =>
          cases hkinds

/-- The values are missing or of one kind, which is not that of doubles. -/
def Alike (v w : Value) : Prop :=
  exists kind, kind ≠ Kind.float ∧ OfKind kind v ∧ OfKind kind w

theorem eq_null_of_kind? {v : Value} (h : v.kind? = none) : v = .null := by
  cases v <;> cases h
  rfl

theorem chars_append_inj {v w : Value} (halike : Alike v w) {r s : List Char} (hr : Ends r)
    (hs : Ends s) (h : v.toJson.chars ++ r = w.toJson.chars ++ s) : v = w ∧ r = s := by
  rcases halike with ⟨kind, hkind, hv, hw⟩
  cases hv' : v.kind? with
  | none =>
      rw [eq_null_of_kind? hv'] at h ⊢
      cases hw' : w.kind? with
      | none =>
          rw [eq_null_of_kind? hw'] at h ⊢
          exact ⟨rfl, List.append_cancel_left h⟩
      | some k =>
          cases hw k hw'
          exact absurd h.symm (chars_append_ne_null (by rw [hw']; nofun)
            (by rw [hw']; simpa using hkind) hs hr)
  | some k =>
      cases hv k hv'
      have hnotFloat : v.kind? ≠ some .float := by
        rw [hv']
        simpa using hkind
      cases hw' : w.kind? with
      | none =>
          rw [eq_null_of_kind? hw'] at h
          exact absurd h (chars_append_ne_null (by rw [hv']; nofun) hnotFloat hr hs)
      | some k' =>
          cases hw k' hw'
          exact chars_append_inj_of_kind (hv'.trans hw'.symm) (by rw [hv']; nofun) hnotFloat hr hs h

/-!
# Tuples

A member of a tuple is a quoted text, a reference, or a word without commas, so the text of the tuple
determines the texts of its members.
-/

/-- The values are written in the same way. -/
def SameText (v w : Value) : Prop :=
  v.toJson.chars = w.toJson.chars

theorem SameText.eq {v w : Value} (h : SameText v w) (halike : Alike v w) : v = w := by
  have hchars : v.toJson.chars ++ [] = w.toJson.chars ++ [] := by
    rw [List.append_nil, List.append_nil]
    exact h
  exact (chars_append_inj halike (.nil _) (.nil _) hchars).1

/-- The character is part of a word: it neither ends it nor begins something else. -/
def isWord (c : Char) : Bool :=
  c != ',' && c != '"' && c != '\x7b'

theorem isWord_of_isDigit {c : Char} (h : c.isDigit = true) : isWord c = true := by
  have hne : forall d : Char, d.isDigit = false -> c ≠ d := by
    rintro d hd rfl
    rw [h] at hd
    cases hd
  simp [isWord, hne ',' (by decide), hne '"' (by decide), hne '\x7b' (by decide)]

theorem acceptsNumerals_isWord : Number.AcceptsNumerals isWord :=
  ⟨fun _ => isWord_of_isDigit, by decide⟩

theorem isWord_documentText (x : Float) : (Json.float x).chars.all isWord = true := by
  rw [Json.chars]
  cases htext : Number.documentText x with
  | none =>
      decide
  | some text =>
      exact acceptsNumerals_isWord.all_documentText htext

/-- What a member of a tuple looks like. -/
theorem chars_cases (v : Value) : v.toJson.chars.all isWord = true ∨
    (exists s, v.toJson = .str s) ∨ exists ref, v = .ref ref := by
  cases v with
  | null =>
      exact Or.inl (by decide)
  | bool b =>
      exact Or.inl (by cases b <;> decide)
  | int i =>
      refine Or.inl (List.all_eq_true.mpr fun c hc => ?_)
      rcases Number.mem_intText hc with rfl | hdigit
      · decide
      · exact isWord_of_isDigit hdigit
  | float x =>
      refine Or.inl ?_
      rw [toJson]
      split
      · exact isWord_documentText x
      · decide
  | ref ref =>
      exact Or.inr (Or.inr ⟨ref, rfl⟩)
  | _ =>
      exact Or.inr (Or.inl ⟨_, rfl⟩)

/-- A word is followed by nothing or by a comma, so nothing else begins like it. -/
theorem word_append_ne {a r t : List Char} {c : Char} (ha : a.all isWord = true) (hr : Ends r)
    (hc : isWord c = false) (hcomma : c ≠ ',') : a ++ r ≠ c :: t := by
  intro h
  cases a with
  | nil =>
      rw [List.nil_append] at h
      have hend := hr c (by rw [h]; rfl)
      rw [bne_eq_false_iff_eq] at hend
      exact hcomma hend
  | cons d rest =>
      rw [List.all_cons, (List.cons.inj h).1, hc] at ha
      cases ha

theorem chars_str (s : String) (r : List Char) :
    (Json.str s).chars ++ r = '"' :: (s.toList.flatMap Json.escapeChar ++ '"' :: r) := by
  simp [Json.chars, Json.quote]

theorem chars_append_split {v w : Value} {r s : List Char} (hr : Ends r) (hs : Ends s)
    (h : v.toJson.chars ++ r = w.toJson.chars ++ s) : SameText v w ∧ r = s := by
  rcases chars_cases v with hv | ⟨a, hv⟩ | ⟨a, rfl⟩
  · rcases chars_cases w with hw | ⟨b, hw⟩ | ⟨b, rfl⟩
    · have hcomma : forall text : List Char, text.all isWord = true -> forall c, c ∈ text ->
          (c != ',') = true := by
        intro text htext c hc
        have hword := List.all_eq_true.mp htext c hc
        rw [isWord, Bool.and_eq_true, Bool.and_eq_true] at hword
        exact hword.1.1
      exact Text.append_inj_of_stops (hcomma _ hv) (hcomma _ hw) hr hs h
    · rw [hw, chars_str] at h
      exact absurd h (word_append_ne hv hr (by decide) (by decide))
    · rw [chars_ref] at h
      exact absurd h (word_append_ne hv hr (by decide) (by decide))
  · rcases chars_cases w with hw | ⟨b, hw⟩ | ⟨b, rfl⟩
    · rw [hv, chars_str] at h
      exact absurd h.symm (word_append_ne hw hs (by decide) (by decide))
    · rw [SameText, hv, hw]
      rw [hv, hw] at h
      rcases Json.quote_append_inj h with ⟨rfl, hrest⟩
      exact ⟨rfl, hrest⟩
    · rw [hv, chars_str, chars_ref] at h
      exact absurd (List.cons.inj h).1 (by decide)
  · rcases chars_cases w with hw | ⟨b, hw⟩ | ⟨b, rfl⟩
    · rw [chars_ref] at h
      exact absurd h.symm (word_append_ne hw hs (by decide) (by decide))
    · rw [hw, chars_str, chars_ref] at h
      exact absurd (List.cons.inj h).1 (by decide)
    · have hthere : (Value.ref a).kind? ≠ none := by
        rw [kind?]
        exact Option.some_ne_none _
      have hfloat : (Value.ref a).kind? ≠ some .float := by
        rw [kind?]
        decide
      rcases @chars_append_inj_of_kind (.ref a) (.ref b) rfl hthere hfloat _ _ hr hs h with
        ⟨hsame, hrest⟩
      rw [hsame]
      exact ⟨rfl, hrest⟩

theorem listChars_eq_iff {v w : List Value} (hlength : v.length = w.length) :
    Json.listChars (v.map toJson) = Json.listChars (w.map toJson) <->
      List.Forall₂ SameText v w := by
  induction v generalizing w with
  | nil =>
      rw [List.eq_nil_of_length_eq_zero hlength.symm]
      exact ⟨fun _ => .nil, fun _ => rfl⟩
  | cons a as ih =>
      cases w with
      | nil =>
          cases hlength
      | cons b bs =>
          have hrest := ih (Nat.succ.inj hlength)
          rw [List.forall₂_cons, <- hrest]
          cases as with
          | nil =>
              rw [List.eq_nil_of_length_eq_zero (Nat.succ.inj hlength).symm]
              simp [Json.listChars, SameText]
          | cons a' as =>
              cases bs with
              | nil =>
                  cases hlength
              | cons b' bs =>
                  simp only [List.map_cons, Json.listChars]
                  constructor
                  · intro h
                    rcases chars_append_split (.cons rfl _) (.cons rfl _) h with ⟨hfirst, hmore⟩
                    exact ⟨hfirst, (List.cons.inj hmore).2⟩
                  · rintro ⟨hfirst, hmore⟩
                    rw [hmore, show a.toJson.chars = b.toJson.chars from hfirst]

/-- Tuples have the same text exactly if their members have. -/
theorem tupleText_eq_iff {v w : List Value} (hlength : v.length = w.length) :
    tupleText v = tupleText w <-> List.Forall₂ SameText v w := by
  rw [<- listChars_eq_iff hlength, tupleText, tupleText, Json.text, Json.text, String.ofList_inj]
  simp only [Json.chars, List.cons_append, List.cons.injEq, true_and, List.append_cancel_right_eq]

/-- Tuples with members of the same kinds are told apart by their texts. -/
theorem tupleText_inj {v w : List Value} (h : List.Forall₂ Alike v w)
    (heq : tupleText v = tupleText w) : v = w := by
  have hsame := (tupleText_eq_iff h.length_eq).mp heq
  induction h with
  | nil =>
      rfl
  | cons halike _ ih =>
      cases hsame with
      | cons hfirst hrest =>
          rw [hfirst.eq halike, ih ((tupleText_eq_iff hrest.length_eq).mpr hrest) hrest]

end Value

end RecordSql
