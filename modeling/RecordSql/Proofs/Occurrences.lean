import RecordSql.Proofs.Cuts
import RecordSql.Proofs.LetterCase

/-!
# Positions of texts in texts

CHARINDEX looks for a text in another one, both of them in lower case, and counts the characters in
front of it in lower case too.  Its result is a position of the text as it was given exactly when
lower case leaves every character at its place: none becomes two, and no capital sigma is lowered in
another way because of the letters in front of it.
-/

namespace RecordSql
namespace Text

/-!
# Lower case of a part of a text
-/

/-- How many characters a text has in lower case. -/
def lowerWidth (cs : List Char) : Nat :=
  (cs.flatMap lowerChar).length

/-- The lower case of a character that stays one. -/
def lowerOne (c : Char) : Char :=
  if c.toNat < 128 then c.toLower else Char.ofNat (Run.apply lowerRuns c.toNat)

theorem lowerChar_dotted : lowerChar 'İ' = ['i', Char.ofNat 0x307] := by
  decide

theorem lowerChar_of_ne {c : Char} (h : c ≠ 'İ') : lowerChar c = [lowerOne c] := by
  have hcode : ¬ (c.toNat == 0x130) = true := by
    intro hcode
    apply h
    rw [<- Char.ofNat_toNat c, eq_of_beq hcode]
  rw [lowerChar, lowerOne, if_neg hcode]
  by_cases hascii : c.toNat < 128
  · rw [if_pos hascii, if_pos hascii]
  · rw [if_neg hascii, if_neg hascii]

theorem one_le_length_lowerChar (c : Char) : 1 ≤ (lowerChar c).length := by
  by_cases hdotted : c = 'İ'
  · rw [hdotted, lowerChar_dotted]
    exact Nat.le_add_left 1 1
  · rw [lowerChar_of_ne hdotted]
    exact Nat.le_refl 1

theorem lowerOne_sigma : lowerOne 'Σ' = 'σ' := by
  decide +kernel

theorem length_lowerBetween (before : List Char) (c : Char) (after : List Char) :
    (lowerBetween before c after).length = (lowerChar c).length := by
  rw [lowerBetween]
  split
  · rename_i hsigma
    have hone : lowerChar 'Σ' = [lowerOne 'Σ'] := lowerChar_of_ne (by decide)
    rw [eq_of_beq hsigma, hone]
    rfl
  · rfl

theorem lowerWidth_cons (c : Char) (cs : List Char) :
    lowerWidth (c :: cs) = (lowerChar c).length + lowerWidth cs := by
  rw [lowerWidth, List.flatMap_cons, List.length_append]
  rfl

theorem lowerWidth_append (front back : List Char) :
    lowerWidth (front ++ back) = lowerWidth front + lowerWidth back := by
  rw [lowerWidth, List.flatMap_append, List.length_append]
  rfl

theorem length_le_lowerWidth (cs : List Char) : cs.length ≤ lowerWidth cs := by
  induction cs with
  | nil =>
      exact Nat.le_refl 0
  | cons c cs ih =>
      have hone := one_le_length_lowerChar c
      rw [lowerWidth_cons, List.length_cons]
      omega

theorem lowerWidth_eq {cs : List Char} (h : 'İ' ∉ cs) : lowerWidth cs = cs.length := by
  induction cs with
  | nil =>
      rfl
  | cons c cs ih =>
      rw [List.mem_cons, not_or] at h
      rw [lowerWidth_cons, lowerChar_of_ne (Ne.symm h.1), ih h.2, List.length_cons]
      exact Nat.add_comm 1 _

theorem lowerWidth_drop_le (cs : List Char) (n : Nat) : lowerWidth (cs.drop n) ≤ lowerWidth cs := by
  have hwhole := lowerWidth_append (cs.take n) (cs.drop n)
  rw [List.take_append_drop] at hwhole
  omega

theorem length_lowerChars (before cs : List Char) : (lowerChars before cs).length = lowerWidth cs := by
  induction cs generalizing before with
  | nil =>
      rfl
  | cons c cs ih =>
      rw [lowerChars, List.length_append, length_lowerBetween, ih, lowerWidth_cons]

/-- Behind the lower case of its front, a text has the lower case of the rest in its place. -/
theorem drop_lowerChars (before front back : List Char) :
    (lowerChars before (front ++ back)).drop (lowerWidth front) =
      lowerChars (front.reverse ++ before) back := by
  induction front generalizing before with
  | nil =>
      rfl
  | cons c front ih =>
      have hlength : (lowerBetween before c (front ++ back)).length = (lowerChar c).length :=
        length_lowerBetween before c (front ++ back)
      rw [List.cons_append, lowerChars, lowerWidth_cons, <- hlength, List.drop_append,
        List.drop_of_length_le (Nat.le_add_right _ _), Nat.add_sub_cancel_left, List.nil_append, ih,
        List.reverse_cons, List.append_assoc]
      rfl

theorem meetsCased_append {cs : List Char} (h : meetsCased cs = true) (more : List Char) :
    meetsCased (cs ++ more) = true := by
  rw [meetsCased] at h ⊢
  rw [List.dropWhile_append]
  cases hrest : cs.dropWhile isCaseIgnorable with
  | nil =>
      rw [hrest] at h
      cases h
  | cons c rest =>
      rw [hrest] at h
      exact h

/-- No capital sigma of the text ends a word that has begun before it. -/
def NoFinalSigma (cs : List Char) : Prop :=
  forall front after, cs = front ++ 'Σ' :: after ->
    meetsCased front.reverse = true -> meetsCased after = true

/-- Every character of the text has its lower case at its own place, and one that depends on no
other character. -/
structure LowersInPlace (cs : List Char) : Prop where
  undotted : 'İ' ∉ cs
  unfinished : NoFinalSigma cs

theorem NoFinalSigma.drop {cs : List Char} (h : NoFinalSigma cs) (n : Nat) :
    NoFinalSigma (cs.drop n) := by
  intro front after hcut hcased
  have hwhole : cs = (cs.take n ++ front) ++ 'Σ' :: after := by
    rw [List.append_assoc, <- hcut, List.take_append_drop]
  refine h _ after hwhole ?_
  rw [List.reverse_append]
  exact meetsCased_append hcased _

theorem LowersInPlace.drop {cs : List Char} (h : LowersInPlace cs) (n : Nat) :
    LowersInPlace (cs.drop n) :=
  ⟨fun hmem => h.undotted (List.mem_of_mem_drop hmem), h.unfinished.drop n⟩

/-- In place, lower case is a map of characters. -/
theorem lowerChars_eq_map {before cs : List Char} (hundotted : 'İ' ∉ cs)
    (hunfinished : forall front after, cs = front ++ 'Σ' :: after ->
      meetsCased (front.reverse ++ before) = true -> meetsCased after = true) :
    lowerChars before cs = cs.map lowerOne := by
  induction cs generalizing before with
  | nil =>
      rfl
  | cons c cs ih =>
      rw [List.mem_cons, not_or] at hundotted
      have hrest : lowerChars (c :: before) cs = cs.map lowerOne := by
        refine ih hundotted.2 ?_
        intro front after hcut hcased
        refine hunfinished (c :: front) after (congrArg (List.cons c) hcut) ?_
        rw [List.reverse_cons, List.append_assoc]
        exact hcased
      have hfirst : lowerBetween before c cs = [lowerOne c] := by
        rw [lowerBetween]
        split
        · rename_i hsigma
          have hc : c = 'Σ' := eq_of_beq hsigma
          have hopen : (meetsCased before && !meetsCased cs) = false := by
            cases hcased : meetsCased before with
            | false =>
                rfl
            | true =>
                have hafter := hunfinished [] cs (by rw [hc]; rfl) hcased
                rw [hafter]
                rfl
          rw [hopen, hc, lowerOne_sigma]
          rfl
        · exact lowerChar_of_ne (Ne.symm hundotted.1)
      rw [lowerChars, hfirst, hrest]
      rfl

theorem LowersInPlace.lowerChars_eq {cs : List Char} (h : LowersInPlace cs) :
    lowerChars [] cs = cs.map lowerOne := by
  refine lowerChars_eq_map h.undotted ?_
  intro front after hcut hcased
  rw [List.append_nil] at hcased
  exact h.unfinished front after hcut hcased

/-- In place, the lower case of the rest of a text is the rest of its lower case. -/
theorem LowersInPlace.lowerChars_drop {cs : List Char} (h : LowersInPlace cs) (n : Nat) :
    lowerChars [] (cs.drop n) = (lowerChars [] cs).drop n := by
  rw [(h.drop n).lowerChars_eq, h.lowerChars_eq, List.map_drop]

/-!
# Searching
-/

theorem startsWith_iff {start text : List Char} :
    startsWith (· == ·) start text = true <-> start <+: text := by
  induction start generalizing text with
  | nil =>
      exact iff_of_true rfl (List.nil_prefix)
  | cons c start ih =>
      cases text with
      | nil =>
          rw [startsWith, List.prefix_nil]
          exact iff_of_false Bool.false_ne_true (List.cons_ne_nil c start)
      | cons d text =>
          rw [startsWith, Bool.and_eq_true, beq_iff_eq, ih, List.cons_prefix_cons]

theorem firstWhere_eq_some {p : List Char -> Bool} {text : List Char} {n : Nat}
    (h : firstWhere p text = some n) :
    p (text.drop n) = true ∧ forall m, m < n -> p (text.drop m) = false := by
  induction text generalizing n with
  | nil =>
      rw [firstWhere] at h
      split at h
      · rename_i hp
        cases h
        exact ⟨hp, fun m hm => absurd hm (Nat.not_lt_zero m)⟩
      · cases h
  | cons c text ih =>
      rw [firstWhere] at h
      split at h
      · rename_i hp
        cases h
        exact ⟨hp, fun m hm => absurd hm (Nat.not_lt_zero m)⟩
      · rename_i hp
        rcases Option.map_eq_some_iff.mp h with ⟨k, hk, rfl⟩
        rcases ih hk with ⟨hfound, hearlier⟩
        refine ⟨hfound, ?_⟩
        intro m hm
        cases m with
        | zero =>
            exact Bool.eq_false_iff.mpr hp
        | succ m =>
            exact hearlier m (Nat.lt_of_succ_lt_succ hm)

theorem firstWhere_eq_none {p : List Char -> Bool} {text : List Char}
    (h : firstWhere p text = none) (n : Nat) : p (text.drop n) = false := by
  induction text generalizing n with
  | nil =>
      rw [firstWhere] at h
      rw [List.drop_nil]
      split at h
      · cases h
      · rename_i hp
        exact Bool.eq_false_iff.mpr hp
  | cons c text ih =>
      rw [firstWhere] at h
      split at h
      · cases h
      · rename_i hp
        cases n with
        | zero =>
            exact Bool.eq_false_iff.mpr hp
        | succ n =>
            exact ih (Option.map_eq_none_iff.mp h) n

end Text

namespace Function

open Text (LowersInPlace lowerChars lowerWidth)

/-!
# First positions
-/

/-- The number is the first position from `start` on where something is found, or zero if there is
none.  Positions are counted from one. -/
def FirstPosition (found : Int -> Prop) (start p : Int) : Prop :=
  (p = 0 ∧ forall q, 1 ≤ q -> start ≤ q -> ¬ found q) ∨
    (0 < p ∧ start ≤ p ∧ found p ∧ forall q, 1 ≤ q -> start ≤ q -> found q -> p ≤ q)

variable {found found' : Int -> Prop} {start p : Int}

theorem FirstPosition.congr (h : forall q, 1 ≤ q -> (found q <-> found' q))
    (hp : FirstPosition found start p) : FirstPosition found' start p := by
  rcases hp with ⟨hzero, hnone⟩ | ⟨hpos, hstart, hfound, hleast⟩
  · exact Or.inl ⟨hzero, fun q hq hfrom hother => hnone q hq hfrom ((h q hq).mpr hother)⟩
  · exact Or.inr ⟨hpos, hstart, (h p hpos).mp hfound,
      fun q hq hfrom hother => hleast q hq hfrom ((h q hq).mpr hother)⟩

/-- What is found at once is found at the start. -/
theorem FirstPosition.eq_start (h : FirstPosition found start p) (hstart : 1 ≤ start)
    (hfound : found start) : p = start ∧ found p := by
  rcases h with ⟨_, hnone⟩ | ⟨_, hfrom, hp, hleast⟩
  · exact absurd hfound (hnone start hstart (Int.le_refl start))
  · exact ⟨Int.le_antisymm (hleast start hstart (Int.le_refl start) hfound) hfrom, hp⟩

/-!
# Texts in lower case
-/

/-- From position `p` of the lower case of `s` on, there follows the lower case of `target`. -/
def OccursInLower (target s : String) (p : Int) : Prop :=
  (Text.lower target).toList <+: (Text.lower s).toList.drop (p - 1).toNat

/-- Position `p` is one of `s`, and the rest of `s` from there on begins, in lower case, with the
lower case of `target`. -/
def OccursAt (target s : String) (p : Int) : Prop :=
  p ≤ s.toList.length ∧
    (Text.lower target).toList <+:
      (Text.lower (String.ofList (s.toList.drop (p - 1).toNat))).toList

theorem toList_lower_eq (s : String) : (Text.lower s).toList = lowerChars [] s.toList := by
  rw [Text.lower, String.toList_ofList]

theorem toList_lower_ofList (cs : List Char) :
    (Text.lower (String.ofList cs)).toList = lowerChars [] cs := by
  rw [toList_lower_eq, String.toList_ofList]

theorem lower_ne_nil {target : String} (h : target ≠ "") : (Text.lower target).toList ≠ [] := by
  intro hnil
  have hwidth := Text.length_lowerChars [] target.toList
  have hlength := Text.length_le_lowerWidth target.toList
  rw [<- toList_lower_eq, hnil, List.length_nil] at hwidth
  apply h
  rw [<- String.toList_eq_nil_iff]
  exact List.eq_nil_of_length_eq_zero (by omega)

/-- The result is the first position in the lower case of the text that is searched. -/
theorem charIndex_firstPosition {target : String} (h : target ≠ "") (s : String) (start : Int) :
    FirstPosition (OccursInLower target s) start (charIndex target s start) := by
  have hneedle : (Text.lower target).toList.isEmpty = false :=
    List.isEmpty_eq_false_iff.mpr (lower_ne_nil h)
  simp only [charIndex, hneedle, Bool.false_eq_true, if_false]
  generalize htext : (Text.lower s).toList = text
  have hplace : forall q : Int, 1 ≤ q -> start ≤ q ->
      (q - 1).toNat = (max 1 start - 1).toNat + (q - max 1 start).toNat := by
    omega
  cases hfirst : Text.firstWhere (Text.startsWith (· == ·) (Text.lower target).toList)
      (text.drop (max 1 start - 1).toNat) with
  | none =>
      refine Or.inl ⟨rfl, ?_⟩
      intro q hq hfrom hfound
      have hnot := Text.firstWhere_eq_none hfirst (q - max 1 start).toNat
      rw [List.drop_drop, <- hplace q hq hfrom] at hnot
      rw [OccursInLower, htext, <- Text.startsWith_iff, hnot] at hfound
      cases hfound
  | some n =>
      rcases Text.firstWhere_eq_some hfirst with ⟨hn, hearlier⟩
      refine Or.inr ⟨by simp only; omega, by simp only; omega, ?_, ?_⟩
      · have hnumber : (((max 1 start - 1).toNat : Int) + n + 1 - 1).toNat =
            (max 1 start - 1).toNat + n := by
          omega
        rw [List.drop_drop] at hn
        rw [OccursInLower, htext, hnumber, <- Text.startsWith_iff]
        exact hn
      · intro q hq hfrom hfound
        by_cases hless : (q - max 1 start).toNat < n
        · have hnot := hearlier _ hless
          rw [List.drop_drop, <- hplace q hq hfrom] at hnot
          rw [OccursInLower, htext, <- Text.startsWith_iff, hnot] at hfound
          cases hfound
        · simp only
          omega

/-!
# Positions in the text as it was given
-/

theorem occursInLower_iff {target s : String} (h : target ≠ "") (hs : LowersInPlace s.toList)
    {p : Int} (hp : 1 ≤ p) : OccursInLower target s p <-> OccursAt target s p := by
  rw [OccursInLower, OccursAt, toList_lower_ofList, hs.lowerChars_drop, toList_lower_eq s]
  constructor
  · intro hprefix
    refine ⟨?_, hprefix⟩
    have hlength := hprefix.length_le
    have hpos := List.length_pos_iff.mpr (lower_ne_nil h)
    rw [List.length_drop, Text.length_lowerChars, Text.lowerWidth_eq hs.undotted] at hlength
    omega
  · exact And.right

/-- A letter that becomes two makes the rest of the lower case too long for its position. -/
theorem undotted_of_positions {s : String}
    (h : forall target, target ≠ "" -> forall start : Int,
      FirstPosition (OccursAt target s) start (charIndex target s start)) :
    'İ' ∉ s.toList := by
  intro hmem
  rcases List.append_of_mem hmem with ⟨front, after, hcut⟩
  have hback := Text.drop_lowerChars [] front ('İ' :: after)
  rw [<- hcut, List.append_nil, Text.lowerChars] at hback
  have hdotted : Text.lowerBetween front.reverse 'İ' after = ['i', Char.ofNat 0x307] := by
    rw [Text.lowerBetween, if_neg (by decide), Text.lowerChar_dotted]
  generalize hrest : lowerChars ('İ' :: front.reverse) after = rest at hback
  rw [hdotted] at hback
  have htail : (Text.lower s).toList.drop (lowerWidth front + 1) = Char.ofNat 0x307 :: rest := by
    rw [toList_lower_eq, <- List.drop_drop, hback]
    rfl
  -- the text to look for is this tail, which is in lower case already
  have hlower : (Text.lower (String.ofList (Char.ofNat 0x307 :: rest))).toList =
      Char.ofNat 0x307 :: rest := by
    rw [toList_lower_ofList]
    refine Text.lowerChars_of_isLower ?_ []
    intro c hc
    rw [<- htail, toList_lower_eq] at hc
    exact Text.isLower_of_mem_lowerChars (List.mem_of_mem_drop hc)
  have hne : String.ofList (Char.ofNat 0x307 :: rest) ≠ "" := by
    intro hempty
    rw [<- String.toList_eq_nil_iff, String.toList_ofList] at hempty
    cases hempty
  have hplace : ((lowerWidth front : Int) + 2 - 1).toNat = lowerWidth front + 1 := by
    omega
  have hfound : OccursInLower (String.ofList (Char.ofNat 0x307 :: rest)) s
      ((lowerWidth front : Int) + 2) := by
    refine ⟨[], ?_⟩
    rw [List.append_nil, hlower, hplace, htail]
  have hindex := (charIndex_firstPosition hne s ((lowerWidth front : Int) + 2)).eq_start
    (by omega) hfound
  rcases h _ hne ((lowerWidth front : Int) + 2) with ⟨hzero, _⟩ | ⟨_, _, hoccurs, _⟩
  · omega
  · rw [hindex.1, OccursAt, hlower, toList_lower_ofList, hplace] at hoccurs
    have hlength := hoccurs.2.length_le
    have hbehind : s.toList.drop (lowerWidth front + 1) =
        after.drop (lowerWidth front - front.length) := by
      have hle := Text.length_le_lowerWidth front
      have hsplit : lowerWidth front + 1 =
          front.length + (lowerWidth front - front.length + 1) := by
        omega
      rw [hcut, hsplit, List.drop_append, List.drop_of_length_le (Nat.le_add_right _ _),
        Nat.add_sub_cancel_left]
      rfl
    have hshort := Text.lowerWidth_drop_le after (lowerWidth front - front.length)
    rw [List.length_cons, <- hrest, Text.length_lowerChars, Text.length_lowerChars, hbehind]
      at hlength
    omega

/-- A sigma at the end of a word is not found by itself. -/
theorem noFinalSigma_of_positions {s : String} (hundotted : 'İ' ∉ s.toList)
    (h : forall target, target ≠ "" -> forall start : Int,
      FirstPosition (OccursAt target s) start (charIndex target s start)) :
    Text.NoFinalSigma s.toList := by
  intro front after hcut hcased
  apply Bool.of_not_eq_false
  intro hafter
  have hne : String.ofList ('Σ' :: after) ≠ "" := by
    intro hempty
    rw [<- String.toList_eq_nil_iff, String.toList_ofList] at hempty
    cases hempty
  have hplace : ((front.length : Int) + 1 - 1).toNat = front.length := by
    omega
  have hdrop : s.toList.drop front.length = 'Σ' :: after := by
    rw [hcut, List.drop_left]
  have hoccurs : OccursAt (String.ofList ('Σ' :: after)) s ((front.length : Int) + 1) := by
    rw [OccursAt, hplace, hdrop]
    refine ⟨?_, List.prefix_refl _⟩
    rw [hcut, List.length_append, List.length_cons]
    omega
  have hindex := (h _ hne ((front.length : Int) + 1)).eq_start (by omega) hoccurs
  rcases charIndex_firstPosition hne s ((front.length : Int) + 1) with
    ⟨hzero, _⟩ | ⟨_, _, hfound, _⟩
  · omega
  · have hwidth : lowerWidth front = front.length := by
      refine Text.lowerWidth_eq ?_
      intro hmem
      apply hundotted
      rw [hcut]
      exact List.mem_append_left _ hmem
    have hback := Text.drop_lowerChars [] front ('Σ' :: after)
    rw [<- hcut, hwidth, List.append_nil, Text.lowerChars, Text.lowerBetween,
      if_pos (by decide), hcased, hafter] at hback
    rw [hindex.1, OccursInLower, hplace, toList_lower_ofList, toList_lower_eq, hback,
      Text.lowerChars, Text.lowerBetween, if_pos (by decide)] at hfound
    have hsame : 'σ' = 'ς' := (List.cons_prefix_cons.mp hfound).1
    exact absurd hsame (by decide)

theorem call_charIndex (clock : Clock) {name : String} (hname : Text.lowerAscii name = "charindex")
    {v w : Value} {target s : String} (hv : v.text? = some target) (hw : w.text? = some s)
    (start : Int) :
    call clock name [v, w, .int start] = .ok (.int (charIndex target s start)) := by
  rw [call.eq_def, hname]
  change Except.ok (charIndexOf v w start) = _
  rw [charIndexOf, hv, hw]

/--
CHARINDEX gives the first position in the lower case of the text that is searched.  These positions
are those of the text itself, for everything that is looked for and from every start on, exactly
when lower case leaves each of its characters in place.
-/
theorem positions_in_place_iff (clock : Clock) {name : String}
    (hname : Text.lowerAscii name = "charindex") (s : String) :
    (forall target, target ≠ "" -> forall start : Int, exists p,
      call clock name [.str target, .str s, .int start] = .ok (.int p) ∧
        FirstPosition (OccursInLower target s) start p) ∧
    ((forall target, target ≠ "" -> forall start : Int, exists p,
      call clock name [.str target, .str s, .int start] = .ok (.int p) ∧
        FirstPosition (OccursAt target s) start p) <->
      LowersInPlace s.toList) := by
  have hcall : forall (target : String) (start : Int),
      call clock name [.str target, .str s, .int start] =
        .ok (.int (charIndex target s start)) :=
    fun target start => call_charIndex clock hname rfl rfl start
  refine ⟨?_, ?_, ?_⟩
  · intro target htarget start
    exact ⟨_, hcall target start, charIndex_firstPosition htarget s start⟩
  · intro h
    have hpositions : forall target, target ≠ "" -> forall start : Int,
        FirstPosition (OccursAt target s) start (charIndex target s start) := by
      intro target htarget start
      rcases h target htarget start with ⟨p, hp, hfirst⟩
      rw [hcall] at hp
      cases hp
      exact hfirst
    have hundotted := undotted_of_positions hpositions
    exact ⟨hundotted, noFinalSigma_of_positions hundotted hpositions⟩
  · intro hs target htarget start
    exact ⟨_, hcall target start, (charIndex_firstPosition htarget s start).congr
      fun q hq => occursInLower_iff htarget hs hq⟩

/-- Behind a dotted capital i every position is one too large. -/
theorem positions_behind_dotted :
    Text.lowerAscii "CharIndex" = "charindex" ∧
    call wordClock "CharIndex" [.str "x", .str "İx", .int 1] = .ok (.int 3) ∧
    OccursAt "x" "İx" 2 ∧ ¬ LowersInPlace "İx".toList ∧ LowersInPlace "Größe".toList ∧
    exists p, call wordClock "CharIndex" [.str "Ö", .str "Größe", .int 1] = .ok (.int p) ∧
      FirstPosition (OccursAt "Ö" "Größe") 1 p := by
  have hname : Text.lowerAscii "CharIndex" = "charindex" := by
    decide
  have hindex : charIndex "x" "İx" 1 = 3 := by
    decide +kernel
  have hplace : LowersInPlace "Größe".toList := by
    refine ⟨by decide, ?_⟩
    intro front after hcut _
    have hmem : 'Σ' ∈ "Größe".toList := by
      rw [hcut]
      exact List.mem_append_right front List.mem_cons_self
    exact absurd hmem (by decide)
  have hpositions := positions_in_place_iff wordClock hname "Größe"
  refine ⟨hname, ?_, ?_, ?_, hplace, hpositions.2.mpr hplace "Ö" (by decide) 1⟩
  · have hcall := call_charIndex wordClock hname (v := .str "x") (w := .str "İx") rfl rfl 1
    exact hcall.trans (congrArg (fun p => Except.ok (Value.int p)) hindex)
  · exact ⟨by decide, by decide +kernel⟩
  · intro hdotted
    exact hdotted.undotted (by decide)

end Function
end RecordSql
