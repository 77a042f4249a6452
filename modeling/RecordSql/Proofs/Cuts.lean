import RecordSql.Eval.Function

/-!
# Parts of texts

The characters of a text are counted from one.  SUBSTRING keeps those whose positions lie between
two bounds that may be any whole numbers, LEFT keeps the first ones, and RIGHT keeps what LEFT
leaves.  No step of the three leaves the range of the words and counts that it is computed in.
-/

namespace RecordSql
namespace Function

/-!
# Positions
-/

/-- The characters at the positions from `start` on and before `stop`. -/
def between (s : String) (start stop : Int) : String :=
  String.ofList (((s.toList.zipIdx 1).filter fun p => start ≤ p.2 ∧ p.2 < stop).map Prod.fst)

/-- Characters between two positions are what remains after the ones before and without the ones
after them. -/
theorem map_filter_zipIdx (cs : List Char) (k : Nat) (start stop : Int) :
    ((cs.zipIdx k).filter fun p => start ≤ p.2 ∧ p.2 < stop).map Prod.fst =
      (cs.drop (start - k).toNat).take (stop - max start k).toNat := by
  induction cs generalizing k with
  | nil =>
      simp
  | cons c cs ih =>
      rw [List.zipIdx_cons, List.filter_cons]
      by_cases hbefore : (k : Int) < start
      · have hskip : (start - k).toNat = (start - (k + 1 : Nat)).toNat + 1 := by
          omega
        have hmax : max start (k : Int) = max start (k + 1 : Nat) := by
          omega
        rw [if_neg (by simp; omega), ih, hskip, List.drop_succ_cons, hmax]
      · have hskip : (start - k).toNat = 0 ∧ (start - (k + 1 : Nat)).toNat = 0 := by
          omega
        by_cases hinside : (k : Int) < stop
        · have htake : (stop - max start k).toNat = (stop - max start (k + 1 : Nat)).toNat + 1 := by
            omega
          rw [if_pos (by simp; omega), List.map_cons, ih, hskip.1, hskip.2, htake]
          rfl
        · have htake : (stop - max start k).toNat = 0 ∧
              (stop - max start (k + 1 : Nat)).toNat = 0 := by
            omega
          rw [if_neg (by simp; omega), ih, htake.1, htake.2, List.take_zero, List.take_zero]

theorem between_eq_cut (s : String) (start stop : Int) :
    between s start stop = cut s (start - 1).toNat (stop - max start 1).toNat := by
  rw [between, map_filter_zipIdx]
  rfl

/-- A sum that is too large for a word reaches past the end of the text all the same. -/
theorem substring_eq_between {s : String} (hs : s.toList.length < 4611686018427387904)
    (start : Int) {length : Int} (hlength : 0 ≤ length) :
    substring s start length = between s start (start + length) := by
  have hskip : (max 1 start - 1).toNat = (start - 1).toNat := by
    omega
  rw [between_eq_cut]
  simp only [substring, hskip, cut]
  by_cases hlarge : start + length ≤ Number.maxWord
  · have htake : (max 1 (Number.saturate (start + length)) - max 1 start).toNat =
        (start + length - max start 1).toNat := by
      simp only [Number.saturate, Number.minWord, Number.maxWord] at *
      omega
    rw [htake]
  · have hrest : (s.toList.drop (start - 1).toNat).length =
        s.toList.length - (start - 1).toNat := List.length_drop
    rw [List.take_of_length_le, List.take_of_length_le]
    · simp only [Number.maxWord] at hlarge
      omega
    · simp only [Number.saturate, Number.minWord, Number.maxWord] at *
      omega

theorem left_eq_substring {s : String} (hs : s.toList.length < 4611686018427387904) (n : Int) :
    left s n = substring s 1 (max n 0) := by
  have htake : (1 + max n 0 - max 1 1).toNat = n.toNat := by
    omega
  rw [substring_eq_between hs 1 (Int.le_max_right n 0), between_eq_cut, htake]
  rfl

/-- What LEFT leaves of a text is what RIGHT keeps. -/
theorem left_append_right (s : String) {n : Int} (hlow : 0 ≤ n) (hhigh : n ≤ s.toList.length) :
    left s n ++ right s (s.toList.length - n) = s := by
  have hrest : min (s.toList.length - n).toNat s.toList.length = s.toList.length - n.toNat := by
    omega
  have hskip : s.toList.length - (s.toList.length - n.toNat) = n.toNat := by
    omega
  have hlength : (s.toList.drop n.toNat).length ≤ s.toList.length - n.toNat :=
    Nat.le_of_eq List.length_drop
  simp only [left, right, cut, hrest, hskip]
  rw [List.drop_zero, List.take_of_length_le hlength, <- String.ofList_append,
    List.take_append_drop, String.ofList_toList]

/-!
# Ranges of the steps
-/

/--
Like `substring`, with positions in words: the sum and the difference of positions saturate, and
there is no result when the step before the first position leaves the range of words.
-/
def substringInWords (s : String) (start length : Int) : Option String := do
  let stop := max 1 (Number.saturate (start + length))
  let first := max 1 start
  let skip <- Number.checked (first - 1)
  return cut s skip.toNat (Number.saturate (stop - first)).toNat

/-- Like `right`, with no result when the count of skipped characters would be negative. -/
def rightInCounts (s : String) (n : Int) : Option String := do
  let length := s.toList.length
  let n := min n.toNat length
  let skip <- if n ≤ length then some (length - n) else none
  return cut s skip n

theorem substringInWords_eq (s : String) {start : Int} (hstart : Number.fits start = true)
    (length : Int) : substringInWords s start length = some (substring s start length) := by
  have hends := Number.fits_iff.mp hstart
  have hstop := Number.fits_iff.mp (Number.fits_saturate (start + length))
  simp only [Number.minWord, Number.maxWord] at hends hstop
  have hskip : Number.fits (max 1 start - 1) = true := by
    simp only [Number.fits_iff, Number.minWord, Number.maxWord]
    omega
  have htake : Number.fits (max 1 (Number.saturate (start + length)) - max 1 start) = true := by
    simp only [Number.fits_iff, Number.minWord, Number.maxWord]
    omega
  simp only [substringInWords, Number.checked_eq_some_iff.mpr ⟨hskip, rfl⟩,
    Number.saturate_of_fits htake]
  rfl

theorem rightInCounts_eq (s : String) (n : Int) : rightInCounts s n = some (right s n) := by
  simp only [rightInCounts, if_pos (Nat.min_le_right n.toNat s.toList.length)]
  rfl

/-!
# Calling
-/

theorem call_substring (clock : Clock) {name : String} (hname : Text.lowerAscii name = "substring")
    {v : Value} {s : String} (hv : v.text? = some s) (start length : Int) :
    call clock name [v, .int start, .int length] =
      if length < 0 then .error (.invalidValue "SUBSTRING" (Number.intText length))
      else .ok (.str (substring s start length)) := by
  rw [call.eq_def, hname]
  change intArgument "substring" (.int start) >>= _ = _
  rw [hv]
  rfl

theorem call_left (clock : Clock) {name : String} (hname : Text.lowerAscii name = "left")
    {v : Value} {s : String} (hv : v.text? = some s) (n : Int) :
    call clock name [v, .int n] = .ok (.str (left s n)) := by
  rw [call.eq_def, hname]
  change intArgument "left" (.int n) >>= _ = _
  rw [hv]
  rfl

theorem call_right (clock : Clock) {name : String} (hname : Text.lowerAscii name = "right")
    {v : Value} {s : String} (hv : v.text? = some s) (n : Int) :
    call clock name [v, .int n] = .ok (.str (right s n)) := by
  rw [call.eq_def, hname]
  change intArgument "right" (.int n) >>= _ = _
  rw [hv]
  rfl

/--
SUBSTRING keeps the characters between two positions, LEFT is SUBSTRING from the first position on,
and LEFT and RIGHT divide a text.  For all words as arguments each step of the three stays in its
range; only a negative length is refused.
-/
theorem texts_cut_by_position (clock : Clock) {substringName leftName rightName : String}
    (hsubstring : Text.lowerAscii substringName = "substring")
    (hleft : Text.lowerAscii leftName = "left") (hright : Text.lowerAscii rightName = "right")
    {v : Value} {s : String} (hv : v.text? = some s)
    (hs : s.toList.length < 4611686018427387904) :
    (forall start length : Int, 0 ≤ length ->
      call clock substringName [v, .int start, .int length] =
        .ok (.str (between s start (start + length)))) ∧
    (forall n : Int, call clock leftName [v, .int n] =
      call clock substringName [v, .int 1, .int (max n 0)]) ∧
    (forall n : Int, 0 ≤ n -> n ≤ s.toList.length -> exists front back,
      call clock leftName [v, .int n] = .ok (.str front) ∧
      call clock rightName [v, .int (s.toList.length - n)] = .ok (.str back) ∧
      front ++ back = s) ∧
    (forall start length : Int, Number.fits start = true -> exists part,
      substringInWords s start length = some part ∧
      call clock substringName [v, .int start, .int length] =
        if length < 0 then .error (.invalidValue "SUBSTRING" (Number.intText length))
        else .ok (.str part)) ∧
    (forall n : Int, exists back,
      rightInCounts s n = some back ∧ call clock rightName [v, .int n] = .ok (.str back)) := by
  refine ⟨?_, ?_, ?_, ?_, ?_⟩
  · intro start length hlength
    rw [call_substring clock hsubstring hv, if_neg (Int.not_lt.mpr hlength),
      substring_eq_between hs start hlength]
  · intro n
    rw [call_left clock hleft hv, call_substring clock hsubstring hv,
      if_neg (Int.not_lt.mpr (Int.le_max_right n 0)), left_eq_substring hs]
  · intro n hlow hhigh
    exact ⟨_, _, call_left clock hleft hv n, call_right clock hright hv _,
      left_append_right s hlow hhigh⟩
  · intro start length hstart
    exact ⟨_, substringInWords_eq s hstart length, call_substring clock hsubstring hv start length⟩
  · intro n
    exact ⟨_, rightInCounts_eq s n, call_right clock hright hv n⟩

theorem isDay_wordDay : Calendar.IsDay 1999 12 31 := by
  decide

def wordClock : Clock :=
  ⟨.midnight ⟨1999, 12, 31, isDay_wordDay⟩, .midnight ⟨1999, 12, 31, isDay_wordDay⟩⟩

/-- A position before the first one uses up length, and a sum that is no word reaches the end. -/
theorem texts_cut_pastEnds :
    Text.lowerAscii "Substring" = "substring" ∧ Text.lowerAscii "LEFT" = "left" ∧
    Text.lowerAscii "right" = "right" ∧ (Value.str "Größe").text? = some "Größe" ∧
    "Größe".toList.length < 4611686018427387904 ∧
    call wordClock "Substring" [.str "Größe", .int (-1), .int 4] = .ok (.str "Gr") ∧
    call wordClock "Substring" [.str "Größe", .int 3, .int 9223372036854775807] =
      .ok (.str "öße") ∧
    call wordClock "LEFT" [.str "Größe", .int 2] =
      call wordClock "Substring" [.str "Größe", .int 1, .int 2] := by
  have hsubstring : Text.lowerAscii "Substring" = "substring" := by
    decide
  have hleft : Text.lowerAscii "LEFT" = "left" := by
    decide
  have hright : Text.lowerAscii "right" = "right" := by
    decide
  have hlength : "Größe".toList.length < 4611686018427387904 := by
    decide
  have htheorem := texts_cut_by_position wordClock hsubstring hleft hright
    (v := .str "Größe") (s := "Größe") rfl hlength
  refine ⟨hsubstring, hleft, hright, rfl, hlength, ?_, ?_, htheorem.2.1 2⟩
  · have hpart : between "Größe" (-1) (-1 + 4) = "Gr" := by
      decide
    rw [htheorem.1 (-1) 4 (by decide), hpart]
  · have hpart : between "Größe" 3 (3 + 9223372036854775807) = "öße" := by
      decide
    rw [htheorem.1 3 9223372036854775807 (by decide), hpart]

end Function
end RecordSql
