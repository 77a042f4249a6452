import RecordSql.Calendar.Date

/-!
# Dates and day numbers

A date and its number of days since the first of January of the year one determine each other: the
numbers grow in the order of years, months and days, and the date that is computed from a number has
this number.
-/

namespace RecordSql
namespace Calendar
namespace Date

/-!
# Years

The days before a year follow the average length of a year so closely that the first guess is never
too late and at most one year too early.
-/

theorem daysBeforeYear_bounds (year : Int) :
    146097 * (year - 1) - 699 ≤ 400 * daysBeforeYear year ∧
      400 * daysBeforeYear year ≤ 146097 * (year - 1) + 396 := by
  unfold daysBeforeYear
  omega

theorem yearOfDays_spec (n : Int) :
    daysBeforeYear (yearOfDays n) ≤ n ∧ n < daysBeforeYear (yearOfDays n + 1) := by
  have hguess := daysBeforeYear_bounds (n * 400 / 146097 + 1)
  have hnext := daysBeforeYear_bounds (n * 400 / 146097 + 1 + 1)
  have hlater := daysBeforeYear_bounds (n * 400 / 146097 + 1 + 1 + 1)
  simp only [yearOfDays]
  split
  · omega
  · split <;> omega

theorem daysBeforeMonth_thirteen (year : Int) :
    daysBeforeMonth year 13 = if isLeap year then 366 else 365 := by
  unfold daysBeforeMonth monthLengths
  cases isLeap year <;> rfl

theorem daysBeforeYear_succ (year : Int) :
    daysBeforeYear (year + 1) = daysBeforeYear year + daysBeforeMonth year 13 := by
  rw [daysBeforeMonth_thirteen]
  unfold daysBeforeYear
  split
  · rename_i hleap
    simp [isLeap] at hleap
    omega
  · rename_i hcommon
    simp [isLeap] at hcommon
    omega

theorem daysBeforeYear_mono {a b : Int} (h : a ≤ b) : daysBeforeYear a ≤ daysBeforeYear b := by
  rcases Int.lt_or_eq_of_le h with hlt | rfl
  · have ha := daysBeforeYear_bounds a
    have hb := daysBeforeYear_bounds b
    omega
  · exact Int.le_refl _

/-!
# Months
-/

theorem length_monthLengths (year : Int) : (monthLengths year).length = 12 := rfl

/-- The lengths up to a place of a list are those before it and the one at it. -/
theorem sum_take_succ (lengths : List Nat) {k : Nat} (h : k < lengths.length) :
    (lengths.take (k + 1)).foldr Nat.add 0 =
      (lengths.take k).foldr Nat.add 0 + lengths.getD k 0 := by
  induction lengths generalizing k with
  | nil =>
      cases h
  | cons length rest ih =>
      cases k with
      | zero =>
          simp
      | succ k =>
          have hrest := ih (Nat.lt_of_succ_lt_succ h)
          simp only [List.take_succ_cons, List.foldr_cons, Nat.add_eq, List.getD_cons_succ] at *
          omega

theorem daysBeforeMonth_succ (year : Int) {month : Nat} (hlow : 1 ≤ month) (hhigh : month ≤ 12) :
    daysBeforeMonth year (month + 1) = daysBeforeMonth year month + daysInMonth year month := by
  have hsum := sum_take_succ (monthLengths year) (k := month - 1)
    (by rw [length_monthLengths]; omega)
  rw [Nat.sub_add_cancel hlow] at hsum
  exact hsum

theorem one_le_daysInMonth (year : Int) {month : Nat} (hlow : 1 ≤ month) (hhigh : month ≤ 12) :
    1 ≤ daysInMonth year month := by
  have hlengths : forall length, length ∈ monthLengths year -> 1 ≤ length := by
    unfold monthLengths
    cases isLeap year <;> decide
  have hplace : month - 1 < (monthLengths year).length := by
    rw [length_monthLengths]
    omega
  rw [daysInMonth, List.getD_eq_getElem?_getD, List.getElem?_eq_getElem hplace, Option.getD_some]
  exact hlengths _ (List.getElem_mem hplace)

theorem daysBeforeMonth_mono (year : Int) {a b : Nat} (ha : 1 ≤ a) (hab : a ≤ b) (hb : b ≤ 13) :
    daysBeforeMonth year a ≤ daysBeforeMonth year b := by
  induction hab with
  | refl =>
      exact Nat.le_refl _
  | @step b hab ih =>
      have hstep := daysBeforeMonth_succ year (Nat.le_trans ha hab) (Nat.le_of_succ_le_succ hb)
      exact Nat.le_trans (ih (by omega)) (by rw [hstep]; exact Nat.le_add_right _ _)

/-!
# The order of dates
-/

theorem monthIndex_eq_iff {a b : Date} :
    a.monthIndex = b.monthIndex <-> a.year = b.year ∧ a.month = b.month := by
  have ha := a.isDay
  have hb := b.isDay
  unfold IsDay at ha hb
  unfold monthIndex
  omega

theorem toDays_bounds (d : Date) :
    daysBeforeYear d.year ≤ d.toDays ∧ d.toDays < daysBeforeYear (d.year + 1) := by
  rcases d.isDay with ⟨-, -, hlow, hhigh, hday, hlast⟩
  have hmonth := daysBeforeMonth_succ d.year hlow hhigh
  have hbefore := daysBeforeMonth_mono d.year (a := d.month + 1) (b := 13)
    (by omega) (by omega) (by omega)
  rw [daysBeforeYear_succ]
  unfold toDays ordinal
  omega

/-- A month is over before a later one begins. -/
theorem toDays_lt_of_monthIndex_lt {a b : Date} (h : a.monthIndex < b.monthIndex) :
    a.toDays < b.toDays := by
  rcases a.isDay with ⟨-, -, hlow, hhigh, hday, hlast⟩
  rcases b.isDay with ⟨-, -, hlow', hhigh', hday', -⟩
  have hmonth := daysBeforeMonth_succ a.year hlow hhigh
  unfold monthIndex at h
  unfold toDays ordinal
  by_cases hyear : a.year = b.year
  · have hbefore := daysBeforeMonth_mono a.year (a := a.month + 1) (b := b.month)
      (by omega) (by omega) (by omega)
    rw [<- hyear]
    omega
  · have hbefore := daysBeforeMonth_mono a.year (a := a.month + 1) (b := 13)
      (by omega) (by omega) (by omega)
    have hnext := daysBeforeYear_succ a.year
    have hyears : daysBeforeYear (a.year + 1) ≤ daysBeforeYear b.year :=
      daysBeforeYear_mono (by omega)
    omega

theorem toDays_le_iff {a b : Date} :
    a.toDays ≤ b.toDays <->
      a.monthIndex < b.monthIndex ∨ a.monthIndex = b.monthIndex ∧ a.day ≤ b.day := by
  have ha := a.isDay.2.2.2.2.1
  have hb := b.isDay.2.2.2.2.1
  rcases Int.lt_trichotomy a.monthIndex b.monthIndex with hlt | heq | hgt
  · have := toDays_lt_of_monthIndex_lt hlt
    omega
  · rcases monthIndex_eq_iff.mp heq with ⟨hyear, hmonth⟩
    have hdays : a.toDays + b.day = b.toDays + a.day := by
      unfold toDays ordinal
      rw [hyear, hmonth]
      omega
    omega
  · have := toDays_lt_of_monthIndex_lt hgt
    omega

theorem toDays_injective {a b : Date} (h : a.toDays = b.toDays) : a = b := by
  have hle := toDays_le_iff.mp (Int.le_of_eq h)
  have hge := toDays_le_iff.mp (Int.le_of_eq h.symm)
  have hmonths : a.monthIndex = b.monthIndex := by
    omega
  have hday : a.day = b.day := by
    omega
  rcases monthIndex_eq_iff.mp hmonths with ⟨hyear, hmonth⟩
  obtain ⟨year, month, day, valid⟩ := a
  obtain ⟨year', month', day', valid'⟩ := b
  rw [mk.injEq]
  exact ⟨hyear, hmonth, hday⟩

theorem compare_eq_lt_iff {a b : Date} : a.compare b = .lt <-> a.toDays < b.toDays := by
  have hle := toDays_le_iff (a := b) (b := a)
  have ha := a.isDay
  have hb := b.isDay
  simp only [IsDay, monthIndex] at ha hb hle
  simp only [compare, Ordering.then_eq_lt, Int.compare_eq_lt, Int.compare_eq_eq, Nat.compare_eq_lt,
    Nat.compare_eq_eq]
  omega

theorem compare_eq_gt_iff {a b : Date} : a.compare b = .gt <-> b.toDays < a.toDays := by
  have hle := toDays_le_iff (a := a) (b := b)
  have ha := a.isDay
  have hb := b.isDay
  simp only [IsDay, monthIndex] at ha hb hle
  simp only [compare, Ordering.then_eq_gt, Int.compare_eq_gt, Int.compare_eq_eq, Nat.compare_eq_gt,
    Nat.compare_eq_eq]
  omega

/-!
# From a day number to the date
-/

/-- A day of the months in a list is located in the month that it belongs to. -/
theorem locate_eq (lengths : List Nat) (month : Nat) {rest : Nat}
    (h : rest < lengths.foldr Nat.add 0) :
    exists k day, k < lengths.length ∧ day < lengths.getD k 0 ∧
      rest = (lengths.take k).foldr Nat.add 0 + day ∧
      locate lengths month rest = (month + k, day + 1) := by
  induction lengths generalizing month rest with
  | nil =>
      cases h
  | cons length lengths ih =>
      by_cases hfirst : rest < length
      · exact ⟨0, rest, Nat.succ_pos _, hfirst, (Nat.zero_add _).symm, if_pos hfirst⟩
      · rw [List.foldr_cons, Nat.add_eq] at h
        have hlater : rest - length < lengths.foldr Nat.add 0 := by
          omega
        rcases ih (month + 1) hlater with ⟨k, day, hk, hday, hrest, heq⟩
        refine ⟨k + 1, day, Nat.succ_lt_succ hk, hday, ?_, ?_⟩
        · rw [List.take_succ_cons, List.foldr_cons, Nat.add_eq]
          omega
        · rw [locate, if_neg hfirst, heq, Nat.add_right_comm, Nat.add_assoc]

/-- The date of a day number is one of the calendar as far as its year is. -/
theorem ofDays?_eq (n : Int) :
    exists month day, ofDays? n = ofCivil? (yearOfDays n) month day ∧ 1 ≤ month ∧ month ≤ 12 ∧
      1 ≤ day ∧ day ≤ daysInMonth (yearOfDays n) month ∧
      daysBeforeYear (yearOfDays n) +
        (daysBeforeMonth (yearOfDays n) month + (day - 1) : Nat) = n := by
  rcases yearOfDays_spec n with ⟨hlow, hhigh⟩
  rw [daysBeforeYear_succ] at hhigh
  have hyear : (n - daysBeforeYear (yearOfDays n)).toNat < daysBeforeMonth (yearOfDays n) 13 := by
    omega
  rcases locate_eq (monthLengths (yearOfDays n)) 1 hyear with ⟨k, day, hk, hday, hrest, heq⟩
  rw [length_monthLengths] at hk
  refine ⟨1 + k, day + 1, ?_, by omega, by omega, Nat.succ_pos _, ?_, ?_⟩
  · simp only [ofDays?]
    rw [heq]
  · unfold daysInMonth
    rw [Nat.add_sub_cancel_left]
    exact hday
  · unfold daysBeforeMonth
    rw [Nat.add_sub_cancel_left, Nat.add_sub_cancel, <- hrest]
    omega

theorem toDays_of_ofDays? {n : Int} {d : Date} (h : ofDays? n = some d) : d.toDays = n := by
  rcases ofDays?_eq n with ⟨month, day, hcivil, -, -, -, -, hsum⟩
  rw [hcivil] at h
  rcases ofCivil?_eq_some_iff.mp h with ⟨hyear, rfl, rfl⟩
  rw [<- hyear] at hsum
  exact hsum

theorem exists_ofDays? {n : Int} (hlow : daysBeforeYear minYear ≤ n)
    (hhigh : n < daysBeforeYear (maxYear + 1)) : exists d, ofDays? n = some d := by
  rcases ofDays?_eq n with ⟨month, day, hcivil, hmonth, hmonth', hday, hday', -⟩
  rcases yearOfDays_spec n with ⟨hle, hlt⟩
  have hmin : minYear ≤ yearOfDays n := by
    refine Int.not_lt.mp fun hless => ?_
    have := daysBeforeYear_mono (a := yearOfDays n + 1) (b := minYear) (by omega)
    omega
  have hmax : yearOfDays n ≤ maxYear := by
    refine Int.not_lt.mp fun hmore => ?_
    have := daysBeforeYear_mono (a := maxYear + 1) (b := yearOfDays n) (by omega)
    omega
  exact ⟨⟨_, _, _, hmin, hmax, hmonth, hmonth', hday, hday'⟩,
    hcivil.trans (ofCivil?_eq_some_iff.mpr ⟨rfl, rfl, rfl⟩)⟩

/-!
# Moving by days and months
-/

theorem toDays_addDays {d e : Date} {n : Int} (h : d.addDays n = some e) :
    e.toDays = d.toDays + n :=
  toDays_of_ofDays? h

theorem monthIndex_addMonths {d e : Date} {n : Int} (h : d.addMonths n = some e) :
    e.monthIndex = d.monthIndex + n := by
  rcases ofCivil?_eq_some_iff.mp h with ⟨hyear, hmonth, -⟩
  unfold monthIndex at *
  omega

end Date
end Calendar
end RecordSql
