import RecordSql.Fetch.Condition
import RecordSql.Proofs.Calendar.Instants

/-!
# Relative periods

Days, weeks, months and years are numbered.  The range of the last, the current or the next period
holds exactly the times whose period has the number before that of the current time, this number or
the one after it.  The three ranges follow one another without gaps, and a time is in one of them at
most.
-/

namespace RecordSql
namespace Fetch

open Calendar (Date DateTime)

namespace Period

/-- The number of the period that a day belongs to. -/
def index (period : Period) (d : Date) : Int :=
  match period with
  | .day => d.toDays
  | .week => (d.toDays + 1) / 7
  | .month => d.monthIndex
  | .year => d.year

/-- The period of the day `d` begins on the day `first`; a week begins on a Sunday. -/
def Begins (period : Period) (first d : Date) : Prop :=
  match period with
  | .day => first = d
  | .week => first.weekday = 0 ∧ first.toDays ≤ d.toDays ∧ d.toDays < first.toDays + 7
  | .month => first.year = d.year ∧ first.month = d.month ∧ first.day = 1
  | .year => first.year = d.year ∧ first.month = 1 ∧ first.day = 1

theorem begins_of_index_eq {period : Period} {first d : Date} (h : period.Begins first first)
    (hindex : period.index first = period.index d) : period.Begins first d := by
  cases period with
  | day =>
      exact Date.toDays_injective hindex
  | week =>
      have hsunday : (first.toDays + 1) % 7 = 0 := h.1
      simp only [index] at hindex
      exact ⟨hsunday, by omega, by omega⟩
  | month =>
      rcases Date.monthIndex_eq_iff.mp hindex with ⟨hyear, hmonth⟩
      exact ⟨hyear, hmonth, h.2.2⟩
  | year =>
      exact ⟨hindex, h.2⟩

/-- The first day of a period comes before the days of this period and of the later ones. -/
theorem toDays_le_iff_index_le {period : Period} {first : Date} (h : period.Begins first first)
    (d : Date) : first.toDays ≤ d.toDays <-> period.index first ≤ period.index d := by
  have hday := d.isDay
  unfold Calendar.IsDay at hday
  cases period with
  | day =>
      exact Iff.rfl
  | week =>
      have hsunday : (first.toDays + 1) % 7 = 0 := h.1
      simp only [index]
      omega
  | month =>
      have hfirst : first.day = 1 := h.2.2
      rw [Date.toDays_le_iff]
      simp only [index]
      omega
  | year =>
      rcases h with ⟨-, hmonth, hfirst⟩
      rw [Date.toDays_le_iff]
      simp only [index, Date.monthIndex, hmonth]
      omega

theorem toDays_lt_iff_index_lt {period : Period} {first : Date} (h : period.Begins first first)
    (d : Date) : d.toDays < first.toDays <-> period.index d < period.index first := by
  have hle := toDays_le_iff_index_le h d
  omega

/-- A period has one first day. -/
theorem first_unique {period : Period} {a b : Date} (ha : period.Begins a a)
    (hb : period.Begins b b) (h : period.index a = period.index b) : a = b := by
  have hle := (toDays_le_iff_index_le ha b).mpr (Int.le_of_eq h)
  have hge := (toDays_le_iff_index_le hb a).mpr (Int.le_of_eq h.symm)
  exact Date.toDays_injective (Int.le_antisymm hle hge)

end Period

/-!
# Where the periods begin
-/

theorem exists_addDays {d : Date} {n : Int} (hlow : 2 ≤ d.year) (hhigh : d.year ≤ 9997)
    (hn : -365 ≤ n) (hn' : n ≤ 365) :
    exists e, addDays (.midnight d) n = some (.midnight e) ∧ e.toDays = d.toDays + n := by
  have hbounds := d.toDays_bounds
  have hfirst : Date.daysBeforeYear 2 ≤ Date.daysBeforeYear d.year := Date.daysBeforeYear_mono hlow
  have hlast : Date.daysBeforeYear (d.year + 1) ≤ Date.daysBeforeYear 9998 :=
    Date.daysBeforeYear_mono (by omega)
  have hmin : Date.daysBeforeYear Calendar.minYear + 365 ≤ Date.daysBeforeYear 2 := by
    decide
  have hmax : Date.daysBeforeYear 9998 + 365 ≤ Date.daysBeforeYear (Calendar.maxYear + 1) := by
    decide
  rcases Date.exists_ofDays? (n := d.toDays + n) (by omega) (by omega) with ⟨e, he⟩
  refine ⟨e, ?_, Date.toDays_of_ofDays? he⟩
  rw [addDays, day, DateTime.shift_midnight, Date.addDays, he]
  rfl

theorem exists_addMonths {d : Date} {n : Int} (hday : d.day = 1) (hlow : 2 ≤ d.year)
    (hhigh : d.year ≤ 9997) (hn : -24 ≤ n) (hn' : n ≤ 24) :
    exists e, (DateTime.midnight d).addMonths n = some (.midnight e) ∧
      e.monthIndex = d.monthIndex + n ∧ e.day = 1 := by
  have hvalid := d.isDay
  unfold Calendar.IsDay at hvalid
  have hyear : Calendar.minYear ≤ (d.monthIndex + n) / 12 ∧
      (d.monthIndex + n) / 12 ≤ Calendar.maxYear := by
    unfold Date.monthIndex Calendar.minYear Calendar.maxYear
    omega
  have hlength : 1 ≤ Calendar.daysInMonth ((d.monthIndex + n) / 12)
      (((d.monthIndex + n) % 12).toNat + 1) :=
    Date.one_le_daysInMonth _ (by omega) (by omega)
  have hmin : min d.day (Calendar.daysInMonth ((d.monthIndex + n) / 12)
      (((d.monthIndex + n) % 12).toNat + 1)) = 1 := by
    omega
  let e : Date := ⟨(d.monthIndex + n) / 12, ((d.monthIndex + n) % 12).toNat + 1, 1,
    hyear.1, hyear.2, by omega, by omega, Nat.le_refl 1, hlength⟩
  have he : d.addMonths n = some e := by
    rw [Date.addMonths, hmin]
    exact Date.ofCivil?_eq_some_iff.mpr ⟨rfl, rfl, rfl⟩
  refine ⟨e, ?_, Date.monthIndex_addMonths he, rfl⟩
  rw [DateTime.addMonths, DateTime.midnight, he]
  rfl

theorem monthStart_eq (now : DateTime) :
    exists d : Date, monthStart now = .midnight d ∧ d.monthIndex = now.date.monthIndex ∧
      d.day = 1 := by
  rcases now.date.isDay with ⟨hmin, hmax, hlow, hhigh, hday, hlast⟩
  let d : Date := ⟨now.date.year, now.date.month, 1, hmin, hmax, hlow, hhigh, Nat.le_refl 1,
    Nat.le_trans hday hlast⟩
  have hd : Date.ofCivil? now.date.year now.date.month 1 = some d :=
    Date.ofCivil?_eq_some_iff.mpr ⟨rfl, rfl, rfl⟩
  refine ⟨d, ?_, rfl, rfl⟩
  rw [monthStart, hd, Option.getD_some]

theorem yearStart_eq (now : DateTime) :
    exists d : Date, yearStart now = .midnight d ∧ d.year = now.date.year ∧ d.month = 1 ∧
      d.day = 1 := by
  rcases now.date.isDay with ⟨hmin, hmax, -⟩
  let d : Date := ⟨now.date.year, 1, 1, hmin, hmax, Nat.le_refl 1, by decide, Nat.le_refl 1,
    Date.one_le_daysInMonth _ (Nat.le_refl 1) (by decide)⟩
  have hd : Date.ofCivil? now.date.year 1 1 = some d :=
    Date.ofCivil?_eq_some_iff.mpr ⟨rfl, rfl, rfl⟩
  refine ⟨d, ?_, rfl, rfl, rfl⟩
  rw [yearStart, hd, Option.getD_some]

variable {now : DateTime}

/-- The bounds of the ranges are midnights on which periods begin. -/
theorem exists_boundary (hlow : 2 ≤ now.date.year) (hhigh : now.date.year ≤ 9997)
    (period : Period) {n : Int} (hn : -1 ≤ n) (hn' : n ≤ 2) :
    exists d, boundary now period n = some (.midnight d) ∧ period.Begins d d ∧
      period.index d = period.index now.date + n := by
  cases period with
  | day =>
      rcases exists_addDays (n := n) hlow hhigh (by omega) (by omega) with ⟨d, hd, hdays⟩
      exact ⟨d, hd, rfl, hdays⟩
  | week =>
      have hweekday : now.date.weekday = (now.date.toDays + 1) % 7 := rfl
      rcases exists_addDays (n := 7 * n - now.date.weekday) hlow hhigh (by omega) (by omega) with
        ⟨d, hd, hdays⟩
      have hsunday : d.weekday = 0 := by
        unfold Date.weekday at *
        omega
      refine ⟨d, hd, ⟨hsunday, Int.le_refl _, by omega⟩, ?_⟩
      simp only [Period.index]
      omega
  | month =>
      rcases monthStart_eq now with ⟨first, hfirst, hindex, hday⟩
      have hyear := (Date.monthIndex_eq_iff.mp hindex).1
      rcases exists_addMonths (n := n) hday (by omega) (by omega) (by omega) (by omega) with
        ⟨d, hd, hmonths, hdday⟩
      refine ⟨d, ?_, ⟨rfl, rfl, hdday⟩, by rw [Period.index, Period.index, hmonths, hindex]⟩
      rw [boundary, hfirst, hd]
  | year =>
      rcases yearStart_eq now with ⟨first, hfirst, hyear, hmonth, hday⟩
      rcases exists_addMonths (n := 12 * n) hday (by omega) (by omega) (by omega) (by omega) with
        ⟨d, hd, hmonths, hdday⟩
      have hvalid := d.isDay
      unfold Calendar.IsDay at hvalid
      simp only [Date.monthIndex, hyear, hmonth] at hmonths
      refine ⟨d, ?_, ⟨rfl, by omega, hdday⟩, ?_⟩
      · rw [boundary, hfirst, hd]
      · simp only [Period.index]
        omega

/-!
# The ranges
-/

/-- A range reaches from the beginning of its period to that of the next one. -/
theorem exists_dateRange (hlow : 2 ≤ now.date.year) (hhigh : now.date.year ≤ 9997)
    (period : Period) (which : Which) (number : Except PlatformError Int) :
    exists first next : Date,
      dateRange now (.within period which) number =
        .ok ⟨some (.midnight first), .midnight next⟩ ∧
      period.Begins first first ∧ period.Begins next next ∧
      period.index first = period.index now.date + which.offset ∧
      period.index next = period.index first + 1 := by
  have hoffset : -1 ≤ which.offset ∧ which.offset ≤ 1 := by
    cases which <;> decide
  rcases exists_boundary hlow hhigh .week (n := 0) (by decide) (by decide) with ⟨sunday, hsunday, -⟩
  rcases exists_boundary hlow hhigh period (n := which.offset) (by omega) (by omega) with
    ⟨first, hstart, hfirst, hindex⟩
  rcases exists_boundary hlow hhigh period (n := which.offset + 1) (by omega) (by omega) with
    ⟨next, hstop, hnext, hnextIndex⟩
  refine ⟨first, next, ?_, hfirst, hnext, hindex, by omega⟩
  unfold dateRange
  rw [hsunday]
  simp only []
  rw [hstart, hstop]
  rfl

/-- A range holds the times whose period is the one that it stands for. -/
theorem contains_iff {period : Period} {first next : Date} (hfirst : period.Begins first first)
    (hnext : period.Begins next next) (hindex : period.index next = period.index first + 1)
    (t : DateTime) :
    DateRange.contains ⟨some (.midnight first), .midnight next⟩ t = true <->
      period.index t.date = period.index first := by
  rw [DateRange.contains, Bool.and_eq_true, Option.all_some, DateTime.le_midnight_iff,
    DateTime.lt_midnight_iff, Period.toDays_le_iff_index_le hfirst,
    Period.toDays_lt_iff_index_lt hnext]
  omega

theorem Which.offset_injective {a b : Which} (h : a.offset = b.offset) : a = b := by
  cases a <;> cases b <;> first | rfl | exact absurd h (by decide)

theorem accepts_within (hlow : 2 ≤ now.date.year) (hhigh : now.date.year ≤ 9997)
    {period : Period} {which : Which} {c : Condition} (hc : c.operator = .within period which)
    {value : Value} {t : DateTime} (ht : value.asDateTime = some t) (other : Value) :
    accepts now value other c =
      .ok (decide (period.index t.date = period.index now.date + which.offset)) := by
  rcases exists_dateRange hlow hhigh period which (wholeNumber c) with
    ⟨first, next, hrange, hfirst, hnext, hindex, hnextIndex⟩
  have hcontains := contains_iff hfirst hnext hnextIndex t
  rw [hindex] at hcontains
  simp only [accepts, hc, ht, hrange]
  change Except.ok (DateRange.contains _ t) = _
  rw [Bool.eq_iff_iff.mpr (hcontains.trans decide_eq_true_iff.symm)]

/-- A condition that holds says which period its column is in. -/
theorem index_of_conditionHolds (hlow : 2 ≤ now.date.year) (hhigh : now.date.year ≤ 9997)
    {period : Period} {which : Which} {front : String} {row : Joined} {c : Condition}
    (hc : c.operator = .within period which) (h : conditionHolds now front row c = .ok true) :
    exists t, (row.get (front ++ c.column)).asDateTime = some t ∧
      period.index t.date = period.index now.date + which.offset := by
  simp only [conditionHolds, hc] at h
  split at h
  · cases h
  · cases htime : (row.get (front ++ c.column)).asDateTime with
    | none =>
        simp only [accepts, hc, htime] at h
        cases h
    | some t =>
        rw [accepts_within hlow hhigh hc htime] at h
        exact ⟨t, rfl, of_decide_eq_true (Except.ok.inj h)⟩

/--
The ranges of the last, the current and the next period follow one another, and none is empty.  The
current time lies in the middle one, which begins with the period of the current day.  Of the three
conditions on a column at most one holds.
-/
theorem periods_tile (hlow : 2 ≤ now.date.year) (hhigh : now.date.year ≤ 9997) (period : Period)
    (number : Except PlatformError Int) :
    (exists first second third fourth : Date,
      dateRange now (.within period .last) number =
        .ok ⟨some (.midnight first), .midnight second⟩ ∧
      dateRange now (.within period .current) number =
        .ok ⟨some (.midnight second), .midnight third⟩ ∧
      dateRange now (.within period .next) number =
        .ok ⟨some (.midnight third), .midnight fourth⟩ ∧
      (DateTime.midnight first).lt (.midnight second) = true ∧
      (DateTime.midnight second).lt (.midnight third) = true ∧
      (DateTime.midnight third).lt (.midnight fourth) = true ∧
      (DateTime.midnight second).le now = true ∧ now.lt (.midnight third) = true ∧
      period.Begins second now.date) ∧
    forall {front : String} {row : Joined} {c c' : Condition} {which which' : Which},
      c.operator = .within period which -> c'.operator = .within period which' ->
        c.column = c'.column -> conditionHolds now front row c = .ok true ->
          conditionHolds now front row c' = .ok true -> which = which' := by
  constructor
  · rcases exists_dateRange hlow hhigh period .last number with
      ⟨first, second, hlast, hfirst, hsecond, hindex, hsecondIndex⟩
    rcases exists_dateRange hlow hhigh period .current number with
      ⟨current, third, hcurrent, hcurrentBegins, hthird, hcurrentIndex, hthirdIndex⟩
    rcases exists_dateRange hlow hhigh period .next number with
      ⟨next, fourth, hnext, hnextBegins, hfourth, hnextIndex, hfourthIndex⟩
    simp only [Which.offset] at hindex hcurrentIndex hnextIndex
    -- the range before ends on the first day of the period with which the range after begins
    cases Period.first_unique hsecond hcurrentBegins (by omega)
    cases Period.first_unique hthird hnextBegins (by omega)
    refine ⟨first, second, third, fourth, hlast, hcurrent, hnext, ?_⟩
    have hbefore {d e : Date} (he : period.Begins e e) (h : period.index d < period.index e) :
        (DateTime.midnight d).lt (.midnight e) = true :=
      (DateTime.lt_midnight_iff _ _).mpr ((Period.toDays_lt_iff_index_lt he d).mpr h)
    refine ⟨hbefore hsecond (by omega), hbefore hthird (by omega), hbefore hfourth (by omega),
      ?_, ?_, Period.begins_of_index_eq hsecond (by omega)⟩
    · rw [DateTime.le_midnight_iff, Period.toDays_le_iff_index_le hsecond]
      omega
    · rw [DateTime.lt_midnight_iff, Period.toDays_lt_iff_index_lt hthird]
      omega
  · intro front row c c' which which' hc hc' hcolumn h h'
    rcases index_of_conditionHolds hlow hhigh hc h with ⟨t, ht, hindex⟩
    rcases index_of_conditionHolds hlow hhigh hc' h' with ⟨t', ht', hindex'⟩
    rw [<- hcolumn, ht] at ht'
    cases ht'
    rw [hindex] at hindex'
    exact Which.offset_injective (by omega)

theorem isDay_lastSunday : Calendar.IsDay 2023 12 31 := by
  decide

theorem isClock_leapSecond : Calendar.IsClock 86399 1500000000 := by
  decide

/-- A leap second at the end of a year that ends with a Sunday. -/
def leapSecond : DateTime :=
  ⟨⟨2023, 12, 31, isDay_lastSunday⟩, 86399, 1500000000, isClock_leapSecond⟩

/-- The week of a Sunday begins on this day, and its last second is still before the next day. -/
theorem periods_tile_leapSecond :
    2 ≤ leapSecond.date.year ∧ leapSecond.date.year ≤ 9997 ∧
    exists first third fourth : Date,
      dateRange leapSecond (.within .week .last) (.ok 0) =
        .ok ⟨some (.midnight first), .midnight leapSecond.date⟩ ∧
      dateRange leapSecond (.within .week .current) (.ok 0) =
        .ok ⟨some (.midnight leapSecond.date), .midnight third⟩ ∧
      dateRange leapSecond (.within .week .next) (.ok 0) =
        .ok ⟨some (.midnight third), .midnight fourth⟩ ∧
      leapSecond.lt (.midnight third) = true := by
  have hlow : 2 ≤ leapSecond.date.year := by
    decide
  have hhigh : leapSecond.date.year ≤ 9997 := by
    decide
  have hnow : leapSecond.date.weekday = 0 := by
    decide
  rcases (periods_tile hlow hhigh .week (.ok 0)).1 with
    ⟨first, second, third, fourth, hlast, hcurrent, hnext, hrest⟩
  have hbefore := hrest.2.2.2.2.1
  have hbegins : second.weekday = 0 ∧ _ := hrest.2.2.2.2.2
  rcases hbegins with ⟨hsunday, hle, hlt⟩
  have hsame : second = leapSecond.date := by
    unfold Date.weekday at hsunday hnow
    exact Date.toDays_injective (by omega)
  rw [hsame] at hlast hcurrent
  exact ⟨hlow, hhigh, first, third, fourth, hlast, hcurrent, hnext, hbefore⟩

end Fetch
end RecordSql
