import RecordSql.Eval.Function
import RecordSql.Proofs.Calendar.Instants

/-!
# Differences of dates

Each part of a date divides the time line into stretches, which are numbered one after the other.
The difference of two times in a part is the number of boundaries between their stretches, and so it
adds up; only the difference in milliseconds may miss a boundary, because it counts the whole
milliseconds of the span.  Adding parts moves a time by as many stretches.
-/

namespace RecordSql
namespace Calendar
namespace Part

/-!
# Counting
-/

/-- The number of the stretch of the part that a time lies in. -/
def index (part : Part) (t : DateTime) : Int :=
  match part with
  | .year => t.date.year
  | .quarter => quarterIndex t
  | .month => t.date.monthIndex
  | .dayOfYear | .day | .weekday => t.date.toDays
  | .week => (t.date.toDays + 1) / 7
  | .hour => hourIndex t
  | .minute => minuteIndex t
  | .second => secondIndex t
  | .millisecond => t.instant / 1000000

theorem weekStart_eq {d : Date} (h : 1 ≤ d.year) : d.weekStart = 7 * ((d.toDays + 1) / 7) - 1 := by
  have hyears : Date.daysBeforeYear 1 ≤ Date.daysBeforeYear d.year := Date.daysBeforeYear_mono h
  have hlow : Date.daysBeforeYear minYear + 7 ≤ Date.daysBeforeYear 1 := by decide
  have hdays := d.toDays_bounds.1
  have hweekday : d.weekday = (d.toDays + 1) % 7 := rfl
  simp only [Date.weekStart]
  rw [if_neg (by omega), hweekday]
  omega

theorem diff_eq_index {part : Part} (hpart : part ≠ .millisecond) {a b : DateTime}
    (ha : 1 ≤ a.date.year) (hb : 1 ≤ b.date.year) : part.diff a b = part.index b - part.index a := by
  cases part with
  | millisecond =>
      exact absurd rfl hpart
  | week =>
      rw [diff, weekStart_eq ha, weekStart_eq hb]
      have hweeks : 7 * ((b.date.toDays + 1) / 7) - 1 - (7 * ((a.date.toDays + 1) / 7) - 1) =
          ((b.date.toDays + 1) / 7 - (a.date.toDays + 1) / 7) * 7 := by
        omega
      rw [hweeks, Int.mul_tdiv_cancel _ (by decide)]
      rfl
  | _ =>
      rfl

/--
The boundary of a part that is crossed without being counted: the later time lies less far in its
millisecond than the earlier one, so that the last millisecond between them is not a whole one.
-/
def missed (part : Part) (a b : DateTime) : Int :=
  if part = .millisecond then
    if a.instant < b.instant ∧ b.instant % 1000000 < a.instant % 1000000 then 1
    else if b.instant < a.instant ∧ a.instant % 1000000 < b.instant % 1000000 then -1
    else 0
  else 0

theorem missed_of_ne {part : Part} (h : part ≠ .millisecond) (a b : DateTime) :
    part.missed a b = 0 :=
  if_neg h

theorem missed_of_fraction_eq (part : Part) {a b : DateTime}
    (h : a.nanos % 1000000 = b.nanos % 1000000) : part.missed a b = 0 := by
  have hfraction : a.instant % 1000000 = b.instant % 1000000 := by
    simp only [DateTime.instant, secondsInDay, Calendar.second]
    omega
  simp only [missed, hfraction, Int.lt_irrefl, and_false, if_false, ite_self]

/-- Whole milliseconds are the boundaries between two instants but for one that is missed. -/
theorem tdiv_span (x y : Int) :
    (y - x).tdiv 1000000 = y / 1000000 - x / 1000000 -
      if x < y ∧ y % 1000000 < x % 1000000 then 1
      else if y < x ∧ x % 1000000 < y % 1000000 then -1
      else 0 := by
  rcases Int.le_total x y with hle | hle
  · rw [Int.tdiv_eq_ediv_of_nonneg (Int.sub_nonneg.mpr hle)]
    split
    · omega
    · split <;> omega
  · rw [<- Int.neg_sub x y, Int.neg_tdiv, Int.tdiv_eq_ediv_of_nonneg (Int.sub_nonneg.mpr hle)]
    split
    · omega
    · split <;> omega

theorem diff_eq (part : Part) {a b : DateTime} (ha : a.IsCommon) (hb : b.IsCommon) :
    part.diff a b = part.index b - part.index a - part.missed a b := by
  by_cases hpart : part = .millisecond
  · subst hpart
    rw [diff, DateTime.span_eq ha.2.2 hb.2.2, tdiv_span, missed, if_pos rfl]
    rfl
  · rw [diff_eq_index hpart ha.1 hb.1, missed_of_ne hpart, Int.sub_zero]

theorem diff_swap (part : Part) {a b : DateTime} (ha : a.IsCommon) (hb : b.IsCommon) :
    part.diff b a = -part.diff a b := by
  by_cases hpart : part = .millisecond
  · subst hpart
    rw [diff, diff, DateTime.span_eq ha.2.2 hb.2.2, DateTime.span_eq hb.2.2 ha.2.2,
      <- Int.neg_tdiv, Int.neg_sub]
  · rw [diff_eq_index hpart ha.1 hb.1, diff_eq_index hpart hb.1 ha.1, Int.neg_sub]

/-- Differences add up exactly if the boundaries that they miss add up. -/
theorem diff_trans_iff (part : Part) {a b c : DateTime} (ha : a.IsCommon) (hb : b.IsCommon)
    (hc : c.IsCommon) :
    part.diff a c = part.diff a b + part.diff b c <->
      part.missed a c = part.missed a b + part.missed b c := by
  rw [diff_eq part ha hc, diff_eq part ha hb, diff_eq part hb hc]
  omega

theorem diff_trans (part : Part) {a b c : DateTime} (ha : a.IsCommon) (hb : b.IsCommon)
    (hc : c.IsCommon)
    (h : part = .millisecond ->
      a.nanos % 1000000 = b.nanos % 1000000 ∧ b.nanos % 1000000 = c.nanos % 1000000) :
    part.diff a c = part.diff a b + part.diff b c := by
  rw [diff_trans_iff part ha hb hc]
  by_cases hpart : part = .millisecond
  · rcases h hpart with ⟨hab, hbc⟩
    rw [missed_of_fraction_eq part hab, missed_of_fraction_eq part hbc,
      missed_of_fraction_eq part (hab.trans hbc)]
    rfl
  · rw [missed_of_ne hpart, missed_of_ne hpart, missed_of_ne hpart]
    rfl

/-!
# Adding
-/

theorem year_eq (d : Date) : d.year = d.monthIndex / 12 := by
  have hday := d.isDay
  unfold IsDay at hday
  unfold Date.monthIndex
  omega

theorem quarterIndex_eq (t : DateTime) : quarterIndex t = t.date.monthIndex / 3 := by
  unfold quarterIndex Date.monthIndex
  omega

theorem toDays_eq {t : DateTime} (h : t.nanos < 1000000000) :
    t.date.toDays = t.instant / (secondsInDay * Calendar.second) := by
  have hclock := t.isClock.1
  simp only [DateTime.instant, secondsInDay, Calendar.second]
  omega

theorem hourIndex_eq {t : DateTime} (h : t.nanos < 1000000000) :
    hourIndex t = t.instant / (3600 * Calendar.second) := by
  have hclock := t.isClock.1
  simp only [hourIndex, DateTime.hour, DateTime.instant, secondsInDay, Calendar.second]
  omega

theorem minuteIndex_eq {t : DateTime} (h : t.nanos < 1000000000) :
    minuteIndex t = t.instant / (60 * Calendar.second) := by
  have hclock := t.isClock.1
  simp only [minuteIndex, hourIndex, DateTime.hour, DateTime.minute, DateTime.instant,
    secondsInDay, Calendar.second]
  omega

theorem secondIndex_eq {t : DateTime} (h : t.nanos < 1000000000) :
    secondIndex t = t.instant / Calendar.second := by
  have hclock := t.isClock.1
  simp only [secondIndex, minuteIndex, hourIndex, DateTime.hour, DateTime.minute, DateTime.sec,
    DateTime.instant, secondsInDay, Calendar.second]
  omega

/-- A time that is moved by whole stretches of one length gets into the stretch so many further. -/
theorem ediv_instant_shift {t u : DateTime} {span unit n : Int} (hunit : unit ≠ 0)
    (ht : t.nanos < 1000000000) (h : t.shift span = some u) (hspan : span = n * unit) :
    u.instant / unit = t.instant / unit + n := by
  rw [DateTime.instant_shift ht h, hspan, Int.add_mul_ediv_right _ _ hunit]

theorem index_add {part : Part} {n : Int} {t u : DateTime} (ht : t.nanos < 1000000000)
    (hu : u.nanos < 1000000000) (h : part.add n t = some u) : part.index u = part.index t + n := by
  cases part with
  | year =>
      have hmonths := DateTime.monthIndex_addMonths h
      rw [index, index, year_eq, year_eq, hmonths]
      omega
  | quarter =>
      have hmonths := DateTime.monthIndex_addMonths h
      rw [index, index, quarterIndex_eq, quarterIndex_eq, hmonths]
      omega
  | month =>
      exact DateTime.monthIndex_addMonths h
  | dayOfYear | day | weekday =>
      rw [index, index, toDays_eq hu, toDays_eq ht]
      exact ediv_instant_shift (by decide) ht h (Int.mul_assoc _ _ _)
  | week =>
      have hdays : u.instant / (secondsInDay * Calendar.second) =
          t.instant / (secondsInDay * Calendar.second) + 7 * n :=
        ediv_instant_shift (by decide) ht h (Int.mul_assoc _ _ _)
      rw [<- toDays_eq hu, <- toDays_eq ht] at hdays
      rw [index, index, hdays]
      omega
  | hour =>
      rw [index, index, hourIndex_eq hu, hourIndex_eq ht]
      exact ediv_instant_shift (by decide) ht h (Int.mul_assoc _ _ _)
  | minute =>
      rw [index, index, minuteIndex_eq hu, minuteIndex_eq ht]
      exact ediv_instant_shift (by decide) ht h (Int.mul_assoc _ _ _)
  | second =>
      rw [index, index, secondIndex_eq hu, secondIndex_eq ht]
      exact ediv_instant_shift (by decide) ht h rfl
  | millisecond =>
      exact ediv_instant_shift (by decide) ht h rfl

theorem diff_add {part : Part} {n : Int} {t u : DateTime} (ht : t.IsCommon) (hu : u.IsCommon)
    (h : part.add n t = some u) : part.diff t u = n := by
  by_cases hpart : part = .millisecond
  · subst hpart
    have hspan : t.span u = n * 1000000 := by
      rw [DateTime.span_eq ht.2.2 hu.2.2, DateTime.instant_shift ht.2.2 h]
      omega
    rw [diff, hspan, Int.mul_tdiv_cancel _ (by decide)]
  · rw [diff_eq_index hpart ht.1 hu.1, index_add ht.2.2 hu.2.2 h]
    omega

end Part
end Calendar

namespace Function

open Calendar (DateTime)

/-!
# Calling
-/

theorem dateArgument_eq {v : Value} {t : DateTime} (h : v.asDateTime = some t) (function : String) :
    dateArgument function v = .ok (some t) := by
  cases v <;> simp_all [dateArgument, Value.isNull, Value.asDateTime]

theorem call_datediff (clock : Clock) {name : String} (hname : Text.lowerAscii name = "datediff")
    {p u v : Value} {part : Calendar.Part} {a b : DateTime} (hpart : partArgument p = .ok part)
    (hu : u.asDateTime = some a) (hv : v.asDateTime = some b) :
    call clock name [p, u, v] = .ok (.int (part.diff a b)) := by
  rw [call.eq_def, hname]
  change partArgument p >>= _ = _
  rw [hpart]
  change dateArgument "datediff" u >>= _ = _
  rw [dateArgument_eq hu]
  change dateArgument "datediff" v >>= _ = _
  rw [dateArgument_eq hv]
  rfl

theorem call_dateadd (clock : Clock) {name : String} (hname : Text.lowerAscii name = "dateadd")
    {p u : Value} {part : Calendar.Part} {n : Int} {a : DateTime} (hpart : partArgument p = .ok part)
    (hu : u.asDateTime = some a) :
    call clock name [p, .int n, u] = dateAdd part n a := by
  rw [call.eq_def, hname]
  change partArgument p >>= _ = _
  rw [hpart]
  change dateArgument "dateadd" u >>= _ = _
  rw [dateArgument_eq hu]
  rfl

/--
DATEDIFF counts the boundaries of a part between two times, with the opposite sign when they are
exchanged.  Its results add up exactly if the boundaries add up that it misses between milliseconds,
and it misses none between times that lie equally far in their milliseconds.
-/
theorem datediff_additive_iff (clock : Clock) {name : String}
    (hname : Text.lowerAscii name = "datediff") {p u v w : Value} {part : Calendar.Part}
    {a b c : DateTime} (hpart : partArgument p = .ok part) (hu : u.asDateTime = some a)
    (hv : v.asDateTime = some b) (hw : w.asDateTime = some c) (ha : a.IsCommon) (hb : b.IsCommon)
    (hc : c.IsCommon) :
    exists whole first second : Int,
      call clock name [p, u, w] = .ok (.int whole) ∧
      call clock name [p, u, v] = .ok (.int first) ∧
      call clock name [p, v, w] = .ok (.int second) ∧
      call clock name [p, v, u] = .ok (.int (-first)) ∧
      first = part.index b - part.index a - part.missed a b ∧
      (whole = first + second <-> part.missed a c = part.missed a b + part.missed b c) ∧
      ((part = .millisecond ->
          a.nanos % 1000000 = b.nanos % 1000000 ∧ b.nanos % 1000000 = c.nanos % 1000000) ->
        whole = first + second) := by
  refine ⟨part.diff a c, part.diff a b, part.diff b c, call_datediff clock hname hpart hu hw,
    call_datediff clock hname hpart hu hv, call_datediff clock hname hpart hv hw, ?_,
    part.diff_eq ha hb, part.diff_trans_iff ha hb hc, part.diff_trans ha hb hc⟩
  rw [call_datediff clock hname hpart hv hu, part.diff_swap ha hb]

theorem isDay_leapDay : Calendar.IsDay 2020 2 29 := by
  decide

theorem isClock_tick (nanos : Fin 1000000000) : Calendar.IsClock 86399 nanos.val := by
  unfold Calendar.IsClock
  omega

/-- A time in the last second of a leap day. -/
def tick (nanos : Fin 1000000000) : DateTime :=
  ⟨⟨2020, 2, 29, isDay_leapDay⟩, 86399, nanos.val, isClock_tick nanos⟩

def tickClock : Clock :=
  ⟨tick 0, tick 0⟩

/-- Six tenths of a millisecond twice are a whole millisecond that neither of them is. -/
theorem datediff_ticks :
    partArgument (.str "MS") = .ok .millisecond ∧
    (tick 0).IsCommon ∧ (tick 600000).IsCommon ∧ (tick 1200000).IsCommon ∧
    exists whole first second : Int,
      call tickClock "DateDiff" [.str "MS", .dateTime (tick 0), .dateTime (tick 1200000)] =
        .ok (.int whole) ∧
      call tickClock "DateDiff" [.str "MS", .dateTime (tick 0), .dateTime (tick 600000)] =
        .ok (.int first) ∧
      call tickClock "DateDiff" [.str "MS", .dateTime (tick 600000), .dateTime (tick 1200000)] =
        .ok (.int second) ∧
      call tickClock "DateDiff" [.str "MS", .dateTime (tick 600000), .dateTime (tick 0)] =
        .ok (.int (-first)) ∧
      whole ≠ first + second := by
  have hpart : partArgument (.str "MS") = .ok .millisecond := by
    rfl
  have hticks : (tick 0).IsCommon ∧ (tick 600000).IsCommon ∧ (tick 1200000).IsCommon := by
    decide
  have hname : Text.lowerAscii "DateDiff" = "datediff" := by
    decide
  rcases datediff_additive_iff tickClock hname hpart
      (u := .dateTime (tick 0)) (v := .dateTime (tick 600000)) (w := .dateTime (tick 1200000))
      rfl rfl rfl hticks.1 hticks.2.1 hticks.2.2 with
    ⟨whole, first, second, hwhole, hfirst, hsecond, hswap, -, hiff, -⟩
  refine ⟨hpart, hticks.1, hticks.2.1, hticks.2.2, whole, first, second, hwhole, hfirst, hsecond,
    hswap, ?_⟩
  rw [ne_eq, hiff]
  decide

/-- DATEDIFF gives back the number of parts that DATEADD added. -/
theorem datediff_dateadd (clock : Clock) {add diff : String}
    (hadd : Text.lowerAscii add = "dateadd") (hdiff : Text.lowerAscii diff = "datediff")
    {p v : Value} {part : Calendar.Part} {t u : DateTime} (hpart : partArgument p = .ok part)
    (hv : v.asDateTime = some t) (n : Int) (ht : t.IsCommon) (hu : u.IsCommon)
    (h : call clock add [p, .int n, v] = .ok (.dateTime u)) :
    call clock diff [p, v, .dateTime u] = .ok (.int n) := by
  rw [call_dateadd clock hadd hpart hv, dateAdd] at h
  have hmoved : part.add n t = some u := by
    split at h <;> simp_all
  rw [call_datediff clock hdiff hpart hv rfl, Calendar.Part.diff_add ht hu hmoved]

theorem isDay_monthEnd : Calendar.IsDay 2024 1 31 ∧ Calendar.IsDay 2023 2 28 := by
  decide

theorem isClock_halfPast : Calendar.IsClock 1800 500000000 := by
  decide

/-- Half past midnight and a half second. -/
def halfPast (d : Calendar.Date) : DateTime :=
  ⟨d, 1800, 500000000, isClock_halfPast⟩

/-- Eleven months before the end of January is the end of February, and the difference is still
eleven months. -/
theorem datediff_dateadd_monthEnd :
    (halfPast ⟨2024, 1, 31, isDay_monthEnd.1⟩).IsCommon ∧
    (halfPast ⟨2023, 2, 28, isDay_monthEnd.2⟩).IsCommon ∧
    call tickClock "DATEADD"
        [.str "mm", .int (-11), .dateTime (halfPast ⟨2024, 1, 31, isDay_monthEnd.1⟩)] =
      .ok (.dateTime (halfPast ⟨2023, 2, 28, isDay_monthEnd.2⟩)) ∧
    call tickClock "DATEDIFF"
        [.str "mm", .dateTime (halfPast ⟨2024, 1, 31, isDay_monthEnd.1⟩),
          .dateTime (halfPast ⟨2023, 2, 28, isDay_monthEnd.2⟩)] =
      .ok (.int (-11)) := by
  have hstart : (halfPast ⟨2024, 1, 31, isDay_monthEnd.1⟩).IsCommon := by
    decide
  have hend : (halfPast ⟨2023, 2, 28, isDay_monthEnd.2⟩).IsCommon := by
    decide
  have hpart : partArgument (.str "mm") = .ok .month := by
    rfl
  have hadd : call tickClock "DATEADD"
      [.str "mm", .int (-11), .dateTime (halfPast ⟨2024, 1, 31, isDay_monthEnd.1⟩)] =
        .ok (.dateTime (halfPast ⟨2023, 2, 28, isDay_monthEnd.2⟩)) := by
    rw [call_dateadd tickClock (by decide) hpart rfl]
    rfl
  exact ⟨hstart, hend, hadd,
    datediff_dateadd tickClock (by decide) (by decide) hpart rfl (-11) hstart hend hadd⟩

end Function
end RecordSql
