import RecordSql.Calendar.DateTime
import RecordSql.Proofs.Calendar.DayCount

/-!
# Instants

Outside of leap seconds a time is a number of nanoseconds since the start of the year one.  Moving a
time by a span adds to this number, the span between two times is the difference of their numbers,
and midnights are ordered as their dates.
-/

namespace RecordSql
namespace Calendar
namespace DateTime

/-- The nanoseconds since the start of the year one. -/
def instant (t : DateTime) : Int :=
  (t.date.toDays * secondsInDay + t.seconds) * second + t.nanos

/-- The time lies in the years that are written with four digits, and in no leap second. -/
def IsCommon (t : DateTime) : Prop :=
  1 ≤ t.date.year ∧ t.date.year ≤ 9999 ∧ t.nanos < 1000000000

instance (t : DateTime) : Decidable t.IsCommon := by
  unfold IsCommon
  infer_instance

/-!
# Moving and measuring
-/

theorem instant_carry {d : Date} {seconds nanos span : Int} {u : DateTime}
    (h : carry d seconds nanos span = some u) :
    u.instant = (d.toDays * secondsInDay + seconds) * second + nanos + span := by
  rcases Option.map_eq_some_iff.mp h with ⟨day, hday, rfl⟩
  have hdays := Date.toDays_addDays hday
  simp only [instant, secondsInDay, second] at *
  omega

theorem instant_shift {t u : DateTime} {span : Int} (ht : t.nanos < 1000000000)
    (h : t.shift span = some u) : u.instant = t.instant + span := by
  have hshort : (t.nanos : Int) < second := by
    unfold second
    omega
  rw [shift, dif_pos hshort] at h
  exact instant_carry h

theorem monthIndex_addMonths {t u : DateTime} {n : Int} (h : t.addMonths n = some u) :
    u.date.monthIndex = t.date.monthIndex + n := by
  rcases Option.map_eq_some_iff.mp h with ⟨d, hd, rfl⟩
  exact Date.monthIndex_addMonths hd

theorem span_eq {a b : DateTime} (ha : a.nanos < 1000000000) (hb : b.nanos < 1000000000) :
    a.span b = b.instant - a.instant := by
  have hclock : clockSpan a b = ((b.seconds : Int) - a.seconds) * second + b.nanos - a.nanos := by
    rw [clockSpan, if_neg (by omega), if_neg (by omega), Int.add_zero]
  rw [span, hclock]
  simp only [instant, secondsInDay, second]
  omega

/-!
# Midnights
-/

theorem le_midnight_iff (d : Date) (t : DateTime) :
    (midnight d).le t = true <-> d.toDays ≤ t.date.toDays := by
  have hgt := Date.compare_eq_gt_iff (a := d) (b := t.date)
  simp only [le, compare, bne_iff_ne, ne_eq, Ordering.then_eq_gt, hgt, midnight]
  simp [Nat.compare_eq_gt]

theorem lt_midnight_iff (t : DateTime) (d : Date) :
    t.lt (midnight d) = true <-> t.date.toDays < d.toDays := by
  have hlt := Date.compare_eq_lt_iff (a := t.date) (b := d)
  simp only [lt, compare, beq_iff_eq, Ordering.then_eq_lt, hlt, midnight]
  simp [Nat.compare_eq_lt]

theorem shift_midnight (d : Date) (n : Int) :
    (midnight d).shift (n * (secondsInDay * second)) = (d.addDays n).map midnight := by
  have hday : (((midnight d).seconds : Int) +
      ((midnight d).nanos + n * (secondsInDay * second)) / second) / secondsInDay = n := by
    simp only [midnight, secondsInDay, second]
    omega
  have hshort : ((midnight d).nanos : Int) < second := by
    change (0 : Int) < 1000000000
    decide
  rw [shift, dif_pos hshort, carry]
  simp only [hday]
  change (d.addDays n).map _ = _
  congr 1
  funext day
  simp only [midnight, mk.injEq, true_and, secondsInDay, second]
  omega

end DateTime
end Calendar
end RecordSql
