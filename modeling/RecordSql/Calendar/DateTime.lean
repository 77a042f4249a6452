import RecordSql.Calendar.Date

/-!
# Date and time

A point in time without a zone: a date, a second of the day and a count of nanoseconds.  The count
reaches past a whole second only inside a leap second, which is written as the sixtieth second of a
minute.
-/

namespace RecordSql
namespace Calendar

/-- Nanoseconds in a second. -/
def second : Int := 1000000000

def secondsInDay : Int := 86400

/-- A clock shows this second of the day and this count of nanoseconds. -/
def IsClock (seconds nanos : Nat) : Prop :=
  seconds < 86400 ∧ nanos < 2000000000 ∧ (1000000000 ≤ nanos -> seconds % 60 = 59)

instance (seconds nanos : Nat) : Decidable (IsClock seconds nanos) := by
  unfold IsClock
  infer_instance

structure DateTime where
  date : Date
  seconds : Nat
  nanos : Nat
  isClock : IsClock seconds nanos
deriving DecidableEq

namespace DateTime

def midnight (d : Date) : DateTime :=
  ⟨d, 0, 0, by decide⟩

def ofClock? (d : Date) (hour minute sec nanos : Nat) : Option DateTime :=
  if h : hour < 24 ∧ minute < 60 ∧ sec < 60 ∧ (nanos < 1000000000 ∨ sec = 59) ∧
      nanos < 2000000000 then
    some ⟨d, hour * 3600 + minute * 60 + sec, nanos, by
      unfold IsClock
      omega⟩
  else none

def hour (t : DateTime) : Nat := t.seconds / 3600

def minute (t : DateTime) : Nat := t.seconds / 60 % 60

/-- The second of the minute, not counting a leap second. -/
def sec (t : DateTime) : Nat := t.seconds % 60

def compare (a b : DateTime) : Ordering :=
  (a.date.compare b.date).then
    ((Ord.compare a.seconds b.seconds).then (Ord.compare a.nanos b.nanos))

def le (a b : DateTime) : Bool :=
  a.compare b != .gt

def lt (a b : DateTime) : Bool :=
  a.compare b == .lt

/-!
# Moving in time

A span is a whole number of nanoseconds.  A leap second counts only while the time stays in it.
-/

/-- The time `span` after the given second of a date and nanosecond of that second. -/
def carry (d : Date) (seconds nanos span : Int) : Option DateTime :=
  let total := nanos + span
  let clock := seconds + total / second
  (d.addDays (clock / secondsInDay)).map fun day =>
    ⟨day, (clock % secondsInDay).toNat, (total % second).toNat, by
      simp only [IsClock, secondsInDay, second]
      omega⟩

/-- A time that stays inside its leap second is still on the clock. -/
theorem isClock_inside (t : DateTime) {span : Int} (long : ¬ t.nanos < second)
    (stays : ¬ (second ≤ span ∨ (0 < span ∧ 2 * second ≤ t.nanos + span))) :
    IsClock t.seconds (t.nanos + span).toNat := by
  have clock := t.isClock
  simp only [IsClock, second] at *
  omega

def shift (t : DateTime) (span : Int) : Option DateTime :=
  if long : t.nanos < second then carry t.date t.seconds t.nanos span
  else if stays : second ≤ span ∨ (0 < span ∧ 2 * second ≤ t.nanos + span) then
    carry t.date t.seconds (t.nanos - second) span
  else if span ≤ -second then carry t.date (t.seconds + 1) (t.nanos - second) span
  else
    some { t with
      nanos := (t.nanos + span).toNat
      isClock := t.isClock_inside long stays }

def addMonths (t : DateTime) (n : Int) : Option DateTime :=
  (t.date.addMonths n).map fun d => { t with date := d }

/-- The nanoseconds from `a` to `b` on the clock, counting a leap second that lies between them. -/
def clockSpan (a b : DateTime) : Int :=
  let extra : Int :=
    if a.seconds < b.seconds ∧ 1000000000 ≤ a.nanos then 1
    else if b.seconds < a.seconds ∧ 1000000000 ≤ b.nanos then -1
    else 0
  ((b.seconds : Int) - a.seconds + extra) * second + b.nanos - a.nanos

/-- The nanoseconds from `a` to `b`. -/
def span (a b : DateTime) : Int :=
  (b.date.toDays - a.date.toDays) * secondsInDay * second + clockSpan a b

end DateTime

end Calendar
end RecordSql
