/-!
# Dates

Dates of the proleptic Gregorian calendar, over half a million years.  A date is a year, a month
and a day of that month; counting days from the first of January of the year one turns the
questions about spans of days into integer arithmetic.
-/

namespace RecordSql
namespace Calendar

def isLeap (year : Int) : Bool :=
  year % 4 == 0 && (year % 100 != 0 || year % 400 == 0)

def monthLengths (year : Int) : List Nat :=
  [31, if isLeap year then 29 else 28, 31, 30, 31, 30, 31, 31, 30, 31, 30, 31]

def daysInMonth (year : Int) (month : Nat) : Nat :=
  (monthLengths year).getD (month - 1) 0

def minYear : Int := -262143

def maxYear : Int := 262142

/-- The calendar has this day. -/
def IsDay (year : Int) (month day : Nat) : Prop :=
  minYear ≤ year ∧ year ≤ maxYear ∧ 1 ≤ month ∧ month ≤ 12 ∧ 1 ≤ day ∧ day ≤ daysInMonth year month

instance (year : Int) (month day : Nat) : Decidable (IsDay year month day) := by
  unfold IsDay
  infer_instance

structure Date where
  year : Int
  month : Nat
  day : Nat
  isDay : IsDay year month day
deriving DecidableEq

namespace Date

def ofCivil? (year : Int) (month day : Nat) : Option Date :=
  if h : IsDay year month day then some ⟨year, month, day, h⟩ else none

theorem ofCivil?_eq_some_iff {year : Int} {month day : Nat} {d : Date} :
    ofCivil? year month day = some d <-> d.year = year ∧ d.month = month ∧ d.day = day := by
  unfold ofCivil?
  split
  · constructor
    · intro h
      cases h
      simp
    · intro h
      obtain ⟨y, m, k, v⟩ := d
      simp at h
      simp [h]
  · rename_i invalid
    constructor
    · intro h
      cases h
    · intro h
      obtain ⟨rfl, rfl, rfl⟩ := h
      exact absurd d.isDay invalid

/-!
# Counting days

The days before a year follow from the number of leap years before it; the days before a month are
summed from the lengths of the earlier months.
-/

def daysBeforeYear (year : Int) : Int :=
  365 * (year - 1) + (year - 1) / 4 - (year - 1) / 100 + (year - 1) / 400

def daysBeforeMonth (year : Int) (month : Nat) : Nat :=
  ((monthLengths year).take (month - 1)).foldr Nat.add 0

/-- The day of the year, counted from zero. -/
def ordinal (d : Date) : Nat :=
  daysBeforeMonth d.year d.month + (d.day - 1)

/-- The number of days since the first of January of the year one. -/
def toDays (d : Date) : Int :=
  daysBeforeYear d.year + d.ordinal

/-!
# From a day number back to a date

A cycle of four hundred years has 146097 days, which gives the year up to a slip of one.
-/

/-- The year that contains a day. -/
def yearOfDays (n : Int) : Int :=
  let guess := n * 400 / 146097 + 1
  if n < daysBeforeYear guess then guess - 1
  else if daysBeforeYear (guess + 1) ≤ n then guess + 1
  else guess

/-- The month, counted from `month`, and the day of it for a day of the rest of a year. -/
def locate : List Nat -> Nat -> Nat -> Nat × Nat
  | [], month, rest => (month, rest + 1)
  | length :: lengths, month, rest =>
      if rest < length then (month, rest + 1) else locate lengths (month + 1) (rest - length)

def ofDays? (n : Int) : Option Date :=
  let year := yearOfDays n
  let (month, day) := locate (monthLengths year) 1 (n - daysBeforeYear year).toNat
  ofCivil? year month day

/-!
# Moving by days and months

Moving by months keeps the day, except that it stops at the last day of a shorter month.
-/

def addDays (d : Date) (n : Int) : Option Date :=
  ofDays? (d.toDays + n)

/-- The number of months since the start of the year zero. -/
def monthIndex (d : Date) : Int :=
  12 * d.year + (d.month - 1 : Nat)

def addMonths (d : Date) (n : Int) : Option Date :=
  let index := d.monthIndex + n
  let year := index / 12
  let month := (index % 12).toNat + 1
  ofCivil? year month (min d.day (daysInMonth year month))

/-- The day of the week, from Sunday as zero. -/
def weekday (d : Date) : Int :=
  (d.toDays + 1) % 7

/--
The day number of the Sunday on or before a date, or of the date if the calendar starts later.
-/
def weekStart (d : Date) : Int :=
  let sunday := d.toDays - d.weekday
  if sunday < daysBeforeYear minYear then d.toDays else sunday

def compare (a b : Date) : Ordering :=
  (Ord.compare a.year b.year).then ((Ord.compare a.month b.month).then (Ord.compare a.day b.day))

end Date

end Calendar
end RecordSql
