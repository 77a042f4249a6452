import RecordSql.Calendar.DateTime
import RecordSql.Number.Word

/-!
# Parts of a date

The parts of a date by which a query adds, counts and extracts.  A difference counts the boundaries
of a part between two times; milliseconds count the whole ones elapsed.
-/

namespace RecordSql
namespace Calendar

inductive Part where
  | year
  | quarter
  | month
  | dayOfYear
  | day
  | week
  | weekday
  | hour
  | minute
  | second
  | millisecond
deriving DecidableEq, Repr

namespace Part

/-- The part with the given lower-case name or abbreviation. -/
def ofName? : String -> Option Part
  | "year" | "yy" | "yyyy" => some .year
  | "quarter" | "qq" | "q" => some .quarter
  | "month" | "mm" | "m" => some .month
  | "dayofyear" | "dy" | "y" => some .dayOfYear
  | "day" | "dd" | "d" => some .day
  | "week" | "wk" | "ww" => some .week
  | "weekday" | "dw" => some .weekday
  | "hour" | "hh" => some .hour
  | "minute" | "mi" | "n" => some .minute
  | "second" | "ss" | "s" => some .second
  | "millisecond" | "ms" => some .millisecond
  | _ => none

/-!
# Adding

Years and quarters are months, everything else is a span of time.
-/

/-- `n` parts after `t`, when the calendar reaches that far. -/
def add (part : Part) (n : Int) (t : DateTime) : Option DateTime :=
  match part with
  | .year => t.addMonths (12 * n)
  | .quarter => t.addMonths (3 * n)
  | .month => t.addMonths n
  | .dayOfYear | .day | .weekday => t.shift (n * secondsInDay * Calendar.second)
  | .week => t.shift (7 * n * secondsInDay * Calendar.second)
  | .hour => t.shift (n * 3600 * Calendar.second)
  | .minute => t.shift (n * 60 * Calendar.second)
  | .second => t.shift (n * Calendar.second)
  | .millisecond => t.shift (n * 1000000)

/-!
# Counting
-/

def quarterIndex (t : DateTime) : Int :=
  4 * t.date.year + ((t.date.month - 1) / 3 : Nat)

/-- The hours since the first of January of the year one, and likewise for the finer parts. -/
def hourIndex (t : DateTime) : Int :=
  24 * t.date.toDays + t.hour

def minuteIndex (t : DateTime) : Int :=
  60 * hourIndex t + t.minute

def secondIndex (t : DateTime) : Int :=
  60 * minuteIndex t + t.sec

/-- The boundaries of the part between two times. -/
def diff (part : Part) (a b : DateTime) : Int :=
  match part with
  | .year => b.date.year - a.date.year
  | .quarter => quarterIndex b - quarterIndex a
  | .month => b.date.monthIndex - a.date.monthIndex
  | .dayOfYear | .day | .weekday => b.date.toDays - a.date.toDays
  | .week => (b.date.weekStart - a.date.weekStart).tdiv 7
  | .hour => hourIndex b - hourIndex a
  | .minute => minuteIndex b - minuteIndex a
  | .second => secondIndex b - secondIndex a
  | .millisecond => (a.span b).tdiv 1000000

/-!
# Extracting
-/

/-- The week of the year; weeks begin on Sunday and the first one holds the first of January. -/
def weekOfYear (d : Date) : Int :=
  let firstWeekday := (Date.daysBeforeYear d.year + 1) % 7
  (d.ordinal + firstWeekday) / 7 + 1

def extract (part : Part) (t : DateTime) : Int :=
  match part with
  | .year => t.date.year
  | .quarter => ((t.date.month - 1) / 3 : Nat) + 1
  | .month => t.date.month
  | .dayOfYear => t.date.ordinal + 1
  | .day => t.date.day
  | .week => weekOfYear t.date
  | .weekday => t.date.weekday + 1
  | .hour => t.hour
  | .minute => t.minute
  | .second => t.sec
  | .millisecond => (t.nanos / 1000000 : Nat)

end Part

end Calendar
end RecordSql
