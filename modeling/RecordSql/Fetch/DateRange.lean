import RecordSql.Calendar.DateTime
import RecordSql.Fetch.Operator
import RecordSql.Platform.Error

/-!
# Relative dates

A relative date operator accepts the instants of a half-open range, which is measured from the
current time.  Weeks begin on Sunday.
-/

namespace RecordSql
namespace Fetch

open Calendar (Date DateTime)

structure DateRange where
  /-- The first instant, if there is one. -/
  start : Option DateTime
  /-- The first instant after the range. -/
  stop : DateTime

def DateRange.contains (r : DateRange) (t : DateTime) : Bool :=
  r.start.all (·.le t) && t.lt r.stop

def hour : Int := 3600 * Calendar.second

def day : Int := Calendar.secondsInDay * Calendar.second

def today (now : DateTime) : DateTime :=
  .midnight now.date

def addDays (t : DateTime) (n : Int) : Option DateTime :=
  t.shift (n * day)

def monthStart (now : DateTime) : DateTime :=
  .midnight ((Date.ofCivil? now.date.year now.date.month 1).getD now.date)

def yearStart (now : DateTime) : DateTime :=
  .midnight ((Date.ofCivil? now.date.year 1 1).getD now.date)

/-- The start of the period that comes `n` periods after the current one. -/
def boundary (now : DateTime) (period : Period) (n : Int) : Option DateTime :=
  match period with
  | .day => addDays (today now) n
  | .week => addDays (today now) (7 * n - now.date.weekday)
  | .month => (monthStart now).addMonths n
  | .year => (yearStart now).addMonths (12 * n)

def Which.offset : Which -> Int
  | last => -1
  | current => 0
  | next => 1

/-- The instant that lies `n` spans before the current time or day. -/
def before (now : DateTime) (span : Span) (n : Int) : Option DateTime :=
  match span with
  | .hours => now.shift (-n * hour)
  | .days => addDays (today now) (-n)
  | .weeks => addDays (today now) (-7 * n)
  | .months => (today now).addMonths (-n)
  | .years => (today now).addMonths (-12 * n)

/-- The instant at which the next `n` spans are over; all but hours end with a day. -/
def after (now : DateTime) (span : Span) (n : Int) : Option DateTime :=
  match span with
  | .hours => now.shift (n * hour)
  | .days => addDays (today now) (n + 1)
  | .weeks => addDays (today now) (7 * n + 1)
  | .months => (addDays (today now) 1).bind (·.addMonths n)
  | .years => (addDays (today now) 1).bind (·.addMonths (12 * n))

def outOfRange (op : Operator) : PlatformError :=
  .fault ("The " ++ op.name ++ " value is out of range")

def unsupported (op : Operator) : PlatformError :=
  .fault ("The condition operator " ++ op.name ++ " is not supported")

/--
The range of a relative date operator, given the number that the condition holds.  A range that
leaves the calendar is a failure.
-/
def dateRange (now : DateTime) (op : Operator) (number : Except PlatformError Int) :
    Except PlatformError DateRange := do
  let reach (t : Option DateTime) : Except PlatformError DateTime :=
    match t with
    | some t => .ok t
    | none => .error (outOfRange op)
  let _ <- reach (boundary now .week 0)
  match op with
  | .within period which =>
      let start <- reach (boundary now period which.offset)
      let stop <- reach (boundary now period (which.offset + 1))
      return ⟨some start, stop⟩
  | .lastSevenDays => return ⟨some (<- reach (addDays (today now) (-7))), now⟩
  | .nextSevenDays => return ⟨some now, <- reach (addDays (today now) 8)⟩
  | .last span => return ⟨some (<- reach (before now span (<- number))), now⟩
  | .next span =>
      if span == .months || span == .years then
        let _ <- reach (addDays (today now) 1)
      return ⟨some now, <- reach (after now span (<- number))⟩
  | .olderThanDays => return ⟨none, <- reach (addDays now (-(<- number)))⟩
  | .olderThanMonths => return ⟨none, <- reach (now.addMonths (-(<- number)))⟩
  | .olderThanYears => return ⟨none, <- reach (now.addMonths (-12 * (<- number)))⟩
  | _ => .error (unsupported op)

end Fetch
end RecordSql
