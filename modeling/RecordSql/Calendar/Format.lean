import RecordSql.Calendar.DateTime
import RecordSql.Number.Layout
import RecordSql.Number.Read
import RecordSql.Text.Pieces

/-!
# Written dates

A date is written as year, month and day with dashes between them, a time as hour, minute and
second with colons; a blank or a `T` stands between the two.  Reading is lenient: blanks may stand
before each number, the leading zeros may be missing, and the seconds or the whole time may be left
out.
-/

namespace RecordSql
namespace Calendar

/-!
# Writing
-/

/-- The digits of `n` with zeros in front up to a width. -/
def padded (width n : Nat) : List Char :=
  let digits := Number.digitsOf n
  Number.zeros (width - digits.length) ++ digits

/-- Four digits for a year up to 9999, otherwise a sign and at least four digits. -/
def yearText (year : Int) : List Char :=
  if 0 ≤ year ∧ year ≤ 9999 then padded 4 year.toNat
  else (if year < 0 then '-' else '+') :: padded 4 year.natAbs

def Date.text (d : Date) : List Char :=
  yearText d.year ++ '-' :: padded 2 d.month ++ '-' :: padded 2 d.day

namespace DateTime

/-- Hour, minute and second; a leap second is the sixtieth. -/
def clockText (t : DateTime) : List Char :=
  padded 2 t.hour ++ ':' :: padded 2 t.minute ++ ':' :: padded 2 (t.sec + t.nanos / 1000000000)

/-- The form shown to people: no fraction of a second. -/
def text (t : DateTime) : String :=
  String.ofList (t.date.text ++ ' ' :: t.clockText)

/-- The fraction of the second with three, six or nine digits, as few as are exact. -/
def fractionText (t : DateTime) : List Char :=
  let nanos := t.nanos % 1000000000
  if nanos == 0 then []
  else if nanos % 1000000 == 0 then '.' :: padded 3 (nanos / 1000000)
  else if nanos % 1000 == 0 then '.' :: padded 6 (nanos / 1000)
  else '.' :: padded 9 nanos

/-- The form used in data documents: complete, with a `T` between date and time. -/
def iso (t : DateTime) : String :=
  String.ofList (t.date.text ++ 'T' :: t.clockText ++ t.fractionText)

end DateTime

/-!
# Reading

Every reader takes the characters that are left and returns what remains after its own part.
-/

/-- One to `width` digits. -/
def readDigits (width : Nat) (cs : List Char) : Option (Nat × List Char) :=
  let digits := (cs.take width).takeWhile Char.isDigit
  if digits.isEmpty then none
  else some (Number.natOfDigits digits, cs.drop digits.length)

/-- Blanks and then one or two digits between two bounds. -/
def readField (low high : Nat) (cs : List Char) : Option (Nat × List Char) := do
  let (n, rest) <- readDigits 2 (Text.dropBlanks cs)
  if low ≤ n ∧ n ≤ high then some (n, rest) else none

/-- Up to four digits, or a sign and any number of them. -/
def readYear (cs : List Char) : Option (Int × List Char) :=
  match Text.dropBlanks cs with
  | '-' :: rest => (readDigits rest.length rest).map fun (n, left) => (-(n : Int), left)
  | '+' :: rest => (readDigits rest.length rest).map fun (n, left) => ((n : Int), left)
  | rest => (readDigits 4 rest).map fun (n, left) => ((n : Int), left)

def readMark (mark : Char) : List Char -> Option (List Char)
  | c :: rest => if c == mark then some rest else none
  | [] => none

def readDate (cs : List Char) : Option (Date × List Char) := do
  let (year, rest) <- readYear cs
  let rest <- readMark '-' rest
  let (month, rest) <- readField 1 12 rest
  let rest <- readMark '-' rest
  let (day, rest) <- readField 1 31 rest
  let date <- Date.ofCivil? year month day
  some (date, rest)

/-- A fraction of a second in nanoseconds; digits after the ninth are passed over. -/
def readFraction (cs : List Char) : Option (Nat × List Char) :=
  match cs with
  | '.' :: rest => do
      let digits := (rest.take 9).takeWhile Char.isDigit
      if digits.isEmpty then none
      else
        let nanos := Number.natOfDigits digits * Nat.pow 10 (9 - digits.length)
        some (nanos, (rest.drop digits.length).dropWhile Char.isDigit)
  | rest => some (0, rest)

/-- The time after a date, up to the end of the text. -/
def readClock (d : Date) (cs : List Char) : Option DateTime := do
  let (hour, rest) <- readField 0 23 cs
  let rest <- readMark ':' rest
  let (minute, rest) <- readField 0 59 rest
  match rest with
  | [] => DateTime.ofClock? d hour minute 0 0
  | rest =>
      let rest <- readMark ':' rest
      let (sec, rest) <- readField 0 60 rest
      let (nanos, rest) <- readFraction rest
      if rest.isEmpty then
        if sec == 60 then DateTime.ofClock? d hour minute 59 (1000000000 + nanos)
        else DateTime.ofClock? d hour minute sec nanos
      else none

/-- The date and time that a text stands for, blanks around it aside. -/
def DateTime.read (s : String) : Option DateTime := do
  let (date, rest) <- readDate (Text.dropLastBlanks (Text.dropBlanks s.toList))
  match rest with
  | [] => some (DateTime.midnight date)
  | 'T' :: rest => readClock date rest
  | rest => readClock date (Text.dropBlanks rest)

end Calendar
end RecordSql
