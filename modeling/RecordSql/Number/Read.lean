import RecordSql.Number.Word

/-!
# Reading numbers

A whole number is an optional sign and at least one digit, in the 64 bit range.  A double is an
optional sign and either one of the words for infinity and not-a-number, in any case, or digits
with an optional point and an optional power of ten; at least one digit stands around the point.
-/

namespace RecordSql
namespace Number

def digitValue (c : Char) : Nat :=
  c.toNat - '0'.toNat

def natOfDigits (digits : List Char) : Nat :=
  digits.foldl (fun n c => 10 * n + digitValue c) 0

/-- The sign in front of a number and the rest. -/
def splitSign : List Char -> Bool × List Char
  | '-' :: rest => (true, rest)
  | '+' :: rest => (false, rest)
  | rest => (false, rest)

def readInt (text : List Char) : Option Int :=
  let (negative, digits) := splitSign text
  if digits.isEmpty || !digits.all Char.isDigit then none
  else
    let n : Int := natOfDigits digits
    checked (if negative then -n else n)

/-!
# Doubles

The digits around the point form one whole number; the power of ten counts the places after the
point.  A power too large or too small for any double is cut off before it is computed with.
-/

/-- The power of ten after the digits: `some 0` when there is none, `none` when it is malformed. -/
def readPower : List Char -> Option Int
  | [] => some 0
  | mark :: rest =>
      if mark == 'e' || mark == 'E' then
        let (negative, digits) := splitSign rest
        if digits.isEmpty || !digits.all Char.isDigit then none
        else
          let n : Int := natOfDigits digits
          some (if negative then -n else n)
      else none

/-- The double nearest to `digits * 10 ^ power`. -/
def nearest (digits : Nat) (power : Int) : Float :=
  let size : Int := (Nat.toDigits 10 digits).length
  if digits == 0 || size + power < -400 then 0.0
  else if size + power > 400 then 1.0 / 0.0
  else Float.ofScientific digits (power < 0) power.natAbs

def readMagnitude (text : List Char) : Option Float :=
  let whole := text.takeWhile Char.isDigit
  let rest := text.dropWhile Char.isDigit
  let (fraction, rest) :=
    match rest with
    | '.' :: after => (after.takeWhile Char.isDigit, after.dropWhile Char.isDigit)
    | rest => ([], rest)
  if whole.isEmpty && fraction.isEmpty then none
  else
    (readPower rest).map fun power =>
      nearest (natOfDigits (whole ++ fraction)) (power - fraction.length)

def readFloat (text : List Char) : Option Float :=
  let (negative, rest) := splitSign text
  let magnitude :=
    match readMagnitude rest with
    | some x => some x
    | none =>
        let word := String.ofList (rest.map Char.toLower)
        if word == "inf" || word == "infinity" then some (1.0 / 0.0)
        else if word == "nan" then some (0.0 / 0.0)
        else none
  magnitude.map fun x => if negative then -x else x

end Number
end RecordSql
