import RecordSql.Number.Shortest

/-!
# Layouts of a decimal

The shortest digits of a double are written in one of two ways.  Text shows every digit in its
place and never an exponent, and takes the larger of two equally near decimals.  A data document
keeps a fraction of at least one digit, uses an exponent for very small and very large numbers, and
takes the even one.
-/

namespace RecordSql
namespace Number

def digitsOf (n : Nat) : List Char :=
  Nat.toDigits 10 n

def zeros (n : Nat) : List Char :=
  List.replicate n '0'

/-- The digits of a decimal in their places, without a fraction when it is whole. -/
def inPlace (d : Decimal) : List Char :=
  let digits := digitsOf d.digits
  if 0 ≤ d.exponent then digits ++ zeros d.exponent.toNat
  else
    let places := (-d.exponent).toNat
    if places < digits.length then
      digits.take (digits.length - places) ++ '.' :: digits.drop (digits.length - places)
    else '0' :: '.' :: zeros (places - digits.length) ++ digits

/-- One digit before the point, and the power of ten it stands for with its sign. -/
def withExponent (d : Decimal) : List Char :=
  let digits := digitsOf d.digits
  let power := d.exponent + digits.length - 1
  let fraction := digits.drop 1
  digits.take 1 ++ (if fraction.isEmpty then [] else '.' :: fraction) ++
    'e' :: (if power < 0 then '-' else '+') :: digitsOf power.natAbs

def signed (negative : Bool) (text : List Char) : List Char :=
  if negative then '-' :: text else text

/-- The text of a double: every digit in place. -/
def floatText (x : Float) : String :=
  match decode x with
  | .nan => "NaN"
  | .infinite negative => String.ofList (signed negative "inf".toList)
  | .finite b =>
      if b.significand == 0 then String.ofList (signed b.negative ['0'])
      else String.ofList (signed b.negative (inPlace (shortest .up b.significand b.exponent)))

/-- The powers of ten of the leading digit that a data document writes in place. -/
def writtenInPlace (power : Int) : Bool :=
  -5 ≤ power && power ≤ 15

/-- The text of a double in a data document, or nothing for a value that has none there. -/
def documentText (x : Float) : Option String :=
  match decode x with
  | .finite b =>
      if b.significand == 0 then some (String.ofList (signed b.negative "0.0".toList))
      else
        let d := shortest .even b.significand b.exponent
        let power := d.exponent + (digitsOf d.digits).length - 1
        let text :=
          if writtenInPlace power then
            inPlace d ++ (if 0 ≤ d.exponent then ['.', '0'] else [])
          else withExponent d
        some (String.ofList (signed b.negative text))
  | _ => none

/-- The text of a whole number. -/
def intText (i : Int) : String :=
  String.ofList (signed (i < 0) (digitsOf i.natAbs))

end Number
end RecordSql
