import RecordSql.Json.Basic
import RecordSql.Number.Read

/-!
# Numbers in a document

A number without fraction and exponent that fits in 64 bits is a whole number; every other number is
a double.  A double is built from the first digits that fit in a 64 bit word and a power of ten: the
word is converted and multiplied or divided by the power, each step rounded once.
-/

namespace RecordSql
namespace Json

/-- The largest unsigned word of 64 bits. -/
def maxUnsigned : Nat := 18446744073709551615

/-- Whether the word still fits with one more digit. -/
def extends? (word : Nat) (digit : Char) : Option Nat :=
  let next := 10 * word + Number.digitValue digit
  if next ≤ maxUnsigned then some next else none

/-- The word formed by leading digits, and how many digits it left out. -/
def wholeWord (word : Nat) : List Char -> Nat × Nat
  | [] => (word, 0)
  | d :: rest =>
      match extends? word d with
      | some next => wholeWord next rest
      | none => (word, rest.length + 1)

/-- The word extended by digits after the point, and how many of them it took. -/
def fractionWord (word taken : Nat) : List Char -> Nat × Nat
  | [] => (word, taken)
  | d :: rest =>
      match extends? word d with
      | some next => fractionWord next (taken + 1) rest
      | none => (word, taken)

/-- A double times a power of ten; nothing when the result would be infinite. -/
def scale : Nat -> Float -> Int -> Option Float
  | 0, x, _ => some x
  | fuel + 1, x, power =>
      if power.natAbs ≤ 308 then
        let factor := Float.ofScientific 1 false power.natAbs
        if 0 ≤ power then
          let y := x * factor
          if y.isInf then none else some y
        else some (x / factor)
      else if x == 0.0 then some x
      else if 0 ≤ power then none
      else scale fuel (x / 1e308) (power + 308)

/-- The largest exponent that is computed with. -/
def maxPower : Nat := 2147483647

def numeral (negative : Bool) (whole fraction : List Char) (power : Option Int) : Option Json :=
  let (word, dropped) := wholeWord 0 whole
  let sign (x : Float) : Json := .float (if negative then -x else x)
  if fraction.isEmpty && power.isNone then
    if dropped == 0 then
      if negative then
        if word == 0 || 9223372036854775808 < word then some (sign (Float.ofNat word))
        else some (.int (-word))
      else some (.int word)
    else (scale 6 (Float.ofNat word) dropped).map sign
  else
    let (word, taken) := fractionWord word 0 fraction
    let start : Int := dropped - taken
    let power := power.getD 0
    if maxPower < power.natAbs then
      if word != 0 && 0 < power then none else some (sign 0.0)
    else (scale 6 (Float.ofNat word) (start + power)).map sign

end Json
end RecordSql
