/-!
# Binary fractions

A finite double is a sign, a whole significand and a power of two.  Reading these from the bit
pattern turns questions about doubles into questions about whole numbers.
-/

namespace RecordSql
namespace Number

/-- The number `significand * 2 ^ exponent`, with a sign kept apart so that zero has one too. -/
structure Binary where
  negative : Bool
  significand : Nat
  exponent : Int
deriving DecidableEq, Repr

inductive Decoded where
  | nan
  | infinite (negative : Bool)
  | finite (value : Binary)
deriving DecidableEq, Repr

def decode (x : Float) : Decoded :=
  let bits := x.toBits.toNat
  let negative := bits / Nat.pow 2 63 == 1
  let biased : Nat := bits / Nat.pow 2 52 % Nat.pow 2 11
  let fraction : Nat := bits % Nat.pow 2 52
  if biased == 2047 then
    if fraction == 0 then .infinite negative else .nan
  else if biased == 0 then .finite ⟨negative, fraction, -1074⟩
  else .finite ⟨negative, fraction + Nat.pow 2 52, (biased : Int) - 1075⟩

/-!
# Remainder and powers

The remainder of two doubles is exact: both are multiples of one power of two, and the remainder of
the two multiples is the answer.  It has the sign of the dividend.
-/

/-- The double `significand * 2 ^ exponent`, for a value that a double can hold. -/
def encode (b : Binary) : Float :=
  let magnitude := (Float.ofNat b.significand).scaleB b.exponent
  if b.negative then -magnitude else magnitude

/-- `n` without its factors of two, and how many it had, looking for at most `fuel` of them. -/
def oddPart : Nat -> Nat -> Nat × Nat
  | 0, n => (n, 0)
  | fuel + 1, n =>
      if n % 2 == 0 then
        let (odd, twos) := oddPart fuel (n / 2)
        (odd, twos + 1)
      else (n, 0)

def Binary.rem (a b : Binary) : Binary :=
  let least := min a.exponent b.exponent
  let dividend := a.significand * Nat.pow 2 (a.exponent - least).toNat
  let divisor := b.significand * Nat.pow 2 (b.exponent - least).toNat
  let (odd, twos) := oddPart 2200 (dividend % divisor)
  if odd == 0 then ⟨a.negative, 0, 0⟩ else ⟨a.negative, odd, least + twos⟩

def remainder (x y : Float) : Float :=
  match decode x, decode y with
  | .finite a, .finite b => if b.significand == 0 then 0.0 / 0.0 else encode (a.rem b)
  | .finite _, .infinite _ => x
  | _, _ => 0.0 / 0.0

/-- `base` to a natural power by repeated squaring, over the lowest `fuel` binary digits. -/
def powNat : Nat -> Float -> Nat -> Float -> Float
  | 0, _, _, acc => acc
  | fuel + 1, base, n, acc =>
      let acc := if n % 2 == 1 then acc * base else acc
      if n / 2 == 0 then acc else powNat fuel (base * base) (n / 2) acc

/-- `base` to a whole power; a negative power is the inverse of the positive one. -/
def powInt (base : Float) (n : Int) : Float :=
  let r := powNat 32 base n.natAbs 1.0
  if n < 0 then 1.0 / r else r

/-!
# Whole parts
-/

def truncate (x : Float) : Float :=
  if x < 0.0 then x.ceil else x.floor

def isWhole (x : Float) : Bool :=
  x - truncate x == 0.0

/-- The whole part of a double as a 64 bit integer, stopping at the ends of the range. -/
def toWord (x : Float) : Int :=
  x.toInt64.toInt

end Number
end RecordSql
