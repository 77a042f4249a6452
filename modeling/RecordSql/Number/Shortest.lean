import RecordSql.Number.Binary

/-!
# The fewest digits that read back

A positive double `m * 2 ^ q` stands for every real number that rounds to it: those between the
points halfway to its two neighbours, the ends included when `m` is even.  Its shortest decimal is
the number with the fewest digits in that interval, and of those the nearest to the double; when two
are equally near, the writer of the number says which one it takes.

The interval is kept in whole numbers, scaled by four so that both halfway points are whole.
-/

namespace RecordSql
namespace Number

/-- The number `digits * 10 ^ exponent`. -/
structure Decimal where
  digits : Nat
  exponent : Int
deriving DecidableEq, Repr

/-- Which of two equally near decimals to take: the larger, or the one with the even last digit. -/
inductive Tie where
  | up
  | even
deriving DecidableEq, Repr

/-- The reals that round to a double: `low`, `value` and `high` are in units of `1 / scale`. -/
structure Interval where
  low : Nat
  value : Nat
  high : Nat
  scale : Nat
  closed : Bool

def interval (m : Nat) (q : Int) : Interval :=
  let below := if m == Nat.pow 2 52 && q > -1074 then 1 else 2
  let up := Nat.pow 2 (q - 2).toNat
  { low := (4 * m - below) * up
    value := 4 * m * up
    high := (4 * m + 2) * up
    scale := Nat.pow 2 (2 - q).toNat
    closed := m % 2 == 0 }

namespace Interval

/-- Whether `n * 10 ^ k` lies in the interval. -/
def holds (r : Interval) (n : Nat) (k : Int) : Bool :=
  let here := n * Nat.pow 10 k.toNat * r.scale
  let unit := Nat.pow 10 (-k).toNat
  if r.closed then r.low * unit ≤ here && here ≤ r.high * unit
  else r.low * unit < here && here < r.high * unit

/--
The neighbour of the value among the multiples of `10 ^ k` that fits, the nearer one if both do.
-/
def onGrid (r : Interval) (tie : Tie) (k : Int) : Option Nat :=
  let top := r.value * Nat.pow 10 (-k).toNat
  let step := Nat.pow 10 k.toNat * r.scale
  let down := top / step
  let past := top % step
  let lower := 2 * past < step || (2 * past == step && tie == .even && down % 2 == 0)
  let nearer := if lower then down else down + 1
  let other := if lower then down + 1 else down
  if r.holds nearer k then some nearer
  else if r.holds other k then some other
  else none

end Interval

/-- The exponent of the leading digit: the largest `k ≤ start` with `10 ^ k` at most the value. -/
def leading (r : Interval) : Nat -> Int -> Int
  | 0, k => k
  | fuel + 1, k =>
      if Nat.pow 10 k.toNat * r.scale ≤ r.value * Nat.pow 10 (-k).toNat then k
      else leading r fuel (k - 1)

/-- The first of the grids with one, two, ... digits that meets the interval. -/
def search (r : Interval) (tie : Tie) (top : Int) : Nat -> Nat -> Decimal
  | 0, count => ⟨r.value * Nat.pow 10 ((count : Int) - top).toNat / r.scale, top - count⟩
  | fuel + 1, count =>
      let k := top - count
      match r.onGrid tie k with
      | some n => ⟨n, k⟩
      | none => search r tie top fuel (count + 1)

def stripZeros : Nat -> Decimal -> Decimal
  | 0, d => d
  | fuel + 1, d =>
      if d.digits % 10 == 0 && d.digits ≠ 0 then stripZeros fuel ⟨d.digits / 10, d.exponent + 1⟩
      else d

/-- The shortest decimal of the positive double `m * 2 ^ q`. -/
def shortest (tie : Tie) (m : Nat) (q : Int) : Decimal :=
  let r := interval m q
  let bits : Int := (Nat.log2 m : Int) + q
  let start := bits * 30103 / 100000 + 1
  stripZeros 20 (search r tie (leading r 3 start) 17 0)

end Number
end RecordSql
