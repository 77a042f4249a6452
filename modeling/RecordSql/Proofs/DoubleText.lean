import Mathlib.Algebra.Order.Field.Power
import Mathlib.Algebra.Order.Field.Rat
import Mathlib.Data.Nat.Log
import Mathlib.Tactic.FieldSimp
import Mathlib.Tactic.Linarith
import Mathlib.Tactic.NormNum
import Mathlib.Tactic.Positivity
import Mathlib.Tactic.Ring
import RecordSql.Proofs.DocumentText

/-!
# Texts of doubles can be told apart

The shortest digits of a double lie among the numbers that round to it, and no number rounds to two
doubles.  Hence the text of a double with a fraction determines the double.  The text of a whole one
is that of the whole number, and so is left out.
-/

namespace RecordSql
namespace Number

/-!
# Bit patterns
-/

/-- A finite double other than zero has this significand and this power of two. -/
structure IsDouble (m : Nat) (q : Int) : Prop where
  positive : 0 < m
  small : m < 2 ^ 53
  least : -1074 ≤ q
  greatest : q ≤ 971
  /-- Only the smallest doubles have fewer digits. -/
  full : -1074 < q -> 2 ^ 52 ≤ m

theorem isDouble_of_decode {x : Float} {b : Binary} (h : decode x = .finite b)
    (hzero : b.significand ≠ 0) : IsDouble b.significand b.exponent := by
  have hfraction : x.toBits.toNat % Nat.pow 2 52 < 2 ^ 52 := Nat.mod_lt _ (by decide)
  have hbiased : x.toBits.toNat / Nat.pow 2 52 % Nat.pow 2 11 < 2 ^ 11 := Nat.mod_lt _ (by decide)
  simp only [decode] at h
  generalize x.toBits.toNat % Nat.pow 2 52 = fraction at *
  generalize x.toBits.toNat / Nat.pow 2 52 % Nat.pow 2 11 = biased at *
  split at h
  · split at h <;> cases h
  · rename_i hspecial
    split at h
    · cases h
      exact ⟨Nat.pos_of_ne_zero hzero, by simp only; omega, by simp only; omega,
        by simp only; omega, fun hq => absurd hq (by simp only; omega)⟩
    · rename_i hsubnormal
      cases h
      simp only [beq_iff_eq] at hspecial hsubnormal
      have hpow : Nat.pow 2 52 = 2 ^ 52 := rfl
      exact ⟨Nat.pos_of_ne_zero hzero, by simp only [hpow]; omega, by simp only; omega,
        by simp only; omega, fun _ => by simp only [hpow]; omega⟩

theorem toBits_inj {x y : Float} (h : x.toBits = y.toBits) : x = y := by
  rcases x with ⟨xbits, _⟩
  rcases y with ⟨ybits, _⟩
  cases (show xbits = ybits from h)
  rfl

/-- The parts of a finite double are those of no other. -/
theorem eq_of_decode {x y : Float} {b : Binary} (hx : decode x = .finite b)
    (hy : decode y = .finite b) : x = y := by
  have hxbound : x.toBits.toNat < 2 ^ 64 := x.toBits.toNat_lt
  have hybound : y.toBits.toNat < 2 ^ 64 := y.toBits.toNat_lt
  apply toBits_inj
  apply UInt64.toNat.inj
  rw [<- hy] at hx
  simp only [decode, show Nat.pow 2 63 = 2 ^ 63 from rfl, show Nat.pow 2 52 = 2 ^ 52 from rfl,
    show Nat.pow 2 11 = 2 ^ 11 from rfl] at hx hy
  generalize x.toBits.toNat = n at *
  generalize y.toBits.toNat = k at *
  simp only [beq_iff_eq] at hx hy
  split_ifs at hx hy <;> cases hy <;>
    simp only [Decoded.finite.injEq, Binary.mk.injEq] at hx <;>
    rcases hx with ⟨hsign, hsignificand, hexponent⟩ <;>
    simp only [Bool.beq_eq_decide_eq, decide_eq_decide] at hsign <;> omega

/-!
# Exact comparisons

A comparison of whole numbers stands for one of fractions, both sides cleared of denominators.
-/

theorem zpow_mul_pow_toNat (k : Int) :
    (10 : Rat) ^ k * (Nat.pow 10 (-k).toNat : Nat) = (Nat.pow 10 k.toNat : Nat) := by
  simp only [Nat.pow_eq, Nat.cast_pow, Nat.cast_ofNat]
  rw [<- zpow_natCast, <- zpow_natCast, <- zpow_add₀ (by norm_num)]
  congr 1
  omega

section Comparison

variable {a n s : Nat} {k : Int}

theorem scaled_left (hs : 0 < s) (a : Nat) (k : Int) :
    (a : Rat) / s * (Nat.pow 10 (-k).toNat * s : Nat) = (a * Nat.pow 10 (-k).toNat : Nat) := by
  have hs' : (s : Rat) ≠ 0 := by positivity
  push_cast
  field_simp

theorem scaled_right (n s : Nat) (k : Int) :
    (n : Rat) * 10 ^ k * (Nat.pow 10 (-k).toNat * s : Nat) =
      (n * Nat.pow 10 k.toNat * s : Nat) := by
  calc (n : Rat) * 10 ^ k * (Nat.pow 10 (-k).toNat * s : Nat)
      = n * (10 ^ k * (Nat.pow 10 (-k).toNat : Nat)) * s := by push_cast; ring
    _ = (n * Nat.pow 10 k.toNat * s : Nat) := by rw [zpow_mul_pow_toNat]; push_cast; ring

theorem scale_pos (hs : 0 < s) (k : Int) : (0 : Rat) < (Nat.pow 10 (-k).toNat * s : Nat) := by
  have hpow : 0 < Nat.pow 10 (-k).toNat := Nat.pow_pos (by decide)
  exact_mod_cast Nat.mul_pos hpow hs

theorem scaled_lt_iff (hs : 0 < s) :
    a * Nat.pow 10 (-k).toNat < n * Nat.pow 10 k.toNat * s <-> (a : Rat) / s < n * 10 ^ k := by
  rw [<- mul_lt_mul_iff_of_pos_right (scale_pos hs k), scaled_left hs, scaled_right, Nat.cast_lt]

theorem lt_scaled_iff (hs : 0 < s) :
    n * Nat.pow 10 k.toNat * s < a * Nat.pow 10 (-k).toNat <-> n * 10 ^ k < (a : Rat) / s := by
  rw [<- mul_lt_mul_iff_of_pos_right (scale_pos hs k), scaled_left hs, scaled_right, Nat.cast_lt]

theorem scaled_le_iff (hs : 0 < s) :
    a * Nat.pow 10 (-k).toNat ≤ n * Nat.pow 10 k.toNat * s <-> (a : Rat) / s ≤ n * 10 ^ k := by
  rw [<- not_lt, <- not_lt, lt_scaled_iff hs]

theorem le_scaled_iff (hs : 0 < s) :
    n * Nat.pow 10 k.toNat * s ≤ a * Nat.pow 10 (-k).toNat <-> n * 10 ^ k ≤ (a : Rat) / s := by
  rw [<- not_lt, <- not_lt, scaled_lt_iff hs]

end Comparison

/-!
# The numbers that round to a double
-/

/-- A quarter of the distance to the next double. -/
def quarter (q : Int) : Rat :=
  2 ^ (q - 2)

theorem quarter_pos (q : Int) : 0 < quarter q :=
  zpow_pos (by norm_num) _

/-- How many quarters below the double its interval starts. -/
def quartersBelow (m : Nat) (q : Int) : Nat :=
  if m == Nat.pow 2 52 && q > -1074 then 1 else 2

/-- The number rounds to the double; halfway between two doubles it rounds to the even one. -/
def RoundsTo (m : Nat) (q : Int) (v : Rat) : Prop :=
  if m % 2 = 0 then
    (4 * m - quartersBelow m q) * quarter q ≤ v ∧ v ≤ (4 * m + 2) * quarter q
  else (4 * m - quartersBelow m q) * quarter q < v ∧ v < (4 * m + 2) * quarter q

theorem quartersBelow_le (m : Nat) (q : Int) : quartersBelow m q ≤ 2 := by
  rw [quartersBelow]
  split <;> omega

theorem scale_interval_pos (m : Nat) (q : Int) : 0 < (interval m q).scale :=
  Nat.pow_pos (by decide)

/-- An end of the interval, in quarters. -/
theorem end_eq (n : Nat) (q : Int) :
    ((n * Nat.pow 2 (q - 2).toNat : Nat) : Rat) / (Nat.pow 2 (2 - q).toNat : Nat) =
      n * quarter q := by
  have hpow : (2 : Rat) ^ (q - 2) * (Nat.pow 2 (2 - q).toNat : Nat) =
      (Nat.pow 2 (q - 2).toNat : Nat) := by
    simp only [Nat.pow_eq, Nat.cast_pow, Nat.cast_ofNat]
    rw [<- zpow_natCast, <- zpow_natCast, <- zpow_add₀ (by norm_num)]
    congr 1
    omega
  have hpos : ((Nat.pow 2 (2 - q).toNat : Nat) : Rat) ≠ 0 := by
    exact_mod_cast (Nat.pow_pos (by decide)).ne'
  rw [div_eq_iff hpos, quarter, mul_assoc, hpow]
  push_cast
  ring

theorem holds_interval_iff {m n : Nat} {q k : Int} (hm : 0 < m) :
    (interval m q).holds n k = true <-> RoundsTo m q (n * 10 ^ k) := by
  have hs := scale_interval_pos m q
  have hlow : ((interval m q).low : Rat) / (interval m q).scale =
      (4 * m - quartersBelow m q) * quarter q := by
    have hcast : ((4 * m - quartersBelow m q : Nat) : Rat) = 4 * m - quartersBelow m q := by
      have hbelow := quartersBelow_le m q
      rw [Nat.cast_sub (by omega)]
      push_cast
      rfl
    rw [<- hcast]
    exact end_eq _ q
  have hhigh : ((interval m q).high : Rat) / (interval m q).scale = (4 * m + 2) * quarter q := by
    have hcast : ((4 * m + 2 : Nat) : Rat) = 4 * m + 2 := by
      push_cast
      rfl
    rw [<- hcast]
    exact end_eq _ q
  have hclosed : (interval m q).closed = (m % 2 == 0) := rfl
  simp only [Interval.holds, RoundsTo, hclosed, beq_iff_eq]
  split
  · rw [Bool.and_eq_true, decide_eq_true_iff, decide_eq_true_iff, scaled_le_iff hs,
      le_scaled_iff hs, hlow, hhigh]
  · rw [Bool.and_eq_true, decide_eq_true_iff, decide_eq_true_iff, scaled_lt_iff hs,
      lt_scaled_iff hs, hlow, hhigh]

/-- What rounds to a double is not above its interval, and at the end only if that counts. -/
theorem RoundsTo.le_high {m : Nat} {q : Int} {v : Rat} (h : RoundsTo m q v) :
    v ≤ (4 * m + 2) * quarter q ∧ (m % 2 = 1 -> v < (4 * m + 2) * quarter q) := by
  rw [RoundsTo] at h
  split at h
  · exact ⟨h.2, by omega⟩
  · exact ⟨h.2.le, fun _ => h.2⟩

theorem RoundsTo.low_le {m : Nat} {q : Int} {v : Rat} (h : RoundsTo m q v) :
    (4 * m - quartersBelow m q) * quarter q ≤ v ∧
      (m % 2 = 1 -> (4 * m - quartersBelow m q) * quarter q < v) := by
  rw [RoundsTo] at h
  split at h
  · exact ⟨h.1, by omega⟩
  · exact ⟨h.1.le, fun _ => h.1⟩

theorem RoundsTo.of_lt {m : Nat} {q : Int} {v : Rat}
    (hlow : (4 * m - quartersBelow m q) * quarter q < v) (hhigh : v < (4 * m + 2) * quarter q) :
    RoundsTo m q v := by
  rw [RoundsTo]
  split
  · exact ⟨hlow.le, hhigh.le⟩
  · exact ⟨hlow, hhigh⟩

/-- Of two doubles with the same power of two, no number rounds to both. -/
theorem not_roundsTo_larger {m n : Nat} {q : Int} {v : Rat} (hlt : m < n) (h : RoundsTo m q v) :
    ¬ RoundsTo n q v := by
  intro h'
  have hpos := quarter_pos q
  have hbelow : (quartersBelow n q : Rat) ≤ 2 := by exact_mod_cast quartersBelow_le n q
  rcases h.le_high with ⟨hhigh, hopen⟩
  rcases h'.low_le with ⟨hlow, hopen'⟩
  rcases Nat.lt_or_ge (m + 1) n with hgap | hnext
  · have hcast : (m : Rat) + 2 ≤ n := by exact_mod_cast hgap
    nlinarith
  · -- neighbours: one of the two significands is odd, so the halfway point belongs to one only
    have hn : n = m + 1 := by omega
    subst hn
    push_cast at hlow hopen'
    rcases Nat.mod_two_eq_zero_or_one m with heven | hodd
    · have hstrict := hopen' (by omega)
      nlinarith
    · have hstrict := hopen hodd
      nlinarith

/-- Every double with a full significand lies above this bound, and its interval too. -/
theorem RoundsTo.full_le {n : Nat} {p : Int} {v : Rat} (hn : IsDouble n p) (hp : -1074 < p)
    (h : RoundsTo n p v) : (2 ^ 54 - 1) * quarter p ≤ v := by
  have hpos := quarter_pos p
  have hlow := h.low_le.1
  rcases Nat.eq_or_lt_of_le (hn.full hp) with rfl | hgt
  · have hone : quartersBelow (2 ^ 52) p = 1 := by
      rw [quartersBelow, if_pos]
      simpa only [Nat.pow_eq, beq_self_eq_true, Bool.true_and, decide_eq_true_eq] using hp
    rw [hone] at hlow
    norm_num at hlow ⊢
    exact hlow
  · have hbelow : (quartersBelow n p : Rat) ≤ 2 := by exact_mod_cast quartersBelow_le n p
    have hcast : (2 : Rat) ^ 52 + 1 ≤ n := by exact_mod_cast hgt
    nlinarith

/-- Of two doubles with different powers of two, no number rounds to both. -/
theorem not_roundsTo_greater {m n : Nat} {q p : Int} {v : Rat} (hm : IsDouble m q)
    (hn : IsDouble n p) (hlt : q < p) (h : RoundsTo m q v) : ¬ RoundsTo n p v := by
  intro h'
  have hpos := quarter_pos q
  have htwice : 2 * quarter q ≤ quarter p := by
    have hpow : 2 * quarter q = 2 ^ (q - 1) := by
      rw [quarter, show q - 1 = 1 + (q - 2) by ring, zpow_add₀ (by norm_num), zpow_one]
    rw [hpow, quarter]
    exact zpow_le_zpow_right₀ (by norm_num) (by omega)
  have hlow := h'.full_le hn (lt_of_le_of_lt hm.least hlt)
  rcases h.le_high with ⟨hhigh, hopen⟩
  by_cases hlast : m + 1 = 2 ^ 53
  · -- the last double of its power of two is odd, so its upper end does not count
    have hstrict := hopen (by omega)
    have hcast : (m : Rat) + 1 = 2 ^ 53 := by exact_mod_cast hlast
    nlinarith
  · have hcast : (m : Rat) + 2 ≤ 2 ^ 53 := by
      have hsmall := hm.small
      exact_mod_cast (show m + 2 ≤ 2 ^ 53 by omega)
    nlinarith

/-- No number rounds to two doubles. -/
theorem RoundsTo.unique {m n : Nat} {q p : Int} {v : Rat} (hm : IsDouble m q) (hn : IsDouble n p)
    (h : RoundsTo m q v) (h' : RoundsTo n p v) : m = n ∧ q = p := by
  rcases lt_trichotomy q p with hlt | rfl | hgt
  · exact absurd h' (not_roundsTo_greater hm hn hlt h)
  · rcases Nat.lt_trichotomy m n with hlt | rfl | hgt
    · exact absurd h' (not_roundsTo_larger hlt h)
    · exact ⟨rfl, rfl⟩
    · exact absurd h (not_roundsTo_larger hgt h')
  · exact absurd h (not_roundsTo_greater hn hm hgt h')

/-!
# The search for the shortest digits
-/

/-- The double itself, in quarters. -/
theorem value_interval (m : Nat) (q : Int) :
    ((interval m q).value : Rat) / (interval m q).scale = 4 * m * quarter q := by
  have hcast : ((4 * m : Nat) : Rat) = 4 * m := by push_cast; rfl
  rw [<- hcast]
  exact end_eq _ q

theorem holds_of_onGrid {r : Interval} {tie : Tie} {k : Int} {n : Nat}
    (h : r.onGrid tie k = some n) : r.holds n k = true := by
  simp only [Interval.onGrid] at h
  split_ifs at h with hlower hnearer hother hnearer hother <;> cases h <;> assumption

/-- On every grid, a neighbour of the double is at most half a step away. -/
theorem half_step (top : Nat) {step : Nat} (hstep : 0 < step) (lower : Bool)
    (hlower : lower = true -> 2 * (top % step) ≤ step)
    (hupper : lower = false -> step ≤ 2 * (top % step)) :
    2 * ((if lower then top / step else top / step + 1) * step) ≤ 2 * top + step ∧
      2 * top ≤ 2 * ((if lower then top / step else top / step + 1) * step) + step := by
  have hdiv := Nat.div_add_mod' top step
  have hmod := Nat.mod_lt top hstep
  cases lower with
  | true =>
      have hhalf := hlower rfl
      simp only [if_true]
      omega
  | false =>
      have hhalf := hupper rfl
      simp only [Bool.false_eq_true, if_false, Nat.add_mul, Nat.one_mul]
      omega

/-- A number within half of a fine step of the double rounds to it. -/
theorem roundsTo_of_near {m : Nat} {q : Int} {v step : Rat} (h : IsDouble m q)
    (hfine : step * 10 ^ 16 ≤ 4 * m * quarter q) (hlow : 2 * (4 * m * quarter q) ≤ 2 * v + step)
    (hhigh : 2 * v ≤ 2 * (4 * m * quarter q) + step) : RoundsTo m q v := by
  have hpos := quarter_pos q
  have hsmall : (m : Rat) + 1 ≤ 2 ^ 53 := by exact_mod_cast h.small
  apply RoundsTo.of_lt
  · by_cases hpower : m = 2 ^ 52
    · have hbelow : (1 : Rat) ≤ quartersBelow m q := by
        rw [quartersBelow]
        split <;> norm_num
      have hcast : (m : Rat) = 2 ^ 52 := by exact_mod_cast hpower
      nlinarith
    · have hbelow : quartersBelow m q = 2 := by
        rw [quartersBelow, if_neg]
        simp only [Bool.and_eq_true, beq_iff_eq, not_and]
        exact fun heq => absurd heq hpower
      rw [hbelow]
      push_cast
      nlinarith
  · nlinarith

/-- On a grid that is fine enough, a neighbour of the double rounds to it. -/
theorem isSome_onGrid {m : Nat} {q k : Int} (tie : Tie) (h : IsDouble m q)
    (hfine : (10 : Rat) ^ k * 10 ^ 16 ≤ 4 * m * quarter q) :
    ((interval m q).onGrid tie k).isSome = true := by
  have hs := scale_interval_pos m q
  have hpow : 0 < Nat.pow 10 k.toNat := Nat.pow_pos (by decide)
  simp only [Interval.onGrid]
  generalize htop : (interval m q).value * Nat.pow 10 (-k).toNat = top
  generalize hstep : Nat.pow 10 k.toNat * (interval m q).scale = step
  generalize hlower : (decide (2 * (top % step) < step) ||
    2 * (top % step) == step && tie == .even && top / step % 2 == 0) = lower
  have hstep' : 0 < step := hstep ▸ Nat.mul_pos hpow hs
  have hnear := half_step top hstep' lower
    (by
      intro hl
      rw [hl] at hlower
      simp only [Bool.or_eq_true, decide_eq_true_eq, Bool.and_eq_true, beq_iff_eq] at hlower
      omega)
    (by
      intro hl
      rw [hl] at hlower
      simp only [Bool.or_eq_false_iff, decide_eq_false_iff_not] at hlower
      omega)
  generalize (if lower = true then top / step else top / step + 1) = nearer at hnear ⊢
  have hholds : (interval m q).holds nearer k = true := by
    rw [holds_interval_iff h.positive]
    have hD := scale_pos hs k
    have hvalue := scaled_left hs (interval m q).value k
    have hgrid := scaled_right nearer (interval m q).scale k
    have hone := scaled_right 1 (interval m q).scale k
    rw [value_interval, htop] at hvalue
    rw [Nat.mul_assoc, hstep] at hgrid
    rw [Nat.one_mul, hstep, Nat.cast_one, one_mul] at hone
    rcases hnear with ⟨hhigh, hlow⟩
    have hhigh' : (2 : Rat) * (nearer * step : Nat) ≤ 2 * top + step := by exact_mod_cast hhigh
    have hlow' : (2 : Rat) * top ≤ 2 * (nearer * step : Nat) + step := by exact_mod_cast hlow
    rw [<- hgrid, <- hvalue, <- hone] at hhigh' hlow'
    refine roundsTo_of_near h hfine ?_ ?_
    · refine le_of_mul_le_mul_right ?_ hD
      linarith
    · refine le_of_mul_le_mul_right ?_ hD
      linarith
  rw [if_pos hholds]
  rfl

/-- The search ends in the interval if one of the grids it looks at meets it. -/
theorem holds_search {r : Interval} {tie : Tie} {top : Int} {fuel count : Nat} (last : Nat)
    (hlast : (r.onGrid tie (top - last)).isSome = true) (hcount : count ≤ last)
    (hfuel : last < count + fuel) :
    r.holds (search r tie top fuel count).digits (search r tie top fuel count).exponent = true := by
  induction fuel generalizing count with
  | zero =>
      omega
  | succ fuel ih =>
      rw [search]
      split
      · rename_i n hn
        exact holds_of_onGrid hn
      · rename_i hnone
        rcases Nat.eq_or_lt_of_le hcount with rfl | hlt
        · rw [hnone] at hlast
          cases hlast
        · exact ih hlt (by omega)

theorem value_stripZeros (fuel : Nat) (d : Decimal) :
    ((stripZeros fuel d).digits : Rat) * 10 ^ (stripZeros fuel d).exponent =
      d.digits * 10 ^ d.exponent := by
  induction fuel generalizing d with
  | zero =>
      rfl
  | succ fuel ih =>
      rw [stripZeros]
      split
      · rename_i hzero
        simp only [Bool.and_eq_true, beq_iff_eq] at hzero
        have hdigits : (d.digits : Rat) = 10 * (d.digits / 10 : Nat) := by
          exact_mod_cast (show d.digits = 10 * (d.digits / 10) by omega)
        rw [ih, hdigits, zpow_add₀ (by norm_num), zpow_one]
        ring
      · rfl

/-!
# The first digit
-/

theorem ten_pow_le_two_pow {j n : Nat} (h : 10 * j ≤ 3 * n) : 10 ^ j ≤ 2 ^ n := by
  apply (Nat.pow_le_pow_iff_left (show 3 ≠ 0 by decide)).mp
  calc (10 ^ j) ^ 3 = (10 ^ 3) ^ j := by rw [<- Nat.pow_mul, <- Nat.pow_mul, Nat.mul_comm]
    _ ≤ (2 ^ 10) ^ j := Nat.pow_le_pow_left (by decide) j
    _ = 2 ^ (10 * j) := by rw [<- Nat.pow_mul]
    _ ≤ 2 ^ (3 * n) := Nat.pow_le_pow_right (by decide) h
    _ = (2 ^ n) ^ 3 := by rw [<- Nat.pow_mul, Nat.mul_comm]

theorem two_pow_le_ten_pow {j n : Nat} (h : 28 * n ≤ 93 * j) : 2 ^ n ≤ 10 ^ j := by
  apply (Nat.pow_le_pow_iff_left (show 28 ≠ 0 by decide)).mp
  calc (2 ^ n) ^ 28 = 2 ^ (28 * n) := by rw [<- Nat.pow_mul, Nat.mul_comm]
    _ ≤ 2 ^ (93 * j) := Nat.pow_le_pow_right (by decide) h
    _ = (2 ^ 93) ^ j := by rw [<- Nat.pow_mul]
    _ ≤ (10 ^ 28) ^ j := Nat.pow_le_pow_left (by decide) j
    _ = (10 ^ j) ^ 28 := by rw [<- Nat.pow_mul, <- Nat.pow_mul, Nat.mul_comm]

/-- The estimate of the first digit, less three places, is not above the power of two. -/
theorem estimate_le {b : Int} (hlow : -1074 ≤ b) (hhigh : b ≤ 1023) :
    (10 : Rat) ^ (b * 30103 / 100000 + 1 - 3) ≤ 2 ^ b := by
  generalize hk : b * 30103 / 100000 + 1 - 3 = k
  rcases Int.lt_or_le k 0 with hneg | hnonneg
  · rcases Int.lt_or_le b 0 with hbneg | hbnonneg
    · have hpow := two_pow_le_ten_pow (j := (-k).toNat) (n := (-b).toNat) (by omega)
      have hcast : (2 : Rat) ^ (-b).toNat ≤ 10 ^ (-k).toNat := by exact_mod_cast hpow
      rw [<- zpow_natCast, <- zpow_natCast, Int.toNat_of_nonneg (by omega),
        Int.toNat_of_nonneg (by omega), zpow_neg, zpow_neg] at hcast
      exact (inv_le_inv₀ (zpow_pos (by norm_num) _) (zpow_pos (by norm_num) _)).mp hcast
    · calc (10 : Rat) ^ k ≤ 1 := zpow_le_one_of_nonpos₀ (by norm_num) hneg.le
        _ ≤ 2 ^ b := one_le_zpow₀ (by norm_num) hbnonneg
  · have hpow := ten_pow_le_two_pow (j := k.toNat) (n := b.toNat) (by omega)
    have hcast : (10 : Rat) ^ k.toNat ≤ 2 ^ b.toNat := by exact_mod_cast hpow
    rwa [<- zpow_natCast, <- zpow_natCast, Int.toNat_of_nonneg (by omega),
      Int.toNat_of_nonneg (by omega)] at hcast

theorem leading_le {r : Interval} (hs : 0 < r.scale) (fuel : Nat) {k : Int}
    (h : (10 : Rat) ^ (k - fuel) ≤ (r.value : Rat) / r.scale) :
    (10 : Rat) ^ leading r fuel k ≤ (r.value : Rat) / r.scale := by
  induction fuel generalizing k with
  | zero =>
      simpa [leading] using h
  | succ fuel ih =>
      rw [leading]
      split
      · rename_i hle
        have hscaled := (le_scaled_iff (n := 1) (k := k) hs).mp (by rwa [Nat.one_mul])
        simpa using hscaled
      · apply ih
        rwa [show k - 1 - (fuel : Int) = k - ((fuel + 1 : Nat) : Int) by push_cast; ring]

/-!
# The text of a double
-/

/-- The shortest decimal of a double rounds to it. -/
theorem roundsTo_shortest {m : Nat} {q : Int} (tie : Tie) (h : IsDouble m q) :
    RoundsTo m q ((shortest tie m q).digits * 10 ^ (shortest tie m q).exponent) := by
  have hs := scale_interval_pos m q
  have hpower : (2 : Rat) ^ ((Nat.log2 m : Int) + q) ≤ 4 * m * quarter q := by
    have hlog : ((2 ^ Nat.log2 m : Nat) : Rat) ≤ m := by
      exact_mod_cast Nat.log2_self_le h.positive.ne'
    have hquarter : 4 * quarter q = 2 ^ q := by
      rw [quarter, zpow_sub₀ (by norm_num)]
      norm_num
      ring
    rw [zpow_add₀ (by norm_num), zpow_natCast, show 4 * (m : Rat) * quarter q = m * (4 * quarter q)
      by ring, hquarter]
    have hpos : (0 : Rat) < 2 ^ q := zpow_pos (by norm_num) q
    exact mul_le_mul_of_nonneg_right (by exact_mod_cast hlog) hpos.le
  have hbits : -1074 ≤ (Nat.log2 m : Int) + q ∧ (Nat.log2 m : Int) + q ≤ 1023 := by
    have hlog : Nat.log2 m < 53 := (Nat.log2_lt h.positive.ne').mpr h.small
    have hleast := h.least
    have hgreatest := h.greatest
    omega
  have hfirst := leading_le hs 3
    (((estimate_le hbits.1 hbits.2).trans hpower).trans_eq (value_interval m q).symm)
  rw [value_interval] at hfirst
  simp only [shortest]
  rw [value_stripZeros, <- holds_interval_iff h.positive]
  refine holds_search 16 (isSome_onGrid tie h ?_) (by decide) (by decide)
  rw [zpow_sub₀ (by norm_num)]
  norm_num at hfirst ⊢
  exact hfirst

theorem shortest_inj {m n : Nat} {q p : Int} {tie : Tie} (hm : IsDouble m q) (hn : IsDouble n p)
    (h : shortest tie m q = shortest tie n p) : m = n ∧ q = p := by
  have hleft := roundsTo_shortest tie hm
  rw [h] at hleft
  exact hleft.unique hm hn (roundsTo_shortest tie hn)

theorem ofDigitChars_zeros (n : Nat) (digits : List Char) :
    Nat.ofDigitChars 10 (zeros n ++ digits) 0 = Nat.ofDigitChars 10 digits 0 := by
  simp [zeros, Nat.ofDigitChars_append]

/-- The digits of a decimal with a fraction, and how many of them stand after the point. -/
theorem inPlace_eq {d : Decimal} (h : d.exponent < 0) :
    exists front back, inPlace d = front ++ '.' :: back ∧ front ≠ [] ∧
      (forall c, c ∈ front ++ back -> c.isDigit = true) ∧
      back.length = (-d.exponent).toNat ∧ Nat.ofDigitChars 10 (front ++ back) 0 = d.digits := by
  have hvalue : Nat.ofDigitChars 10 (digitsOf d.digits) 0 = d.digits := by simp [digitsOf]
  have hdigits : forall c, c ∈ digitsOf d.digits -> c.isDigit = true :=
    fun _ => isDigit_of_mem_digitsOf
  simp only [inPlace]
  rw [if_neg (by omega)]
  generalize digitsOf d.digits = digits at hvalue hdigits ⊢
  split
  · rename_i hplaces
    refine ⟨_, _, rfl, ?_, ?_, ?_, ?_⟩
    · intro hnil
      have hlength := congrArg List.length hnil
      rw [List.length_take, List.length_nil] at hlength
      omega
    · rwa [List.take_append_drop]
    · rw [List.length_drop]
      omega
    · rw [List.take_append_drop, hvalue]
  · rename_i hplaces
    refine ⟨['0'], zeros ((-d.exponent).toNat - digits.length) ++ digits, rfl, by simp, ?_, ?_, ?_⟩
    · intro c hc
      simp only [zeros, List.mem_append, List.mem_singleton, List.mem_replicate] at hc
      rcases hc with rfl | ⟨_, rfl⟩ | hc
      · decide
      · decide
      · exact hdigits c hc
    · rw [List.length_append, zeros, List.length_replicate]
      omega
    · rw [<- hvalue]
      exact ofDigitChars_zeros (_ + 1) _

theorem exponent_neg_of_point {d : Decimal} (h : '.' ∈ inPlace d) : d.exponent < 0 := by
  by_contra hnonneg
  rw [inPlace, if_pos (by omega)] at h
  rcases List.mem_append.mp h with hdigit | hzero
  · exact absurd (isDigit_of_mem_digitsOf hdigit) (by decide)
  · exact absurd (List.eq_of_mem_replicate hzero) (by decide)

theorem inPlace_inj {d e : Decimal} (hpoint : '.' ∈ inPlace d) (h : inPlace d = inPlace e) :
    d = e := by
  have hd := exponent_neg_of_point hpoint
  have he := exponent_neg_of_point (h ▸ hpoint)
  rcases inPlace_eq hd with ⟨front, back, htext, _, hdigit, hlength, hvalue⟩
  rcases inPlace_eq he with ⟨front', back', htext', _, hdigit', hlength', hvalue'⟩
  rw [htext, htext'] at h
  rcases Text.append_inj_of_stops (fun c hc => hdigit c (List.mem_append_left _ hc))
    (fun c hc => hdigit' c (List.mem_append_left _ hc)) (Text.Stops.cons (by decide) _)
    (Text.Stops.cons (by decide) _) h with ⟨rfl, hrest⟩
  cases hrest
  have hdigits := hvalue.symm.trans hvalue'
  rcases d with ⟨digits, exponent⟩
  rcases e with ⟨digits', exponent'⟩
  simp only at hd he hlength hlength' hdigits
  have hexponent : exponent = exponent' := by omega
  rw [hdigits, hexponent]

/-- A text with a fraction belongs to a double other than zero and shows its shortest digits. -/
theorem floatText_eq {x : Float} (hpoint : '.' ∈ (floatText x).toList) :
    exists b, decode x = .finite b ∧ IsDouble b.significand b.exponent ∧
      (floatText x).toList = signed b.negative (inPlace (shortest .up b.significand b.exponent)) ∧
      '.' ∈ inPlace (shortest .up b.significand b.exponent) := by
  have hsigned : forall {negative : Bool} {text : List Char}, '.' ∈ signed negative text ->
      '.' ∈ text := by
    intro negative text h
    cases negative with
    | true =>
        exact (List.mem_cons.mp h).resolve_left (by decide)
    | false =>
        exact h
  rw [floatText] at hpoint ⊢
  split at hpoint
  · exact absurd hpoint (by decide)
  · rename_i negative _
    rw [String.toList_ofList] at hpoint
    exact absurd (hsigned hpoint) (by decide)
  · rename_i b hb
    simp only [hb]
    split at hpoint
    · rw [String.toList_ofList] at hpoint
      exact absurd (hsigned hpoint) (by decide)
    · rename_i hzero
      rw [if_neg hzero, String.toList_ofList]
      rw [String.toList_ofList] at hpoint
      exact ⟨b, rfl, isDouble_of_decode hb (by simpa using hzero), rfl, hsigned hpoint⟩

theorem signed_inj {a b : Bool} {s t : List Char} (hs : s.head? ≠ some '-')
    (ht : t.head? ≠ some '-') (h : signed a s = signed b t) : a = b ∧ s = t := by
  cases a <;> cases b <;> simp only [signed, if_true, Bool.false_eq_true, if_false] at h
  · exact ⟨rfl, h⟩
  · rw [h] at hs
    exact absurd rfl hs
  · rw [<- h] at ht
    exact absurd rfl ht
  · exact ⟨rfl, (List.cons.inj h).2⟩

theorem head?_inPlace {d : Decimal} (hpoint : '.' ∈ inPlace d) :
    exists c rest, inPlace d = c :: rest ∧ c.isDigit = true ∧
      forall e, e ∈ rest -> e.isDigit = true ∨ e = '.' := by
  rcases inPlace_eq (exponent_neg_of_point hpoint) with ⟨front, back, htext, hfront, hdigit, _⟩
  cases front with
  | nil =>
      exact absurd rfl hfront
  | cons c front =>
      refine ⟨c, front ++ '.' :: back, htext, hdigit c List.mem_cons_self, ?_⟩
      intro e he
      simp only [List.mem_append, List.mem_cons] at he
      rcases he with he | rfl | he
      · exact Or.inl (hdigit e (by simp [he]))
      · exact Or.inr rfl
      · exact Or.inl (hdigit e (by simp [he]))

theorem floatText_inj {x y : Float} (hpoint : '.' ∈ (floatText x).toList)
    (h : floatText x = floatText y) : x = y := by
  rcases floatText_eq hpoint with ⟨b, hb, hdouble, htext, hin⟩
  rcases floatText_eq (h ▸ hpoint) with ⟨b', hb', hdouble', htext', hin'⟩
  rw [h, htext'] at htext
  have hhead : forall {d : Decimal}, '.' ∈ inPlace d -> (inPlace d).head? ≠ some '-' := by
    intro d hd hdash
    rcases head?_inPlace hd with ⟨c, rest, hc, hdigit, _⟩
    rw [hc] at hdash
    cases hdash
    exact absurd hdigit (by decide)
  rcases signed_inj (hhead hin') (hhead hin) htext with ⟨hnegative, hplaces⟩
  rcases shortest_inj hdouble' hdouble (inPlace_inj hin' hplaces) with ⟨hsignificand, hexponent⟩
  have hparts : b' = b := by
    rcases b with ⟨negative, significand, exponent⟩
    rcases b' with ⟨negative', significand', exponent'⟩
    simp only at hnegative hsignificand hexponent
    rw [hnegative, hsignificand, hexponent]
  exact eq_of_decode hb (hparts ▸ hb')

end Number
end RecordSql
