import Mathlib
import RecordSql.Number.Read
import RecordSql.Proofs.GuidText
import RecordSql.Proofs.Printing.Operands
import RecordSql.Value.Compare

/-!
# Whole numbers as doubles

A double has 53 significant bits.  A longer whole number becomes the nearest double, and the even one
of two that are equally near.  Doubles of whole numbers are compared as the numbers that they are.
-/

namespace RecordSql
namespace Number

/-!
# The nearest whole number
-/

/-- The whole number nearest to a quotient, the even one of two that are equally near. -/
def nearestQuotient (n d : Nat) : Nat :=
  if 2 * (n % d) < d ∨ 2 * (n % d) = d ∧ n / d % 2 = 0 then n / d else n / d + 1

variable {n m d k : Nat}

theorem div_le_nearestQuotient (n d : Nat) : n / d ≤ nearestQuotient n d := by
  unfold nearestQuotient
  split <;> omega

theorem nearestQuotient_le (n d : Nat) : nearestQuotient n d ≤ n / d + 1 := by
  unfold nearestQuotient
  split <;> omega

theorem nearestQuotient_mul_right (n d : Nat) (hk : 0 < k) :
    nearestQuotient (n * k) (d * k) = nearestQuotient n d := by
  have hlt : 2 * (n % d * k) < d * k <-> 2 * (n % d) < d := by
    rw [<- Nat.mul_assoc]
    exact Nat.mul_lt_mul_right hk
  have heq : 2 * (n % d * k) = d * k <-> 2 * (n % d) = d := by
    rw [<- Nat.mul_assoc]
    exact Nat.mul_right_cancel_iff hk
  unfold nearestQuotient
  simp only [Nat.mul_div_mul_right n d hk, Nat.mul_mod_mul_right, hlt, heq]

theorem nearestQuotient_mul_self (n : Nat) (hd : 0 < d) : nearestQuotient (n * d) d = n := by
  unfold nearestQuotient
  rw [Nat.mul_mod_left, Nat.mul_div_left n hd, if_pos (Or.inl hd)]

theorem nearestQuotient_mono (d : Nat) (h : n ≤ m) :
    nearestQuotient n d ≤ nearestQuotient m d := by
  rcases Nat.lt_or_eq_of_le (Nat.div_le_div_right h : n / d ≤ m / d) with hless | hsame
  · exact Nat.le_trans (nearestQuotient_le n d) (Nat.le_trans hless (div_le_nearestQuotient m d))
  · have hn := Nat.div_add_mod n d
    have hm := Nat.div_add_mod m d
    have hmod : n % d ≤ m % d := by
      rw [hsame] at hn
      omega
    unfold nearestQuotient
    rw [hsame]
    split <;> split <;> omega

/-- Of a number with more than 53 bits, 53 are left when the others are cut off. -/
theorem quotient_bounds {t : Nat} (h : n.log2 = 52 + t) :
    2 ^ 52 ≤ n / 2 ^ t ∧ n / 2 ^ t < 2 ^ 53 := by
  have hn : n ≠ 0 := by
    rintro rfl
    rw [Nat.log2_zero] at h
    omega
  constructor
  · rw [Nat.le_div_iff_mul_le (Nat.two_pow_pos t), <- Nat.pow_add, <- h]
    exact Nat.log2_self_le hn
  · rw [Nat.div_lt_iff_lt_mul (Nat.two_pow_pos t), <- Nat.pow_add, show 53 + t = n.log2 + 1 by omega]
    exact Nat.lt_log2_self

/-- Rounding may fill them up to one bit more. -/
theorem nearestQuotient_bounds {t : Nat} (h : n.log2 = 52 + t) :
    2 ^ 52 ≤ nearestQuotient n (2 ^ t) ∧ nearestQuotient n (2 ^ t) ≤ 2 ^ 53 := by
  rcases quotient_bounds h with ⟨hlow, hhigh⟩
  exact ⟨Nat.le_trans hlow (div_le_nearestQuotient n _),
    Nat.le_trans (nearestQuotient_le n _) hhigh⟩

/-!
# The nearest double

Doubles with as many bits as a number lie as far apart as the bit of weight `2 ^ 52` below its first
one weighs.
-/

def spacing (n : Nat) : Nat :=
  2 ^ (n.log2 - 52)

/-- The number that the double nearest to a natural number is. -/
def nearestNat (n : Nat) : Nat :=
  nearestQuotient n (spacing n) * spacing n

theorem nearestNat_of_log2_le (h : n.log2 ≤ 52) : nearestNat n = n := by
  have hone : spacing n = 1 := by
    rw [spacing, Nat.sub_eq_zero_of_le h, Nat.pow_zero]
  rw [nearestNat, hone, Nat.mul_one]
  conv_lhs => rw [<- Nat.mul_one n]
  exact nearestQuotient_mul_self n Nat.one_pos

/-- Every number of up to 53 bits is a double. -/
theorem nearestNat_of_le (h : n ≤ 2 ^ 53) : nearestNat n = n := by
  rcases Nat.lt_or_eq_of_le h with hlt | rfl
  · apply nearestNat_of_log2_le
    by_cases hzero : n = 0
    · rw [hzero]
      decide
    · exact Nat.le_of_lt_succ ((Nat.log2_lt hzero).mpr hlt)
  · decide

/-- A number and its double lie between the same powers of two. -/
theorem nearestNat_bounds (hn : n ≠ 0) :
    2 ^ n.log2 ≤ nearestNat n ∧ nearestNat n ≤ 2 ^ (n.log2 + 1) := by
  by_cases hsmall : n.log2 ≤ 52
  · rw [nearestNat_of_log2_le hsmall]
    exact ⟨Nat.log2_self_le hn, Nat.le_of_lt Nat.lt_log2_self⟩
  · have hlog : n.log2 = 52 + (n.log2 - 52) := by omega
    rcases nearestQuotient_bounds hlog with ⟨hlow, hhigh⟩
    constructor
    · rw [hlog, Nat.pow_add]
      exact Nat.mul_le_mul_right _ hlow
    · rw [show n.log2 + 1 = 53 + (n.log2 - 52) by omega, Nat.pow_add]
      exact Nat.mul_le_mul_right _ hhigh

theorem nearestNat_mono (h : n ≤ m) : nearestNat n ≤ nearestNat m := by
  by_cases hn : n = 0
  · rw [hn, nearestNat_of_le (Nat.zero_le _)]
    exact Nat.zero_le _
  · have hm : m ≠ 0 := by omega
    have hlog : n.log2 ≤ m.log2 := (Nat.le_log2 hm).mpr (Nat.le_trans (Nat.log2_self_le hn) h)
    rcases Nat.lt_or_eq_of_le hlog with hless | hsame
    · calc
        nearestNat n ≤ 2 ^ (n.log2 + 1) := (nearestNat_bounds hn).2
        _ ≤ 2 ^ m.log2 := Nat.pow_le_pow_right (by decide) hless
        _ ≤ nearestNat m := (nearestNat_bounds hm).1
    · rw [nearestNat, nearestNat, spacing, spacing, hsame]
      exact Nat.mul_le_mul_right _ (nearestQuotient_mono _ h)

/-- The number that the double nearest to a whole number is. -/
def nearestInt (i : Int) : Int :=
  if i < 0 then -nearestNat i.natAbs else nearestNat i.natAbs

theorem nearestInt_of_natAbs_le {i : Int} (h : i.natAbs ≤ 2 ^ 53) : nearestInt i = i := by
  rw [nearestInt, nearestNat_of_le h]
  split <;> omega

theorem nearestInt_mono {i j : Int} (h : i ≤ j) : nearestInt i ≤ nearestInt j := by
  unfold nearestInt
  split
  · split
    · have hmono : nearestNat j.natAbs ≤ nearestNat i.natAbs := nearestNat_mono (by omega)
      omega
    · omega
  · rw [if_neg (by omega)]
    have hmono : nearestNat i.natAbs ≤ nearestNat j.natAbs := nearestNat_mono (by omega)
    omega

/-- Numbers with different doubles are ordered as their doubles are. -/
theorem compare_nearestInt {i j : Int} (h : i = j ∨ nearestInt i ≠ nearestInt j) :
    compare (nearestInt i) (nearestInt j) = compare i j := by
  rcases h with rfl | hne
  · rw [Int.compare_eq_eq.mpr rfl, Int.compare_eq_eq.mpr rfl]
  · rcases Int.lt_trichotomy i j with hlt | rfl | hgt
    · have hle := nearestInt_mono (Int.le_of_lt hlt)
      rw [Int.compare_eq_lt.mpr hlt, Int.compare_eq_lt.mpr (by omega)]
    · exact absurd rfl hne
    · have hle := nearestInt_mono (Int.le_of_lt hgt)
      rw [Int.compare_eq_gt.mpr hgt, Int.compare_eq_gt.mpr (by omega)]

/-!
# Rounding a significand

A significand loses bits at its end.  The last of them and whether there was another one before it
say where the lost part lies between nothing and one.
-/

open Float.Model (Format)
open Float.Model.UnpackedFloat

/-- A lost part of some bits is known from the first of them and from whether the others are zero. -/
theorem accuracy_bits (q : Nat) {bit r d : Nat} (hbit : bit < 2) (hr : r < d) :
    (⟨q, bit != 0, r != 0⟩ : ExtendedMantissa).accuracy = accuracyOfFraction (r + d * bit) (d * 2) := by
  obtain rfl | rfl : bit = 0 ∨ bit = 1 := by omega
  · rw [Nat.mul_zero, Nat.add_zero, accuracyOfFraction]
    split
    · rename_i hzero
      rw [hzero]
      rfl
    · rename_i hrest
      rw [bne_iff_ne.mpr hrest, Nat.compare_eq_lt.mpr (by omega)]
      rfl
  · rw [Nat.mul_one, accuracyOfFraction, if_neg (by omega)]
    by_cases hzero : r = 0
    · rw [hzero, Nat.compare_eq_eq.mpr (by omega)]
      rfl
    · rw [bne_iff_ne.mpr hzero, Nat.compare_eq_gt.mpr (by omega)]
      rfl

theorem sticky_of_accuracy {em : ExtendedMantissa} {r d : Nat}
    (h : em.accuracy = accuracyOfFraction r d) : (em.roundBit || em.stickyBit) = (r != 0) := by
  rcases em with ⟨q, round, sticky⟩
  unfold accuracyOfFraction at h
  split at h
  · rename_i hzero
    rw [hzero]
    cases round <;> cases sticky <;> first | rfl | cases h
  · rename_i hrest
    rw [bne_iff_ne.mpr hrest]
    cases round <;> cases sticky <;> first | rfl | cases h

theorem shiftRight_exact (m t : Nat) :
    ((⟨m, false, false⟩ : ExtendedMantissa) >>> t).mantissa = m / 2 ^ t ∧
      ((⟨m, false, false⟩ : ExtendedMantissa) >>> t).accuracy =
        accuracyOfFraction (m % 2 ^ t) (2 ^ t) := by
  induction t with
  | zero =>
      rw [Nat.pow_zero, Nat.div_one, Nat.mod_one]
      exact ⟨rfl, rfl⟩
  | succ t ih =>
      have hstep : ((⟨m, false, false⟩ : ExtendedMantissa) >>> (t + 1)) =
          ((⟨m, false, false⟩ : ExtendedMantissa) >>> t).shiftRightOne := rfl
      rw [hstep, ExtendedMantissa.shiftRightOne, ih.1, sticky_of_accuracy ih.2, Nat.pow_succ,
        <- Nat.div_div_eq_div_mul, <- Nat.pow_succ, Nat.mod_pow_succ, Nat.pow_succ]
      exact ⟨rfl, accuracy_bits _ (Nat.mod_lt _ Nat.two_pos) (Nat.mod_lt _ (Nat.two_pow_pos t))⟩

/-- Without the lost bits a significand is the nearest quotient. -/
theorem roundedMantissa_shiftRight (m t : Nat) :
    ((⟨m, false, false⟩ : ExtendedMantissa) >>> t).roundedMantissa = nearestQuotient m (2 ^ t) := by
  rcases shiftRight_exact m t with ⟨hquotient, hlost⟩
  rw [ExtendedMantissa.roundedMantissa, hquotient, hlost, accuracyOfFraction, nearestQuotient]
  split
  · rename_i hexact
    rw [hexact, if_pos (Or.inl (Nat.two_pow_pos t))]
    rfl
  · rcases Nat.lt_trichotomy (2 * (m % 2 ^ t)) (2 ^ t) with hless | hhalf | hmore
    · rw [Nat.compare_eq_lt.mpr hless, if_pos (Or.inl hless)]
      rfl
    · rw [Nat.compare_eq_eq.mpr hhalf]
      change m / 2 ^ t + m / 2 ^ t % 2 = _
      split <;> omega
    · rw [Nat.compare_eq_gt.mpr hmore, if_neg (by omega)]
      rfl

/-!
# Rounding to a double
-/

theorem shiftToTarget {m t : Nat} {e : Int} (hlog : m.log2 = 52 + t) (hleast : -1074 ≤ e + t) :
    shiftToTargetExponent .binary64 m e .exact =
      ((⟨m, false, false⟩ : ExtendedMantissa) >>> t, e + t) := by
  have htarget : Format.binary64.targetExponent (Float.Model.totalExponent m e) = e + t := by
    simp only [Format.targetExponent, Float.Model.totalExponent, Format.mantissaBits,
      Format.minExponent, hlog]
    omega
  have hshift : (e + t - e).toNat = t := by omega
  unfold shiftToTargetExponent shiftToExponent
  simp only [htarget, hshift]
  rfl

theorem roundWithAccuracy_eq (s : Sign) {m : Nat} {e e' e'' : Int} {em em' : ExtendedMantissa}
    (hfirst : shiftToTargetExponent .binary64 m e .exact = (em, e'))
    (hsecond : shiftToTargetExponent .binary64 em.roundedMantissa e' .exact = (em', e''))
    (hpositive : 0 < em'.mantissa) :
    roundWithAccuracy .binary64 s m e .exact = .finite s em'.mantissa e'' hpositive := by
  unfold roundWithAccuracy
  simp only [hfirst, hsecond]
  rw [dif_neg (Nat.ne_of_gt hpositive)]

/-- The significand has 53 bits, and times the power of two it is the whole number. -/
structure IsWhole (s : Sign) (m : Nat) (e i : Int) : Prop where
  low : 2 ^ 52 ≤ m
  high : m < 2 ^ 53
  least : -52 ≤ e
  /-- Both sides are multiplied by the smallest power that makes them whole. -/
  value : i * 2 ^ 52 = s.apply (m * 2 ^ (e + 52).toNat : Nat)

/-- The double is the whole number. -/
inductive Shows : Float.Model.UnpackedFloat -> Int -> Prop where
  | zero (s : Sign) : Shows (.zero s) 0
  | finite {s : Sign} {m : Nat} {e i : Int} (hm : 0 < m) (h : IsWhole s m e i) :
      Shows (.finite s m e hm) i

/-- A significand of more than 53 bits is rounded to them, and to one bit less when it fills up. -/
theorem shows_roundWithAccuracy (s : Sign) {m t : Nat} {e i : Int} (hlog : m.log2 = 52 + t)
    (hleast : -52 ≤ e + t)
    (hi : i * 2 ^ 52 = s.apply (nearestQuotient m (2 ^ t) * 2 ^ (e + t + 52).toNat : Nat)) :
    Shows (roundWithAccuracy .binary64 s m e .exact) i := by
  have hfirst := shiftToTarget (m := m) (e := e) hlog (by omega)
  have hrounded := roundedMantissa_shiftRight m t
  rcases nearestQuotient_bounds hlog with ⟨hlow, hhigh⟩
  generalize nearestQuotient m (2 ^ t) = r at hi hlow hhigh hrounded
  -- The rounded significand is shifted by at most one bit, which is then a zero.
  obtain ⟨u, hr, hu, hwhole⟩ : exists u, r.log2 = 52 + u ∧ u ≤ 1 ∧ r / 2 ^ u * 2 ^ u = r := by
    rcases Nat.lt_or_eq_of_le hhigh with hless | rfl
    · exact ⟨0, (Nat.log2_eq_iff (by omega)).mpr ⟨hlow, hless⟩, Nat.zero_le 1, by omega⟩
    · exact ⟨1, Nat.log2_two_pow, Nat.le_refl 1, rfl⟩
  have hsecond := shiftToTarget (m := r) (e := e + t) hr (by omega)
  have hmantissa := (shiftRight_exact r u).1
  have hbounds := quotient_bounds hr
  rw [<- hrounded] at hsecond
  rw [<- hrounded] at hmantissa
  rw [<- hrounded, <- hmantissa] at hbounds
  rw [roundWithAccuracy_eq s hfirst hsecond (by omega)]
  refine .finite _ ⟨hbounds.1, hbounds.2, by omega, ?_⟩
  rw [hi, hmantissa, hrounded, show (e + t + u + 52).toNat = u + (e + t + 52).toNat by omega,
    Nat.pow_add, <- Nat.mul_assoc, hwhole]

/-!
# Storing a double
-/

theorem ofBitVec_unpackSign (s : Sign) (exponent : BitVec 11) (mantissa : BitVec 52) :
    Sign.ofBitVec (unpackSign (packComponents .binary64 s exponent mantissa)) = s := by
  simp only [unpackSign, packComponents, BitVec.extractLsb]
  rw [BitVec.extractLsb'_append_eq_of_le (by omega), BitVec.extractLsb'_append_eq_of_le (by omega)]
  cases s <;> rfl

theorem unpack_pack_finite (s : Sign) {m : Nat} {e : Int} (hm : 0 < m) (hlow : 2 ^ 52 ≤ m)
    (hhigh : m < 2 ^ 53) (hleast : -52 ≤ e) (hgreatest : e ≤ 64) :
    (Float.Model.pack (.finite s m e hm)).unpack = .finite s m e hm := by
  have hlog : m.log2 = 52 := (Nat.log2_eq_iff (by omega)).mpr ⟨hlow, hhigh⟩
  have hbias : (Format.binary64.exponentBias : Int) = 1023 := rfl
  have hfield : (BitVec.ofNat 11 (e + 1023 + 52).toNat).toNat = (e + 1023 + 52).toNat := by
    rw [BitVec.toNat_ofNat, Nat.mod_eq_of_lt (by omega)]
  have hfinite : BitVec.ofNat 11 (e + 1023 + 52).toNat ≠ -1#11 := by
    intro heq
    rw [heq] at hfield
    have hall : (-1#11).toNat = 2047 := rfl
    omega
  have hnormal : BitVec.ofNat 11 (e + 1023 + 52).toNat ≠ 0#11 := by
    intro heq
    rw [heq] at hfield
    have hnone : (0#11).toNat = 0 := rfl
    omega
  -- The first bit of the significand is not stored.
  have hmantissa : (1#1 ++ BitVec.ofNat 52 m).toNat = m := by
    rw [BitVec.toNat_append, <- Nat.shiftLeft_add_eq_or_of_lt (BitVec.ofNat 52 m).isLt,
      BitVec.toNat_ofNat, Nat.shiftLeft_eq, BitVec.toNat_ofNat]
    omega
  have hpack : pack .binary64 (.finite s m e hm) =
      packComponents .binary64 s (BitVec.ofNat 11 (e + 1023 + 52).toNat) (BitVec.ofNat 52 m) := by
    unfold pack
    simp only [hbias, hlog]
    rw [if_neg (by omega), if_pos (show 52 + 1 = Format.binary64.mantissaBits from rfl)]
    rfl
  change unpack .binary64 (pack .binary64 (.finite s m e hm)) = _
  rw [hpack, unpack]
  simp only [unpackMantissa_packComponents, unpackExponent_packComponents, ofBitVec_unpackSign]
  rw [if_neg hfinite, if_neg hnormal]
  have hexponent : ((e + 1023 + 52).toNat : Int) - (1023 + (52 : Nat)) = e := by omega
  simp only [hmantissa, hfield, hbias, hexponent]

theorem IsWhole.exponent_le {s : Sign} {m : Nat} {e i : Int} (h : IsWhole s m e i)
    (hi : i.natAbs ≤ 2 ^ 64) : e ≤ 64 := by
  have hvalue := h.value
  have hsize : i.natAbs * 2 ^ 52 = m * 2 ^ (e + 52).toNat := by
    cases s <;> simp only [Sign.apply] at hvalue <;> omega
  have hless : 2 ^ 52 * 2 ^ (e + 52).toNat ≤ m * 2 ^ (e + 52).toNat := Nat.mul_le_mul_right _ h.low
  have hpower : 2 ^ (e + 52).toNat ≤ 2 ^ 64 := by omega
  have hexponent : (e + 52).toNat ≤ 64 := (Nat.pow_le_pow_iff_right (by decide)).mp hpower
  omega

/-- Storing and reading a double gives it back. -/
theorem unpack_pack_of_shows {x : Float.Model.UnpackedFloat} {i : Int} (h : Shows x i)
    (hi : i.natAbs ≤ 2 ^ 64) : (Float.Model.pack x).unpack = x := by
  cases h with
  | zero s =>
      cases s <;> rfl
  | finite hm h =>
      exact unpack_pack_finite _ hm h.low h.high h.least (h.exponent_le hi)

/-!
# Making doubles of whole numbers
-/

theorem log2_mul_two_pow (hn : n ≠ 0) (k : Nat) : (n * 2 ^ k).log2 = n.log2 + k := by
  have hpositive : 0 < n * 2 ^ k := Nat.mul_pos (Nat.pos_of_ne_zero hn) (Nat.two_pow_pos k)
  rw [Nat.log2_eq_iff (Nat.ne_of_gt hpositive)]
  constructor
  · rw [Nat.pow_add]
    exact Nat.mul_le_mul_right _ (Nat.log2_self_le hn)
  · rw [Nat.add_right_comm, Nat.pow_add]
    exact Nat.mul_lt_mul_of_pos_right Nat.lt_log2_self (Nat.two_pow_pos k)

theorem nearestNat_scaled {t : Nat} (ht : n.log2 + k = 52 + t) :
    nearestNat n * 2 ^ 52 = nearestQuotient (n * 2 ^ k) (2 ^ t) * 2 ^ n.log2 := by
  by_cases hsmall : n.log2 ≤ 52
  · have hscale : n * 2 ^ k = n * 2 ^ (52 - n.log2) * 2 ^ t := by
      rw [Nat.mul_assoc, <- Nat.pow_add]
      congr 2
      omega
    rw [nearestNat_of_log2_le hsmall, hscale, nearestQuotient_mul_self _ (Nat.two_pow_pos t),
      Nat.mul_assoc, <- Nat.pow_add, Nat.sub_add_cancel hsmall]
  · have hscale : 2 ^ t = spacing n * 2 ^ k := by
      rw [spacing, <- Nat.pow_add]
      congr 1
      omega
    have hlog : 2 ^ n.log2 = spacing n * 2 ^ 52 := by
      rw [spacing, <- Nat.pow_add]
      congr 1
      omega
    rw [hscale, nearestQuotient_mul_right _ _ (Nat.two_pow_pos k), hlog, nearestNat, Nat.mul_assoc]

/-- Zeros at the end of a significand that has enough of them do not count. -/
theorem shows_scaled (hn : n ≠ 0) (hk : 52 ≤ n.log2 + k) :
    Shows (roundWithAccuracy .binary64 .positive (n * 2 ^ k) (-k) .exact) (nearestNat n) := by
  obtain ⟨t, ht⟩ := Nat.exists_eq_add_of_le hk
  refine shows_roundWithAccuracy .positive (t := t) ?_ (by omega) ?_
  · rw [log2_mul_two_pow hn, ht]
  · rw [show (-(k : Int) + t + 52).toNat = n.log2 by omega, <- nearestNat_scaled ht]
    rfl

theorem shows_mul_one {x : Float.Model.UnpackedFloat} {i : Int} (h : Shows x i) :
    Shows (mul .binary64 x (.finite .positive (2 ^ 52) (-52) (by decide))) i := by
  cases h with
  | zero s =>
      exact .zero _
  | @finite s m e i hm h =>
      have hsign : s * .positive = s := by
        cases s <;> rfl
      have hlog : m.log2 = 52 := (Nat.log2_eq_iff (by omega)).mpr ⟨h.low, h.high⟩
      have hleast := h.least
      unfold mul
      simp only [hsign]
      refine shows_roundWithAccuracy s (t := 52) ?_ (by omega) ?_
      · rw [log2_mul_two_pow (by omega), hlog]
      · rw [nearestQuotient_mul_self _ (Nat.two_pow_pos 52), h.value]
        congr 4
        omega

/-- A number of at most 53 bits fills its significand up with zeros. -/
theorem shows_round (hn : n ≠ 0) (hsmall : n.log2 ≤ 52) :
    Shows (Float.Model.UnpackedFloat.round .binary64 .positive n 0) (nearestNat n) := by
  have htarget : Format.binary64.targetExponent (Float.Model.totalExponent n 0) = n.log2 - 52 := by
    simp only [Format.targetExponent, Float.Model.totalExponent, Format.mantissaBits,
      Format.minExponent]
    omega
  unfold Float.Model.UnpackedFloat.round decreaseExponent
  simp only [htarget, Nat.shiftLeft_eq, Int.zero_sub]
  exact shows_scaled hn (by omega)

theorem shows_ofInt (hsmall : n < 2 ^ 53) : Shows (ofInt .binary64 n) (nearestNat n) := by
  unfold ofInt Float.Model.UnpackedFloat.normalize
  by_cases hn : n = 0
  · rw [hn]
    exact .zero _
  · rw [Int.compare_eq_gt.mpr (by omega)]
    exact shows_round hn (Nat.le_of_lt_succ ((Nat.log2_lt hn).mpr hsmall))

theorem shows_ofScientific (hn : n ≠ 0) : Shows (ofScientific .binary64 n 0) (nearestNat n) := by
  have hbits : (2 : Int) ^ Format.binary64.exponentBits = 2048 := rfl
  have hmantissa : Format.binary64.mantissaBits = 53 := rfl
  have hsign : Sign.positive * Sign.positive = .positive := rfl
  unfold ofScientific
  rw [dif_neg hn, if_neg (by decide), if_neg (by omega), if_pos (Int.le_refl 0)]
  unfold mul
  simp only [hsign, hmantissa, Int.toNat_zero, Nat.pow_zero, Nat.mul_one, Nat.shiftLeft_eq,
    Int.add_zero]
  exact shows_scaled hn (by omega)

/-!
# Conversions
-/

theorem nearestNat_le_word (h : n ≤ 2 ^ 64) : nearestNat n ≤ 2 ^ 64 := by
  have hword : nearestNat (2 ^ 64) = 2 ^ 64 := by
    decide +kernel
  rw [<- hword]
  exact nearestNat_mono h

theorem toModel_toFloat (w : UInt64) :
    w.toFloat.toModel = Float.Model.pack (ofInt .binary64 w.toNat) :=
  rfl

theorem unpack_mul (x y : Float) : (x * y).toModel.unpack =
    (Float.Model.pack (mul .binary64 x.toModel.unpack y.toModel.unpack)).unpack :=
  rfl

theorem unpack_one : (Float.exactlyRepresentablePowersOfTen[0]).toModel.unpack =
    .finite .positive (2 ^ 52) (-52) (by decide) :=
  rfl

theorem shows_ofNat (h : n < 2 ^ 64) : Shows (Float.ofNat n).toModel.unpack (nearestNat n) := by
  have hsize : (nearestNat n : Int).natAbs ≤ 2 ^ 64 := nearestNat_le_word (Nat.le_of_lt h)
  change Shows (Float.ofScientific n false 0).toModel.unpack _
  unfold Float.ofScientific
  split
  · rename_i hsmall
    have hword : n.toUInt64.toNat = n := Nat.mod_eq_of_lt h
    have hint := shows_ofInt hsmall.1
    have hproduct := shows_mul_one hint
    simp only [Bool.false_eq_true, if_false]
    rw [unpack_mul, toModel_toFloat, hword, unpack_one, unpack_pack_of_shows hint hsize,
      unpack_pack_of_shows hproduct hsize]
    exact hproduct
  · rename_i hlarge
    have hshows := shows_ofScientific (n := n) (by omega)
    change Shows (Float.Model.pack (ofScientific .binary64 n 0)).unpack _
    rw [unpack_pack_of_shows hshows hsize]
    exact hshows

theorem Shows.neg {x : Float.Model.UnpackedFloat} {i : Int} (h : Shows x i) : Shows x.neg (-i) := by
  cases h with
  | zero s =>
      exact .zero _
  | @finite s m e i hm h =>
      refine .finite hm ⟨h.low, h.high, h.least, ?_⟩
      rw [Int.neg_mul, h.value]
      cases s with
      | negative =>
          exact Int.neg_neg _
      | positive =>
          rfl

theorem shows_neg {x : Float} {i : Int} (h : Shows x.toModel.unpack i) (hi : i.natAbs ≤ 2 ^ 64) :
    Shows (-x).toModel.unpack (-i) := by
  change Shows (Float.Model.pack x.toModel.unpack.neg).unpack _
  rw [unpack_pack_of_shows h.neg (by rwa [Int.natAbs_neg])]
  exact h.neg

/-- A whole number in the 64 bit range becomes the nearest double. -/
theorem shows_floatOfInt {i : Int} (h : fits i = true) :
    Shows (Float.ofInt i).toModel.unpack (nearestInt i) := by
  have hrange := fits_iff.mp h
  unfold minWord maxWord at hrange
  unfold nearestInt
  split
  · rename_i hnegative
    cases i with
    | ofNat n =>
        exact absurd hnegative (Int.not_lt.mpr (Int.natCast_nonneg n))
    | negSucc n =>
        have hbound : n + 1 < 2 ^ 64 := by omega
        exact shows_neg (shows_ofNat hbound) (nearestNat_le_word (Nat.le_of_lt hbound))
  · rename_i hpositive
    cases i with
    | ofNat n =>
        have hbound : (n : Int) ≤ 2 ^ 63 - 1 := hrange.2
        exact shows_ofNat (n := n) (by omega)
    | negSucc n =>
        exact absurd (Int.negSucc_lt_zero n) hpositive

/-!
# Reading
-/

theorem readMagnitude_digitsOf (n : Nat) : readMagnitude (digitsOf n) = some (nearest n 0) := by
  have hdigits : forall d, d ∈ digitsOf n -> d.isDigit = true := fun _ => isDigit_of_mem_digitsOf
  have hempty : (digitsOf n).isEmpty = false := List.isEmpty_eq_false_iff.mpr Nat.toDigits_ne_nil
  have hvalue : natOfDigits (digitsOf n) = n := Nat.ofDigitChars_ten_toDigits
  have hwhole : (digitsOf n).takeWhile Char.isDigit = digitsOf n :=
    List.takeWhile_eq_self_iff.mpr hdigits
  have hrest : (digitsOf n).dropWhile Char.isDigit = [] := List.dropWhile_eq_nil_iff.mpr hdigits
  unfold readMagnitude
  simp only [hwhole, hrest, hempty, Bool.false_and, Bool.false_eq_true, if_false, readPower,
    Option.map_some, List.append_nil, hvalue]
  rfl

theorem shows_nearest (h : n < 2 ^ 64) : Shows (nearest n 0).toModel.unpack (nearestNat n) := by
  have hsize : (Nat.toDigits 10 n).length ≤ 20 :=
    Nat.toDigits_length 10 n 20 (by decide) (by omega)
  unfold nearest
  simp only
  by_cases hn : n = 0
  · rw [hn]
    exact .zero .positive
  · rw [if_neg, if_neg]
    · exact shows_ofNat h
    · omega
    · simp only [beq_iff_eq, Bool.or_eq_true, decide_eq_true_eq]
      omega

theorem splitSign_signed (negative : Bool) (n : Nat) :
    splitSign (signed negative (digitsOf n)) = (negative, digitsOf n) := by
  cases negative with
  | true =>
      rfl
  | false =>
      exact Sql.Parser.splitSign_digits fun _ => isDigit_of_mem_digitsOf

/-- The text of a whole number is read as the nearest double. -/
theorem readFloat_intText {i : Int} (h : fits i = true) :
    exists x, readFloat (intText i).toList = some x ∧ Shows x.toModel.unpack (nearestInt i) := by
  have hrange := fits_iff.mp h
  unfold minWord maxWord at hrange
  have hbound : i.natAbs < 2 ^ 64 := by omega
  have hshows := shows_nearest hbound
  rw [readFloat, intText, String.toList_ofList, splitSign_signed, nearestInt]
  simp only [readMagnitude_digitsOf, Option.map_some]
  by_cases hnegative : i < 0
  · simp only [hnegative, decide_true, if_true]
    exact ⟨_, rfl, shows_neg hshows (nearestNat_le_word (Nat.le_of_lt hbound))⟩
  · simp only [hnegative, decide_false, if_false, Bool.false_eq_true]
    exact ⟨_, rfl, hshows⟩

theorem trim_intText (i : Int) : Text.trim (intText i) = intText i := by
  have hblank : forall c, c ∈ (intText i).toList -> Text.isBlank c = false := by
    intro c hc
    rcases mem_intText hc with rfl | hdigit
    · decide
    · exact Guid.isBlank_of_hexValue? (if_pos hdigit)
  exact Text.trim_eq_self (fun c hc => hblank c (List.mem_of_head? hc))
    (fun c hc => hblank c (List.mem_of_getLast? hc))

/-!
# Comparing
-/

/-- Significands of 53 bits are compared after their powers of two. -/
theorem scaled_lt {m m' k k' : Nat} (hm : m < 2 ^ 53) (hm' : 2 ^ 52 ≤ m') (h : k < k') :
    m * 2 ^ k < m' * 2 ^ k' := by
  calc
    m * 2 ^ k < 2 ^ 53 * 2 ^ k := Nat.mul_lt_mul_of_pos_right hm (Nat.two_pow_pos k)
    _ = 2 ^ 52 * 2 ^ (k + 1) := by
      rw [Nat.pow_succ]
      omega
    _ ≤ 2 ^ 52 * 2 ^ k' := Nat.mul_le_mul_left _ (Nat.pow_le_pow_right Nat.two_pos h)
    _ ≤ m' * 2 ^ k' := Nat.mul_le_mul_right _ hm'

theorem IsWhole.compare_eq {m m' : Nat} {e e' i j : Int} (h : IsWhole .positive m e i)
    (h' : IsWhole .positive m' e' j) : (compare e e').then (compare m m') = compare i j := by
  have hi : i * 2 ^ 52 = (m * 2 ^ (e + 52).toNat : Nat) := h.value
  have hj : j * 2 ^ 52 = (m' * 2 ^ (e' + 52).toNat : Nat) := h'.value
  have hleast := h.least
  have hleast' := h'.least
  rcases Int.lt_trichotomy e e' with hless | rfl | hmore
  · have hlt := scaled_lt h.high h'.low (show (e + 52).toNat < (e' + 52).toNat by omega)
    rw [Int.compare_eq_lt.mpr hless, Int.compare_eq_lt.mpr (by omega)]
    rfl
  · rw [Int.compare_eq_eq.mpr rfl]
    have hpower := Nat.two_pow_pos (e + 52).toNat
    rcases Nat.lt_trichotomy m m' with hless | rfl | hmore
    · have hlt := Nat.mul_lt_mul_of_pos_right hless hpower
      rw [Nat.compare_eq_lt.mpr hless, Int.compare_eq_lt.mpr (by omega)]
      rfl
    · rw [Nat.compare_eq_eq.mpr rfl, Int.compare_eq_eq.mpr (by omega)]
      rfl
    · have hgt := Nat.mul_lt_mul_of_pos_right hmore hpower
      rw [Nat.compare_eq_gt.mpr hmore, Int.compare_eq_gt.mpr (by omega)]
      rfl
  · have hgt := scaled_lt h'.high h.low (show (e' + 52).toNat < (e + 52).toNat by omega)
    rw [Int.compare_eq_gt.mpr hmore, Int.compare_eq_gt.mpr (by omega)]
    rfl

theorem IsWhole.pos {m : Nat} {e i : Int} (h : IsWhole .positive m e i) : 0 < i := by
  have hvalue : i * 2 ^ 52 = (m * 2 ^ (e + 52).toNat : Nat) := h.value
  have hpositive : 0 < m * 2 ^ (e + 52).toNat :=
    Nat.mul_pos (Nat.lt_of_lt_of_le (by decide) h.low) (Nat.two_pow_pos _)
  omega

theorem IsWhole.positive {m : Nat} {e i : Int} (h : IsWhole .negative m e i) :
    IsWhole .positive m e (-i) := by
  refine ⟨h.low, h.high, h.least, ?_⟩
  rw [Int.neg_mul, h.value]
  exact Int.neg_neg _

theorem swap_compare_neg (i j : Int) : (compare (-i) (-j)).swap = compare i j := by
  rcases Int.lt_trichotomy i j with hless | rfl | hmore
  · rw [Int.compare_eq_lt.mpr hless, Int.compare_eq_gt.mpr (by omega)]
    rfl
  · rw [Int.compare_eq_eq.mpr rfl, Int.compare_eq_eq.mpr rfl]
    rfl
  · rw [Int.compare_eq_gt.mpr hmore, Int.compare_eq_lt.mpr (by omega)]
    rfl

theorem compare_of_shows {x y : Float.Model.UnpackedFloat} {i j : Int} (hx : Shows x i)
    (hy : Shows y j) : x.compare y = some (compare i j) := by
  cases hx with
  | zero s =>
      cases hy with
      | zero s' =>
          rfl
      | @finite s' m' e' _ hm' h' =>
          cases s' with
          | negative =>
              have hj := h'.positive.pos
              rw [Int.compare_eq_gt.mpr (by omega)]
              rfl
          | positive =>
              rw [Int.compare_eq_lt.mpr h'.pos]
              rfl
  | @finite s m e _ hm h =>
      cases hy with
      | zero s' =>
          cases s with
          | negative =>
              have hi := h.positive.pos
              rw [Int.compare_eq_lt.mpr (by omega)]
              rfl
          | positive =>
              rw [Int.compare_eq_gt.mpr h.pos]
              rfl
      | @finite s' m' e' _ hm' h' =>
          cases s with
          | negative =>
              have hi := h.positive.pos
              cases s' with
              | negative =>
                  rw [<- swap_compare_neg, <- h.positive.compare_eq h'.positive]
                  rfl
              | positive =>
                  have hj := h'.pos
                  rw [Int.compare_eq_lt.mpr (by omega)]
                  rfl
          | positive =>
              have hi := h.pos
              cases s' with
              | negative =>
                  have hj := h'.positive.pos
                  rw [Int.compare_eq_gt.mpr (by omega)]
                  rfl
              | positive =>
                  rw [<- h.compare_eq h']
                  rfl

theorem unpacked_compare_swap (x y : Float.Model.UnpackedFloat) :
    x.compare y = (y.compare x).map Ordering.swap := by
  have hparts : forall (e e' : Int) (m m' : Nat), (compare e e').then (compare m m') =
      ((compare e' e).then (compare m' m)).swap := by
    intro e e' m m'
    rw [Ordering.swap_then, <- Std.OrientedCmp.eq_swap, <- Std.OrientedCmp.eq_swap]
  cases x with
  | notANumber =>
      cases y <;> rfl
  | infinity s =>
      cases y with
      | infinity s' =>
          cases s <;> cases s' <;> rfl
      | _ =>
          cases s <;> rfl
  | zero s =>
      cases y with
      | zero s' =>
          rfl
      | infinity s' =>
          cases s' <;> rfl
      | notANumber =>
          rfl
      | finite s' m' e' hm' =>
          cases s' <;> rfl
  | finite s m e hm =>
      cases y with
      | zero s' =>
          cases s <;> rfl
      | infinity s' =>
          cases s <;> cases s' <;> rfl
      | notANumber =>
          rfl
      | finite s' m' e' hm' =>
          cases s with
          | negative =>
              cases s' with
              | negative =>
                  exact congrArg (fun o => some o.swap) (hparts e e' m m')
              | positive =>
                  rfl
          | positive =>
              cases s' with
              | negative =>
                  rfl
              | positive =>
                  exact congrArg some (hparts e e' m m')

theorem compareFloat_eq (x y : Float) :
    Value.compareFloat x y = x.toModel.unpack.compare y.toModel.unpack := by
  have hlt : x < y <-> x.toModel.unpack.compare y.toModel.unpack = some .lt := by
    change decide ((x.toModel.unpack.compare y.toModel.unpack == some .lt) = true) = true <-> _
    rw [decide_eq_true_iff, beq_iff_eq]
  have hgt : y < x <-> x.toModel.unpack.compare y.toModel.unpack = some .gt := by
    change decide ((y.toModel.unpack.compare x.toModel.unpack == some .lt) = true) = true <-> _
    rw [decide_eq_true_iff, beq_iff_eq, unpacked_compare_swap]
    cases x.toModel.unpack.compare y.toModel.unpack with
    | none =>
        decide
    | some o =>
        cases o <;> decide
  have heq : (x == y) = true <-> x.toModel.unpack.compare y.toModel.unpack = some .eq := by
    change (x.toModel.unpack.compare y.toModel.unpack == some .eq) = true <-> _
    rw [beq_iff_eq]
  unfold Value.compareFloat
  simp only [hlt, hgt, heq]
  cases x.toModel.unpack.compare y.toModel.unpack with
  | none =>
      rfl
  | some o =>
      cases o <;> rfl

theorem compareFloat_of_shows {x y : Float} {i j : Int} (hx : Shows x.toModel.unpack i)
    (hy : Shows y.toModel.unpack j) : Value.compareFloat x y = some (compare i j) :=
  (compareFloat_eq x y).trans (compare_of_shows hx hy)

end Number
end RecordSql
