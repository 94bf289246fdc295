import Mathlib.Algebra.Order.Field.Power
import Mathlib.Algebra.Order.Field.Rat
import Mathlib.Tactic.Lemma
import Mathlib.Tactic.Linarith
import Mathlib.Tactic.Positivity
import Mathlib.Tactic.Ring
import NativeCall.Number.Binary64

/-!
# The number that a floating-point number denotes

A finite floating-point number denotes a rational number, `toRat`. What is decided about its bits by
exact integer arithmetic is right about that rational: `integral?` finds an integer just if the
number is one (`integral?_eq_some_iff`).

Two finite numbers that denote the same rational have the same bits, unless both denote zero
(`eq_of_toRat_eq`). Every finite number is a multiple of the smallest one, `2 ^ -1074`, so
magnitudes are compared as natural numbers (`scaled`). The significand of a number that is not
subnormal has its leading bit, so a larger exponent always wins: magnitudes are in the order of the
exponent and the fraction read as one number (`scaled_lt_scaled`).

Rational numbers are for the statements. The program never computes with them: it looks at the
exponent and the fraction, shifts and compares, and asks whether the bits below the point are zeros.
Nothing is rounded anywhere, and nothing here speaks of rounding.
-/

namespace NativeCall.Binary64

variable {x y : Binary64} {i : Int} {n : Nat}

/-- The magnitude of a finite number. -/
def magnitude (x : Binary64) : ℚ :=
  x.significand * 2 ^ x.exponent

/-- The rational number that a finite number denotes. -/
def toRat (x : Binary64) : ℚ :=
  if x.isNegative then -x.magnitude else x.magnitude

lemma magnitude_nonneg (x : Binary64) : 0 ≤ x.magnitude := by
  unfold magnitude
  positivity

/-! ## Integers -/

lemma integralMagnitude?_eq_some_iff :
    x.integralMagnitude? = some n ↔ x.isFinite = true ∧ x.magnitude = n := by
  unfold integralMagnitude? magnitude
  by_cases hfin : x.isFinite = true
  · simp only [hfin, not_true_eq_false, if_false, true_and, Nat.pow_eq]
    -- With an exponent that is not negative every number is whole. With a negative one the number
    -- is whole just if the bits below the point are zeros, which is divisibility.
    by_cases hexp : 0 ≤ x.exponent
    · obtain ⟨k, hk⟩ := Int.eq_ofNat_of_zero_le hexp
      simp only [hk, Int.natCast_nonneg, if_true, Option.some.injEq, Int.toNat_natCast,
        zpow_natCast]
      norm_cast
    · obtain ⟨k, hk⟩ := Int.eq_ofNat_of_zero_le (show 0 ≤ -x.exponent by omega)
      have hneg : x.exponent = -(k : ℤ) := by omega
      have hpos : 0 < 2 ^ k := Nat.two_pow_pos k
      simp only [if_neg hexp, hk, Int.toNat_natCast]
      rw [hneg, zpow_neg, zpow_natCast, ← div_eq_mul_inv, div_eq_iff (by positivity)]
      norm_cast
      constructor
      · intro hdiv
        split at hdiv
        case isTrue hmod =>
          obtain rfl := Option.some.inj hdiv
          exact (Nat.div_mul_cancel (Nat.dvd_of_mod_eq_zero hmod)).symm
        case isFalse => cases hdiv
      · intro hmul
        rw [hmul, if_pos (Nat.mul_mod_left n (2 ^ k)), Nat.mul_div_cancel n hpos]
  · simp [hfin]

lemma integral?_eq_map (x : Binary64) : x.integral? =
    x.integralMagnitude?.map (fun n : Nat => if x.isNegative then -(n : Int) else n) := by
  unfold integral?
  cases x.integralMagnitude? <;> rfl

/-- A number is found to be an integer just if it denotes one. -/
theorem integral?_eq_some_iff : x.integral? = some i ↔ x.isFinite = true ∧ x.toRat = i := by
  rw [integral?_eq_map, Option.map_eq_some_iff]
  unfold toRat
  constructor
  · rintro ⟨n, hn, rfl⟩
    obtain ⟨hfin, hmag⟩ := integralMagnitude?_eq_some_iff.mp hn
    refine ⟨hfin, ?_⟩
    rw [hmag]
    split <;> simp
  · rintro ⟨hfin, hi⟩
    have hnonneg := x.magnitude_nonneg
    have hmag : x.magnitude = ((i.natAbs : ℤ) : ℚ) ∧
        (if x.isNegative then -(i.natAbs : ℤ) else i.natAbs) = i := by
      by_cases hsign : x.isNegative = true
      · rw [if_pos hsign] at hi ⊢
        have hle : (i : ℚ) ≤ 0 := by linarith
        have habs := Int.ofNat_natAbs_of_nonpos (Int.cast_nonpos.mp hle)
        rw [habs, Int.cast_neg, ← hi, neg_neg, neg_neg]
        exact ⟨rfl, rfl⟩
      · rw [if_neg hsign] at hi ⊢
        have hle : (0 : ℚ) ≤ i := by linarith
        have habs := Int.natAbs_of_nonneg (Int.cast_nonneg_iff.mp hle)
        rw [habs]
        exact ⟨hi, rfl⟩
    exact ⟨i.natAbs, integralMagnitude?_eq_some_iff.mpr ⟨hfin, hmag.1⟩, hmag.2⟩

/-! ## Bits -/

/-- The magnitude in units of the smallest number. -/
def scaled (x : Binary64) : Nat :=
  x.significand * 2 ^ (max x.exponentField 1 - 1)

lemma magnitude_eq_scaled (x : Binary64) : x.magnitude = x.scaled * 2 ^ (-1074 : ℤ) := by
  have hexp : x.exponent = ((max x.exponentField 1 - 1 : Nat) : ℤ) + -1074 := by
    unfold exponent
    omega
  rw [magnitude, hexp, zpow_add₀ two_ne_zero, zpow_natCast, ← mul_assoc, scaled,
    Nat.cast_mul, Nat.cast_pow, Nat.cast_ofNat]

lemma fraction_lt (x : Binary64) : x.fraction < 2 ^ 52 :=
  Nat.mod_lt _ (by decide)

/-- The exponent and the fraction, read as one number. -/
lemma exponentField_fraction (x : Binary64) :
    x.exponentField * 2 ^ 52 + x.fraction = x.bits.toNat % 2 ^ 63 := by
  unfold exponentField fraction
  omega

/-- A number stays below those of the next exponent. -/
lemma scaled_lt {k : Nat} (hk : x.exponentField ≤ k) : x.scaled < 2 ^ 52 * 2 ^ k := by
  have hfraction := x.fraction_lt
  unfold scaled significand
  by_cases hzero : x.exponentField = 0
  · simp only [hzero, if_true, Nat.zero_max, Nat.sub_self, pow_zero, mul_one]
    exact Nat.lt_of_lt_of_le hfraction (Nat.le_mul_of_pos_right _ (Nat.two_pow_pos k))
  · obtain ⟨j, hj⟩ := Nat.exists_eq_add_one_of_ne_zero hzero
    have hjk : 2 ^ (j + 1) ≤ 2 ^ k := Nat.pow_le_pow_right (by decide) (by omega)
    have hmax : max x.exponentField 1 - 1 = j := by omega
    rw [if_neg hzero, hmax]
    calc (0x10000000000000 + x.fraction) * 2 ^ j
      _ < (2 * 2 ^ 52) * 2 ^ j := Nat.mul_lt_mul_of_pos_right (by omega) (Nat.two_pow_pos j)
      _ = 2 ^ 52 * 2 ^ (j + 1) := by ring
      _ ≤ 2 ^ 52 * 2 ^ k := Nat.mul_le_mul_left _ hjk

/-- A number that is not subnormal has its leading bit. -/
lemma le_scaled {k : Nat} (hk : x.exponentField = k + 1) : 2 ^ 52 * 2 ^ k ≤ x.scaled := by
  have hmax : max x.exponentField 1 - 1 = k := by omega
  unfold scaled significand
  rw [if_neg (by omega), hmax]
  exact Nat.mul_le_mul_right _ (by omega)

lemma scaled_lt_scaled (h : x.bits.toNat % 2 ^ 63 < y.bits.toNat % 2 ^ 63) :
    x.scaled < y.scaled := by
  rw [← exponentField_fraction, ← exponentField_fraction] at h
  have hx := x.fraction_lt
  have hy := y.fraction_lt
  rcases Nat.lt_trichotomy x.exponentField y.exponentField with hlt | heq | hgt
  · obtain ⟨k, hk⟩ := Nat.exists_eq_add_one_of_ne_zero (show y.exponentField ≠ 0 by omega)
    have hbelow : x.scaled < 2 ^ 52 * 2 ^ k := scaled_lt (by omega)
    exact Nat.lt_of_lt_of_le hbelow (le_scaled hk)
  · have hfraction : x.fraction < y.fraction := by omega
    unfold scaled significand
    rw [heq]
    refine Nat.mul_lt_mul_of_pos_right ?_ (Nat.two_pow_pos _)
    split <;> omega
  · omega

lemma scaled_eq_iff : x.scaled = y.scaled ↔ x.bits.toNat % 2 ^ 63 = y.bits.toNat % 2 ^ 63 := by
  constructor
  · intro h
    by_contra hne
    rcases Nat.lt_or_gt_of_ne hne with hlt | hgt
    · exact Nat.ne_of_lt (scaled_lt_scaled hlt) h
    · exact Nat.ne_of_gt (scaled_lt_scaled hgt) h
  · intro h
    have hexp : x.exponentField = y.exponentField := by
      unfold exponentField
      omega
    have hfrac : x.fraction = y.fraction := by
      unfold fraction
      omega
    simp only [scaled, significand, hexp, hfrac]

lemma eq_of_magnitude_eq (hmag : x.magnitude = y.magnitude) (hsign : x.isNegative = y.isNegative) :
    x = y := by
  have hunit : (2 : ℚ) ^ (-1074 : ℤ) ≠ 0 := zpow_ne_zero _ two_ne_zero
  rw [magnitude_eq_scaled, magnitude_eq_scaled, mul_left_inj' hunit, Nat.cast_inj] at hmag
  have hlow := scaled_eq_iff.mp hmag
  have hx := x.bits.toNat_lt
  have hy := y.bits.toNat_lt
  unfold isNegative at hsign
  rw [decide_eq_decide] at hsign
  have hbits : x.bits.toNat = y.bits.toNat := by omega
  cases x
  cases y
  exact congrArg Binary64.mk (UInt64.toNat_inj.mp hbits)

/-- Numbers that denote the same rational have the same bits, unless they are zeros. -/
theorem eq_of_toRat_eq (h : x.toRat = y.toRat) (hne : x.toRat ≠ 0) : x = y := by
  have hx := x.magnitude_nonneg
  have hy := y.magnitude_nonneg
  unfold toRat at h hne
  by_cases hsx : x.isNegative = true
  · by_cases hsy : y.isNegative = true
    · rw [if_pos hsx, if_pos hsy] at h
      exact eq_of_magnitude_eq (neg_inj.mp h) (hsx.trans hsy.symm)
    · rw [if_pos hsx] at h hne
      rw [if_neg hsy] at h
      exact absurd (by linarith) hne
  · by_cases hsy : y.isNegative = true
    · rw [if_neg hsx] at h hne
      rw [if_pos hsy] at h
      exact absurd (by linarith) hne
    · rw [if_neg hsx, if_neg hsy] at h
      refine eq_of_magnitude_eq h ?_
      rw [Bool.eq_false_iff.mpr hsx, Bool.eq_false_iff.mpr hsy]

end NativeCall.Binary64
