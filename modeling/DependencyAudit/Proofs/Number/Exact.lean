import Mathlib.Algebra.Group.Nat.Defs
import DependencyAudit.Number.Binary64

/-!
# Integers are double-precision numbers

Up to `2 ^ 53` every integer is a double-precision number, and rounding leaves it as it is: whatever
ratio or decimal number an integer is given by, the double that is nearest to it is this integer.

For a ratio that is a whole number `k` the exponent is the one of `k` itself, `log2 k - 52`. It is
at most zero, so that nothing is cut off from `k`, or it is one, and then `k` is `2 ^ 53`.

## Main results

* `Binary64.exponentFor_mul`: the exponent of a ratio that is a whole number;
* `Binary64.ofRatio?_mul`: a ratio that is a whole number is rounded to this number;
* `Binary64.ofDecimal?_of_isDecimal`: so is a decimal number that is a whole number.
-/

namespace DependencyAudit.Binary64

/-! ## Scaling -/

/-- The whole part of `k / 2 ^ e`. -/
def wholePart (k : Nat) (e : Int) : Nat :=
  if 0 ≤ e then k / 2 ^ e.toNat else k * 2 ^ (-e).toNat

variable {k den : Nat}

theorem scale_div (hden : 0 < den) (e : Int) :
    (scale (k * den) den e).1 / (scale (k * den) den e).2 = wholePart k e := by
  unfold scale wholePart
  -- the denominator cancels, on whichever side the power of two stands
  split
  · exact Nat.mul_comm k den ▸ Nat.mul_div_mul_left k _ hden
  · rw [Nat.mul_right_comm]
    exact Nat.mul_div_cancel _ hden

/-- The whole part of a positive number has as many bits as its exponent leaves. -/
theorem wholePart_bounds (hk : 0 < k) (j : Nat) :
    twoPow j ≤ wholePart k (k.log2 - j) ∧ wholePart k (k.log2 - j) < twoPow (j + 1) := by
  change 2 ^ j ≤ _ ∧ _ < 2 ^ (j + 1)
  have hlow : 2 ^ k.log2 ≤ k := Nat.log2_self_le (by omega)
  have hhigh : k < 2 ^ (k.log2 + 1) := Nat.lt_log2_self
  unfold wholePart
  split
  · -- the exponent is the number of bits that are cut off
    rename_i hexponent
    obtain ⟨c, hc⟩ : ∃ c, k.log2 = j + c := ⟨k.log2 - j, by omega⟩
    have hcut : ((k.log2 : Int) - j).toNat = c := by omega
    rw [hcut, Nat.le_div_iff_mul_le (Nat.pow_pos (by decide)),
      Nat.div_lt_iff_lt_mul (Nat.pow_pos (by decide)), ← Nat.pow_add, ← Nat.pow_add]
    rw [hc] at hlow hhigh
    exact ⟨hlow, by rwa [Nat.add_right_comm]⟩
  · -- the exponent is the number of bits that are filled up
    rename_i hexponent
    obtain ⟨c, hc⟩ : ∃ c, j = k.log2 + c := ⟨j - k.log2, by omega⟩
    have hfill : (-((k.log2 : Int) - j)).toNat = c := by omega
    rw [hfill, hc, Nat.pow_add]
    refine ⟨Nat.mul_le_mul_right _ hlow, ?_⟩
    rw [Nat.add_right_comm, Nat.pow_add]
    exact Nat.mul_lt_mul_of_pos_right hhigh (Nat.pow_pos (by decide))

/-! ## Exponents -/

/-- A product has the bits of its factors, or one bit more. -/
theorem log2_mul_bounds (hk : 0 < k) (hden : 0 < den) :
    k.log2 + den.log2 ≤ (k * den).log2 ∧ (k * den).log2 ≤ k.log2 + den.log2 + 1 := by
  have hproduct : k * den ≠ 0 := Nat.pos_iff_ne_zero.mp (Nat.mul_pos hk hden)
  constructor
  · rw [Nat.le_log2 hproduct, Nat.pow_add]
    exact Nat.mul_le_mul (Nat.log2_self_le (by omega)) (Nat.log2_self_le (by omega))
  · rw [← Nat.lt_succ_iff, Nat.log2_lt hproduct]
    calc k * den < 2 ^ (k.log2 + 1) * 2 ^ (den.log2 + 1) :=
          Nat.mul_lt_mul_of_lt_of_lt Nat.lt_log2_self Nat.lt_log2_self
      _ = 2 ^ (k.log2 + den.log2 + 1).succ := by rw [← Nat.pow_add]; congr 1; omega

/-- The exponent of a ratio that is a whole number. -/
theorem exponentFor_mul (hk : 0 < k) (hden : 0 < den) :
    exponentFor (k * den) den = k.log2 - 52 := by
  obtain ⟨hlow, hhigh⟩ := log2_mul_bounds hk hden
  simp only [exponentFor, scale_div hden]
  -- the guess is the exponent itself, or one more if the product has a bit more
  rcases Nat.le_or_eq_of_le_succ hhigh with hfit | hmore
  · have hguess :
        max minExponent (((k * den).log2 : Int) - den.log2 - 52) = k.log2 - (52 : Nat) := by
      unfold minExponent
      omega
    obtain ⟨hleast, hmost⟩ := wholePart_bounds hk 52
    rw [hguess, if_neg (Nat.not_le.mpr hmost), if_neg]
    · simp
    · simpa using fun hless => absurd hless (Nat.not_lt.mpr hleast)
  · have hguess :
        max minExponent (((k * den).log2 : Int) - den.log2 - 52) = k.log2 - (51 : Nat) := by
      unfold minExponent
      omega
    obtain ⟨-, hmost⟩ := wholePart_bounds hk 51
    have hmin : (k.log2 : Int) - (51 : Nat) > minExponent := by
      unfold minExponent
      omega
    rw [hguess, if_neg (Nat.not_le.mpr (Nat.lt_trans hmost (by decide))), if_pos]
    · omega
    · simpa using ⟨hmost, hmin⟩

/-! ## Rounding -/

theorem roundDiv_mul (q : Nat) {d : Nat} (hd : 0 < d) : roundDiv (q * d) d = q := by
  simp [roundDiv, Nat.mul_div_cancel q hd, Nat.ne_of_lt hd]

/-- No bit of the number is cut off at the exponent. -/
def FitsAt (k : Nat) (e : Int) : Prop :=
  0 ≤ e → 2 ^ e.toNat ∣ k

theorem roundDiv_scale (hden : 0 < den) {e : Int} (hfits : FitsAt k e) :
    roundDiv (scale (k * den) den e).1 (scale (k * den) den e).2 = wholePart k e := by
  unfold scale wholePart
  split
  · rename_i hexponent
    obtain ⟨q, rfl⟩ := hfits hexponent
    rw [Nat.mul_div_cancel_left q (Nat.pow_pos (by decide)),
      show 2 ^ e.toNat * q * den = q * (den * twoPow e.toNat) by
        rw [Nat.mul_comm _ q, Nat.mul_assoc, Nat.mul_comm (2 ^ e.toNat) den]
        rfl]
    exact roundDiv_mul q (Nat.mul_pos hden (twoPow_pos _))
  · rw [Nat.mul_right_comm]
    exact roundDiv_mul _ hden

theorem truncate_wholePart {e : Int} (hfits : FitsAt k e) (negative : Bool) :
    truncate ⟨negative, wholePart k e, e⟩ = k := by
  unfold truncate wholePart
  split
  · exact Nat.div_mul_cancel (hfits ‹_›)
  · exact Nat.mul_div_cancel k (twoPow_pos _)

theorem log2_le (hk : 0 < k) (hle : k ≤ 2 ^ 53) : k.log2 ≤ 53 := by
  rw [← Nat.pow_le_pow_iff_right (show 1 < 2 by decide)]
  exact Nat.le_trans (Nat.log2_self_le (by omega)) hle

/-- At its own exponent a number up to `2 ^ 53` fits. -/
theorem fitsAt_log2 (hk : 0 < k) (hle : k ≤ 2 ^ 53) : FitsAt k (k.log2 - 52) := by
  intro hexponent
  have hlow : 2 ^ k.log2 ≤ k := Nat.log2_self_le (by omega)
  have hbits := log2_le hk hle
  obtain heq | heq : k.log2 = 52 ∨ k.log2 = 53 := by omega
  · simp [heq]
  · -- with 54 bits there is but one such number
    rw [heq] at hlow
    obtain rfl : k = 2 ^ 53 := Nat.le_antisymm hle hlow
    rw [heq]
    decide

/-- A ratio that is a whole number up to `2 ^ 53` is rounded to this number. -/
theorem ofRatio?_mul (negative : Bool) (hk : 0 < k) (hle : k ≤ 2 ^ 53) (hden : 0 < den) :
    ∃ x, ofRatio? negative (k * den) den = some x ∧ x.negative = negative ∧ x.truncate = k := by
  have hfits := fitsAt_log2 hk hle
  have hround := roundDiv_scale hden hfits
  have hmost : wholePart k (k.log2 - 52) < twoPow 53 := (wholePart_bounds hk 52).2
  have hexponent : ¬((k.log2 : Int) - 52 > maxExponent) := by
    have hbits := log2_le hk hle
    unfold maxExponent
    omega
  -- the mantissa is below `2 ^ 53`, so that rounding does not carry over into the exponent
  refine ⟨⟨negative, wholePart k (k.log2 - 52), k.log2 - 52⟩, ?_, rfl,
    truncate_wholePart hfits negative⟩
  simp only [ofRatio?, Nat.pos_iff_ne_zero.mp (Nat.mul_pos hk hden), exponentFor_mul hk hden,
    hround, Nat.ne_of_lt hmost, hexponent, if_false]

/-! ## Decimal numbers -/

/-- The decimal number `digits · 10 ^ exponent` is the whole number `k`. -/
def IsDecimal (digits : Nat) (exponent : Int) (k : Nat) : Prop :=
  if 0 ≤ exponent then digits * 10 ^ exponent.toNat = k else digits = k * 10 ^ (-exponent).toNat

variable {digits : Nat} {exponent : Int}

theorem IsDecimal.digits_eq_zero_iff (h : IsDecimal digits exponent k) : digits = 0 ↔ k = 0 := by
  have hpow (n : Nat) : 10 ^ n ≠ 0 := Nat.pos_iff_ne_zero.mp (Nat.pow_pos (by decide))
  unfold IsDecimal at h
  split at h
  · rw [← h, Nat.mul_eq_zero, or_iff_left (hpow _)]
  · rw [h, Nat.mul_eq_zero, or_iff_left (hpow _)]

/-- A positive number up to `2 ^ 53` has from 1 to 16 digits before the decimal point. -/
theorem IsDecimal.magnitude (h : IsDecimal digits exponent k) (hk : 0 < k) (hle : k ≤ 2 ^ 53) :
    0 < ((Nat.toDigits 10 digits).length : Int) + exponent ∧
      ((Nat.toDigits 10 digits).length : Int) + exponent ≤ 16 := by
  have hlength {n : Nat} (hn : 0 < n) :
      (Nat.toDigits 10 digits).length ≤ n ↔ digits < 10 ^ n :=
    Nat.length_toDigits_le_iff (by decide) hn
  have hsmall : k < 10 ^ 16 := Nat.lt_of_le_of_lt hle (by decide)
  unfold IsDecimal at h
  split at h
  · have hpositive : 0 < (Nat.toDigits 10 digits).length :=
      List.length_pos_iff.mpr Nat.toDigits_ne_nil
    have hdigits : 0 < digits := Nat.pos_of_mul_pos_right (h ▸ hk)
    -- the zeros that the exponent stands for are among the 16 digits
    have hzeros : exponent.toNat < 16 := by
      rw [← Nat.pow_lt_pow_iff_right (show 1 < 10 by decide)]
      exact Nat.lt_of_le_of_lt (Nat.le_mul_of_pos_left _ hdigits) (h ▸ hsmall)
    have hmost : digits < 10 ^ (16 - exponent.toNat) := by
      refine Nat.lt_of_mul_lt_mul_right (a := 10 ^ exponent.toNat) ?_
      rwa [h, ← Nat.pow_add, Nat.sub_add_cancel (Nat.le_of_lt hzeros)]
    have hle := (hlength (by omega)).mpr hmost
    omega
  · have hleast : ¬digits < 10 ^ (-exponent).toNat :=
      Nat.not_lt.mpr (h ▸ Nat.le_mul_of_pos_left _ hk)
    have hmost : digits < 10 ^ (16 + (-exponent).toNat) := by
      rw [h, Nat.pow_add]
      exact Nat.mul_lt_mul_of_pos_right hsmall (Nat.pow_pos (by decide))
    have hlow := mt (hlength (by omega)).mp hleast
    have hhigh := (hlength (by omega)).mpr hmost
    omega

/-- A decimal number that is a whole number up to `2 ^ 53` is rounded to this number. -/
theorem ofDecimal?_of_isDecimal (negative : Bool) (h : IsDecimal digits exponent k)
    (hle : k ≤ 2 ^ 53) :
    ∃ x, ofDecimal? negative digits exponent = some x ∧ x.negative = negative ∧
      x.truncate = k := by
  rcases Nat.eq_zero_or_pos k with rfl | hk
  · obtain rfl : digits = 0 := h.digits_eq_zero_iff.mpr rfl
    exact ⟨zero negative, rfl, rfl, by simp [truncate, zero, minExponent]⟩
  · obtain ⟨hlow, hhigh⟩ := h.magnitude hk hle
    have hdigits : digits ≠ 0 := mt h.digits_eq_zero_iff.mp (Nat.pos_iff_ne_zero.mp hk)
    -- with so few digits the number is neither too large nor taken for zero
    have hnotLarge : ¬((Nat.toDigits 10 digits).length + exponent > 310) := by omega
    have hnotSmall : ¬((Nat.toDigits 10 digits).length + exponent < -330) := by omega
    simp only [ofDecimal?, hdigits, hnotLarge, hnotSmall, if_false]
    unfold IsDecimal at h
    split at h
    · -- the ratio is the number itself over one
      rw [if_pos ‹_›, ← Nat.mul_one (digits * _)]
      exact h ▸ ofRatio?_mul negative (h ▸ hk) (h ▸ hle) Nat.one_pos
    · rw [if_neg ‹_›, h]
      exact ofRatio?_mul negative hk hle (tenPow_pos _)

end DependencyAudit.Binary64
