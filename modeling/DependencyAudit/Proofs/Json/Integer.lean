import Mathlib.Algebra.Order.Field.Rat
import Mathlib.Algebra.Order.Field.Power
import DependencyAudit.Json.Number
import DependencyAudit.Proofs.Number.Exact

/-!
# Integers among the JSON numbers

A JSON number stands for a rational number, and the same integer can be written in many ways: `10`,
`1e1` and `10.0` are one number. Which numbers are integers, and which are below zero, is decided
on their digits, and up to `2 ^ 53` an integer is kept when it is read as a double.

## Main definitions

* `JsonNumber.value`: the rational number;
* `JsonNumber.integer?`: the integer, if the number is one;
* `JsonNumber.InProportion`: the exponent is not out of all proportion.

## Main results

* `JsonNumber.isInteger_iff`, `JsonNumber.isNegative_iff`: what is decided on the digits;
* `JsonNumber.toBinary64?_of_integer?`: integers up to `2 ^ 53` are read as they are.
-/

namespace DependencyAudit

namespace Binary64

/-- A decimal number is a whole number if and only if it is equal to it as a rational number. -/
theorem isDecimal_iff {digits k : Nat} {exponent : Int} :
    IsDecimal digits exponent k ↔ (digits : ℚ) * 10 ^ exponent = k := by
  unfold IsDecimal
  split
  · rename_i hexponent
    obtain ⟨c, rfl⟩ := Int.eq_ofNat_of_zero_le hexponent
    rw [Int.toNat_natCast, zpow_natCast]
    exact_mod_cast Iff.rfl
  · rename_i hexponent
    obtain ⟨c, rfl⟩ : ∃ c : Nat, exponent = -c := ⟨exponent.natAbs, by omega⟩
    have hpow : (10 : ℚ) ^ c ≠ 0 := pow_ne_zero c (by decide)
    rw [neg_neg, Int.toNat_natCast, zpow_neg, zpow_natCast, mul_inv_eq_iff_eq_mul₀ hpow]
    exact_mod_cast Iff.rfl

end Binary64

namespace JsonNumber

open Binary64 (IsDecimal isDecimal_iff)

/-- The magnitude of the number. -/
def magnitude (n : JsonNumber) : ℚ :=
  n.digits * 10 ^ n.exponent

/-- The rational number that the number stands for. -/
def value (n : JsonNumber) : ℚ :=
  if n.negative then -n.magnitude else n.magnitude

/-- The integer that the number stands for. -/
def integer? (n : JsonNumber) : Option Int :=
  if n.value.den = 1 then some n.value.num else none

/-- The exponent of the number is not out of all proportion. Zero may have any exponent that fits 64
bits. -/
def InProportion (n : JsonNumber) : Prop :=
  n.fitsExponent = true ∧ (n.digits = 0 ∨ n.exponent.natAbs ≤ maxExponent)

instance (n : JsonNumber) : Decidable n.InProportion :=
  inferInstanceAs (Decidable (_ ∧ _))

variable {n : JsonNumber} {k : Int}

theorem integer?_eq_some_iff : n.integer? = some k ↔ n.value = k := by
  unfold integer?
  constructor
  · intro h
    split at h
    · rename_i hden
      rw [← Option.some.inj h, Rat.coe_int_num_of_den_eq_one hden]
    · cases h
  · intro h
    simp [h]

theorem magnitude_nonneg (n : JsonNumber) : 0 ≤ n.magnitude :=
  mul_nonneg (Nat.cast_nonneg _) (zpow_nonneg (by decide) _)

theorem magnitude_eq_zero_iff : n.magnitude = 0 ↔ n.digits = 0 := by
  have hpow : (10 : ℚ) ^ n.exponent ≠ 0 := zpow_ne_zero _ (by decide)
  simp [magnitude, hpow]

/-- The digits of an integer hold its magnitude, and its sign is the one of the number. -/
theorem isDecimal_of_integer? (h : n.integer? = some k) :
    IsDecimal n.digits n.exponent k.natAbs ∧
      k = if n.negative then -(k.natAbs : Int) else k.natAbs := by
  rw [integer?_eq_some_iff, value] at h
  have hnonneg := n.magnitude_nonneg
  -- the magnitude is not below zero, so the integer has the sign of the number or it is zero
  rw [isDecimal_iff, ← magnitude]
  split at h
  · have hk : k ≤ 0 := by
      have hcast : (k : ℚ) ≤ 0 := by rw [← h]; exact neg_nonpos.mpr hnonneg
      exact_mod_cast hcast
    rw [if_pos ‹_›]
    refine ⟨?_, by omega⟩
    rw [Nat.cast_natAbs, abs_of_nonpos hk, Int.cast_neg, ← h, neg_neg]
  · have hk : 0 ≤ k := by
      have hcast : (0 : ℚ) ≤ k := by rw [← h]; exact hnonneg
      exact_mod_cast hcast
    rw [if_neg ‹_›]
    refine ⟨?_, by omega⟩
    rw [Nat.cast_natAbs, abs_of_nonneg hk, ← h]

/-- A number is an integer if and only if its magnitude is a whole number. -/
theorem exists_integer?_iff :
    (∃ k, n.integer? = some k) ↔ ∃ m : Nat, IsDecimal n.digits n.exponent m := by
  constructor
  · rintro ⟨k, hk⟩
    exact ⟨k.natAbs, (isDecimal_of_integer? hk).1⟩
  · rintro ⟨m, hm⟩
    rw [isDecimal_iff, ← magnitude] at hm
    refine ⟨if n.negative then -(m : Int) else m, ?_⟩
    rw [integer?_eq_some_iff, value, hm]
    split <;> simp

/-- A number is taken for an integer if and only if it is one and its exponent is in proportion. -/
theorem isInteger_iff : n.isInteger = true ↔ (∃ k, n.integer? = some k) ∧ n.InProportion := by
  rw [exists_integer?_iff]
  by_cases hzero : n.digits = 0
  · -- zero is an integer, whatever its exponent
    have hwhole : ∃ m : Nat, IsDecimal n.digits n.exponent m :=
      ⟨0, by simp [isDecimal_iff, hzero]⟩
    rw [and_iff_right hwhole]
    simp [isInteger, InProportion, hzero]
  · -- with a negative exponent the power of ten has to divide the digits
    have hwhole : (∃ m : Nat, IsDecimal n.digits n.exponent m) ↔
        0 ≤ n.exponent ∨ n.digits % tenPow n.exponent.natAbs = 0 := by
      unfold IsDecimal
      split
      · simp [*]
      · rename_i hexponent
        have habs : (-n.exponent).toNat = n.exponent.natAbs := by omega
        rw [habs, or_iff_right hexponent, ← Nat.dvd_iff_mod_eq_zero]
        exact ⟨fun ⟨m, hm⟩ => ⟨m, hm.trans (Nat.mul_comm _ _)⟩,
          fun ⟨m, hm⟩ => ⟨m, hm.trans (Nat.mul_comm _ _)⟩⟩
    rw [hwhole]
    simp [isInteger, InProportion, hzero, and_assoc, and_comm, and_left_comm]

theorem isNegative_iff : n.isNegative = true ↔ n.value < 0 := by
  have hnonneg := n.magnitude_nonneg
  rw [isNegative, value]
  by_cases hnegative : n.negative = true
  · simp [hnegative, hnonneg.lt_iff_ne', magnitude_eq_zero_iff]
  · simp [hnegative, hnonneg]

theorem isNegative_iff_of_integer? (h : n.integer? = some k) : n.isNegative = true ↔ k < 0 := by
  rw [isNegative_iff, integer?_eq_some_iff.mp h, Int.cast_lt_zero]

/-- Integers up to `2 ^ 53` are read as they are. -/
theorem toBinary64?_of_integer? (h : n.integer? = some k) (hle : k.natAbs ≤ 2 ^ 53) :
    ∃ x, n.toBinary64? = some x ∧ x.toInt = k := by
  obtain ⟨hdecimal, hsign⟩ := isDecimal_of_integer? h
  obtain ⟨x, hx, hnegative, htruncate⟩ :=
    Binary64.ofDecimal?_of_isDecimal n.negative hdecimal hle
  refine ⟨x, hx, ?_⟩
  rw [Binary64.toInt, hnegative, htruncate, ← hsign]

end JsonNumber

end DependencyAudit
