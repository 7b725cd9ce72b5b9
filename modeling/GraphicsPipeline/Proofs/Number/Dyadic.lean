import Mathlib
import GraphicsPipeline.Number.Dyadic

/-!
# Values of dyadic numbers

A dyadic number stands for a rational one. Roundings to integers are those of the value, and forms
with few digits are ordered as their exponents and coefficients are.
-/

namespace GraphicsPipeline

lemma twoPow_eq {k : Nat} : twoPow k = 2 ^ k := rfl

/-- The nearest integer is one of the two around the quotient. -/
lemma nearestShift_bounds (n k : Nat) :
    n / 2 ^ k ≤ nearestShift n k ∧ nearestShift n k ≤ n / 2 ^ k + 1 := by
  rw [← twoPow_eq, nearestShift]
  generalize n / twoPow k = quotient, n % twoPow k = remainder
  split_ifs <;> omega

namespace Dyadic

variable {d : Dyadic} {n : Nat}

/-- The number as a rational one. -/
def value (d : Dyadic) : ℚ := d.coefficient * 2 ^ d.exponent

lemma value_neg : (-d).value = -d.value := by
  show ((-d.coefficient : Int) : ℚ) * 2 ^ d.exponent = -(d.coefficient * 2 ^ d.exponent)
  push_cast
  ring

/-! ### Roundings -/

/-- The greatest integer that is not above the number is that of the value. -/
theorem floor_eq : d.floor = ⌊d.value⌋ := by
  obtain ⟨coefficient, exponent⟩ := d
  unfold floor value
  by_cases h : 0 ≤ exponent
  · obtain ⟨k, rfl⟩ := Int.eq_ofNat_of_zero_le h
    have hcast : (coefficient : ℚ) * 2 ^ (k : Int) = ((coefficient * 2 ^ k : Int) : ℚ) := by
      push_cast
      rw [zpow_natCast]
    simp only [Int.natCast_nonneg, if_true, Int.toNat_natCast, twoPow_eq, hcast,
      Int.floor_intCast]
    push_cast
    rfl
  · obtain ⟨k, rfl⟩ : ∃ k : Nat, exponent = -(k : Int) := ⟨(-exponent).toNat, by omega⟩
    have hdiv : (coefficient : ℚ) * 2 ^ (-(k : Int)) = coefficient / ((2 ^ k : Nat) : ℚ) := by
      rw [zpow_neg, zpow_natCast, div_eq_mul_inv]
      push_cast
      rfl
    rw [if_neg h, hdiv, Rat.floor_intCast_div_natCast, neg_neg, Int.toNat_natCast, twoPow_eq]

lemma ceil_eq : d.ceil = ⌈d.value⌉ := by
  rw [ceil, floor_eq, value_neg, Int.floor_neg, neg_neg]

lemma value_nonneg_iff : 0 ≤ d.value ↔ 0 ≤ d.coefficient := by
  have hpow : (0 : ℚ) < 2 ^ d.exponent := by positivity
  rw [value, mul_nonneg_iff_of_pos_right hpow]
  exact Int.cast_nonneg_iff

/-- A number without its fraction exceeds no natural number that the number does not exceed. -/
lemma truncate_le (h : d.value ≤ n) : d.truncate ≤ n := by
  unfold truncate
  split
  · rw [floor_eq]
    exact Int.floor_le_iff.2 (by push_cast; linarith)
  · rename_i hneg
    rw [ceil_eq]
    have hvalue : d.value < 0 := not_le.1 fun hle => hneg (value_nonneg_iff.1 hle)
    exact Int.ceil_le.2 (by push_cast; linarith)

lemma truncate_of_value (h : d.value = n) : d.truncate = n := by
  have hnonneg : 0 ≤ d.coefficient := value_nonneg_iff.1 (by rw [h]; positivity)
  rw [truncate, if_pos hnonneg, floor_eq, h, Int.floor_natCast]

/-! ### Order -/

/-- Of two numbers of at most so many digits, the one with the smaller exponent is smaller, unless
the other has fewer digits. -/
lemma mul_zpow_lt_of_exponent_lt {digits m n : Nat} {e f : Int} (hm : m < 2 ^ (digits + 1))
    (hn : 2 ^ digits ≤ n) (h : e < f) : (m : ℚ) * 2 ^ e < n * 2 ^ f := by
  have hm' : (m : ℚ) < 2 ^ (digits + 1) := by exact_mod_cast hm
  have hn' : (2 : ℚ) ^ digits ≤ n := by exact_mod_cast hn
  calc (m : ℚ) * 2 ^ e < 2 ^ (digits + 1) * 2 ^ e := by gcongr
    _ = 2 ^ digits * 2 ^ (e + 1) := by rw [zpow_add_one₀ two_ne_zero]; ring
    _ ≤ 2 ^ digits * 2 ^ f := by gcongr <;> [norm_num; omega]
    _ ≤ n * 2 ^ f := by gcongr

end Dyadic

end GraphicsPipeline
