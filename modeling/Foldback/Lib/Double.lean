/-
**Doubles that are natural numbers**: 53 significant bits, ties to the even significand.

* `nearest num den`: the double nearest to `num / den`, if that is a natural number or `2 ^ 52` at least.
  A smaller quotient is scaled by a power of two first (`ceilDiv`).
* `nearest_of_lt`: a number below `2 ^ 53` is a double. `nearest_bounds`: a larger one stays between the
  powers of two around it.
* `lt_add`: **below `2 ^ 53` a sum is larger than its summands**; above, a small summand can be lost.
-/

import Mathlib

namespace Double

def nearest (num den : ℕ) : ℕ :=
  let exponent := (num / den).log2 - 52
  let unit := den * 2 ^ exponent
  let below := num / unit
  let excess := 2 * (num % unit)
  (if unit < excess ∨ (unit = excess ∧ below % 2 = 1) then below + 1 else below) * 2 ^ exponent

/-- The sum of two doubles. -/
def add (first second : ℕ) : ℕ := nearest (first + second) 1

/-- The quotient of two doubles, rounded up to an integer. The divisor is below 8, so that the scaled
quotient is 0 or `2 ^ 52` at least. -/
def ceilDiv (num den : ℕ) : ℕ := (nearest (num * 2 ^ 55) den + (2 ^ 55 - 1)) / 2 ^ 55

theorem log2_le_of_lt {value : ℕ} (small : value < 2 ^ 53) : value.log2 ≤ 52 := by
  rcases Nat.eq_zero_or_pos value with rfl | positive
  · simp
  · exact Nat.lt_succ_iff.mp ((Nat.log2_lt positive.ne').mpr small)

/-- A number below `2 ^ 53` is a double. -/
theorem nearest_of_lt {value : ℕ} (small : value < 2 ^ 53) : nearest value 1 = value := by
  have none : (value / 1).log2 - 52 = 0 := by
    rw [Nat.div_one]
    exact Nat.sub_eq_zero_of_le (log2_le_of_lt small)
  rw [nearest, none]
  simp [Nat.mod_one]

/-- **A number of at least `2 ^ 53` stays between the powers of two around it.** -/
theorem nearest_bounds {value : ℕ} (large : 2 ^ 53 ≤ value) :
    2 ^ value.log2 ≤ nearest value 1 ∧ nearest value 1 ≤ 2 ^ (value.log2 + 1) := by
  have positive : value ≠ 0 := by omega
  have exponent : 53 ≤ value.log2 := (Nat.le_log2 positive).mpr large
  have unit : 2 ^ 52 * 2 ^ (value.log2 - 52) = 2 ^ value.log2 := by
    rw [← Nat.pow_add]
    congr 1
    omega
  have least : 2 ^ 52 ≤ value / 2 ^ (value.log2 - 52) := by
    rw [Nat.le_div_iff_mul_le (Nat.two_pow_pos _), unit]
    exact Nat.log2_self_le positive
  have most : value / 2 ^ (value.log2 - 52) < 2 ^ 53 := by
    rw [Nat.div_lt_iff_lt_mul (Nat.two_pow_pos _)]
    calc value < 2 ^ (value.log2 + 1) := Nat.lt_log2_self
      _ = 2 ^ 53 * 2 ^ (value.log2 - 52) := by rw [Nat.pow_succ, ← unit]; ring
  have doubled : 2 ^ (value.log2 + 1) = 2 ^ 53 * 2 ^ (value.log2 - 52) := by
    rw [Nat.pow_succ, ← unit]
    ring
  rw [nearest, Nat.div_one, Nat.one_mul, doubled, ← unit]
  constructor
  · refine Nat.mul_le_mul_right _ ?_
    split <;> omega
  · refine Nat.mul_le_mul_right _ ?_
    split <;> omega

/-- **A positive summand is not lost below `2 ^ 53`.** -/
theorem lt_add {value step : ℕ} (small : value < 2 ^ 53) (positive : 0 < step) :
    value < add value step := by
  by_cases fits : value + step < 2 ^ 53
  · rw [add, nearest_of_lt fits]
    exact Nat.lt_add_of_pos_right positive
  · have large : 2 ^ 53 ≤ value + step := Nat.le_of_not_lt fits
    have above : 2 ^ 53 ≤ 2 ^ (value + step).log2 :=
      Nat.pow_le_pow_right (by decide) ((Nat.le_log2 (by omega)).mpr large)
    exact small.trans_le (above.trans (nearest_bounds large).1)

/-- Above, it can be. -/
example : add (2 ^ 53) 1 = 2 ^ 53 := by decide

end Double
