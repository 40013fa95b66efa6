/-
**Fixed-width positional digits, and the little-endian byte codec built on them.**

`digits base width value` is the low `width` digits of `value`, least significant first; digits
above `width` are dropped, so the list always has `width` entries.

* `ofDigits_digits`: reading the digits back gives `value % base ^ width`.
* `digits_injOn`: two values below `base ^ width` with the same digits are equal.
* `leBytes` / `leNat`: the base `256` instance on `List UInt8`, with its two round trips
  `leNat_leBytes_of_lt` and `leBytes_leNat`.
-/

import Mathlib

namespace Radix

/-! ### Digits -/

/-- The low `width` digits of `value` in `base`, least significant first. -/
def digits (base : ℕ) : ℕ → ℕ → List ℕ
  | 0, _ => []
  | width + 1, value => value % base :: digits base width (value / base)

@[simp]
theorem length_digits (base width value : ℕ) : (digits base width value).length = width := by
  induction width generalizing value with
  | zero => rfl
  | succ width ih => rw [digits, List.length_cons, ih]

theorem digit_lt {base : ℕ} (positive : 0 < base) (width value : ℕ) :
    ∀ digit ∈ digits base width value, digit < base := by
  induction width generalizing value with
  | zero => exact fun digit member => by cases member
  | succ width ih =>
    intro digit member
    rcases List.mem_cons.mp member with rfl | member
    · exact Nat.mod_lt value positive
    · exact ih (value / base) digit member

/-- **Reading the digits back** keeps the value modulo `base ^ width`. -/
theorem ofDigits_digits (base width value : ℕ) :
    Nat.ofDigits base (digits base width value) = value % base ^ width := by
  induction width generalizing value with
  | zero => rw [digits, Nat.ofDigits_nil, pow_zero, Nat.mod_one]
  | succ width ih => rw [digits, Nat.ofDigits_cons, ih, pow_succ', Nat.mod_mul]

/-- Only the value modulo `base ^ width` shows in its digits. -/
theorem digits_mod (base width value : ℕ) :
    digits base width (value % base ^ width) = digits base width value := by
  induction width generalizing value with
  | zero => rfl
  | succ width ih =>
    rw [digits, digits, pow_succ', Nat.mod_mul_right_mod, Nat.mod_mul_right_div_self, ih]

/-- The low digits, then those above. -/
theorem digits_add (base low high value : ℕ) :
    digits base (low + high) value = digits base low value ++ digits base high (value / base ^ low) := by
  induction low generalizing value with
  | zero => rw [Nat.zero_add, pow_zero, Nat.div_one, digits, List.nil_append]
  | succ low ih =>
    rw [Nat.succ_add, digits, digits, ih, Nat.div_div_eq_div_mul, ← pow_succ', List.cons_append]

/-- **Digits determine the value** below `base ^ width`. -/
theorem digits_injOn {base width first second : ℕ} (smallFirst : first < base ^ width)
    (smallSecond : second < base ^ width)
    (same : digits base width first = digits base width second) : first = second := by
  have read := congrArg (Nat.ofDigits base) same
  rwa [ofDigits_digits, ofDigits_digits, Nat.mod_eq_of_lt smallFirst,
    Nat.mod_eq_of_lt smallSecond] at read

/-! ### Little-endian bytes -/

/-- The `width` little-endian bytes of `value`. -/
def leBytes (width value : ℕ) : List UInt8 := (digits 256 width value).map UInt8.ofNat

/-- The natural number with the given little-endian bytes. -/
def leNat (bytes : List UInt8) : ℕ := Nat.ofDigits 256 (bytes.map UInt8.toNat)

@[simp]
theorem length_leBytes (width value : ℕ) : (leBytes width value).length = width := by
  rw [leBytes, List.length_map, length_digits]

theorem toNat_leBytes (width value : ℕ) :
    (leBytes width value).map UInt8.toNat = digits 256 width value := by
  rw [leBytes, List.map_map]
  refine (List.map_congr_left fun digit member => ?_).trans (List.map_id _)
  have small := digit_lt (by norm_num) width value digit member
  simp only [Function.comp_apply, id_eq]
  exact UInt8.toNat_ofNat_of_lt' small

theorem leNat_leBytes (width value : ℕ) : leNat (leBytes width value) = value % 256 ^ width := by
  rw [leNat, toNat_leBytes, ofDigits_digits]

/-- **The codec's round trip** on values that fit. -/
theorem leNat_leBytes_of_lt {width value : ℕ} (small : value < 256 ^ width) :
    leNat (leBytes width value) = value := by
  rw [leNat_leBytes, Nat.mod_eq_of_lt small]

theorem leNat_lt (bytes : List UInt8) : leNat bytes < 256 ^ bytes.length := by
  have bound := Nat.ofDigits_lt_base_pow_length (b := 256) (l := bytes.map UInt8.toNat)
    (by norm_num) fun digit member => by
      obtain ⟨byte, _, rfl⟩ := List.mem_map.mp member
      exact byte.toNat_lt
  rwa [List.length_map] at bound

/-- **Every byte string is the code of the number it reads as.** -/
theorem leBytes_leNat (bytes : List UInt8) : leBytes bytes.length (leNat bytes) = bytes := by
  induction bytes with
  | nil => rfl
  | cons byte bytes ih =>
    have low : byte.toNat < 256 := byte.toNat_lt
    have whole : leNat (byte :: bytes) = byte.toNat + 256 * leNat bytes := rfl
    have digit : (byte.toNat + 256 * leNat bytes) % 256 = byte.toNat := by omega
    have rest : (byte.toNat + 256 * leNat bytes) / 256 = leNat bytes := by omega
    rw [whole, List.length_cons, leBytes, digits, digit, rest, List.map_cons, UInt8.ofNat_toNat]
    exact congrArg _ ih

theorem leBytes_injOn {width first second : ℕ} (smallFirst : first < 256 ^ width)
    (smallSecond : second < 256 ^ width) (same : leBytes width first = leBytes width second) :
    first = second := by
  have read := congrArg leNat same
  rwa [leNat_leBytes_of_lt smallFirst, leNat_leBytes_of_lt smallSecond] at read

theorem leBytes_mod (width value : ℕ) : leBytes width (value % 256 ^ width) = leBytes width value :=
  congrArg (List.map UInt8.ofNat) (digits_mod 256 width value)

theorem leBytes_add (low high value : ℕ) :
    leBytes (low + high) value = leBytes low value ++ leBytes high (value / 256 ^ low) := by
  rw [leBytes, digits_add, List.map_append]
  rfl

/-- **Bits are determined by as many bytes.** -/
theorem eq_of_leBytes {w width : ℕ} (fits : 2 ^ w ≤ 256 ^ width) {a b : BitVec w}
    (same : leBytes width a.toNat = leBytes width b.toNat) : a = b := by
  have bound : ∀ c : BitVec w, c.toNat < 256 ^ width := fun c => Nat.lt_of_lt_of_le c.isLt fits
  exact BitVec.eq_of_toNat_eq (leBytes_injOn (bound a) (bound b) same)

end Radix
