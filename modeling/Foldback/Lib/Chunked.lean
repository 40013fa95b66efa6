/-
**Concatenations that can be cut back into their chunks.**

A list of entries is written chunk by chunk, with nothing between the chunks. Two such
concatenations that are equal have equal chunks as soon as the chunks' lengths are known:

* `chunks_eq_of_lengths`: the two lists of lengths are the same;
* `chunks_eq_of_uniform`: every chunk has one positive length;
* `chunks_eq_of_first_short`: every chunk but perhaps the first has one length, and the first either
  has it too or is shorter by a fixed positive amount.
-/

import Mathlib

namespace Chunked

variable {α β : Type} {chunk : α → List β}

/-- The lengths of the chunks. -/
def lengths (chunk : α → List β) (entries : List α) : List ℕ :=
  entries.map fun entry => (chunk entry).length

theorem length_flatMap_eq_sum (entries : List α) :
    (entries.flatMap chunk).length = (lengths chunk entries).sum := by
  rw [List.length_flatMap, lengths]

/-- **Equal concatenations of chunks of the same lengths have the same chunks.** -/
theorem chunks_eq_of_lengths {first second : List α}
    (same : first.flatMap chunk = second.flatMap chunk)
    (sameLengths : lengths chunk first = lengths chunk second) :
    first.map chunk = second.map chunk := by
  refine List.eq_iff_flatten_eq.mpr ⟨?_, ?_⟩
  · rw [← List.flatMap_def, ← List.flatMap_def, same]
  · rw [List.map_map, List.map_map]
    exact sameLengths

theorem lengths_of_uniform {width : ℕ} {entries : List α}
    (uniform : ∀ entry ∈ entries, (chunk entry).length = width) :
    lengths chunk entries = List.replicate entries.length width := by
  rw [lengths, List.eq_replicate_iff, List.length_map]
  refine ⟨rfl, fun size member => ?_⟩
  obtain ⟨entry, inside, rfl⟩ := List.mem_map.mp member
  exact uniform entry inside

/-- **Chunks of one positive length.** -/
theorem chunks_eq_of_uniform {width : ℕ} (positive : 0 < width) {first second : List α}
    (uniform : ∀ entry ∈ first, (chunk entry).length = width)
    (uniform' : ∀ entry ∈ second, (chunk entry).length = width)
    (same : first.flatMap chunk = second.flatMap chunk) : first.map chunk = second.map chunk := by
  refine chunks_eq_of_lengths same ?_
  have total := congrArg List.length same
  rw [length_flatMap_eq_sum, length_flatMap_eq_sum, lengths_of_uniform uniform,
    lengths_of_uniform uniform', List.sum_replicate, List.sum_replicate, smul_eq_mul,
    smul_eq_mul] at total
  rw [lengths_of_uniform uniform, lengths_of_uniform uniform',
    Nat.eq_of_mul_eq_mul_right positive total]

/-- The chunks after the first have length `short + more`; the first has it too, or `short`. -/
inductive FirstShort (chunk : α → List β) (short more : ℕ) : List α → Prop
  | uniform {entries : List α} (each : ∀ entry ∈ entries, (chunk entry).length = short + more) :
    FirstShort chunk short more entries
  | first {entry : α} {entries : List α} (head : (chunk entry).length = short)
    (each : ∀ entry ∈ entries, (chunk entry).length = short + more) :
    FirstShort chunk short more (entry :: entries)

/-- The lengths, and what the total length is modulo the common one. -/
theorem FirstShort.lengths_eq {short more : ℕ} {entries : List α}
    (shape : FirstShort chunk short more entries) :
    ∃ count, lengths chunk entries = List.replicate count (short + more) ∨
      lengths chunk entries = short :: List.replicate count (short + more) := by
  cases shape with
  | uniform each => exact ⟨_, .inl (lengths_of_uniform each)⟩
  | @first entry entries head each =>
    refine ⟨entries.length, .inr ?_⟩
    rw [lengths, List.map_cons, head, ← lengths, lengths_of_uniform each]

/-- **Chunks of one length, but perhaps the first.** The total length tells whether it is short. -/
theorem chunks_eq_of_first_short {short more : ℕ} (positive : 0 < short) (longer : 0 < more)
    {first second : List α} (shape : FirstShort chunk short more first)
    (shape' : FirstShort chunk short more second)
    (same : first.flatMap chunk = second.flatMap chunk) : first.map chunk = second.map chunk := by
  refine chunks_eq_of_lengths same ?_
  have total := congrArg List.length same
  rw [length_flatMap_eq_sum, length_flatMap_eq_sum] at total
  have remainder : ∀ count count' : ℕ, short + count * (short + more) ≠ count' * (short + more) := by
    intro count count' equal
    have reduced := congrArg (· % (short + more)) equal
    simp only [Nat.add_mul_mod_self_right, Nat.mul_mod_left] at reduced
    rw [Nat.mod_eq_of_lt (by omega)] at reduced
    omega
  obtain ⟨count, full | cut⟩ := shape.lengths_eq <;>
    obtain ⟨count', full' | cut'⟩ := shape'.lengths_eq
  · rw [full, full'] at total ⊢
    simp only [List.sum_replicate, smul_eq_mul] at total
    rw [Nat.eq_of_mul_eq_mul_right (by omega) total]
  · rw [full, cut'] at total
    simp only [List.sum_cons, List.sum_replicate, smul_eq_mul] at total
    exact absurd total.symm (remainder count' count)
  · rw [cut, full'] at total
    simp only [List.sum_cons, List.sum_replicate, smul_eq_mul] at total
    exact absurd total (remainder count count')
  · rw [cut, cut'] at total ⊢
    simp only [List.sum_cons, List.sum_replicate, smul_eq_mul, Nat.add_left_cancel_iff] at total
    rw [Nat.eq_of_mul_eq_mul_right (by omega) total]

end Chunked
