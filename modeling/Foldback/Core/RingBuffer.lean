/-
**The bounded retention buffer of `ring_buffer.rs`.** The bound is a field, so a buffer that has
outgrown its capacity cannot be built. `items_foldl_push`: it holds the last `capacity` items pushed.
-/

import Mathlib

namespace Foldback

structure RingBuffer (T : Type) where
  capacity : ℕ
  items : List T
  bounded : items.length ≤ capacity

namespace RingBuffer

variable {T : Type}

def new (capacity : ℕ) : RingBuffer T := ⟨capacity, [], Nat.zero_le _⟩

/-- Past capacity the oldest item makes room; capacity `0` keeps nothing. -/
def push (buffer : RingBuffer T) (item : T) : RingBuffer T :=
  if zero : buffer.capacity = 0 then buffer
  else if full : buffer.items.length = buffer.capacity then
    ⟨buffer.capacity, buffer.items.tail ++ [item], by
      have := buffer.bounded
      simp only [List.length_append, List.length_tail, List.length_singleton]
      omega⟩
  else
    ⟨buffer.capacity, buffer.items ++ [item], by
      have := buffer.bounded
      simp only [List.length_append, List.length_singleton]
      omega⟩

@[simp] theorem capacity_push (buffer : RingBuffer T) (item : T) :
    (buffer.push item).capacity = buffer.capacity := by
  unfold push
  split
  · rfl
  · split <;> rfl

/-- **A buffer that holds the last items of a list holds those of the longer list.** -/
theorem items_push {buffer : RingBuffer T} {pushed : List T}
    (last : buffer.items = pushed.rtake buffer.capacity) (item : T) :
    (buffer.push item).items = (pushed ++ [item]).rtake buffer.capacity := by
  unfold List.rtake at last ⊢
  have length := congrArg List.length last
  rw [List.length_drop] at length
  rw [List.length_append, List.length_singleton]
  unfold push
  split
  · rename_i zero
    rw [last, zero, Nat.sub_zero, Nat.sub_zero, List.drop_length, List.drop_of_length_le]
    rw [List.length_append, List.length_singleton]
  · rename_i nonzero
    rw [List.drop_append_of_le_length (by omega)]
    split
    · rename_i full
      show buffer.items.tail ++ [item] = _
      rw [last, List.tail_drop]
      congr 2
      omega
    · rename_i partly
      have := buffer.bounded
      show buffer.items ++ [item] = _
      rw [last]
      congr 2
      omega

theorem items_foldl_push {buffer : RingBuffer T} {pushed : List T}
    (last : buffer.items = pushed.rtake buffer.capacity) (items : List T) :
    (items.foldl push buffer).items = (pushed ++ items).rtake buffer.capacity ∧
      (items.foldl push buffer).capacity = buffer.capacity := by
  induction items generalizing buffer pushed with
  | nil => exact ⟨by rw [List.append_nil]; exact last, rfl⟩
  | cons item items ih =>
    have next := items_push last item
    rw [← capacity_push buffer item] at next
    obtain ⟨held, capacity⟩ := ih next
    rw [capacity_push] at held capacity
    rw [List.foldl_cons, held, List.append_assoc]
    exact ⟨rfl, capacity⟩

end RingBuffer

end Foldback
