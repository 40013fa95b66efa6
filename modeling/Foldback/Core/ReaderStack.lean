/-
**How deep a stack the frame reader needs.**

`next_frame` calls itself for every chunk of a type it does not know, so a run of such chunks nests
as many calls, and one that outgrows the stack aborts the process. The room is counted in activations
of `next_frame`, not in bytes.

* `Yields stack input items`: calling the iterator again and again on `input` returns `items`, then
  `None`, without outgrowing the stack.
* `nextFrame_eq`: one call returns exactly when the run of unknown chunks at its front leaves room.
* `yields_iff`: **the iterator reaches its `None` exactly when the stack has more room than the
  longest run of consecutive unknown chunks**, and its items are then `FrameReader.items`.
-/

import Foldback.Core.Format
import Foldback.Lib.Runs

namespace Foldback

open ChunkStream Runs

namespace FrameReader

/-- The iterator's items up to its first `None`. -/
inductive Yields (stack : ℕ) : Bytes → List (Except Error Frame) → Prop
  | stop {input rest : Bytes} (step : nextFrame stack input = some (.ok none rest)) :
      Yields stack input []
  | frame {input rest : Bytes} {frame : Frame} {items : List (Except Error Frame)}
      (step : nextFrame stack input = some (.ok (some frame) rest))
      (later : Yields stack rest items) : Yields stack input (.ok frame :: items)
  | error {input rest : Bytes} {error : Error} {items : List (Except Error Frame)}
      (step : nextFrame stack input = some (.error error rest)) (later : Yields stack rest items) :
      Yields stack input (.error error :: items)

/-- A chunk the reader passes over. -/
def skipped (chunk : Chunk) : Bool := (readChunk chunk).isNone

/-- **One call** returns exactly when the unknown chunks at the front leave room for it. -/
theorem nextFrame_eq (stack : ℕ) (input : Bytes) :
    nextFrame stack input =
      if ((chunks 4 input).takeWhile skipped).length < stack then some (nextFrameUnbounded input)
      else none := by
  induction stack generalizing input with
  | zero => rw [if_neg (Nat.not_lt_zero _), nextFrame]
  | succ stack ih =>
    rw [nextFrame]
    rcases found : next 4 input with _ | ⟨chunk, rest⟩
    · obtain ⟨left, stop⟩ := nextFrameBody_of_none found
      rw [chunks_of_none found, nextFrameUnbounded_step, stop]
      exact (if_pos (Nat.succ_pos stack)).symm
    · rw [chunks_of_some found, nextFrameUnbounded_step, nextFrameBody_of_some found]
      rcases read : readChunk chunk with _ | (error | frame)
      · rw [List.takeWhile_cons_of_pos (by rw [skipped, read]; rfl), List.length_cons]
        simp only [Nat.succ_lt_succ_iff]
        exact ih rest
      · rw [List.takeWhile_cons_of_neg (by simp [skipped, read])]
        exact (if_pos (Nat.succ_pos stack)).symm
      · rw [List.takeWhile_cons_of_neg (by simp [skipped, read])]
        exact (if_pos (Nat.succ_pos stack)).symm

/-- Where the reader stands after a call: behind the unknown chunks and the one it returned. -/
theorem afterRun_chunks (input : Bytes) :
    (∀ rest, nextFrameUnbounded input = .ok none rest → afterRun skipped (chunks 4 input) = []) ∧
      (∀ frame rest, nextFrameUnbounded input = .ok (some frame) rest →
        afterRun skipped (chunks 4 input) = chunks 4 rest) ∧
      ∀ error rest, nextFrameUnbounded input = .error error rest →
        afterRun skipped (chunks 4 input) = chunks 4 rest := by
  induction length : input.length using Nat.strong_induction_on generalizing input with
  | _ size ih =>
    subst length
    rcases found : next 4 input with _ | ⟨chunk, after⟩
    · obtain ⟨left, stop⟩ := nextFrameUnbounded_of_none found
      rw [chunks_of_none found, stop]
      exact ⟨fun _ _ => rfl, fun _ _ step => (by cases step), fun _ _ step => (by cases step)⟩
    · have shorter := next_length found
      rw [chunks_of_some found, nextFrameUnbounded_of_some found]
      rcases read : readChunk chunk with _ | (error | frame)
      · rw [afterRun, List.dropWhile_cons_of_pos (by rw [skipped, read]; rfl)]
        exact ih after.length (by omega) after rfl
      · rw [afterRun, List.dropWhile_cons_of_neg (by simp [skipped, read]), List.tail_cons]
        refine ⟨fun _ step => (by cases step), fun _ _ step => (by cases step), fun _ _ step => ?_⟩
        cases step
        rfl
      · rw [afterRun, List.dropWhile_cons_of_neg (by simp [skipped, read]), List.tail_cons]
        refine ⟨fun _ step => (by cases step), fun _ _ step => ?_, fun _ _ step => (by cases step)⟩
        cases step
        rfl

/-- A call that returned had room, and returned what the unbounded reader does. -/
theorem nextFrame_eq_some {stack : ℕ} {input : Bytes}
    {result : EStateM.Result Error Bytes (Option Frame)} :
    nextFrame stack input = some result ↔
      ((chunks 4 input).takeWhile skipped).length < stack ∧ nextFrameUnbounded input = result := by
  rw [nextFrame_eq]
  split
  · rename_i room
    exact ⟨fun same => ⟨room, Option.some.inj same⟩, fun both => congrArg some both.2⟩
  · rename_i full
    exact ⟨fun same => (by cases same), fun both => absurd both.1 full⟩

/-- Items that were yielded are the stream's, and no run outgrew the stack. -/
theorem Yields.holds {stack : ℕ} {input : Bytes} {list : List (Except Error Frame)}
    (yields : Yields stack input list) :
    list = items input ∧ longestRun skipped (chunks 4 input) < stack := by
  induction yields with
  | stop step =>
    obtain ⟨room, step⟩ := nextFrame_eq_some.mp step
    refine ⟨by rw [items_step, step], longestRun_lt_iff.mpr ⟨room, ?_⟩⟩
    rw [(afterRun_chunks _).1 _ step]
    exact (Nat.zero_le _).trans_lt room
  | frame step _ ih =>
    obtain ⟨room, step⟩ := nextFrame_eq_some.mp step
    refine ⟨by rw [items_step, step, ih.1], longestRun_lt_iff.mpr ⟨room, ?_⟩⟩
    rw [(afterRun_chunks _).2.1 _ _ step]
    exact ih.2
  | error step _ ih =>
    obtain ⟨room, step⟩ := nextFrame_eq_some.mp step
    refine ⟨by rw [items_step, step, ih.1], longestRun_lt_iff.mpr ⟨room, ?_⟩⟩
    rw [(afterRun_chunks _).2.2 _ _ step]
    exact ih.2

/-- With room for the longest run, the iterator reaches its `None`. -/
theorem yields_items {stack : ℕ} (input : Bytes)
    (room : longestRun skipped (chunks 4 input) < stack) : Yields stack input (items input) := by
  induction length : input.length using Nat.strong_induction_on generalizing input with
  | _ size ih =>
    subst length
    obtain ⟨front, later⟩ := longestRun_lt_iff.mp room
    have call : nextFrame stack input = some (nextFrameUnbounded input) :=
      nextFrame_eq_some.mpr ⟨front, rfl⟩
    rcases step : nextFrameUnbounded input with ⟨_ | frame, rest⟩ | ⟨error, rest⟩
    · rw [items_step, step]
      exact Yields.stop (call.trans (congrArg some step))
    · have shorter := nextFrameUnbounded_consumes.1 frame step
      rw [(afterRun_chunks input).2.1 _ _ step] at later
      rw [items_step, step]
      exact Yields.frame (call.trans (congrArg some step)) (ih rest.length shorter rest later rfl)
    · have shorter := nextFrameUnbounded_consumes.2 error step
      rw [(afterRun_chunks input).2.2 _ _ step] at later
      rw [items_step, step]
      exact Yields.error (call.trans (congrArg some step)) (ih rest.length shorter rest later rfl)

/-- **The iterator ends exactly on the streams whose runs of unknown chunks fit the stack**, and its
items are then `items`. -/
theorem yields_iff {stack : ℕ} {input : Bytes} {list : List (Except Error Frame)} :
    Yields stack input list ↔
      list = items input ∧ longestRun skipped (chunks 4 input) < stack := by
  constructor
  · exact Yields.holds
  · rintro ⟨rfl, room⟩
    exact yields_items input room

end FrameReader

end Foldback
