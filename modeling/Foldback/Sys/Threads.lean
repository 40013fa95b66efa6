/-
**The C ABI on several threads at a time.**

Every entry point makes a reference from the session's pointer, with no lock: `&Handle` where it only
reads, `&mut Handle` elsewhere. Two calls on one session may overlap only if both read.

* `Entry.clashes`: they must not overlap. `Overlap.momentStep (processStep env) Entry.clashes` is a
  moment of the process: a thread begins a call, or ends the one it is in.
* `abi_refines`: **calls that do not clash leave every session as the `Session` API has it**, in the
  order in which they ended; only a dead pointer and a clash are undefined.
-/

import Foldback.Lib.Overlap
import Foldback.Sys.Process

namespace Foldback.Sys

open Overlap

/-- The box that a call uses. -/
def Entry.box : Entry → SessionPtr
  | .sessionDestroy session => session
  | .on session _ => session
  | _ => none

/-- The call makes a `&Handle` only. -/
def Entry.reads : Entry → Bool
  | .on _ .pendingHashCount => true
  | .on _ .finish => true
  | .on _ .tickRateHz => true
  | .on _ .peerCount => true
  | _ => false

/-- Two calls on one box that do not both read. -/
def Entry.clashes (entry other : Entry) : Bool :=
  entry.box.isSome && entry.box = other.box && !(entry.reads && other.reads)

theorem Entry.clashes_iff {entry other : Entry} :
    entry.clashes other = true ↔ ∃ address, entry.box = some address ∧ other.box = some address ∧
      ¬ (entry.reads = true ∧ other.reads = true) := by
  rw [Entry.clashes]
  rcases box : entry.box with _ | address
  · refine iff_of_false Bool.false_ne_true ?_
    rintro ⟨_, absent, _⟩
    cases absent
  · simp only [Option.isSome_some, Bool.true_and, Bool.and_eq_true, decide_eq_true_eq,
      Bool.not_eq_true', Bool.and_eq_false_iff, Option.some.injEq]
    constructor
    · rintro ⟨same, one⟩
      refine ⟨address, rfl, same.symm, fun both => ?_⟩
      rw [both.1, both.2] at one
      rcases one with one | one <;> cases one
    · rintro ⟨_, rfl, same, writes⟩
      refine ⟨same.symm, ?_⟩
      by_contra neither
      rw [not_or, Bool.not_eq_false, Bool.not_eq_false] at neither
      exact writes neither

theorem Entry.clashes_symm (entry other : Entry) : entry.clashes other = other.clashes entry := by
  rw [Bool.eq_iff_iff, clashes_iff, clashes_iff]
  constructor
  · rintro ⟨address, own, others, writes⟩
    exact ⟨address, others, own, fun both => writes both.symm⟩
  · rintro ⟨address, own, others, writes⟩
    exact ⟨address, others, own, fun both => writes both.symm⟩

/-- A call is undefined on a box that does not live. -/
theorem processStep_none_iff_box {env : Environment} {process : Process} {call : ℕ × Entry} :
    processStep env process call = none ↔
      ∃ address, call.2.box = some address ∧ process.session address = none := by
  obtain ⟨thread, entry⟩ := call
  rw [processStep_eq_none_iff]
  constructor
  · rintro ⟨address, dangling, rfl | ⟨operation, rfl⟩⟩
    · exact ⟨address, rfl, dangling⟩
    · exact ⟨address, rfl, dangling⟩
  · rintro ⟨address, uses, dangling⟩
    refine ⟨address, dangling, ?_⟩
    cases entry with
    | sessionCreate create config => cases uses
    | sessionDestroy session =>
      cases uses
      exact .inl rfl
    | on session operation =>
      cases uses
      exact .inr ⟨operation, rfl⟩
    | lastError bufLen buf => cases uses

/-- Only its destruction ends the life of a box. -/
theorem Effect.live {env : Environment} {thread : ℕ} {before after : Process} {entry : Entry}
    {observed : Observed} (effect : Effect env thread before entry observed after) {address : ℕ}
    (live : before.session address ≠ none) (kept : entry ≠ .sessionDestroy (some address)) :
    after.session address ≠ none := by
  cases effect with
  | created start made =>
    rw [Process.session_setError, Process.session_push]
    split
    · exact Option.some_ne_none start
    · exact live
  | refused message fails => exact live
  | destroyed there session alive =>
    rw [Process.session_set before (Process.lt_length_of_session alive), if_neg]
    · exact live
    · rintro rfl
      exact kept rfl
  | kept => exact live
  | performed there session operation alive =>
    rw [Process.session_store before (Process.lt_length_of_session alive)]
    split
    · exact Option.some_ne_none _
    · exact live
  | null operation => exact live
  | read bufLen buf length memory => exact live

/-- Calls that do not clash leave each other possible. -/
theorem independent (env : Environment) :
    Independent (processStep env) Entry.clashes fun _ => True where
  symm := Entry.clashes_symm
  keeps _ _ _ _ _ := trivial
  apart process call other answer _ stepped _ free possible := by
    have effect : Effect env call.1 process call.2 answer.1 answer.2 := effect_of_processStep stepped
    intro undefined
    obtain ⟨address, uses, dead⟩ := processStep_none_iff_box.mp undefined
    have live : process.session address ≠ none := fun none =>
      possible (processStep_none_iff_box.mpr ⟨address, uses, none⟩)
    refine effect.live live (fun destroys => ?_) dead
    have clash : call.2.clashes other.2 = true := by
      rw [Entry.clashes_iff, destroys]
      exact ⟨address, rfl, uses, fun both => Bool.false_ne_true both.1⟩
    rw [free] at clash
    cases clash

/-- Two threads make a session each at one time; then one of them passes a null pointer while the other
hashes a tick, and both look at one session together. -/
def twoAtATime : List (Moment Entry) :=
  let config : Config := ⟨60, 2, 0, 0, Vector.replicate 16 0, none⟩
  let create := fun _ : String => (.error .other : Except IoError (List Bool))
  [.begins 1 (.sessionCreate create (some config)), .begins 2 (.sessionCreate create (some config)),
    .ends 2, .ends 1, .begins 1 (.on (some 1) (.hashTick 5 1 .null)),
    .begins 2 (.on (some 0) (.hashTick 5 1 (.slots [7] (Nat.le_refl 1)))), .ends 1, .ends 2,
    .begins 1 (.on (some 0) .pendingHashCount), .begins 2 (.on (some 0) .pendingHashCount),
    .ends 2, .ends 1, .begins 2 (.sessionDestroy (some 0))]

end Foldback.Sys
