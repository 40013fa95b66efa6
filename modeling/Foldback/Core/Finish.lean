/-
**What `finish` says about a run: the CI gate.**

* `buffersOf`: the 24-byte buffers `combine` hashes in a run.
* `finish_run`: the accumulator is the chained digest of the `(tick, hash)` pairs of the successful
  `hash_tick` calls; no other call touches it.
* `finish_eq_or_failure`: **two runs with equal `finish` hashed the same ticks to the same
  hashes in the same order, or they exhibit a failure of the hash function.**
-/

import Foldback.Core.Divergence
import Foldback.Lib.ChainHash

namespace Foldback

open ChainHash

/-- The buffer `combine` builds for an entry. -/
def entryBuffer (acc : UInt64) (entry : UInt64 × UInt64) : Bytes :=
  combineBuffer acc entry.1 entry.2

@[simp]
theorem length_combineBuffer (acc tick hash : UInt64) : (combineBuffer acc tick hash).length = 24 := by
  simp [combineBuffer]

theorem u64Bytes_injective : Function.Injective u64Bytes := by
  intro first second same
  rw [← u64OfBytes_u64Bytes first, same, u64OfBytes_u64Bytes]

theorem entryBuffer_injective (acc acc' : UInt64) (entry entry' : UInt64 × UInt64)
    (same : entryBuffer acc entry = entryBuffer acc' entry') : acc = acc' ∧ entry = entry' := by
  obtain ⟨sameAcc, rest⟩ := List.append_inj same (by simp)
  obtain ⟨sameTick, sameHash⟩ := List.append_inj rest (by simp)
  exact ⟨u64Bytes_injective sameAcc,
    Prod.ext (u64Bytes_injective sameTick) (u64Bytes_injective sameHash)⟩

/-- The buffers that `combine` hashes in a run, in order. -/
def buffersOf (hashBytes : Bytes → UInt64) : Session → List Call → List Bytes
  | _, [] => []
  | session, call :: calls =>
    (chained hashBytes call (step hashBytes session call).1).map (entryBuffer session.cumulative) ++
      buffersOf hashBytes (step hashBytes session call).2 calls

/-- A call chains at most one entry. -/
theorem chained_cases (hashBytes : Bytes → UInt64) (call : Call) (response : Response) :
    chained hashBytes call response = [] ∨ ∃ entry, chained hashBytes call response = [entry] := by
  unfold chained
  split
  · exact .inr ⟨_, rfl⟩
  · exact .inl rfl

/-- **A run's accumulator and buffers are those of the chained digest of its hashed ticks.** -/
theorem finish_run (hashBytes : Bytes → UInt64) (session : Session) (calls : List Call) :
    (run hashBytes session calls).2.finish =
        digest hashBytes entryBuffer session.finish
          (hashedIn hashBytes (run hashBytes session calls).1) ∧
      buffersOf hashBytes session calls =
        blocks hashBytes entryBuffer session.finish
          (hashedIn hashBytes (run hashBytes session calls).1) := by
  induction calls generalizing session with
  | nil => exact ⟨rfl, rfl⟩
  | cons call calls ih =>
    have effect := (step_effect hashBytes session call).cumulative
    obtain ⟨finish, buffers⟩ := ih (step hashBytes session call).2
    have split : hashedIn hashBytes (run hashBytes session (call :: calls)).1 =
        chained hashBytes call (step hashBytes session call).1 ++
          hashedIn hashBytes (run hashBytes (step hashBytes session call).2 calls).1 := rfl
    have here : (step hashBytes session call).2.finish = digest hashBytes entryBuffer session.finish
        (chained hashBytes call (step hashBytes session call).1) := effect
    rw [split, digest_append, blocks_append, ← here]
    refine ⟨finish, ?_⟩
    rw [buffersOf, buffers]
    congr 1
    rcases chained_cases hashBytes call (step hashBytes session call).1 with none | ⟨entry, one⟩
    · rw [none]
      rfl
    · rw [one]
      rfl

theorem finish_start {builder : SessionBuilder} {session : Session}
    (built : builder.build = .ok session) : session.finish = 0 := by
  obtain ⟨writer, rfl⟩ := SessionBuilder.build_eq built
  rfl

theorem length_of_mem_buffersOf {hashBytes : Bytes → UInt64} {session : Session} {calls : List Call}
    {buffer : Bytes} (member : buffer ∈ buffersOf hashBytes session calls) : buffer.length = 24 := by
  induction calls generalizing session with
  | nil => cases member
  | cons call calls ih =>
    rcases List.mem_append.mp member with here | later
    · obtain ⟨entry, _, rfl⟩ := List.mem_map.mp here
      exact length_combineBuffer _ _ _
    · exact ih later

/-- **Equal `finish` values mean equal sequences of hashed ticks, or an explicit failure of the hash
function; equal sequences give equal `finish` values.** -/
theorem finish_eq_or_failure (hashBytes : Bytes → UInt64) (builder builder' : SessionBuilder)
    (session session' : Session) (built : builder.build = .ok session)
    (built' : builder'.build = .ok session') (calls calls' : List Call) :
    let ended := run hashBytes session calls
    let ended' := run hashBytes session' calls'
    let buffers := buffersOf hashBytes session calls
    let buffers' := buffersOf hashBytes session' calls'
    (ended.2.finish = ended'.2.finish →
      hashedIn hashBytes ended.1 = hashedIn hashBytes ended'.1 ∨
      (∃ one ∈ buffers, ∃ other ∈ buffers', one ≠ other ∧ hashBytes one = hashBytes other) ∨
      ∃ one ∈ buffers ++ buffers', hashBytes one = 0) ∧
    (hashedIn hashBytes ended.1 = hashedIn hashBytes ended'.1 →
      ended.2.finish = ended'.2.finish) ∧
    ∀ one ∈ buffers ++ buffers', one.length = 24 := by
  intro ended ended' buffers buffers'
  obtain ⟨finish, sameBuffers⟩ := finish_run hashBytes session calls
  obtain ⟨finish', sameBuffers'⟩ := finish_run hashBytes session' calls'
  rw [finish_start built] at finish sameBuffers
  rw [finish_start built'] at finish' sameBuffers'
  refine ⟨fun equal => ?_, fun same => ?_, fun one member => ?_⟩
  · rw [finish, finish'] at equal
    have found := digest_eq entryBuffer_injective 0 _ _ equal
    rw [← sameBuffers, ← sameBuffers'] at found
    exact found
  · rw [finish, finish', same]
  · rcases List.mem_append.mp member with first | second
    · exact length_of_mem_buffersOf first
    · exact length_of_mem_buffersOf second

/-- A run that also records another peer's hash and drains the queue finishes as the bare run. -/
theorem finish_eq_or_failure_sample :
    let session := ({} : SessionBuilder).session none
    let hashBytes := fun bytes : Bytes => UInt64.ofNat (1 + bytes.length)
    (run hashBytes session [.hashTick 1 [7], .recordPeerHash 1 1 5, .takePendingHashes,
      .hashTick 2 []]).2.finish =
        (run hashBytes session [.hashTick 1 [9], .hashTick 2 []]).2.finish :=
  (finish_eq_or_failure _ {} {} _ _ rfl rfl _ _).2.1 (by decide)

end Foldback
