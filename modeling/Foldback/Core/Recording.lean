/-
**The bytes a session records.**

* `framesOf`: the frames a sequence of calls records, each type's schema once.
* `run_writer`: when every call succeeds, the recording grows by exactly these frames.
* `recording_reads_back`: **reading a recording back** gives its header and its frames, with no
  error, when every payload fits its length prefix.
-/

import Foldback.Core.Divergence
import Foldback.Core.Loading

namespace Foldback

/-! ### What a run records -/

/-- The frames recorded by calls that all succeed, `writtenSchemas` being the types written before
them. -/
def framesOf (hashBytes : Bytes → UInt64) (localPeerId : UInt16) :
    Finset String → List Call → List Frame
  | _, [] => []
  | writtenSchemas, call :: calls =>
    call.frames hashBytes localPeerId writtenSchemas ++
      framesOf hashBytes localPeerId (writtenSchemas ∪ call.typeNames.toFinset) calls

/-- The distinct type names given to `record_schema`. -/
def typeNamesOf (calls : List Call) : Finset String := (calls.flatMap Call.typeNames).toFinset

theorem framesOf_append (hashBytes : Bytes → UInt64) (localPeerId : UInt16)
    (writtenSchemas : Finset String) (first second : List Call) :
    framesOf hashBytes localPeerId writtenSchemas (first ++ second) =
      framesOf hashBytes localPeerId writtenSchemas first ++
        framesOf hashBytes localPeerId (writtenSchemas ∪ typeNamesOf first) second := by
  induction first generalizing writtenSchemas with
  | nil => simp [framesOf, typeNamesOf]
  | cons call first ih =>
    rw [List.cons_append, framesOf, ih, framesOf, List.append_assoc, Finset.union_assoc, typeNamesOf,
      typeNamesOf, List.flatMap_cons, List.toFinset_append]

/-- Every call with a type name is remembered, also one that fails. -/
theorem run_writtenSchemas (hashBytes : Bytes → UInt64) (session : Session) (calls : List Call) :
    (run hashBytes session calls).2.writtenSchemas =
      session.writtenSchemas ∪ typeNamesOf calls := by
  induction calls generalizing session with
  | nil => exact (Finset.union_empty _).symm
  | cons call calls ih =>
    have here := (step_effect hashBytes session call).writtenSchemas
    have later := ih (step hashBytes session call).2
    rw [here, Finset.union_assoc] at later
    rw [typeNamesOf, List.flatMap_cons, List.toFinset_append]
    exact later

/-- Every call of the trace succeeded. -/
def AllOk (trace : List (Call × Response)) : Prop := ∀ entry ∈ trace, entry.2.isOk = true

instance (trace : List (Call × Response)) : Decidable (AllOk trace) :=
  inferInstanceAs (Decidable (∀ entry ∈ trace, entry.2.isOk = true))

/-- Without a writer every call succeeds. -/
theorem allOk_of_silent (hashBytes : Bytes → UInt64) {session : Session}
    (silent : session.writer = none) (calls : List Call) : AllOk (run hashBytes session calls).1 := by
  induction calls generalizing session with
  | nil => exact nofun
  | cons call calls ih =>
    obtain ⟨still, ok⟩ := (step_effect hashBytes session call).silent silent
    intro entry member
    rcases List.mem_cons.mp member with rfl | later
    · exact ok
    · exact ih still entry later

/-- **A run in which every call succeeds appends exactly its frames.** -/
theorem run_writer (hashBytes : Bytes → UInt64) {session : Session} {sink : Sink}
    (writer : session.writer = some sink) {calls : List Call}
    (ok : AllOk (run hashBytes session calls).1) :
    ∃ faults, (run hashBytes session calls).2.writer = some
      { log := sink.log ++
          encodeFrames (framesOf hashBytes session.localPeerId session.writtenSchemas calls)
        faults } := by
  induction calls generalizing session sink with
  | nil => exact ⟨sink.faults, by simpa [framesOf, encodeFrames, run, Machine.run] using writer⟩
  | cons call calls ih =>
    have effect := step_effect hashBytes session call
    obtain ⟨faults, written⟩ := effect.recorded sink writer (ok _ List.mem_cons_self)
    obtain ⟨left, rest⟩ := ih written fun entry member => ok entry (List.mem_cons_of_mem _ member)
    refine ⟨left, rest.trans ?_⟩
    rw [effect.localPeerId, effect.writtenSchemas, framesOf, encodeFrames_append, List.append_assoc]
    rfl

/-- A recording session starts with its header written. -/
theorem build_recording {builder : SessionBuilder} {session : Session}
    (records : builder.recordTo ≠ none) (built : builder.build = .ok session) :
    ∃ faults, session = builder.session (some { log := builder.header.encode, faults }) := by
  unfold SessionBuilder.build at built
  split at built
  · contradiction
  · cases built
  · split at built
    · rename_i after written
      have log := Sink.writeAll_log written
      rw [List.nil_append] at log
      exact ⟨after.faults, by rw [← log]; exact (Except.ok.inj built).symm⟩
    · cases built

/-- The bytes of the file at the end of the run. -/
def recordedBytes (session : Session) : Option Bytes := session.writer.map Sink.log

theorem recordedBytes_run (hashBytes : Bytes → UInt64) {builder : SessionBuilder} {session : Session}
    (records : builder.recordTo ≠ none) (built : builder.build = .ok session) {calls : List Call}
    (ok : AllOk (run hashBytes session calls).1) :
    recordedBytes (run hashBytes session calls).2 = some (builder.header.encode ++
      encodeFrames (framesOf hashBytes builder.localPeerId ∅ calls)) := by
  obtain ⟨faults, rfl⟩ := build_recording records built
  obtain ⟨left, writer⟩ := run_writer hashBytes rfl ok
  rw [recordedBytes, writer]
  rfl

/-! ### Reading it back -/

/-- **A recording reads back as its header and its frames.** -/
theorem recording_reads_back (hashBytes : Bytes → UInt64) {builder : SessionBuilder}
    {session : Session} (records : builder.recordTo ≠ none) (built : builder.build = .ok session)
    {calls : List Call} (ok : AllOk (run hashBytes session calls).1)
    (fits : ∀ frame ∈ framesOf hashBytes builder.localPeerId ∅ calls, frame.Fits) :
    ∃ file, recordedBytes (run hashBytes session calls).2 = some file ∧
      Holds file builder.header (framesOf hashBytes builder.localPeerId ∅ calls) :=
  ⟨_, recordedBytes_run hashBytes records built ok, holds_encode _ fits⟩

end Foldback
