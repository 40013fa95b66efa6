/-
**Field hashes recorded one after another**, as the reflective walkers do.

* `Session.Reliable`: none of the coming writes fails. `step_reliable_hashField` and
  `step_reliable_recordSchema`: the calls of a walker then succeed, and leave it so.
* `Appends before frames after`: the session's recording grew by exactly these frames.
* `run_walkerCalls`: **a walker's calls on a reliable session record the type's schema, if it is new,
  and one frame for each field.**
-/

import Foldback.Core.SinkFaults

namespace Foldback

/-! ### Writes that succeed -/

/-- None of the coming writes fails. -/
def Session.Reliable (session : Session) : Prop := true ∉ session.coming

instance (session : Session) : Decidable session.Reliable :=
  inferInstanceAs (Decidable (true ∉ session.coming))

theorem emit_reliable (frame : Frame) (session : Session) (reliable : session.Reliable) :
    (emit frame session.writer).1 = .ok () ∧
      (session.withWriter (emit frame session.writer).2).Reliable := by
  have kept : (session.withWriter (emit frame session.writer).2).coming =
      ((emit frame session.writer).2.map Sink.faults).getD [] := rfl
  rw [Session.Reliable, kept]
  rw [Session.Reliable, Session.coming] at reliable
  rcases writer : session.writer with _ | ⟨log, faults⟩
  · exact ⟨rfl, List.not_mem_nil⟩
  · rw [writer] at reliable
    change true ∉ faults at reliable
    -- Each of the three writes takes one outcome.
    rcases faults with _ | ⟨_ | _, _ | ⟨_ | _, _ | ⟨_ | _, faults⟩⟩⟩
    all_goals first
      | exact ⟨rfl, List.not_mem_nil⟩
      | exact ⟨rfl, fun member => reliable (List.mem_cons_of_mem _ (List.mem_cons_of_mem _
          (List.mem_cons_of_mem _ member)))⟩
      | exact absurd (by simp) reliable

/-- A call whose response is `Ok`. -/
theorem ok_of_outcome {attempt : Attempt Session Unit} {session : Session}
    (ok : (outcome attempt session).1 = .returned (.ok ())) :
    attempt session = .ok () (outcome attempt session).2 := by
  unfold outcome at ok ⊢
  rcases ran : attempt session with ⟨_, after⟩ | ⟨error, after⟩
  · rfl
  · rw [ran] at ok
    cases ok

section Reliable

variable (hashBytes : Bytes → UInt64) {session : Session}

theorem step_reliable_hashField (reliable : session.Reliable) (tick entityId : UInt64)
    (fieldName : String) (valueBytes : Bytes) :
    (step hashBytes session (.hashField tick entityId fieldName valueBytes)).1 =
        .returned (.ok ()) ∧
      (step hashBytes session (.hashField tick entityId fieldName valueBytes)).2.Reliable := by
  rw [step_hashField, step_recordPeerFieldHash]
  obtain ⟨ok, still⟩ := emit_reliable (.fieldHash tick session.localPeerId entityId fieldName
    (hashBytes valueBytes) valueBytes) session reliable
  exact ⟨congrArg Response.returned ok, still⟩

theorem step_reliable_recordSchema (reliable : session.Reliable) (typeName : String)
    (trackedFields : List String) :
    (step hashBytes session (.recordSchema typeName trackedFields)).1 = .returned (.ok ()) ∧
      (step hashBytes session (.recordSchema typeName trackedFields)).2.Reliable := by
  by_cases seen : typeName ∈ session.writtenSchemas
  · rw [step_recordSchema_seen hashBytes session seen]
    exact ⟨rfl, reliable⟩
  · rw [step_recordSchema_new hashBytes session seen]
    obtain ⟨ok, still⟩ := emit_reliable (.metadata (schemaMetadataKey typeName)
      (fingerprint trackedFields)) session reliable
    exact ⟨congrArg Response.returned ok, still⟩

end Reliable

/-! ### What is appended -/

/-- The recording, if there is one, grew by these frames. -/
def Appends (before : Session) (frames : List Frame) (after : Session) : Prop :=
  (before.writer = none → after.writer = none) ∧
    ∀ sink, before.writer = some sink →
      ∃ faults, after.writer = some { log := sink.log ++ encodeFrames frames, faults }

theorem appends_run (hashBytes : Bytes → UInt64) {session : Session} {calls : List Call}
    (ok : AllOk (run hashBytes session calls).1) :
    Appends session (framesOf hashBytes session.localPeerId session.writtenSchemas calls)
      (run hashBytes session calls).2 := by
  refine ⟨fun silent => ?_, fun sink present => run_writer hashBytes present ok⟩
  clear ok
  induction calls generalizing session with
  | nil => exact silent
  | cons call calls ih => exact ih ((step_effect hashBytes session call).silent silent).1

/-! ### A walker's calls -/

section Walker

variable (hashBytes : Bytes → UInt64) (tick entityId : UInt64)

/-- One call for each field name with its value bytes. -/
def fieldCalls (recorded : List (String × Bytes)) : List Call :=
  recorded.map fun field => .hashField tick entityId field.1 field.2

/-- The frames of these calls. -/
def fieldFrames (localPeerId : UInt16) (recorded : List (String × Bytes)) : List Frame :=
  recorded.map fun field =>
    .fieldHash tick localPeerId entityId field.1 (hashBytes field.2) field.2

/-- The frame of a type's schema, if it was not written before. -/
def schemaFrames (writtenSchemas : Finset String) (typeName : String)
    (trackedFields : List String) : List Frame :=
  if typeName ∈ writtenSchemas then []
  else [.metadata (schemaMetadataKey typeName) (fingerprint trackedFields)]

/-- The schema, then the fields. -/
def walkerCalls (typeName : String) (trackedFields : List String)
    (recorded : List (String × Bytes)) : List Call :=
  .recordSchema typeName trackedFields :: fieldCalls tick entityId recorded

theorem framesOf_fieldCalls (localPeerId : UInt16) (writtenSchemas : Finset String)
    (recorded : List (String × Bytes)) :
    framesOf hashBytes localPeerId writtenSchemas (fieldCalls tick entityId recorded) =
      fieldFrames hashBytes tick entityId localPeerId recorded := by
  induction recorded generalizing writtenSchemas with
  | nil => rfl
  | cons field recorded ih =>
    show _ :: framesOf _ _ _ (fieldCalls tick entityId recorded) = _
    rw [ih]
    rfl

variable {session : Session}

theorem allOk_fieldCalls (reliable : session.Reliable) (recorded : List (String × Bytes)) :
    AllOk (run hashBytes session (fieldCalls tick entityId recorded)).1 := by
  induction recorded generalizing session with
  | nil => exact fun entry member => absurd member List.not_mem_nil
  | cons field recorded ih =>
    obtain ⟨ok, still⟩ := step_reliable_hashField hashBytes reliable tick entityId field.1 field.2
    intro entry member
    rcases List.mem_cons.mp member with rfl | later
    · show (step hashBytes session (.hashField tick entityId field.1 field.2)).1.isOk = true
      rw [ok]
      rfl
    · exact ih still entry later

/-- **A walker's calls append the schema, if it is new, and a frame for each field.** -/
theorem run_walkerCalls (reliable : session.Reliable) (typeName : String)
    (trackedFields : List String) (recorded : List (String × Bytes)) :
    Appends session
      (schemaFrames session.writtenSchemas typeName trackedFields ++
        fieldFrames hashBytes tick entityId session.localPeerId recorded)
      (run hashBytes session (walkerCalls tick entityId typeName trackedFields recorded)).2 := by
  obtain ⟨ok, still⟩ := step_reliable_recordSchema hashBytes reliable typeName trackedFields
  have allOk : AllOk
      (run hashBytes session (walkerCalls tick entityId typeName trackedFields recorded)).1 := by
    intro entry member
    rcases List.mem_cons.mp member with rfl | later
    · show (step hashBytes session (.recordSchema typeName trackedFields)).1.isOk = true
      rw [ok]
      rfl
    · exact allOk_fieldCalls hashBytes tick entityId still recorded entry later
  have appends := appends_run hashBytes allOk
  rw [walkerCalls, framesOf, framesOf_fieldCalls] at appends
  exact appends

end Walker

/-! ### A hash for samples -/

/-- Tells values of up to eight bytes apart. -/
def sampleHash (bytes : Bytes) : UInt64 := UInt64.ofNat (Radix.leNat bytes)

end Foldback
