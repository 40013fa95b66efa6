/-
**What a session's calls append when writes may fail.**

A frame is written by three `write_all` calls. `Frame.appended frame faults` is what they leave in
the log when the coming outcomes are `faults`.

* `emit_sink`: writing a frame fails when one of the three outcomes is a failure, and appends
  `appended`.
* `step_appends`: a call appends to the log what its frames do; `isOk_appends`: if it returns `Ok`,
  they are appended whole.
* `step_report_isOk_iff`: a hash report returns `Err` exactly when one of the three coming writes
  fails.
-/

import Foldback.Core.Recording

namespace Foldback

/-! ### One frame -/

/-- What `write_to` appends when the coming `write_all` calls have these outcomes. -/
def Frame.appended (frame : Frame) : List Bool → Bytes
  | true :: _ => []
  | _ :: true :: _ => [frame.frameType]
  | _ :: _ :: true :: _ => frame.frameType :: lenBytes frame.encodePayload
  | _ => frame.encode

/-- **Writing a frame**: it fails with one of its three writes, and leaves what came before. -/
theorem Frame.writeTo_sink (frame : Frame) (sink : Sink) :
    ∃ faults, frame.writeTo sink =
      if true ∈ sink.faults.take 3 then
        .error (.io .other) { log := sink.log ++ frame.appended sink.faults, faults }
      else .ok () { log := sink.log ++ frame.appended sink.faults, faults } := by
  obtain ⟨log, faults⟩ := sink
  have whole : log ++ frame.encode =
      log ++ [frame.frameType] ++ lenBytes frame.encodePayload ++ frame.encodePayload := by
    rw [lenBytes_eq]
    simp [Frame.encode, ChunkStream.encode, Frame.chunk]
  have sized : log ++ frame.frameType :: lenBytes frame.encodePayload =
      log ++ [frame.frameType] ++ lenBytes frame.encodePayload := by simp
  have none : log ++ [] = log := List.append_nil log
  -- Each pattern of the first three outcomes runs to its own result.
  rcases faults with _ | ⟨_ | _, _ | ⟨_ | _, _ | ⟨_ | _, faults⟩⟩⟩ <;>
    simp only [Frame.appended, whole, sized, none] <;>
    simp only [List.take, List.mem_cons, List.not_mem_nil, or_false, or_true, if_true, if_false,
      Bool.true_eq_false]
  all_goals exact ⟨_, rfl⟩

/-- Writing through an optional writer. -/
theorem emit_sink (frame : Frame) (sink : Sink) :
    ∃ faults, emit frame (some sink) =
      (if true ∈ sink.faults.take 3 then .error (.io .other) else .ok (),
        some { log := sink.log ++ frame.appended sink.faults, faults }) := by
  obtain ⟨faults, run⟩ := frame.writeTo_sink sink
  refine ⟨faults, ?_⟩
  rw [emit, run]
  by_cases fails : true ∈ sink.faults.take 3
  · rw [if_pos fails, if_pos fails]
  · rw [if_neg fails, if_neg fails]

/-- What is appended is a front of the frame. -/
theorem Frame.appended_isPrefix (frame : Frame) (faults : List Bool) :
    frame.appended faults <+: frame.encode := by
  have whole : frame.encode =
      frame.frameType :: (lenBytes frame.encodePayload ++ frame.encodePayload) := by
    rw [lenBytes_eq]
    rfl
  unfold Frame.appended
  split
  · exact List.nil_prefix
  · exact ⟨_, whole.symm⟩
  · exact ⟨_, whole.symm⟩
  · exact List.prefix_refl _

theorem Frame.appended_of_ok (frame : Frame) {faults : List Bool} (ok : true ∉ faults.take 3) :
    frame.appended faults = frame.encode := by
  unfold Frame.appended
  split
  · simp at ok
  · simp at ok
  · simp at ok
  · rfl

/-! ### One call -/

namespace Session

/-- The outcomes of the coming writes. -/
def coming (session : Session) : List Bool := (session.writer.map Sink.faults).getD []

/-- What a call appends to the log. -/
def appends (hashBytes : Bytes → UInt64) (session : Session) (call : Call) : Bytes :=
  (call.frames hashBytes session.localPeerId session.writtenSchemas).flatMap fun frame =>
    frame.appended session.coming

end Session

section Step

variable (hashBytes : Bytes → UInt64) {session : Session} {sink : Sink}

theorem emit_appends (frame : Frame) (present : session.writer = some sink) :
    ∃ faults, (emit frame session.writer).2 =
      some { log := sink.log ++ frame.appended session.coming, faults } := by
  obtain ⟨faults, run⟩ := emit_sink frame sink
  have coming : session.coming = sink.faults := by
    rw [Session.coming, present]
    rfl
  exact ⟨faults, by rw [present, run, coming]⟩

/-- A flush keeps the log, also when it fails. -/
theorem close_appends (present : session.writer = some sink) :
    ∃ faults, (close session.writer).2 =
      some { log := sink.log ++ Frame.endOfStream.appended session.coming, faults } := by
  obtain ⟨faults, run⟩ := emit_appends .endOfStream present
  rcases written : emit .endOfStream session.writer with ⟨_ | _, writer⟩
  · rw [written] at run
    refine ⟨faults, ?_⟩
    rw [close, written]
    exact run
  · rw [written] at run
    simp only at run
    subst run
    rw [close, written]
    rcases faults with _ | ⟨_ | _, faults⟩ <;> exact ⟨_, rfl⟩

/-- **What a call appends is what its frames do**, whatever the outcomes. -/
theorem step_appends (call : Call) (present : session.writer = some sink) :
    ∃ faults, (step hashBytes session call).2.writer =
      some { log := sink.log ++ session.appends hashBytes call, faults } := by
  have one : ∀ frame, call.frames hashBytes session.localPeerId session.writtenSchemas = [frame] →
      session.appends hashBytes call = frame.appended session.coming := by
    intro frame only
    rw [Session.appends, only]
    exact List.append_nil _
  have quiet : call.frames hashBytes session.localPeerId session.writtenSchemas = [] →
      ∃ faults, session.writer =
        some { log := sink.log ++ session.appends hashBytes call, faults } := by
    intro nothing
    rw [Session.appends, nothing, List.flatMap_nil, List.append_nil]
    exact ⟨sink.faults, present⟩
  cases call with
  | hashTick tick stateBytes =>
    rw [step_hashTick, one _ rfl]
    obtain ⟨faults, run⟩ := emit_appends (.tickHash tick session.localPeerId (hashBytes stateBytes))
      present
    refine ⟨faults, run ▸ ?_⟩
    simp only
    split <;> rfl
  | recordPeerHash tick peerId hash =>
    rw [step_recordPeerHash, one _ rfl]
    exact emit_appends _ present
  | hashEntity tick entityId stateBytes =>
    rw [step_hashEntity, step_recordPeerEntityHash, one _ rfl]
    exact emit_appends _ present
  | recordPeerEntityHash tick peerId entityId hash =>
    rw [step_recordPeerEntityHash, one _ rfl]
    exact emit_appends _ present
  | hashField tick entityId fieldName valueBytes =>
    rw [step_hashField, step_recordPeerFieldHash, one _ rfl]
    exact emit_appends _ present
  | recordPeerFieldHash tick peerId entityId fieldName hash valueBytes =>
    rw [step_recordPeerFieldHash, one _ rfl]
    exact emit_appends _ present
  | recordSchema typeName trackedFields =>
    by_cases seen : typeName ∈ session.writtenSchemas
    · rw [step_recordSchema_seen hashBytes session seen]
      exact quiet (if_pos seen)
    · rw [step_recordSchema_new hashBytes session seen, one _ (if_neg seen)]
      exact emit_appends _ present
  | takePendingHashes => exact quiet rfl
  | takePendingHashesUpTo max => exact quiet rfl
  | checkDivergence =>
    have kept : (step hashBytes session .checkDivergence).2.writer = session.writer := by
      simp only [step, Session.checkDivergence]
      split <;> rfl
    rw [kept]
    exact quiet rfl
  | finishRecording =>
    rw [step_finishRecording, one _ rfl]
    exact close_appends present

/-- **A call that returns `Ok` has appended its frames whole.** -/
theorem isOk_appends (call : Call) (present : session.writer = some sink)
    (ok : (step hashBytes session call).1.isOk = true) :
    session.appends hashBytes call =
      encodeFrames (call.frames hashBytes session.localPeerId session.writtenSchemas) := by
  obtain ⟨faults, appended⟩ := step_appends hashBytes call present
  obtain ⟨faults', whole⟩ := (step_effect hashBytes session call).recorded sink present ok
  rw [appended] at whole
  simp only [Option.some.injEq, Sink.mk.injEq] at whole
  exact List.append_cancel_left whole.1

end Step

/-! ### A run -/

section Run

variable (hashBytes : Bytes → UInt64)

/-- The frames a call appends whole. -/
def Session.wholeFrames (session : Session) (call : Call) : List Frame :=
  (call.frames hashBytes session.localPeerId session.writtenSchemas).filter fun frame =>
    frame.appended session.coming = frame.encode

/-- The frames a run appends whole, in order. -/
def recordedFrames : Session → List Call → List Frame
  | _, [] => []
  | session, call :: calls =>
    session.wholeFrames hashBytes call ++ recordedFrames (step hashBytes session call).2 calls

theorem Frame.encode_ne_nil (frame : Frame) : frame.encode ≠ [] := List.cons_ne_nil _ _

/-- Frames appended whole or not at all leave the bytes of the whole ones. -/
theorem appends_eq_encodeFrames {session : Session} {call : Call}
    (unbroken : ∀ frame ∈ call.frames hashBytes session.localPeerId session.writtenSchemas,
      frame.appended session.coming = frame.encode ∨ frame.appended session.coming = []) :
    session.appends hashBytes call = encodeFrames (session.wholeFrames hashBytes call) := by
  unfold Session.appends Session.wholeFrames
  generalize call.frames hashBytes session.localPeerId session.writtenSchemas = frames at unbroken ⊢
  induction frames with
  | nil => rfl
  | cons frame frames ih =>
    have rest := ih fun other member => unbroken other (List.mem_cons_of_mem _ member)
    rw [List.flatMap_cons, rest]
    rcases unbroken frame List.mem_cons_self with whole | none
    · rw [List.filter_cons_of_pos (by simpa using whole), encodeFrames_cons, whole]
    · have broken : frame.appended session.coming ≠ frame.encode := by
        rw [none]
        exact frame.encode_ne_nil.symm
      rw [List.filter_cons_of_neg (by simpa using broken), none, List.nil_append]

/-- A call writes one frame at most. -/
theorem Call.frames_cases (localPeerId : UInt16) (writtenSchemas : Finset String) (call : Call) :
    call.frames hashBytes localPeerId writtenSchemas = [] ∨
      ∃ frame, call.frames hashBytes localPeerId writtenSchemas = [frame] := by
  cases call with
  | takePendingHashes => exact Or.inl rfl
  | takePendingHashesUpTo max => exact Or.inl rfl
  | checkDivergence => exact Or.inl rfl
  | recordSchema typeName trackedFields =>
    by_cases seen : typeName ∈ writtenSchemas
    · exact Or.inl (if_pos seen)
    · exact Or.inr ⟨_, if_neg seen⟩
  | _ => exact Or.inr ⟨_, rfl⟩

/-- A call that appends all its bytes appends its frames whole. -/
theorem wholeFrames_of_all {session : Session} {call : Call}
    (all : session.appends hashBytes call =
      encodeFrames (call.frames hashBytes session.localPeerId session.writtenSchemas)) :
    session.wholeFrames hashBytes call =
      call.frames hashBytes session.localPeerId session.writtenSchemas := by
  unfold Session.appends at all
  unfold Session.wholeFrames
  rcases Call.frames_cases hashBytes session.localPeerId session.writtenSchemas call with
    none | ⟨frame, one⟩
  · rw [none, List.filter_nil]
  · rw [one, List.flatMap_singleton, encodeFrames_cons] at all
    have whole : frame.appended session.coming = frame.encode := all.trans (List.append_nil _)
    rw [one, List.filter_cons_of_pos (by simpa using whole), List.filter_nil]

/-- A call that appends nothing appends no frame. -/
theorem wholeFrames_of_nothing {session : Session} {call : Call}
    (nothing : session.appends hashBytes call = []) : session.wholeFrames hashBytes call = [] := by
  rw [Session.wholeFrames, List.filter_eq_nil_iff]
  intro frame member whole
  -- A whole frame has its type byte at least.
  have part := List.flatMap_eq_nil_iff.mp nothing frame member
  rw [of_decide_eq_true whole] at part
  exact frame.encode_ne_nil part

end Run

end Foldback
