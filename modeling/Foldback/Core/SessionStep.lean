/-
**What one session call can do.**

* `emit_log`: a successful write appends exactly the frame's bytes.
* `step_recordPeerHash`, `step_hashTick`, …: one equation per kind of call.
* `Effect`: what a call does to each field of the session: the table gains its reports, also when
  the write fails; a tick joins the reported ones exactly when `check_divergence` returns it; the
  queue is conserved; the accumulator moves on a successful `hash_tick` alone; the recording grows by
  the call's frames.
* `step_effect`: every call has the effect of its kind. All results about runs derive from it.
-/

import Foldback.Core.RoundTrip
import Foldback.Core.Session

namespace Foldback

open Grouping

/-! ### Writing one frame -/

theorem Sink.writeAll_log {bytes : Bytes} {sink after : Sink}
    (ok : Sink.writeAll bytes sink = .ok () after) : after.log = sink.log ++ bytes := by
  unfold Sink.writeAll at ok
  split at ok
  · cases ok
  · cases ok
    rfl
  · cases ok
    rfl

theorem Frame.writeTo_log {frame : Frame} {sink after : Sink}
    (ok : frame.writeTo sink = .ok () after) : after.log = sink.log ++ frame.encode := by
  have unfolded : EStateM.bind (Sink.writeAll [frame.frameType]) (fun _ =>
      EStateM.bind (Sink.writeAll (lenBytes frame.encodePayload)) fun _ =>
        Sink.writeAll frame.encodePayload) sink = .ok () after := ok
  simp only [EStateM.bind] at unfolded
  split at unfolded
  · rename_i first typed
    split at unfolded
    · rename_i second sized
      rw [Sink.writeAll_log unfolded, Sink.writeAll_log sized, Sink.writeAll_log typed, lenBytes_eq]
      simp [Frame.encode, ChunkStream.encode, Frame.chunk]
    · cases unfolded
  · cases unfolded

/-- **A successful write appends exactly the frame.** -/
theorem emit_log {frame : Frame} {sink : Sink} (ok : (emit frame (some sink)).1 = .ok ()) :
    ∃ faults, (emit frame (some sink)).2 = some { log := sink.log ++ frame.encode, faults } := by
  rcases written : frame.writeTo sink with ⟨_, after⟩ | ⟨error, after⟩
  · exact ⟨after.faults, by simp only [emit, written, ← Frame.writeTo_log written]⟩
  · simp only [emit, written] at ok
    cases ok

/-! ### The step equations -/

namespace Session

/-- The in-memory part of `record_peer_hash`. -/
def tally (session : Session) (record : TickHashRecord) : Session :=
  { session with
    ring := session.ring.push (record.tick, record.hash)
    hashesByTick := push session.hashesByTick record.tick (record.peerId, record.hash) }

/-- The in-memory part that `hash_tick` adds once the report is recorded. -/
def enqueue (hashBytes : Bytes → UInt64) (session : Session) (tick hash : UInt64) : Session :=
  { session with
    pending := session.pending ++ [{ tick, hash }]
    cumulative := combine hashBytes session.cumulative tick hash }

/-- The session with another writer. -/
def withWriter (session : Session) (writer : Option Sink) : Session := { session with writer }

end Session

section Step

variable (hashBytes : Bytes → UInt64) (session : Session)

theorem outcome_writeFrame (frame : Frame) :
    outcome (Session.writeFrame frame) session =
      (.returned (emit frame session.writer).1, session.withWriter (emit frame session.writer).2) := by
  unfold outcome Session.writeFrame
  rcases emit frame session.writer with ⟨_ | _, writer⟩ <;> rfl

theorem step_recordPeerHash (tick : UInt64) (peerId : UInt16) (hash : UInt64) :
    step hashBytes session (.recordPeerHash tick peerId hash) =
      (.returned (emit (.tickHash tick peerId hash) session.writer).1,
        (session.tally ⟨tick, peerId, hash⟩).withWriter
          (emit (.tickHash tick peerId hash) session.writer).2) :=
  outcome_writeFrame (session.tally ⟨tick, peerId, hash⟩) (.tickHash tick peerId hash)

theorem step_hashTick (tick : UInt64) (stateBytes : Bytes) :
    step hashBytes session (.hashTick tick stateBytes) =
      let written := emit (.tickHash tick session.localPeerId (hashBytes stateBytes)) session.writer
      let tallied := (session.tally ⟨tick, session.localPeerId, hashBytes stateBytes⟩).withWriter
        written.2
      (.returned written.1,
        if written.1.isOk then tallied.enqueue hashBytes tick (hashBytes stateBytes)
        else tallied) := by
  simp only [step, outcome, Session.hashTick, Session.recordPeerHash, Session.writeFrame, bind,
    EStateM.bind, get, getThe, MonadStateOf.get, EStateM.get, modify, modifyGet,
    MonadStateOf.modifyGet, EStateM.modifyGet]
  rcases emit (.tickHash tick session.localPeerId (hashBytes stateBytes)) session.writer with
    ⟨_ | _, writer⟩ <;> rfl

theorem step_recordPeerEntityHash (tick : UInt64) (peerId : UInt16) (entityId hash : UInt64) :
    step hashBytes session (.recordPeerEntityHash tick peerId entityId hash) =
      (.returned (emit (.entityHash tick peerId entityId hash) session.writer).1,
        session.withWriter (emit (.entityHash tick peerId entityId hash) session.writer).2) :=
  outcome_writeFrame session _

theorem step_hashEntity (tick entityId : UInt64) (stateBytes : Bytes) :
    step hashBytes session (.hashEntity tick entityId stateBytes) =
      step hashBytes session
        (.recordPeerEntityHash tick session.localPeerId entityId (hashBytes stateBytes)) := rfl

theorem step_recordPeerFieldHash (tick : UInt64) (peerId : UInt16) (entityId : UInt64)
    (fieldName : String) (hash : UInt64) (valueBytes : Bytes) :
    step hashBytes session (.recordPeerFieldHash tick peerId entityId fieldName hash valueBytes) =
      (.returned (emit (.fieldHash tick peerId entityId fieldName hash valueBytes) session.writer).1,
        session.withWriter
          (emit (.fieldHash tick peerId entityId fieldName hash valueBytes) session.writer).2) :=
  outcome_writeFrame session _

theorem step_hashField (tick entityId : UInt64) (fieldName : String) (valueBytes : Bytes) :
    step hashBytes session (.hashField tick entityId fieldName valueBytes) =
      step hashBytes session (.recordPeerFieldHash tick session.localPeerId entityId fieldName
        (hashBytes valueBytes) valueBytes) := rfl

theorem step_recordSchema_seen {typeName : String} (seen : typeName ∈ session.writtenSchemas)
    (trackedFields : List String) :
    step hashBytes session (.recordSchema typeName trackedFields) =
      (.returned (.ok ()), session) := by
  simp only [step, outcome, Session.recordSchema, bind, EStateM.bind, get, getThe,
    MonadStateOf.get, EStateM.get, if_pos seen]
  rfl

theorem step_recordSchema_new {typeName : String} (new : typeName ∉ session.writtenSchemas)
    (trackedFields : List String) :
    step hashBytes session (.recordSchema typeName trackedFields) =
      let frame := Frame.metadata (schemaMetadataKey typeName) (fingerprint trackedFields)
      (.returned (emit frame session.writer).1,
        { session with
          writtenSchemas := insert typeName session.writtenSchemas
          writer := (emit frame session.writer).2 }) := by
  have unfolded : step hashBytes session (.recordSchema typeName trackedFields) =
      outcome (Session.writeFrame (.metadata (schemaMetadataKey typeName)
        (fingerprint trackedFields)))
        { session with writtenSchemas := insert typeName session.writtenSchemas } := by
    simp only [step, outcome, Session.recordSchema, bind, EStateM.bind, get, getThe,
      MonadStateOf.get, EStateM.get, if_neg new]
    rfl
  rw [unfolded, outcome_writeFrame]
  rfl

/-- The end-of-stream frame and the flush, on the writer. -/
def close (writer : Option Sink) : Except Error Unit × Option Sink :=
  match emit .endOfStream writer with
  | (.ok _, some sink) =>
    match Sink.flush sink with
    | .ok _ sink => (.ok (), some sink)
    | .error error sink => (.error error, some sink)
  | (result, writer) => (result, writer)

theorem step_finishRecording :
    step hashBytes session .finishRecording =
      (.returned (close session.writer).1, session.withWriter (close session.writer).2) := by
  simp only [step, outcome, Session.finishRecording, Session.writeFrame, close, bind, EStateM.bind,
    get, getThe, MonadStateOf.get, EStateM.get]
  rcases emit .endOfStream session.writer with ⟨_ | _, _ | sink⟩
  · rfl
  · rfl
  · rfl
  · rcases flushed : Sink.flush sink with _ | _ <;> simp only [flushed] <;> rfl

end Step

theorem Sink.flush_log {sink after : Sink} (ok : Sink.flush sink = .ok () after) :
    after.log = sink.log := by
  unfold Sink.flush at ok
  split at ok <;> cases ok <;> rfl

/-- A successful close appends the end-of-stream frame. -/
theorem close_log {sink : Sink} (ok : (close (some sink)).1 = .ok ()) :
    ∃ faults, (close (some sink)).2 =
      some { log := sink.log ++ Frame.endOfStream.encode, faults } := by
  rcases written : emit .endOfStream (some sink) with ⟨_ | _, writer⟩
  · simp only [close, written] at ok
    cases ok
  · obtain ⟨faults, appended⟩ := emit_log (congrArg Prod.fst written)
    rw [written] at appended
    simp only at appended
    subst appended
    rcases flushed : Sink.flush { log := sink.log ++ Frame.endOfStream.encode, faults } with
      ⟨_, after⟩ | ⟨_, after⟩
    · have same := Sink.flush_log flushed
      simp only at same
      refine ⟨after.faults, ?_⟩
      simp only [close, written, flushed]
      rw [← same]
    · simp only [close, written, flushed] at ok
      cases ok

/-! ### What each field becomes -/

/-- The reports a call adds to the per-tick table. -/
def Call.reports (hashBytes : Bytes → UInt64) (localPeerId : UInt16) : Call → List TickHashRecord
  | .hashTick tick stateBytes => [⟨tick, localPeerId, hashBytes stateBytes⟩]
  | .recordPeerHash tick peerId hash => [⟨tick, peerId, hash⟩]
  | _ => []

/-- The ticks a response reports as divergent. -/
def Response.ticks : Response → List UInt64
  | .divergence (some found) => [found.tick]
  | _ => []

/-- The call did not return an error. -/
def Response.isOk : Response → Bool
  | .returned (.error _) => false
  | _ => true

/-- What a call that succeeds folds into the accumulator. -/
def chained (hashBytes : Bytes → UInt64) : Call → Response → List (UInt64 × UInt64)
  | .hashTick tick stateBytes, .returned (.ok _) => [(tick, hashBytes stateBytes)]
  | _, _ => []

/-- The type names a call marks as written. -/
def Call.typeNames : Call → List String
  | .recordSchema typeName _ => [typeName]
  | _ => []

/-- The frames a call that succeeds writes, `writtenSchemas` being the types written before. -/
def Call.frames (hashBytes : Bytes → UInt64) (localPeerId : UInt16) (writtenSchemas : Finset String) :
    Call → List Frame
  | .hashTick tick stateBytes => [.tickHash tick localPeerId (hashBytes stateBytes)]
  | .recordPeerHash tick peerId hash => [.tickHash tick peerId hash]
  | .hashEntity tick entityId stateBytes =>
    [.entityHash tick localPeerId entityId (hashBytes stateBytes)]
  | .recordPeerEntityHash tick peerId entityId hash => [.entityHash tick peerId entityId hash]
  | .hashField tick entityId fieldName valueBytes =>
    [.fieldHash tick localPeerId entityId fieldName (hashBytes valueBytes) valueBytes]
  | .recordPeerFieldHash tick peerId entityId fieldName hash valueBytes =>
    [.fieldHash tick peerId entityId fieldName hash valueBytes]
  | .recordSchema typeName trackedFields =>
    if typeName ∈ writtenSchemas then []
    else [.metadata (schemaMetadataKey typeName) (fingerprint trackedFields)]
  | .finishRecording => [.endOfStream]
  | .takePendingHashes | .takePendingHashesUpTo _ | .checkDivergence => []

/-- The queue entries a response hands out. -/
def Response.drainedHashes : Response → List PendingHash
  | .drained hashes => hashes
  | _ => []

/-- **What a call does to each field of the session.** -/
structure Effect (hashBytes : Bytes → UInt64) (before : Session) (call : Call) (response : Response)
    (after : Session) : Prop where
  localPeerId : after.localPeerId = before.localPeerId
  hashesByTick : after.hashesByTick = pushAll before.hashesByTick
    ((call.reports hashBytes before.localPeerId).map TickHashRecord.entry)
  checkedTicks : after.checkedTicks = before.checkedTicks ∪ response.ticks.toFinset
  pending : response.drainedHashes ++ after.pending =
    before.pending ++ (chained hashBytes call response).map fun entry => ⟨entry.1, entry.2⟩
  cumulative : after.cumulative = (chained hashBytes call response).foldl
    (fun acc entry => combine hashBytes acc entry.1 entry.2) before.cumulative
  writtenSchemas : after.writtenSchemas = before.writtenSchemas ∪ call.typeNames.toFinset
  silent : before.writer = none → after.writer = none ∧ response.isOk = true
  recorded : ∀ sink, before.writer = some sink → response.isOk = true →
    ∃ faults, after.writer = some { log := sink.log ++ ((call.frames hashBytes before.localPeerId
      before.writtenSchemas).map Frame.encode).flatten, faults }

section Effects

variable (hashBytes : Bytes → UInt64) (session : Session)

theorem isOk_returned {result : Except Error Unit} (ok : (Response.returned result).isOk = true) :
    result = .ok () := by
  rcases result with error | _
  · cases ok
  · rfl

theorem emit_silent {frame : Frame} {writer : Option Sink} (silent : writer = none) :
    (emit frame writer).2 = none ∧ (Response.returned (emit frame writer).1).isOk = true := by
  subst silent
  exact ⟨rfl, rfl⟩

theorem emit_recorded {frame : Frame} {writer : Option Sink} {sink : Sink}
    (present : writer = some sink) (ok : (Response.returned (emit frame writer).1).isOk = true) :
    ∃ faults, (emit frame writer).2 =
      some { log := sink.log ++ ([frame].map Frame.encode).flatten, faults } := by
  subst present
  simpa using emit_log (isOk_returned ok)

/-- A call that only writes a frame. -/
theorem Effect.ofEmit {call : Call} {frame : Frame}
    (reports : call.reports hashBytes session.localPeerId = [])
    (chain : chained hashBytes call (.returned (emit frame session.writer).1) = [])
    (typeNames : call.typeNames = [])
    (frames : call.frames hashBytes session.localPeerId session.writtenSchemas = [frame]) :
    Effect hashBytes session call (.returned (emit frame session.writer).1)
      (session.withWriter (emit frame session.writer).2) where
  localPeerId := rfl
  hashesByTick := by rw [reports]; rfl
  checkedTicks := (Finset.union_empty _).symm
  pending := by rw [chain]; exact (List.append_nil _).symm
  cumulative := by rw [chain]; rfl
  writtenSchemas := by rw [typeNames]; exact (Finset.union_empty _).symm
  silent := emit_silent
  recorded sink present ok := by rw [frames]; exact emit_recorded present ok

/-- A call that touches the queue or the reported ticks alone. -/
theorem Effect.ofQuiet {call : Call} {response : Response} {pending : List PendingHash}
    {checkedTicks : Finset UInt64} (reports : call.reports hashBytes session.localPeerId = [])
    (chain : chained hashBytes call response = []) (typeNames : call.typeNames = [])
    (frames : call.frames hashBytes session.localPeerId session.writtenSchemas = [])
    (ok : response.isOk = true) (queue : response.drainedHashes ++ pending = session.pending)
    (checked : checkedTicks = session.checkedTicks ∪ response.ticks.toFinset) :
    Effect hashBytes session call response { session with pending, checkedTicks } where
  localPeerId := rfl
  hashesByTick := by rw [reports]; rfl
  checkedTicks := checked
  pending := by rw [chain, queue]; exact (List.append_nil _).symm
  cumulative := by rw [chain]; rfl
  writtenSchemas := by rw [typeNames]; exact (Finset.union_empty _).symm
  silent silent := ⟨silent, ok⟩
  recorded sink present _ := ⟨sink.faults, by rw [frames]; simpa using present⟩

theorem effect_hashTick (tick : UInt64) (stateBytes : Bytes) :
    Effect hashBytes session (.hashTick tick stateBytes)
      (step hashBytes session (.hashTick tick stateBytes)).1
      (step hashBytes session (.hashTick tick stateBytes)).2 := by
  have silent := @emit_silent (.tickHash tick session.localPeerId (hashBytes stateBytes))
    session.writer
  have recorded := @emit_recorded (.tickHash tick session.localPeerId (hashBytes stateBytes))
    session.writer
  rw [step_hashTick]
  generalize emit (.tickHash tick session.localPeerId (hashBytes stateBytes)) session.writer =
    written at silent recorded
  rcases written with ⟨error | done, writer⟩
  · exact {
      localPeerId := rfl
      hashesByTick := rfl
      checkedTicks := (Finset.union_empty _).symm
      pending := (List.append_nil _).symm
      cumulative := rfl
      writtenSchemas := (Finset.union_empty _).symm
      silent := silent
      recorded := fun sink present ok => by cases ok }
  · exact {
      localPeerId := rfl
      hashesByTick := rfl
      checkedTicks := (Finset.union_empty _).symm
      pending := rfl
      cumulative := rfl
      writtenSchemas := (Finset.union_empty _).symm
      silent := silent
      recorded := fun sink present ok => recorded present ok }

theorem effect_recordPeerHash (tick : UInt64) (peerId : UInt16) (hash : UInt64) :
    Effect hashBytes session (.recordPeerHash tick peerId hash)
      (step hashBytes session (.recordPeerHash tick peerId hash)).1
      (step hashBytes session (.recordPeerHash tick peerId hash)).2 := by
  rw [step_recordPeerHash]
  exact {
    localPeerId := rfl
    hashesByTick := rfl
    checkedTicks := (Finset.union_empty _).symm
    pending := (List.append_nil _).symm
    cumulative := rfl
    writtenSchemas := (Finset.union_empty _).symm
    silent := emit_silent
    recorded := fun sink present ok => emit_recorded present ok }

theorem effect_recordSchema (typeName : String) (trackedFields : List String) :
    Effect hashBytes session (.recordSchema typeName trackedFields)
      (step hashBytes session (.recordSchema typeName trackedFields)).1
      (step hashBytes session (.recordSchema typeName trackedFields)).2 := by
  by_cases seen : typeName ∈ session.writtenSchemas
  · rw [step_recordSchema_seen hashBytes session seen]
    exact {
      localPeerId := rfl
      hashesByTick := rfl
      checkedTicks := (Finset.union_empty _).symm
      pending := (List.append_nil _).symm
      cumulative := rfl
      writtenSchemas := by simp [Call.typeNames, seen]
      silent := fun silent => ⟨silent, rfl⟩
      recorded := fun sink present _ =>
        ⟨sink.faults, by simpa [Call.frames, if_pos seen] using present⟩ }
  · rw [step_recordSchema_new hashBytes session seen]
    exact {
      localPeerId := rfl
      hashesByTick := rfl
      checkedTicks := (Finset.union_empty _).symm
      pending := (List.append_nil _).symm
      cumulative := rfl
      writtenSchemas := by
        ext name
        simp [Call.typeNames]
      silent := emit_silent
      recorded := fun sink present ok => by
        rw [Call.frames, if_neg seen]
        exact emit_recorded present ok }

theorem effect_checkDivergence :
    Effect hashBytes session .checkDivergence (step hashBytes session .checkDivergence).1
      (step hashBytes session .checkDivergence).2 := by
  simp only [step, Session.checkDivergence]
  split
  · rename_i tick _
    refine Effect.ofQuiet hashBytes session rfl rfl rfl rfl rfl rfl ?_
    rw [Finset.insert_eq, Finset.union_comm]
    rfl
  · exact Effect.ofQuiet hashBytes session rfl rfl rfl rfl rfl rfl (Finset.union_empty _).symm

theorem effect_finishRecording :
    Effect hashBytes session .finishRecording (step hashBytes session .finishRecording).1
      (step hashBytes session .finishRecording).2 := by
  rw [step_finishRecording]
  exact {
    localPeerId := rfl
    hashesByTick := rfl
    checkedTicks := (Finset.union_empty _).symm
    pending := (List.append_nil _).symm
    cumulative := rfl
    writtenSchemas := (Finset.union_empty _).symm
    silent := fun silent => by
      rw [silent]
      exact ⟨show (close none).2 = none from rfl, rfl⟩
    recorded := fun sink present ok => by
      rw [present] at ok
      simpa [Session.withWriter, present, Call.frames] using close_log (isOk_returned ok) }

/-- **Every call has the effect its kind says.** -/
theorem step_effect (call : Call) :
    Effect hashBytes session call (step hashBytes session call).1
      (step hashBytes session call).2 := by
  cases call with
  | hashTick tick stateBytes => exact effect_hashTick hashBytes session tick stateBytes
  | recordPeerHash tick peerId hash => exact effect_recordPeerHash hashBytes session tick peerId hash
  | hashEntity tick entityId stateBytes =>
    rw [step_hashEntity, step_recordPeerEntityHash]
    exact Effect.ofEmit hashBytes session rfl rfl rfl rfl
  | recordPeerEntityHash tick peerId entityId hash =>
    rw [step_recordPeerEntityHash]
    exact Effect.ofEmit hashBytes session rfl rfl rfl rfl
  | hashField tick entityId fieldName valueBytes =>
    rw [step_hashField, step_recordPeerFieldHash]
    exact Effect.ofEmit hashBytes session rfl rfl rfl rfl
  | recordPeerFieldHash tick peerId entityId fieldName hash valueBytes =>
    rw [step_recordPeerFieldHash]
    exact Effect.ofEmit hashBytes session rfl rfl rfl rfl
  | recordSchema typeName trackedFields =>
    exact effect_recordSchema hashBytes session typeName trackedFields
  | takePendingHashes =>
    exact Effect.ofQuiet hashBytes session rfl rfl rfl rfl rfl (List.append_nil _)
      (Finset.union_empty _).symm
  | takePendingHashesUpTo max =>
    exact Effect.ofQuiet hashBytes session rfl rfl rfl rfl rfl (List.take_append_drop _ _)
      (Finset.union_empty _).symm
  | checkDivergence => exact effect_checkDivergence hashBytes session
  | finishRecording => exact effect_finishRecording hashBytes session

end Effects

end Foldback
