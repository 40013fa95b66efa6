/-
**What a torn frame does to the rest of a recording.**

A frame is three `write_all` calls, so one that fails after the first leaves the front of a frame in
the file, and the bytes written next are read as its continuation.

* `Session.Tears`: a call appends some of its frame's bytes and not all of them.
* `recordedBytes_torn`: as long as nothing is appended after a torn frame, the file is its whole
  frames and at most one torn front at the end.
* `ok_frames_read_back`: **then the file reads back, without misreading, as frames the calls
  attempted, in order, among them every frame of a call that returned `Ok`**.
-/

import Foldback.Core.FailedSchemas

namespace Foldback

open ChunkStream

section Run

variable (hashBytes : Bytes → UInt64)

/-! ### Torn frames -/

/-- The call leaves the front of a frame in the log. -/
def Session.Tears (session : Session) (call : Call) : Prop :=
  session.appends hashBytes call ≠ [] ∧
    session.appends hashBytes call ≠
      encodeFrames (call.frames hashBytes session.localPeerId session.writtenSchemas)

/-- No call of the run appends anything. -/
def AppendsNothing : Session → List Call → Prop
  | _, [] => True
  | session, call :: calls =>
    session.appends hashBytes call = [] ∧ AppendsNothing (step hashBytes session call).2 calls

/-- Once a frame is torn, nothing more is appended. -/
def NothingAfterTear : Session → List Call → Prop
  | _, [] => True
  | session, call :: calls =>
    (session.Tears hashBytes call → AppendsNothing hashBytes (step hashBytes session call).2 calls) ∧
      NothingAfterTear (step hashBytes session call).2 calls

/-- The frames the calls of a run try to write. -/
def attemptedFrames : Session → List Call → List Frame
  | _, [] => []
  | session, call :: calls =>
    call.frames hashBytes session.localPeerId session.writtenSchemas ++
      attemptedFrames (step hashBytes session call).2 calls

/-- The frames of the calls that return `Ok`. -/
def okFrames : Session → List Call → List Frame
  | _, [] => []
  | session, call :: calls =>
    (if (step hashBytes session call).1.isOk
      then call.frames hashBytes session.localPeerId session.writtenSchemas else []) ++
      okFrames (step hashBytes session call).2 calls

variable {session : Session} {sink : Sink}

theorem recordedFrames_sublist_attemptedFrames (session : Session) (calls : List Call) :
    (recordedFrames hashBytes session calls).Sublist (attemptedFrames hashBytes session calls) := by
  induction calls generalizing session with
  | nil => exact List.Sublist.refl _
  | cons call calls ih => exact List.filter_sublist.append (ih _)

theorem okFrames_sublist_recordedFrames (present : session.writer = some sink)
    (calls : List Call) :
    (okFrames hashBytes session calls).Sublist (recordedFrames hashBytes session calls) := by
  induction calls generalizing session sink with
  | nil => exact List.Sublist.refl _
  | cons call calls ih =>
    obtain ⟨faults, appended⟩ := step_appends hashBytes call present
    refine List.Sublist.append ?_ (ih appended)
    by_cases ok : (step hashBytes session call).1.isOk = true
    · rw [if_pos ok, wholeFrames_of_all hashBytes (isOk_appends hashBytes call present ok)]
    · rw [if_neg ok]
      exact List.nil_sublist _

/-! ### The bytes of a run -/

theorem recordedBytes_appendsNothing (present : session.writer = some sink) {calls : List Call}
    (nothing : AppendsNothing hashBytes session calls) :
    recordedBytes (run hashBytes session calls).2 = some sink.log ∧
      recordedFrames hashBytes session calls = [] := by
  induction calls generalizing session sink with
  | nil =>
    refine ⟨?_, rfl⟩
    show session.writer.map Sink.log = _
    rw [present]
    rfl
  | cons call calls ih =>
    obtain ⟨faults, appended⟩ := step_appends hashBytes call present
    rw [nothing.1, List.append_nil] at appended
    obtain ⟨bytes, frames⟩ := ih appended nothing.2
    refine ⟨bytes, ?_⟩
    rw [recordedFrames, frames, wholeFrames_of_nothing hashBytes nothing.1]
    rfl

/-- A torn frame is a proper front of one frame, of which no chunk can be read. -/
theorem next_torn {call : Call} (torn : session.Tears hashBytes call)
    (fits : ∀ frame ∈ call.frames hashBytes session.localPeerId session.writtenSchemas, frame.Fits) :
    next 4 (session.appends hashBytes call) = none ∧ session.wholeFrames hashBytes call = [] := by
  obtain ⟨some, broken⟩ := torn
  unfold Session.appends at some broken ⊢
  unfold Session.wholeFrames
  rcases Call.frames_cases hashBytes session.localPeerId session.writtenSchemas call with
    none | ⟨frame, one⟩
  · rw [none] at some
    exact absurd rfl some
  · rw [one] at some broken fits ⊢
    rw [List.flatMap_singleton] at some broken ⊢
    rw [encodeFrames_cons, encodeFrames, List.map_nil, List.flatten_nil, List.append_nil] at broken
    have front := frame.appended_isPrefix session.coming
    have short : (frame.appended session.coming).length < frame.encode.length :=
      lt_of_le_of_ne front.length_le fun same => broken (front.eq_of_length same)
    have whole : ChunkStream.Fits 4 frame.chunk := fits frame List.mem_cons_self
    have cut := next_take_encode whole [] short
    rw [List.append_nil] at cut
    refine ⟨?_, List.filter_cons_of_neg (by simpa using broken)⟩
    rw [List.prefix_iff_eq_take.mp front]
    exact cut

/-- **The file of a run with nothing after a torn frame**: whole frames, then perhaps a torn one. -/
theorem recordedBytes_torn (present : session.writer = some sink) {calls : List Call}
    (fits : ∀ frame ∈ attemptedFrames hashBytes session calls, frame.Fits)
    (clean : NothingAfterTear hashBytes session calls) :
    ∃ torn, next 4 torn = none ∧ recordedBytes (run hashBytes session calls).2 =
      some (sink.log ++ (encodeFrames (recordedFrames hashBytes session calls) ++ torn)) := by
  induction calls generalizing session sink with
  | nil =>
    refine ⟨[], rfl, ?_⟩
    show session.writer.map Sink.log = _
    rw [present, recordedFrames, encodeFrames]
    simp
  | cons call calls ih =>
    obtain ⟨faults, appended⟩ := step_appends hashBytes call present
    have here : ∀ frame ∈ call.frames hashBytes session.localPeerId session.writtenSchemas,
        frame.Fits := fun frame member => fits frame (List.mem_append_left _ member)
    by_cases torn : session.Tears hashBytes call
    · obtain ⟨bytes, none⟩ := recordedBytes_appendsNothing hashBytes appended (clean.1 torn)
      obtain ⟨stop, broken⟩ := next_torn hashBytes torn here
      refine ⟨session.appends hashBytes call, stop, ?_⟩
      rw [recordedFrames, none, broken]
      exact bytes
    · obtain ⟨torn', stop, bytes⟩ := ih appended
        (fun frame member => fits frame (List.mem_append_right _ member)) clean.2
      refine ⟨torn', stop, ?_⟩
      have whole : session.appends hashBytes call =
          encodeFrames (session.wholeFrames hashBytes call) := by
        by_cases nothing : session.appends hashBytes call = []
        · rw [wholeFrames_of_nothing hashBytes nothing, nothing]
          rfl
        · have all : session.appends hashBytes call =
              encodeFrames (call.frames hashBytes session.localPeerId session.writtenSchemas) := by
            by_contra broken
            exact torn ⟨nothing, broken⟩
          rw [wholeFrames_of_all hashBytes all, all]
      rw [recordedFrames, encodeFrames_append, ← whole]
      rw [List.append_assoc] at bytes ⊢
      exact bytes

end Run

/-- The file reads back, with no error, as frames the calls attempted, in order, among them every
frame of a call that returned `Ok`. -/
def OkFramesReadBack (hashBytes : Bytes → UInt64) (header : Header) (session : Session)
    (calls : List Call) : Prop :=
  ∃ file frames, recordedBytes (run hashBytes session calls).2 = some file ∧
    Holds file header frames ∧ (okFrames hashBytes session calls).Sublist frames ∧
    frames.Sublist (attemptedFrames hashBytes session calls)

/-- **Without bytes after a torn frame, what returned `Ok` is read back**, when every payload
fits. -/
theorem ok_frames_read_back (hashBytes : Bytes → UInt64) (builder : SessionBuilder)
    (session : Session) (calls : List Call) (records : builder.recordTo ≠ none)
    (built : builder.build = .ok session)
    (fits : ∀ frame ∈ attemptedFrames hashBytes session calls, frame.Fits)
    (clean : NothingAfterTear hashBytes session calls) :
    OkFramesReadBack hashBytes builder.header session calls := by
  obtain ⟨faults, rfl⟩ := build_recording records built
  obtain ⟨torn, stop, bytes⟩ := recordedBytes_torn hashBytes rfl fits clean
  have within := recordedFrames_sublist_attemptedFrames hashBytes
    (builder.session (some { log := builder.header.encode, faults })) calls
  refine ⟨_, _, bytes, ⟨_, Header.readFrom_encode _ _, ?_⟩,
    okFrames_sublist_recordedFrames hashBytes rfl calls, within⟩
  rw [items_encodeFrames_append fun frame member => fits frame (within.subset member),
    FrameReader.items_eq torn, chunks_of_none stop, List.filterMap_nil, List.append_nil]

theorem fits_padding {value : Bytes} (small : value.length < 2 ^ 16) :
    (Frame.fieldHash 0 0 0 "pad" 0 value).Fits := by
  have name : (asBytes "pad").length = 3 := by decide
  simp only [Frame.Fits, Frame.encodePayload, List.length_append, lenBytes, length_u16Bytes,
    length_u32Bytes, length_u64Bytes, name]
  omega

/-- What a recording holds whose second frame is torn after its type byte. -/
theorem recordedBytes_tornSecond (value : Bytes) :
    recordedBytes (run (fun _ => 0) (faultySession [false, false, false, false, true])
      [.hashField 0 0 "pad" value, .recordPeerHash 1 0 7, .recordPeerHash 2 0 9]).2 =
        some ((faultyBuilder [false, false, false, false, true]).header.encode ++
          (encodeFrames [.fieldHash 0 0 0 "pad" 0 value] ++
            typeTickHash :: (Frame.tickHash 2 0 9).encode)) := by
  have log : recordedBytes (run (fun _ => 0) (faultySession [false, false, false, false, true])
      [.hashField 0 0 "pad" value, .recordPeerHash 1 0 7, .recordPeerHash 2 0 9]).2 = some
        (((((((faultyBuilder [false, false, false, false, true]).header.encode ++ [typeFieldHash]) ++
          lenBytes (Frame.fieldHash 0 0 0 "pad" 0 value).encodePayload) ++
          (Frame.fieldHash 0 0 0 "pad" 0 value).encodePayload) ++ [typeTickHash]) ++
          [typeTickHash] ++ lenBytes (Frame.tickHash 2 0 9).encodePayload) ++
          (Frame.tickHash 2 0 9).encodePayload) := rfl
  rw [log, lenBytes_eq, lenBytes_eq]
  simp [encodeFrames, Frame.encode, Frame.chunk, encode, Frame.frameType]

/-- The second and last frame is torn after its type byte. -/
theorem ok_frames_read_back_sample :
    OkFramesReadBack (fun _ => 0) (faultyBuilder [false, false, false, false, true]).header
      (faultySession [false, false, false, false, true])
      [.recordPeerHash 1 0 7, .recordPeerHash 2 0 9] := by
  have frames : attemptedFrames (fun _ => 0) (faultySession [false, false, false, false, true])
      [.recordPeerHash 1 0 7, .recordPeerHash 2 0 9] = [.tickHash 1 0 7, .tickHash 2 0 9] := rfl
  refine ok_frames_read_back (fun _ => 0) (faultyBuilder [false, false, false, false, true]) _
    [.recordPeerHash 1 0 7, .recordPeerHash 2 0 9] (by simp [faultyBuilder]) rfl ?_
    ⟨fun torn => absurd rfl torn.2, fun _ => trivial, trivial⟩
  rw [frames]
  decide

/-- Behind a padding that leaves one byte of a `BufWriter`'s 8 KiB, a frame is torn after its type
byte, and the next one is swallowed by it. -/
theorem torn_frame_hides_later :
    (faultyBuilder [false, false, false, false, true]).build =
        .ok (faultySession [false, false, false, false, true]) ∧
      (recordedBytes (paddedSession 8117 [false, true])).map List.length = some 8191 ∧
      okFrames (fun _ => 0) (faultySession [false, false, false, false, true])
        [padding 8117, .recordPeerHash 1 0 7, .recordPeerHash 2 0 9] =
          [.fieldHash 0 0 0 "pad" 0 (List.replicate 8117 0), .tickHash 2 0 9] ∧
      recordedBytes (run (fun _ => 0) (faultySession [false, false, false, false, true])
        [padding 8117, .recordPeerHash 1 0 7, .recordPeerHash 2 0 9]).2 =
          some ((faultyBuilder [false, false, false, false, true]).header.encode ++
            (encodeFrames [.fieldHash 0 0 0 "pad" 0 (List.replicate 8117 0)] ++
              typeTickHash :: (Frame.tickHash 2 0 9).encode)) ∧
      FrameReader.items (encodeFrames [.fieldHash 0 0 0 "pad" 0 (List.replicate 8117 0)] ++
          typeTickHash :: (Frame.tickHash 2 0 9).encode) =
        [.ok (.fieldHash 0 0 0 "pad" 0 (List.replicate 8117 0))] ∧
      ¬ OkFramesReadBack (fun _ => 0) (faultyBuilder [false, false, false, false, true]).header
        (faultySession [false, false, false, false, true])
        [padding 8117, .recordPeerHash 1 0 7, .recordPeerHash 2 0 9] := by
  have file : recordedBytes (run (fun _ => 0) (faultySession [false, false, false, false, true])
      [padding 8117, .recordPeerHash 1 0 7, .recordPeerHash 2 0 9]).2 =
        some ((faultyBuilder [false, false, false, false, true]).header.encode ++
          (encodeFrames [.fieldHash 0 0 0 "pad" 0 (List.replicate 8117 0)] ++
            typeTickHash :: (Frame.tickHash 2 0 9).encode)) := by
    exact recordedBytes_tornSecond (List.replicate 8117 0)
  have ok : okFrames (fun _ => 0) (faultySession [false, false, false, false, true])
      [padding 8117, .recordPeerHash 1 0 7, .recordPeerHash 2 0 9] =
        [.fieldHash 0 0 0 "pad" 0 (List.replicate 8117 0), .tickHash 2 0 9] := rfl
  have items : FrameReader.items (encodeFrames [.fieldHash 0 0 0 "pad" 0 (List.replicate 8117 0)] ++
      typeTickHash :: (Frame.tickHash 2 0 9).encode) =
        [.ok (.fieldHash 0 0 0 "pad" 0 (List.replicate 8117 0))] := by
    have stop : next 4 (typeTickHash :: (Frame.tickHash 2 0 9).encode) = none := by decide
    have fits : ∀ frame ∈ [Frame.fieldHash 0 0 0 "pad" 0 (List.replicate 8117 0)], frame.Fits := by
      intro frame member
      rw [List.mem_singleton.mp member]
      exact fits_padding (by rw [List.length_replicate]; decide)
    rw [items_encodeFrames_append fits, FrameReader.items_eq _, chunks_of_none stop,
      List.filterMap_nil, List.append_nil]
    rfl
  refine ⟨rfl, length_paddedSession 8117 [false, true], ok, file, items, ?_⟩
  rintro ⟨bytes, frames, recorded, ⟨rest, read, held⟩, kept, _⟩
  rw [file] at recorded
  cases recorded
  rw [Header.readFrom_encode] at read
  cases read
  rw [items] at held
  have one := congrArg List.length held
  have two := kept.length_le
  rw [ok] at two
  rw [List.length_map] at one
  simp only [List.length_cons, List.length_nil] at one two
  omega

end Foldback
