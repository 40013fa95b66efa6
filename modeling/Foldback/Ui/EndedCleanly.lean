/-
**What `ended_cleanly` tells about a recording that may have been cut.**

`report::analyze` and the UI's `load` set the flag at any `EndOfStream`, wherever it stands.

* `framesWithin room frames`: the frames whose bytes end within `room`; `items_take_encodeFrames`: a
  cut stream reads back as these.
* `endedCleanly_cut`: on a cut file both loaders report `ended_cleanly` exactly when the cut keeps
  some end marker.
* `tellsComplete_iff`: **the flag tells a complete recording from a cut one, at every cut, exactly
  when no recording call follows a `finish_recording`**.
-/

import Foldback.Cli.Report
import Foldback.Core.FailedReports
import Foldback.Ui.Session

namespace Foldback

open ChunkStream

/-! ### A stream cut anywhere -/

/-- The frames at the front whose bytes end within `room`. -/
def framesWithin : ℕ → List Frame → List Frame
  | _, [] => []
  | room, frame :: frames =>
    if frame.encode.length ≤ room then frame :: framesWithin (room - frame.encode.length) frames
    else []

/-- **A cut stream reads back as the frames that end by the cut.** -/
theorem items_take_encodeFrames {frames : List Frame} (fits : ∀ frame ∈ frames, frame.Fits)
    (room : ℕ) :
    FrameReader.items ((encodeFrames frames).take room) = (framesWithin room frames).map .ok := by
  induction frames generalizing room with
  | nil =>
    have none : (encodeFrames []).take room = [] := List.take_nil
    rw [none, FrameReader.items_eq, chunks_nil]
    rfl
  | cons frame frames ih =>
    have here : ChunkStream.Fits 4 frame.chunk := fits frame List.mem_cons_self
    rw [encodeFrames_cons, framesWithin]
    split
    · rename_i whole
      rw [List.take_append, List.take_of_length_le whole, items_encode_frame here,
        ih fun other member => fits other (List.mem_cons_of_mem _ member)]
      rfl
    · rename_i short
      have stop : next 4 ((frame.encode ++ encodeFrames frames).take room) = none :=
        next_take_encode here _ (not_le.mp short)
      rw [FrameReader.items_eq, chunks_of_none stop]
      rfl

/-- A frame is read exactly when its end is within the room. -/
theorem mem_framesWithin {frames : List Frame} {room : ℕ} {frame : Frame} :
    frame ∈ framesWithin room frames ↔ ∃ before after, frames = before ++ frame :: after ∧
      (encodeFrames (before ++ [frame])).length ≤ room := by
  induction frames generalizing room with
  | nil =>
    refine ⟨fun member => absurd member List.not_mem_nil, ?_⟩
    rintro ⟨before, after, split, _⟩
    cases before <;> cases split
  | cons first frames ih =>
    have longer : ∀ before : List Frame, (encodeFrames (first :: before ++ [frame])).length =
        first.encode.length + (encodeFrames (before ++ [frame])).length := by
      intro before
      rw [List.cons_append, encodeFrames_cons, List.length_append]
    rw [framesWithin]
    split
    · rename_i whole
      rw [List.mem_cons, ih]
      constructor
      · rintro (rfl | ⟨before, after, rfl, within⟩)
        · refine ⟨[], frames, rfl, ?_⟩
          simpa [encodeFrames] using whole
        · refine ⟨first :: before, after, rfl, ?_⟩
          rw [longer]
          omega
      · rintro ⟨_ | ⟨_, before⟩, after, split, within⟩
        · cases split
          exact Or.inl rfl
        · cases split
          rw [longer] at within
          exact Or.inr ⟨before, after, rfl, by omega⟩
    · rename_i short
      refine ⟨fun member => absurd member List.not_mem_nil, ?_⟩
      rintro ⟨_ | ⟨_, before⟩, after, split, within⟩
      · cases split
        simp [encodeFrames] at within
        omega
      · cases split
        rw [longer] at within
        omega

/-- A file cut after its header holds the frames that end by the cut. -/
theorem holds_take (header : Header) {frames : List Frame} (fits : ∀ frame ∈ frames, frame.Fits)
    {cut : ℕ} (pastHeader : headerLen ≤ cut) :
    Holds ((header.encode ++ encodeFrames frames).take cut) header
      (framesWithin (cut - headerLen) frames) := by
  refine ⟨(encodeFrames frames).take (cut - headerLen), ?_, items_take_encodeFrames fits _⟩
  rw [List.take_append, header.length_encode, List.take_of_length_le, Header.readFrom_encode]
  rw [header.length_encode]
  exact pastHeader

/-! ### The flag -/

theorem endedCleanly_foldl (frames : List Frame) (tally : Tally) :
    (frames.foldl Tally.add tally).endedCleanly =
      (tally.endedCleanly || frames.any Frame.isEndOfStream) := by
  induction frames generalizing tally with
  | nil => simp
  | cons frame frames ih =>
    rw [List.foldl_cons, ih, List.any_cons]
    cases frame <;> simp [Tally.add, Frame.isEndOfStream]

theorem any_isEndOfStream {frames : List Frame} :
    frames.any Frame.isEndOfStream = true ↔ Frame.endOfStream ∈ frames := by
  rw [List.any_eq_true]
  constructor
  · rintro ⟨frame, member, marker⟩
    cases frame with
    | endOfStream => exact member
    | _ => cases marker
  · exact fun member => ⟨_, member, rfl⟩

/-- **Both loaders report `ended_cleanly` exactly when some `EndOfStream` is read.** -/
theorem endedCleanly_holds (path : String) (fileName : Option String) {file : Bytes}
    {header : Header} {frames : List Frame} (holds : Holds file header frames) :
    (∃ report, analyze path (.ok file) = .ok report ∧
        (report.endedCleanly = true ↔ Frame.endOfStream ∈ frames)) ∧
      ∃ data, load path fileName (.ok file) = .ok data ∧
        (data.endedCleanly = true ↔ Frame.endOfStream ∈ frames) := by
  constructor
  · refine ⟨Report.of header frames, ?_, ?_⟩
    · rw [analyze, loadRecording_ok _ holds]
      rfl
    · show (frames.foldl Tally.add {}).endedCleanly = true ↔ _
      rw [endedCleanly_foldl, ← any_isEndOfStream]
      rfl
  · refine ⟨_, load_holds path fileName holds, ?_⟩
    obtain ⟨_, _, finished⟩ := finish_eq (fileName.getD path) header (Loading.ofFrames frames)
    rw [finished, ← any_isEndOfStream, Loading.ofFrames, foldl_add]
    rfl

/-! ### Recording calls -/

/-- The calls that record. -/
def Call.isRecording : Call → Bool
  | .takePendingHashes | .takePendingHashesUpTo _ | .checkDivergence => false
  | _ => true

/-- The last recording call is `finish_recording`. -/
def EndsWithFinish (calls : List Call) : Prop :=
  ∃ before after, calls = before ++ .finishRecording :: after ∧
    ∀ call ∈ after, call.isRecording = false

/-- No recording call follows a `finish_recording`. -/
def NeverResumes (calls : List Call) : Prop :=
  ∀ before after, calls = before ++ .finishRecording :: after →
    ∀ call ∈ after, call.isRecording = false

section Frames

variable (hashBytes : Bytes → UInt64) (localPeerId : UInt16)

theorem frames_of_quiet {call : Call} (quiet : call.isRecording = false)
    (writtenSchemas : Finset String) : call.frames hashBytes localPeerId writtenSchemas = [] := by
  cases call with
  | takePendingHashes => rfl
  | takePendingHashesUpTo max => rfl
  | checkDivergence => rfl
  | _ => cases quiet

theorem framesOf_of_quiet {calls : List Call} (quiet : ∀ call ∈ calls, call.isRecording = false)
    (writtenSchemas : Finset String) :
    framesOf hashBytes localPeerId writtenSchemas calls = [] := by
  induction calls generalizing writtenSchemas with
  | nil => rfl
  | cons call calls ih =>
    rw [framesOf, frames_of_quiet hashBytes localPeerId (quiet call List.mem_cons_self),
      ih fun other member => quiet other (List.mem_cons_of_mem _ member)]
    rfl

/-- The frames of a run up to a `finish_recording`, its marker, and the frames after it. -/
theorem framesOf_finish (writtenSchemas : Finset String) (before after : List Call) :
    framesOf hashBytes localPeerId writtenSchemas (before ++ .finishRecording :: after) =
      framesOf hashBytes localPeerId writtenSchemas before ++ .endOfStream ::
        framesOf hashBytes localPeerId (writtenSchemas ∪ typeNamesOf before) after := by
  rw [framesOf_append]
  show _ ++ ([Frame.endOfStream] ++ framesOf hashBytes localPeerId
    (writtenSchemas ∪ typeNamesOf before ∪ ∅) after) = _
  rw [Finset.union_empty]
  rfl

theorem eq_finish_of_marker {call : Call} {writtenSchemas : Finset String}
    (marker : .endOfStream ∈ call.frames hashBytes localPeerId writtenSchemas) :
    call = .finishRecording := by
  cases call with
  | finishRecording => rfl
  | recordSchema typeName trackedFields =>
    rw [Call.frames] at marker
    split at marker
    · cases marker
    · cases List.mem_singleton.mp marker
  | takePendingHashes => cases marker
  | takePendingHashesUpTo max => cases marker
  | checkDivergence => cases marker
  | _ => cases List.mem_singleton.mp marker

/-- An end marker was written by a `finish_recording`. -/
theorem finish_of_marker {writtenSchemas : Finset String} {calls : List Call}
    {front back : List Frame} (split : framesOf hashBytes localPeerId writtenSchemas calls =
      front ++ .endOfStream :: back) :
    ∃ before after, calls = before ++ .finishRecording :: after ∧
      framesOf hashBytes localPeerId writtenSchemas before = front := by
  induction calls generalizing writtenSchemas front with
  | nil => cases front <;> cases split
  | cons call calls ih =>
    rw [framesOf] at split
    rcases Call.frames_cases hashBytes localPeerId writtenSchemas call with none | ⟨frame, one⟩
    · rw [none, List.nil_append] at split
      obtain ⟨before, after, rfl, earlier⟩ := ih split
      exact ⟨call :: before, after, rfl, by rw [framesOf, earlier, none, List.nil_append]⟩
    · rw [one] at split
      rcases front with _ | ⟨first, front⟩
      · obtain ⟨rfl, _⟩ := List.cons.inj split
        have finish := eq_finish_of_marker hashBytes localPeerId (one ▸ List.mem_cons_self)
        exact ⟨[], calls, by rw [finish]; rfl, rfl⟩
      · obtain ⟨rfl, rest⟩ := List.cons.inj split
        obtain ⟨before, after, rfl, earlier⟩ := ih rest
        exact ⟨call :: before, after, rfl, by rw [framesOf, earlier, one]; rfl⟩

theorem encodeFrames_eq_nil {frames : List Frame} : encodeFrames frames = [] ↔ frames = [] := by
  constructor
  · intro empty
    rcases frames with _ | ⟨frame, frames⟩
    · rfl
    · rw [encodeFrames_cons] at empty
      exact absurd (List.append_eq_nil_iff.mp empty).1 frame.encode_ne_nil
  · rintro rfl
    rfl

end Frames

/-! ### Complete and cut recordings -/

/-- On the file cut at `cut`, both loaders report `ended_cleanly` exactly when nothing was cut and
the last recording call was `finish_recording`. -/
def TellsComplete (path : String) (fileName : Option String) (file : Bytes) (calls : List Call)
    (cut : ℕ) : Prop :=
  (∃ report, analyze path (.ok (file.take cut)) = .ok report ∧
      (report.endedCleanly = true ↔ file.length ≤ cut ∧ EndsWithFinish calls)) ∧
    ∃ data, load path fileName (.ok (file.take cut)) = .ok data ∧
      (data.endedCleanly = true ↔ file.length ≤ cut ∧ EndsWithFinish calls)

/-- Every `finish_recording` that a recording call follows has its marker, at the end of the bytes
of the calls up to it, cut off. -/
def ResumedMarkersCut (hashBytes : Bytes → UInt64) (localPeerId : UInt16) (calls : List Call)
    (cut : ℕ) : Prop :=
  ∀ before after, calls = before ++ .finishRecording :: after →
    (∃ call ∈ after, call.isRecording = true) →
    cut < headerLen +
      (encodeFrames (framesOf hashBytes localPeerId ∅ (before ++ [.finishRecording]))).length

section Cut

variable {hashBytes : Bytes → UInt64} {localPeerId : UInt16} {header : Header} {calls : List Call}

/-- A quiet end adds no bytes behind the marker. -/
theorem framesOf_quiet_end {before after : List Call}
    (quiet : ∀ call ∈ after, call.isRecording = false) :
    framesOf hashBytes localPeerId ∅ (before ++ .finishRecording :: after) =
      framesOf hashBytes localPeerId ∅ (before ++ [.finishRecording]) := by
  rw [framesOf_finish, framesOf_finish, framesOf_of_quiet hashBytes localPeerId quiet]
  rfl

/-- The markers read from a cut stream are those of the `finish_recording` calls that end by the
cut. -/
theorem marker_mem_framesWithin {room : ℕ} :
    .endOfStream ∈ framesWithin room (framesOf hashBytes localPeerId ∅ calls) ↔
      ∃ before after, calls = before ++ .finishRecording :: after ∧ (encodeFrames
        (framesOf hashBytes localPeerId ∅ (before ++ [.finishRecording]))).length ≤ room := by
  rw [mem_framesWithin]
  constructor
  · rintro ⟨front, back, split, within⟩
    obtain ⟨before, after, rfl, rfl⟩ := finish_of_marker hashBytes localPeerId split
    refine ⟨before, after, rfl, ?_⟩
    rw [framesOf_finish]
    exact within
  · rintro ⟨before, after, rfl, within⟩
    rw [framesOf_finish] at within
    exact ⟨_, _, framesOf_finish hashBytes localPeerId ∅ before after, within⟩

/-- **On a file cut after its header, the flag is a marker that is not cut off.** -/
theorem tellsComplete_cut (path : String) (fileName : Option String)
    (fits : ∀ frame ∈ framesOf hashBytes localPeerId ∅ calls, frame.Fits) {cut : ℕ}
    (pastHeader : headerLen ≤ cut) :
    TellsComplete path fileName
        (header.encode ++ encodeFrames (framesOf hashBytes localPeerId ∅ calls)) calls cut ↔
      ((∃ before after, calls = before ++ .finishRecording :: after ∧
          headerLen + (encodeFrames (framesOf hashBytes localPeerId ∅
            (before ++ [.finishRecording]))).length ≤ cut) ↔
        headerLen + (encodeFrames (framesOf hashBytes localPeerId ∅ calls)).length ≤ cut ∧
          EndsWithFinish calls) := by
  obtain ⟨⟨report, analyzed, flag⟩, data, loaded, flag'⟩ :=
    endedCleanly_holds path fileName (holds_take header fits pastHeader)
  have marker : .endOfStream ∈ framesWithin (cut - headerLen)
      (framesOf hashBytes localPeerId ∅ calls) ↔
        ∃ before after, calls = before ++ .finishRecording :: after ∧
          headerLen + (encodeFrames (framesOf hashBytes localPeerId ∅
            (before ++ [.finishRecording]))).length ≤ cut := by
    rw [marker_mem_framesWithin]
    refine exists_congr fun before => exists_congr fun after => and_congr_right fun _ => ?_
    omega
  rw [marker] at flag flag'
  rw [TellsComplete, List.length_append, header.length_encode, analyzed, loaded]
  constructor
  · rintro ⟨⟨_, same, tells⟩, _⟩
    cases same
    exact flag.symm.trans tells
  · exact fun tells => ⟨⟨report, rfl, flag.trans tells⟩, data, rfl, flag'.trans tells⟩

/-- A complete file of a run that ends with `finish_recording` keeps its last marker. -/
theorem EndsWithFinish.marker {cut : ℕ}
    (whole : headerLen + (encodeFrames (framesOf hashBytes localPeerId ∅ calls)).length ≤ cut)
    (ends : EndsWithFinish calls) :
    ∃ before after, calls = before ++ .finishRecording :: after ∧
      headerLen + (encodeFrames (framesOf hashBytes localPeerId ∅
        (before ++ [.finishRecording]))).length ≤ cut := by
  obtain ⟨before, after, rfl, quiet⟩ := ends
  rw [framesOf_quiet_end quiet] at whole
  exact ⟨before, after, rfl, whole⟩

/-- **At one cut** the flag tells complete from cut exactly when every resumed marker is cut off, or
the recording is complete. -/
theorem tellsComplete_iff_cut (path : String) (fileName : Option String)
    (fits : ∀ frame ∈ framesOf hashBytes localPeerId ∅ calls, frame.Fits) {cut : ℕ}
    (pastHeader : headerLen ≤ cut) :
    TellsComplete path fileName
        (header.encode ++ encodeFrames (framesOf hashBytes localPeerId ∅ calls)) calls cut ↔
      ResumedMarkersCut hashBytes localPeerId calls cut ∨
        headerLen + (encodeFrames (framesOf hashBytes localPeerId ∅ calls)).length ≤ cut ∧
          EndsWithFinish calls := by
  rw [tellsComplete_cut path fileName fits pastHeader]
  constructor
  · intro tells
    by_cases complete : headerLen +
        (encodeFrames (framesOf hashBytes localPeerId ∅ calls)).length ≤ cut ∧ EndsWithFinish calls
    · exact Or.inr complete
    · refine Or.inl fun before after split _ => ?_
      by_contra kept
      exact complete (tells.mp ⟨before, after, split, not_lt.mp kept⟩)
  · rintro (cutOff | complete)
    · refine ⟨?_, fun complete => complete.2.marker complete.1⟩
      rintro ⟨before, after, rfl, kept⟩
      have quiet : ∀ call ∈ after, call.isRecording = false := by
        intro call member
        by_contra recording
        have short := cutOff before after rfl ⟨call, member, by simpa using recording⟩
        omega
      rw [framesOf_quiet_end quiet]
      exact ⟨kept, before, after, rfl, quiet⟩
    · exact ⟨fun _ => complete, fun _ => complete.2.marker complete.1⟩

/-- A file no longer than a marker's end has no frames behind it. -/
theorem nothing_behind {before after : List Call}
    (whole : headerLen + (encodeFrames (framesOf hashBytes localPeerId ∅
        (before ++ .finishRecording :: after))).length ≤
      headerLen + (encodeFrames (framesOf hashBytes localPeerId ∅
        (before ++ [.finishRecording]))).length) :
    framesOf hashBytes localPeerId (∅ ∪ typeNamesOf before) after = [] := by
  rw [framesOf_finish, framesOf_finish, encodeFrames_append, encodeFrames_append, encodeFrames_cons,
    encodeFrames_cons] at whole
  simp only [List.length_append, framesOf] at whole
  have empty : (encodeFrames []).length = 0 := rfl
  refine encodeFrames_eq_nil.mp (List.eq_nil_of_length_eq_zero ?_)
  omega

/-- **At every cut** it does so exactly when no recording call follows a `finish_recording`. -/
theorem tellsComplete_iff_never (path : String) (fileName : Option String)
    (fits : ∀ frame ∈ framesOf hashBytes localPeerId ∅ calls, frame.Fits) :
    (∀ cut, headerLen ≤ cut → TellsComplete path fileName
        (header.encode ++ encodeFrames (framesOf hashBytes localPeerId ∅ calls)) calls cut) ↔
      NeverResumes calls := by
  constructor
  · rintro tells before after rfl call member
    by_contra recording
    have resumed : ∃ call ∈ after, call.isRecording = true :=
      ⟨call, member, by simpa using recording⟩
    -- Cut right behind the marker that recording went on after.
    have here := (tellsComplete_iff_cut path fileName fits (Nat.le_add_right _ _)).mp
      (tells _ (Nat.le_add_right headerLen (encodeFrames (framesOf hashBytes localPeerId ∅
        (before ++ [.finishRecording]))).length))
    rcases here with cutOff | ⟨whole, before', after', split, quiet⟩
    · exact absurd (cutOff before after rfl resumed) (lt_irrefl _)
    · have none := nothing_behind whole
      rcases List.append_eq_append_iff.mp split with ⟨between, _, tail⟩ | ⟨between, _, tail⟩
      · rcases between with _ | ⟨_, between⟩
        · cases tail
          exact recording (quiet call member)
        -- The last `finish_recording` comes later, and its marker stands behind the cut.
        · have later : after = between ++ .finishRecording :: after' := (List.cons.inj tail).2
          rw [later, framesOf_finish] at none
          exact absurd none (by simp)
      · rcases between with _ | ⟨_, between⟩
        · cases tail
          exact recording (quiet call member)
        · have later : after' = between ++ .finishRecording :: after := (List.cons.inj tail).2
          rw [later] at quiet
          exact recording (quiet call
            (List.mem_append_right _ (List.mem_cons_of_mem _ member)))
  · intro never cut pastHeader
    refine (tellsComplete_iff_cut path fileName fits pastHeader).mpr (Or.inl ?_)
    rintro before after split ⟨call, member, recording⟩
    rw [never before after split call member] at recording
    cases recording

end Cut

/-- **`ended_cleanly` tells a complete recording from a cut one exactly when no recording call
follows a `finish_recording`**, for a run of successful calls whose payloads fit; and at a single cut
exactly when every marker that recording went on after is cut off, or the recording is complete. -/
theorem ended_cleanly_iff (hashBytes : Bytes → UInt64) (builder : SessionBuilder)
    (session : Session) (calls : List Call) (records : builder.recordTo ≠ none)
    (built : builder.build = .ok session) (ok : AllOk (run hashBytes session calls).1)
    (fits : ∀ frame ∈ framesOf hashBytes builder.localPeerId ∅ calls, frame.Fits) (path : String)
    (fileName : Option String) :
    ∃ file, recordedBytes (run hashBytes session calls).2 = some file ∧
      (∀ cut, headerLen ≤ cut → (TellsComplete path fileName file calls cut ↔
        ResumedMarkersCut hashBytes builder.localPeerId calls cut ∨
          file.length ≤ cut ∧ EndsWithFinish calls)) ∧
      ((∀ cut, headerLen ≤ cut → TellsComplete path fileName file calls cut) ↔
        NeverResumes calls) := by
  refine ⟨_, recordedBytes_run hashBytes records built ok, fun cut pastHeader => ?_,
    tellsComplete_iff_never path fileName fits⟩
  rw [tellsComplete_iff_cut path fileName fits pastHeader, List.length_append,
    Header.length_encode]

/-- A recording with one report, closed. -/
theorem ended_cleanly_iff_sample :
    ∃ file, recordedBytes (run (fun _ => 0) (faultySession [])
        [.recordPeerHash 1 0 7, .finishRecording]).2 = some file ∧
      ((∀ cut, headerLen ≤ cut → TellsComplete "run.foldback" none file
          [.recordPeerHash 1 0 7, .finishRecording] cut) ↔
        NeverResumes [.recordPeerHash 1 0 7, .finishRecording]) := by
  obtain ⟨file, recorded, _, always⟩ := ended_cleanly_iff (fun _ => 0) (faultyBuilder [])
    (faultySession []) [.recordPeerHash 1 0 7, .finishRecording] (by simp [faultyBuilder]) rfl
    (by decide) (by decide) "run.foldback" none
  exact ⟨file, recorded, always⟩

/-- A report after the marker: the whole file claims a clean end, which the run does not have. -/
theorem resumed_ends_cleanly :
    (faultyBuilder []).build = .ok (faultySession []) ∧
      AllOk (run (fun _ => 0) (faultySession []) [.finishRecording, .recordPeerHash 1 0 7]).1 ∧
      ¬ EndsWithFinish [.finishRecording, .recordPeerHash 1 0 7] ∧
      ∃ file, recordedBytes (run (fun _ => 0) (faultySession [])
          [.finishRecording, .recordPeerHash 1 0 7]).2 = some file ∧ headerLen ≤ file.length ∧
        ¬ TellsComplete "run.foldback" none file [.finishRecording, .recordPeerHash 1 0 7]
          file.length := by
  have resumes : ¬ EndsWithFinish [.finishRecording, .recordPeerHash 1 0 7] := by
    rintro ⟨before, after, split, quiet⟩
    rcases before with _ | ⟨_, _ | ⟨_, before⟩⟩
    · cases split
      exact absurd (quiet _ List.mem_cons_self) (by decide)
    · cases split
    · cases before <;> cases split
  have ok : AllOk (run (fun _ => 0) (faultySession [])
      [.finishRecording, .recordPeerHash 1 0 7]).1 := by decide
  have file := recordedBytes_run (fun _ => 0) (show (faultyBuilder []).recordTo ≠ none by
    simp [faultyBuilder]) rfl ok
  refine ⟨rfl, ok, resumes, _, file, by decide, fun tells => ?_⟩
  rcases (tellsComplete_iff_cut "run.foldback" none (by decide) (by decide)).mp tells with
    cutOff | complete
  · have short := cutOff [] [.recordPeerHash 1 0 7] rfl ⟨_, List.mem_cons_self, rfl⟩
    exact absurd short (by decide)
  · exact resumes complete.2

end Foldback
