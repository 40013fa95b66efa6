/-
**What a written stream reads back as, without a bound on its frames.**

`write_to` stores every length as a `u32`, its high bits dropped, and never fails on an in-memory
sink.

* `items_encode_oversize`: the first item read back from a frame with `2 ^ 32` payload bytes or more
  is not that frame.
* `writeTo_faithful_iff`: **a frame and the frames written after it read back exactly when all their
  payloads fit**.
* `endOfStream_ends_iff`: the reader goes on after `EndOfStream`, so **the marker ends the stream
  exactly when the bytes after it hold no complete chunk of a known type**, and of unknown types fewer
  than the reader's stack has room for.
-/

import Foldback.Core.Loading

namespace Foldback

open ChunkStream Runs

/-! ### Frames that do not fit -/

/-- A stream of frames, one after another in the sink. -/
def writeFrames {W : Type} [Write W] (frames : List Frame) : Attempt W Unit :=
  frames.forM Frame.writeTo

theorem writeFrames_bytes (frames : List Frame) (log : Bytes) :
    writeFrames frames log = .ok () (log ++ encodeFrames frames) := by
  induction frames generalizing log with
  | nil => simp [writeFrames, encodeFrames, pure, EStateM.pure]
  | cons frame frames ih =>
    show EStateM.bind frame.writeTo (fun _ => writeFrames frames) log = _
    simp only [EStateM.bind, Frame.writeTo_bytes, ih, encodeFrames_cons, List.append_assoc]

/-- What is left of an oversize payload is too short to be the frame's. -/
theorem readChunk_cut {frame : Frame} (oversize : ¬ frame.Fits) (size : ℕ) :
    ∃ item, FrameReader.readChunk
        ⟨frame.frameType, frame.encodePayload.take (size % 256 ^ 4)⟩ = some item ∧
      item ≠ .ok frame := by
  have known := frameType_mem_knownTypes frame
  rcases Frame.decodePayload_known known (frame.encodePayload.take (size % 256 ^ 4)) with
    ⟨frame', run, _, trailing, form⟩ | run
  · refine ⟨.ok frame', by rw [FrameReader.readChunk, run], fun same => ?_⟩
    cases same
    have kept := congrArg List.length form
    have room : size % 256 ^ 4 < 256 ^ 4 := Nat.mod_lt _ (by norm_num)
    rw [List.length_take, List.length_append] at kept
    exact oversize (show frame.encodePayload.length < 256 ^ 4 by omega)
  · refine ⟨.error .malformedFrame, by rw [FrameReader.readChunk, run], fun same => ?_⟩
    cases same

/-- **An oversize frame is not read back**: the first item is something else. -/
theorem items_encode_oversize {frame : Frame} (oversize : ¬ frame.Fits) (rest : Bytes) :
    ∃ item items, FrameReader.items (frame.encode ++ rest) = item :: items ∧ item ≠ .ok frame := by
  obtain ⟨item, read, wrong⟩ := readChunk_cut oversize frame.encodePayload.length
  have found : next 4 (encode 4 frame.chunk ++ rest) = _ := next_encode_append_mod frame.chunk rest
  have first := FrameReader.items_of_next found
  simp only [Frame.chunk] at first
  rw [read] at first
  exact ⟨item, _, first, wrong⟩

/-- Frames that read back in their places all fit. -/
theorem fits_of_items {frames : List Frame} {rest : Bytes} {items : List (Except Error Frame)}
    (read : FrameReader.items (encodeFrames frames ++ rest) = frames.map .ok ++ items) :
    ∀ frame ∈ frames, frame.Fits := by
  induction frames with
  | nil => exact nofun
  | cons frame frames ih =>
    rw [encodeFrames_cons, List.append_assoc, List.map_cons, List.cons_append] at read
    have here : frame.Fits := by
      by_contra oversize
      obtain ⟨item, others, first, wrong⟩ :=
        items_encode_oversize oversize (encodeFrames frames ++ rest)
      rw [first] at read
      exact wrong (List.cons.inj read).1
    rw [items_encode_frame here] at read
    intro other member
    rcases List.mem_cons.mp member with rfl | member
    · exact here
    · exact ih (List.cons.inj read).2 other member

/-! ### Encoding without a bound -/

namespace Frame

/-- The byte strings whose lengths `write_to` stores: the payload, then each field with a prefix of
its own. -/
def measured (frame : Frame) : List Bytes :=
  frame.encodePayload :: match frame with
    | fieldHash _ _ _ fieldName _ value => [asBytes fieldName, value]
    | snapshot _ _ compressed => [compressed]
    | metadata key value => [asBytes key, asBytes value]
    | _ => []

/-- No measured part is longer than the payload. -/
theorem measured_le {frame : Frame} {bytes : Bytes} (measured : bytes ∈ frame.measured) :
    bytes.length ≤ frame.encodePayload.length := by
  cases frame with
  | fieldHash tick peerId entityId fieldName hash value =>
    simp only [Frame.measured, List.mem_cons, List.not_mem_nil, or_false] at measured
    rcases measured with rfl | rfl | rfl <;> simp only [encodePayload, List.length_append] <;> omega
  | snapshot tick peerId compressed =>
    simp only [Frame.measured, List.mem_cons, List.not_mem_nil, or_false] at measured
    rcases measured with rfl | rfl <;> simp only [encodePayload, List.length_append] <;> omega
  | metadata key value =>
    simp only [Frame.measured, List.mem_cons, List.not_mem_nil, or_false] at measured
    rcases measured with rfl | rfl | rfl <;> simp only [encodePayload, List.length_append] <;> omega
  | _ =>
    rw [List.mem_singleton.mp measured]

/-- `write_to` fails having written nothing, or the frame and the later ones read back as they
are. -/
def ReadsBack (frame : Frame) (later : List Frame) : Prop :=
  (∃ error, frame.writeTo ([] : Bytes) = .error error []) ∨
    ∃ file, writeFrames (frame :: later) ([] : Bytes) = .ok () file ∧
      FrameReader.items file = (frame :: later).map .ok

/-- Every stored length is the real one. -/
def StoresLengths (frame : Frame) (later : List Frame) : Prop :=
  ∀ written ∈ frame :: later, ∀ bytes ∈ written.measured,
    (UInt32.ofNat bytes.length).toNat = bytes.length

/-- A stored length is the real one when it is below `2 ^ 32`. -/
theorem stored_exact {bytes : Bytes} :
    (UInt32.ofNat bytes.length).toNat = bytes.length ↔ bytes.length < 256 ^ 4 := by
  constructor
  · intro exact
    rw [← exact]
    exact (UInt32.ofNat bytes.length).toNat_lt
  · exact fun fits => UInt32.toNat_ofNat_of_lt' fits

/-- Frames that read back as they are fit their length prefixes. -/
theorem ReadsBack.fits {frame : Frame} {later : List Frame} (readsBack : frame.ReadsBack later) :
    ∀ written ∈ frame :: later, written.Fits := by
  rcases readsBack with ⟨error, failed⟩ | ⟨file, wrote, read⟩
  · rw [writeTo_bytes] at failed
    cases failed
  · rw [writeFrames_bytes] at wrote
    cases wrote
    have alone : FrameReader.items (encodeFrames (frame :: later) ++ []) =
        (frame :: later).map .ok ++ [] := by
      rw [List.append_nil, List.append_nil]
      exact read
    exact fits_of_items alone

/-- **Encoding is faithful exactly when every payload fits its length prefix**, and so is reading
back on its own. -/
theorem writeTo_faithful_iff (frame : Frame) (later : List Frame) :
    (frame.ReadsBack later ∧ frame.StoresLengths later ↔
        ∀ written ∈ frame :: later, written.Fits) ∧
      (frame.ReadsBack later ↔ ∀ written ∈ frame :: later, written.Fits) := by
  have reads : (∀ written ∈ frame :: later, written.Fits) → frame.ReadsBack later := fun fits =>
    Or.inr ⟨_, writeFrames_bytes (frame :: later) [], items_encodeFrames fits⟩
  refine ⟨⟨fun both => both.1.fits, fun fits => ⟨reads fits, ?_⟩⟩,
    fun readsBack => readsBack.fits, reads⟩
  intro written member bytes measured
  exact stored_exact.mpr (lt_of_le_of_lt (measured_le measured) (fits written member))

/-- A field value of `2 ^ 32` bytes. -/
theorem oversize_field_lost :
    ¬ (ReadsBack (.fieldHash 0 0 0 "" 0 (List.replicate (2 ^ 32) 0)) [] ∧
      StoresLengths (.fieldHash 0 0 0 "" 0 (List.replicate (2 ^ 32) 0)) []) := by
  rintro ⟨readsBack, _⟩
  have fits := readsBack.fits _ List.mem_cons_self
  simp only [Fits, encodePayload, List.length_append, List.length_replicate] at fits
  omega

end Frame

/-! ### After the end marker -/

/-- The frames and an `EndOfStream`, whatever bytes follow, read back as these frames, then
`EndOfStream`, then `None`, on a stack with room for `stack` calls of the reader. -/
def EndsStream (stack : ℕ) (frames : List Frame) (trailing : Bytes) : Prop :=
  ∃ file, writeFrames (frames ++ [.endOfStream]) ([] : Bytes) = .ok () file ∧
    FrameReader.Yields stack (file ++ trailing) ((frames ++ [Frame.endOfStream]).map .ok)

/-- The trailing bytes add nothing when their complete chunks are all of unknown types. -/
theorem items_eq_nil {trailing : Bytes} :
    FrameReader.items trailing = [] ↔ ∀ chunk ∈ chunks 4 trailing, chunk.tag ∉ knownTypes := by
  rw [FrameReader.items_eq, List.filterMap_eq_nil_iff]
  refine forall₂_congr fun chunk _ => ⟨fun silent known => ?_, fun unknown => ?_⟩
  · rcases FrameReader.readChunk_known known with ⟨_, _, read⟩ | ⟨_, read⟩ <;>
      · rw [silent] at read
        cases read
  · exact readChunk_unknown unknown chunk.payload

/-- Frames stand in no run of unknown chunks. -/
theorem longestRun_encodeFrames {frames : List Frame} (fits : ∀ frame ∈ frames, frame.Fits)
    (trailing : Bytes) :
    longestRun FrameReader.skipped (chunks 4 (encodeFrames frames ++ trailing)) =
      longestRun FrameReader.skipped (chunks 4 trailing) := by
  induction frames with
  | nil => rfl
  | cons frame frames ih =>
    have here := fits frame List.mem_cons_self
    have whole : ChunkStream.Fits 4 frame.chunk := here
    have found : next 4 (frame.encode ++ (encodeFrames frames ++ trailing)) =
        some (frame.chunk, encodeFrames frames ++ trailing) := next_encode_append whole _
    rw [encodeFrames_cons, List.append_assoc, chunks_of_some found, longestRun_cons_of_not
      (by rw [FrameReader.skipped, Frame.readChunk_chunk here]; rfl),
      ih fun other member => fits other (List.mem_cons_of_mem frame member)]

/-- Trailing chunks of unknown types are one run. -/
theorem longestRun_unknown {trailing : Bytes}
    (unknown : ∀ chunk ∈ chunks 4 trailing, chunk.tag ∉ knownTypes) :
    longestRun FrameReader.skipped (chunks 4 trailing) = (chunks 4 trailing).length := by
  refine longestRun_of_all fun chunk member => ?_
  rw [FrameReader.skipped_eq]
  exact decide_eq_true (unknown chunk member)

/-- **`EndOfStream` ends the stream exactly when nothing after it can be read**, and what is passed
over there does not outgrow the reader's stack. -/
theorem endOfStream_ends_iff (stack : ℕ) (frames : List Frame) (trailing : Bytes) :
    EndsStream stack frames trailing ↔
      (∀ frame ∈ frames, frame.Fits) ∧ (∀ chunk ∈ chunks 4 trailing, chunk.tag ∉ knownTypes) ∧
        (chunks 4 trailing).length < stack := by
  have wrote := writeFrames_bytes (frames ++ [.endOfStream]) []
  rw [List.nil_append] at wrote
  have marker : Frame.endOfStream.Fits := by decide
  have all : (∀ frame ∈ frames, frame.Fits) → ∀ frame ∈ frames ++ [Frame.endOfStream],
      frame.Fits := by
    intro fits frame member
    rcases List.mem_append.mp member with inside | last
    · exact fits frame inside
    · rw [List.mem_singleton.mp last]
      exact marker
  constructor
  · rintro ⟨file, wrote', yields⟩
    rw [wrote] at wrote'
    cases wrote'
    obtain ⟨read, room⟩ := yields.holds
    have ends : FrameReader.items (encodeFrames (frames ++ [.endOfStream]) ++ trailing) =
        (frames ++ [Frame.endOfStream]).map .ok ++ [] := by
      rw [List.append_nil]
      exact read.symm
    have fits := fits_of_items ends
    rw [items_encodeFrames_append fits] at ends
    have unknown := items_eq_nil.mp (List.append_cancel_left ends)
    rw [longestRun_encodeFrames fits, longestRun_unknown unknown] at room
    exact ⟨fun frame member => fits frame (List.mem_append_left _ member), unknown, room⟩
  · rintro ⟨fits, unknown, room⟩
    refine ⟨_, wrote, FrameReader.yields_iff.mpr ⟨?_, ?_⟩⟩
    · rw [items_encodeFrames_append (all fits), items_eq_nil.mpr unknown, List.append_nil]
    · rw [longestRun_encodeFrames (all fits), longestRun_unknown unknown]
      exact room

/-- A frame written after the marker is read. -/
theorem frame_after_end_read :
    ¬ EndsStream 50000 [] (Frame.tickHash 1 0 7).encode ∧
      FrameReader.Yields 50000 (encodeFrames [.endOfStream] ++ (Frame.tickHash 1 0 7).encode)
        [.ok .endOfStream, .ok (.tickHash 1 0 7)] := by
  have fits : ∀ frame ∈ [Frame.endOfStream, .tickHash 1 0 7], frame.Fits := by decide
  have written : encodeFrames [.endOfStream, .tickHash 1 0 7] =
      encodeFrames [.endOfStream] ++ (Frame.tickHash 1 0 7).encode := by simp [encodeFrames]
  have room := longestRun_encodeFrames fits []
  rw [List.append_nil, chunks_nil, written] at room
  have read := items_encodeFrames fits
  rw [written] at read
  refine ⟨?_, FrameReader.yields_iff.mpr ⟨read.symm, by rw [room]; decide⟩⟩
  rintro ⟨file, wrote, ends⟩
  rw [writeFrames_bytes, List.nil_append] at wrote
  cases wrote
  have other := ends.holds.1
  rw [List.nil_append, read] at other
  cases other

end Foldback
