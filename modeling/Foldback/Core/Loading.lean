/-
**Loading a recording from a file**, as the command line's `report.rs` and the UI's `session.rs`
both do: open it, read the header, collect the frames up to the reader's first error.

* `opened` is the outcome of `File::open`: an error, or the file's bytes. `Wrap` is how a loader
  names the two kinds of failure (its `Open` and `Format` errors).
* `Holds file header frames`: the file reads back as that header and those frames, with no error.
  `holds_encode` is the file a writer makes. On any other file every loader fails
  (`loadRecording_cases`).
-/

import Foldback.Core.Reader

namespace Foldback

open ChunkStream

/-! ### The bytes of frames -/

/-- The bytes of frames written one after another. -/
def encodeFrames (frames : List Frame) : Bytes := (frames.map Frame.encode).flatten

theorem encodeFrames_cons (frame : Frame) (frames : List Frame) :
    encodeFrames (frame :: frames) = frame.encode ++ encodeFrames frames := by
  simp [encodeFrames]

theorem encodeFrames_append (first second : List Frame) :
    encodeFrames (first ++ second) = encodeFrames first ++ encodeFrames second := by
  simp [encodeFrames]

/-- A frame that fits is read back first, and what follows it as if it stood alone. -/
theorem items_encode_frame {frame : Frame} (fits : frame.Fits) (rest : Bytes) :
    FrameReader.items (frame.encode ++ rest) = .ok frame :: FrameReader.items rest := by
  have whole : ChunkStream.Fits 4 frame.chunk := fits
  have split := FrameReader.items_of_next (next_encode_append whole rest)
  rw [Frame.readChunk_chunk fits] at split
  exact split

theorem items_encodeFrames_append {frames : List Frame} (fits : ∀ frame ∈ frames, frame.Fits)
    (rest : Bytes) :
    FrameReader.items (encodeFrames frames ++ rest) =
      frames.map .ok ++ FrameReader.items rest := by
  induction frames with
  | nil => rfl
  | cons frame frames ih =>
    rw [encodeFrames_cons, List.append_assoc, items_encode_frame (fits frame List.mem_cons_self),
      ih fun other member => fits other (List.mem_cons_of_mem _ member)]
    rfl

theorem items_encodeFrames {frames : List Frame} (fits : ∀ frame ∈ frames, frame.Fits) :
    FrameReader.items (encodeFrames frames) = frames.map .ok := by
  have alone := items_encodeFrames_append fits []
  rwa [List.append_nil, FrameReader.items_eq [], chunks_nil, List.filterMap_nil,
    List.append_nil] at alone

/-! ### The loaders' common part -/

/-- A loader's names for a file that cannot be opened and for one that cannot be read. -/
structure Wrap (ε : Type) where
  openFailed : IoError → ε
  format : Error → ε

variable {ε : Type}

/-- `File::open`, then `Header::read_from`. -/
def openRecording (wrap : Wrap ε) (opened : Except IoError Bytes) : Except ε (Header × Bytes) :=
  match opened with
  | .error source => .error (wrap.openFailed source)
  | .ok file =>
    match Header.readFrom file with
    | .error source _ => .error (wrap.format source)
    | .ok header rest => .ok (header, rest)

/-- The reader's frames up to its first error, which ends the loop. -/
def readFrames (wrap : Wrap ε) : List (Except Error Frame) → Except ε (List Frame)
  | [] => .ok []
  | .error source :: _ => .error (wrap.format source)
  | .ok frame :: items => (readFrames wrap items).map (frame :: ·)

/-- The header and the frames of a recording. -/
def loadRecording (wrap : Wrap ε) (opened : Except IoError Bytes) :
    Except ε (Header × List Frame) := do
  let (header, rest) ← openRecording wrap opened
  let frames ← readFrames wrap (FrameReader.items rest)
  return (header, frames)

/-- The file reads back as the header and the frames. -/
def Holds (file : Bytes) (header : Header) (frames : List Frame) : Prop :=
  ∃ rest, Header.readFrom file = .ok header rest ∧ FrameReader.items rest = frames.map .ok

theorem readFrames_ok (wrap : Wrap ε) (frames : List Frame) :
    readFrames wrap (frames.map .ok) = .ok frames := by
  induction frames with
  | nil => rfl
  | cons frame frames ih =>
    rw [List.map_cons, readFrames, ih]
    rfl

/-- **A file loads as what it holds.** -/
theorem loadRecording_ok (wrap : Wrap ε) {file : Bytes} {header : Header} {frames : List Frame}
    (holds : Holds file header frames) : loadRecording wrap (.ok file) = .ok (header, frames) := by
  obtain ⟨rest, read, items⟩ := holds
  have opened : openRecording wrap (.ok file) = .ok (header, rest) := by
    rw [openRecording, read]
  rw [loadRecording, opened]
  show (do let frames ← readFrames wrap (FrameReader.items rest); pure (header, frames)) = _
  rw [items, readFrames_ok]
  rfl

theorem readFrames_cases (items : List (Except Error Frame)) :
    (∃ frames : List Frame, items = frames.map .ok) ∨
      ∃ source, ∀ {ε : Type} (wrap : Wrap ε), readFrames wrap items = .error (wrap.format source) := by
  induction items with
  | nil => exact Or.inl ⟨[], rfl⟩
  | cons item items ih =>
    rcases item with source | frame
    · exact Or.inr ⟨source, fun wrap => rfl⟩
    · rcases ih with ⟨frames, rfl⟩ | ⟨source, fails⟩
      · exact Or.inl ⟨frame :: frames, rfl⟩
      · refine Or.inr ⟨source, fun wrap => ?_⟩
        rw [readFrames, fails wrap]
        rfl

/-- **What is opened holds a recording, or every loader fails on it.** -/
theorem loadRecording_cases (opened : Except IoError Bytes) :
    (∃ file header frames, opened = .ok file ∧ Holds file header frames) ∨
      ∀ {ε : Type} (wrap : Wrap ε), ∃ error, loadRecording wrap opened = .error error := by
  rcases opened with source | file
  · exact Or.inr fun wrap => ⟨_, rfl⟩
  · rcases read : Header.readFrom file with ⟨header, rest⟩ | ⟨source, rest⟩
    · rcases readFrames_cases (FrameReader.items rest) with ⟨frames, items⟩ | ⟨source, fails⟩
      · exact Or.inl ⟨file, header, frames, rfl, rest, read, items⟩
      · refine Or.inr fun wrap => ⟨wrap.format source, ?_⟩
        rw [loadRecording, openRecording, read]
        show (do let frames ← readFrames wrap (FrameReader.items rest); pure (header, frames)) = _
        rw [fails wrap]
        rfl
    · refine Or.inr fun wrap => ⟨wrap.format source, ?_⟩
      rw [loadRecording, openRecording, read]
      rfl

/-- The file made of a header's bytes and the frames' bytes holds them. -/
theorem holds_encode (header : Header) {frames : List Frame} (fits : ∀ frame ∈ frames, frame.Fits) :
    Holds (header.encode ++ encodeFrames frames) header frames :=
  ⟨_, Header.readFrom_encode _ _, items_encodeFrames fits⟩

end Foldback
