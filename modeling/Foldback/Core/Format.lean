/-
**The `.foldback` file format, as `format.rs` writes and reads it.**

A fixed 32-byte header, then a stream of frames `[type][u32 payload_len][payload]`.

* `Header.writeTo` / `Header.readFrom`, `Frame.writeTo` / `Frame.decodePayload` and
  `FrameReader.nextFrame` are the source's functions. `nextFrame` calls itself once for each chunk of
  an unknown type, so it takes the room on the thread's stack as an argument.
* `FrameReader.items` iterates `nextFrameUnbounded`, the reader on a stack that is always deep enough,
  until its first `None`. `Core.ReaderStack` says which stacks are.
* Decoding goes through `Cursor`, whose `take` is the only place that looks at the payload.
* `FrameReader.items_eq` is the reader's specification: the items are the complete chunks at the
  front of the input, each decoded on its own (`readChunk`), unknown types left out.
-/

import Foldback.Core.Io
import Foldback.Lib.ChunkStream

namespace Foldback

open Radix

/-! ### The header -/

/-- `b"FBK1"`. -/
def magic : Bytes := [0x46, 0x42, 0x4B, 0x31]

/-- `FORMAT_VERSION`. -/
def currentVersion : UInt16 := 1

def headerLen : ℕ := 32

structure Header where
  formatVersion : UInt16
  tickRateHz : UInt32
  peerCount : UInt32
  buildId : Vector UInt8 16
  deriving DecidableEq, Repr

namespace Header

def new (tickRateHz peerCount : UInt32) (buildId : Vector UInt8 16) : Header :=
  { formatVersion := currentVersion, tickRateHz, peerCount, buildId }

/-- The 32 bytes of `write_to`; bytes `6..8` are the reserved flags. -/
def encode (header : Header) : Bytes :=
  magic ++ (u16Bytes header.formatVersion ++ ([0, 0] ++ (u32Bytes header.tickRateHz ++
    (u32Bytes header.peerCount ++ header.buildId.toList))))

def writeTo {W : Type} [Write W] (header : Header) : Attempt W Unit :=
  Write.writeAll header.encode

def readFrom (input : Bytes) : EStateM.Result Error Bytes Header :=
  match readExact headerLen input with
  | .error _ rest => .error .truncatedHeader rest
  | .ok buf rest =>
    if buf.extract 0 4 ≠ magic then .error .badMagic rest
    else .ok {
      formatVersion := u16OfBytes (buf.extract 4 6)
      tickRateHz := u32OfBytes (buf.extract 8 12)
      peerCount := u32OfBytes (buf.extract 12 16)
      buildId := Vector.ofFn fun index => (buf.extract 16 32).getD index 0 } rest

end Header

/-! ### Frames -/

inductive Frame
  | tickHash (tick : UInt64) (peerId : UInt16) (hash : UInt64)
  | entityHash (tick : UInt64) (peerId : UInt16) (entityId : UInt64) (hash : UInt64)
  | fieldHash (tick : UInt64) (peerId : UInt16) (entityId : UInt64) (fieldName : String)
      (hash : UInt64) (value : Bytes)
  | snapshot (tick : UInt64) (peerId : UInt16) (compressed : Bytes)
  | metadata (key value : String)
  | endOfStream
  deriving DecidableEq, Repr

def typeTickHash : UInt8 := 0x01
def typeEntityHash : UInt8 := 0x02
def typeFieldHash : UInt8 := 0x03
def typeSnapshot : UInt8 := 0x10
def typeMetadata : UInt8 := 0x20
def typeEndOfStream : UInt8 := 0xFF

/-- `len as u32`: the length a prefix stores, its high bits dropped. -/
def lenBytes (bytes : Bytes) : Bytes := u32Bytes (UInt32.ofNat bytes.length)

namespace Frame

def frameType : Frame → UInt8
  | tickHash .. => typeTickHash
  | entityHash .. => typeEntityHash
  | fieldHash .. => typeFieldHash
  | snapshot .. => typeSnapshot
  | metadata .. => typeMetadata
  | endOfStream => typeEndOfStream

def encodePayload : Frame → Bytes
  | tickHash tick peerId hash => u64Bytes tick ++ (u16Bytes peerId ++ u64Bytes hash)
  | entityHash tick peerId entityId hash =>
    u64Bytes tick ++ (u16Bytes peerId ++ (u64Bytes entityId ++ u64Bytes hash))
  | fieldHash tick peerId entityId fieldName hash value =>
    u64Bytes tick ++ (u16Bytes peerId ++ (u64Bytes entityId ++ (lenBytes (asBytes fieldName) ++
      (asBytes fieldName ++ (u64Bytes hash ++ (lenBytes value ++ value))))))
  | snapshot tick peerId compressed =>
    u64Bytes tick ++ (u16Bytes peerId ++ (lenBytes compressed ++ compressed))
  | metadata key value =>
    lenBytes (asBytes key) ++ (asBytes key ++ (lenBytes (asBytes value) ++ asBytes value))
  | endOfStream => []

def writeTo {W : Type} [Write W] (frame : Frame) : Attempt W Unit := do
  Write.writeAll [frame.frameType]
  Write.writeAll (lenBytes frame.encodePayload)
  Write.writeAll frame.encodePayload

end Frame

/-! ### The payload cursor -/

structure Cursor where
  buf : Bytes
  pos : ℕ
  deriving DecidableEq, Repr

namespace Cursor

def take (count : ℕ) : Attempt Cursor Bytes := fun cursor =>
  if cursor.pos + count > cursor.buf.length then .error .malformedFrame cursor
  else .ok (cursor.buf.extract cursor.pos (cursor.pos + count))
    { cursor with pos := cursor.pos + count }

def takeU16 : Attempt Cursor UInt16 := do
  let bytes ← take 2
  return u16OfBytes bytes

def takeU32 : Attempt Cursor UInt32 := do
  let bytes ← take 4
  return u32OfBytes bytes

def takeU64 : Attempt Cursor UInt64 := do
  let bytes ← take 8
  return u64OfBytes bytes

def takeBytes : Attempt Cursor Bytes := do
  let len ← takeU32
  take len.toNat

/-- `String::from_utf8`, its failure reported as a malformed frame. -/
def checkUtf8 (bytes : Bytes) : Attempt Cursor String :=
  match fromUtf8 bytes with
  | some text => return text
  | none => throw .malformedFrame

def takeString : Attempt Cursor String := do
  let bytes ← takeBytes
  checkUtf8 bytes

end Cursor

namespace Frame

open Cursor

/-- The body of `decode_payload`, on the cursor it makes. -/
def decodeFields (frameType : UInt8) : Attempt Cursor Frame :=
  if frameType = typeTickHash then do
    let tick ← takeU64
    let peerId ← takeU16
    let hash ← takeU64
    return tickHash tick peerId hash
  else if frameType = typeEntityHash then do
    let tick ← takeU64
    let peerId ← takeU16
    let entityId ← takeU64
    let hash ← takeU64
    return entityHash tick peerId entityId hash
  else if frameType = typeFieldHash then do
    let tick ← takeU64
    let peerId ← takeU16
    let entityId ← takeU64
    let fieldName ← takeString
    let hash ← takeU64
    let value ← takeBytes
    return fieldHash tick peerId entityId fieldName hash value
  else if frameType = typeSnapshot then do
    let tick ← takeU64
    let peerId ← takeU16
    let compressed ← takeBytes
    return snapshot tick peerId compressed
  else if frameType = typeMetadata then do
    let key ← takeString
    let value ← takeString
    return metadata key value
  else if frameType = typeEndOfStream then
    return endOfStream
  else
    throw (.unknownFrameType frameType)

def decodePayload (frameType : UInt8) (payload : Bytes) : Except Error Frame :=
  match decodeFields frameType { buf := payload, pos := 0 } with
  | .ok frame _ => .ok frame
  | .error error _ => .error error

end Frame

/-! ### The frame reader -/

namespace FrameReader

open ChunkStream

theorem readExact_length {count : ℕ} {input front rest : Bytes}
    (read : readExact count input = .ok front rest) :
    front.length = count ∧ front ++ rest = input := by
  unfold readExact at read
  split at read
  · rename_i enough
    cases read
    exact ⟨List.length_take_of_le enough, List.take_append_drop _ _⟩
  · cases read

/-- What one activation of `next_frame` comes to: it returns, or it has skipped a chunk and calls
itself on the rest. -/
inductive Activation
  | returns (result : EStateM.Result Error Bytes (Option Frame))
  | callsAgain (rest : Bytes)

/-- The body of `next_frame` on bytes in memory. A short read ends the stream; an unknown type is
skipped by its length. -/
def nextFrameBody (input : Bytes) : Activation :=
  match input with
  | [] => .returns (.ok none [])
  | frameType :: body =>
    match readExact 4 body with
    | .error _ rest => .returns (.ok none rest)
    | .ok lenBuf rest =>
      let payloadLen := (u32OfBytes lenBuf).toNat
      let payload := rest.take payloadLen
      if payload.length ≠ payloadLen then .returns (.ok none (rest.drop payloadLen))
      else
        match Frame.decodePayload frameType payload with
        | .ok frame => .returns (.ok (some frame) (rest.drop payloadLen))
        | .error (.unknownFrameType _) => .callsAgain (rest.drop payloadLen)
        | .error error => .returns (.error error (rest.drop payloadLen))

/-- `next_frame` on a thread whose stack has room for `stack` activations of it, and what is left to
read. The call in its body is no tail call (`payload` is dropped after it), so every skipped chunk
keeps an activation; without room for one more the process aborts, which is `none`. -/
def nextFrame : ℕ → Bytes → Option (EStateM.Result Error Bytes (Option Frame))
  | 0, _ => none
  | stack + 1, input =>
    match nextFrameBody input with
    | .returns result => some result
    | .callsAgain rest => nextFrame stack rest

theorem u32OfBytes_toNat {bytes : Bytes} (length : bytes.length = 4) :
    (u32OfBytes bytes).toNat = leNat bytes := by
  have bound := leNat_lt bytes
  rw [length] at bound
  rw [u32OfBytes, UInt32.toNat_ofNat_of_lt' bound]

/-- An input with no complete chunk at its front ends the stream. -/
theorem nextFrameBody_of_none {input : Bytes} (stop : next 4 input = none) :
    ∃ rest, nextFrameBody input = .returns (.ok none rest) := by
  rcases input with _ | ⟨frameType, body⟩
  · exact ⟨[], rfl⟩
  · rw [nextFrameBody]
    split
    · exact ⟨_, rfl⟩
    · rename_i lenBuf rest read
      obtain ⟨length, rfl⟩ := readExact_length read
      have exact := u32OfBytes_toNat length
      have short : rest.length < leNat lenBuf := by
        by_contra enough
        have found : next 4 (frameType :: (lenBuf ++ (rest.take (leNat lenBuf) ++
            rest.drop (leNat lenBuf)))) = _ :=
          next_of_exact length (List.length_take_of_le (not_lt.mp enough)).symm
        rw [List.take_append_drop, stop] at found
        cases found
      rw [exact, if_pos (by rw [List.length_take]; omega)]
      exact ⟨_, rfl⟩

/-- What one complete chunk contributes: its frame, its error, or nothing for an unknown type. -/
def readChunk (chunk : Chunk) : Option (Except Error Frame) :=
  match Frame.decodePayload chunk.tag chunk.payload with
  | .ok frame => some (.ok frame)
  | .error (.unknownFrameType _) => none
  | .error error => some (.error error)

/-- **One activation of the reader** on a complete chunk. -/
theorem nextFrameBody_of_some {input rest : Bytes} {chunk : Chunk}
    (found : next 4 input = some (chunk, rest)) :
    nextFrameBody input = match readChunk chunk with
      | some (.ok frame) => .returns (.ok (some frame) rest)
      | some (.error error) => .returns (.error error rest)
      | none => .callsAgain rest := by
  obtain ⟨lenBuf, length, exact, rfl⟩ := next_eq_some found
  rw [nextFrameBody, readExact_append length]
  simp only [u32OfBytes_toNat length, exact, List.take_left, List.drop_left, ne_eq,
    not_true_eq_false, if_false, readChunk]
  split <;> rfl

/-- A skipped chunk has been consumed. -/
theorem callsAgain_shorter {input rest : Bytes} (skipped : nextFrameBody input = .callsAgain rest) :
    rest.length < input.length := by
  rcases found : next 4 input with _ | ⟨chunk, after⟩
  · obtain ⟨left, stop⟩ := nextFrameBody_of_none found
    rw [stop] at skipped
    cases skipped
  · have shorter := next_length found
    rw [nextFrameBody_of_some found] at skipped
    rcases read : readChunk chunk with _ | (error | frame)
    · rw [read] at skipped
      cases skipped
      omega
    · rw [read] at skipped
      cases skipped
    · rw [read] at skipped
      cases skipped

/-! ### The items of a stream, on a stack that is deep enough -/

/-- `next_frame` with no bound on its stack. -/
def nextFrameUnbounded (input : Bytes) : EStateM.Result Error Bytes (Option Frame) :=
  match _step : nextFrameBody input with
  | .returns result => result
  | .callsAgain rest => nextFrameUnbounded rest
termination_by input.length
decreasing_by exact callsAgain_shorter _step

theorem nextFrameUnbounded_step (input : Bytes) :
    nextFrameUnbounded input = match nextFrameBody input with
      | .returns result => result
      | .callsAgain rest => nextFrameUnbounded rest := by
  rw [nextFrameUnbounded]
  split <;> rename_i step <;> simp only [step]

theorem nextFrameUnbounded_of_none {input : Bytes} (stop : next 4 input = none) :
    ∃ rest, nextFrameUnbounded input = .ok none rest := by
  obtain ⟨rest, step⟩ := nextFrameBody_of_none stop
  exact ⟨rest, by rw [nextFrameUnbounded_step, step]⟩

/-- **One step of the reader** on a complete chunk. -/
theorem nextFrameUnbounded_of_some {input rest : Bytes} {chunk : Chunk}
    (found : next 4 input = some (chunk, rest)) :
    nextFrameUnbounded input = match readChunk chunk with
      | some (.ok frame) => .ok (some frame) rest
      | some (.error error) => .error error rest
      | none => nextFrameUnbounded rest := by
  rw [nextFrameUnbounded_step, nextFrameBody_of_some found]
  rcases readChunk chunk with _ | (error | frame) <;> rfl

/-- A step that yields an item has consumed input. -/
theorem nextFrameUnbounded_consumes {input rest : Bytes} :
    (∀ frame, nextFrameUnbounded input = .ok (some frame) rest → rest.length < input.length) ∧
      (∀ error, nextFrameUnbounded input = .error error rest → rest.length < input.length) := by
  induction length : input.length using Nat.strong_induction_on generalizing input with
  | _ size ih =>
    subst length
    rcases found : next 4 input with _ | ⟨chunk, after⟩
    · obtain ⟨left, stop⟩ := nextFrameUnbounded_of_none found
      rw [stop]
      exact ⟨nofun, nofun⟩
    · have shorter := next_length found
      have skipped := ih after.length (by omega) rfl
      rw [nextFrameUnbounded_of_some found]
      rcases readChunk chunk with _ | (error | frame)
      · exact ⟨fun frame step => (skipped.1 frame step).trans (by omega),
          fun error step => (skipped.2 error step).trans (by omega)⟩
      · refine ⟨nofun, fun _ step => ?_⟩
        cases step
        omega
      · refine ⟨fun _ step => ?_, nofun⟩
        cases step
        omega

/-- `Iterator::next`, repeated until its first `None`. -/
def items (input : Bytes) : List (Except Error Frame) :=
  match _step : nextFrameUnbounded input with
  | .ok none _ => []
  | .ok (some frame) rest => .ok frame :: items rest
  | .error error rest => .error error :: items rest
termination_by input.length
decreasing_by
  · exact nextFrameUnbounded_consumes.1 _ _step
  · exact nextFrameUnbounded_consumes.2 _ _step

theorem items_step (input : Bytes) :
    items input = match nextFrameUnbounded input with
      | .ok none _ => []
      | .ok (some frame) rest => .ok frame :: items rest
      | .error error rest => .error error :: items rest := by
  rw [items]
  split <;> rename_i step <;> simp only [step]

/-- **The reader's specification**: the complete chunks at the front, each decoded on its own. -/
theorem items_eq (input : Bytes) : items input = (chunks 4 input).filterMap readChunk := by
  induction length : input.length using Nat.strong_induction_on generalizing input with
  | _ size ih =>
    subst length
    rcases found : next 4 input with _ | ⟨chunk, after⟩
    · obtain ⟨left, stop⟩ := nextFrameUnbounded_of_none found
      rw [chunks_of_none found, items_step, stop, List.filterMap_nil]
    · have shorter := next_length found
      have rest := ih after.length (by omega) after rfl
      have step := nextFrameUnbounded_of_some found
      rw [chunks_of_some found, List.filterMap_cons, ← rest]
      rw [items_step, step]
      rcases readChunk chunk with _ | (error | frame)
      · exact (items_step after).symm
      · rfl
      · rfl

end FrameReader

end Foldback
