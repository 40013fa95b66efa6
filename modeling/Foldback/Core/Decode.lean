/-
**The payload decoder accepts exactly the image of the encoder.**

`Reads` says that a parser reads back what was written. `Takes` is the converse: on any bytes, a
parser that succeeds has taken some written form of the value it returns, and one that fails reports
a malformed frame.

* `Takes.bind` composes the forms of parsers in sequence.
* `takes_decodeFields`: a known type's decoder takes the payload `encode_payload` writes for the
  frame it returns.
* `decodePayload_exact`: **`decode_payload` accepts the encodings, followed by anything, and nothing
  else**.
-/

import Foldback.Core.RoundTrip

namespace Foldback

open Radix

/-! ### Values and their written forms -/

theorem u16Bytes_u16OfBytes {bytes : Bytes} (length : bytes.length = 2) :
    u16Bytes (u16OfBytes bytes) = bytes := by
  have bound := leNat_lt bytes
  rw [length] at bound
  have whole := leBytes_leNat bytes
  rw [length] at whole
  rw [u16Bytes, u16OfBytes, UInt16.toNat_ofNat_of_lt' bound, whole]

theorem u32Bytes_u32OfBytes {bytes : Bytes} (length : bytes.length = 4) :
    u32Bytes (u32OfBytes bytes) = bytes := by
  have whole := leBytes_leNat bytes
  rw [length] at whole
  rw [u32Bytes, FrameReader.u32OfBytes_toNat length, whole]

theorem u64Bytes_u64OfBytes {bytes : Bytes} (length : bytes.length = 8) :
    u64Bytes (u64OfBytes bytes) = bytes := by
  have bound := leNat_lt bytes
  rw [length] at bound
  have whole := leBytes_leNat bytes
  rw [length] at whole
  rw [u64Bytes, u64OfBytes, UInt64.toNat_ofNat_of_lt' bound, whole]

/-- A string that decoded has the bytes it was decoded from. -/
theorem asBytes_of_fromUtf8 {bytes : Bytes} {text : String}
    (decoded : fromUtf8 bytes = some text) : asBytes text = bytes := by
  unfold fromUtf8 String.fromUTF8? at decoded
  split at decoded
  · cases decoded
    simp [asBytes, String.fromUTF8]
  · cases decoded

/-! ### Parsers that take only written forms -/

namespace Cursor

/-- A success has taken bytes in the form of its value; a failure is a malformed frame. -/
structure Takes {α : Type} (parser : Attempt Cursor α) (Form : Bytes → α → Prop) : Prop where
  sound : ∀ {cursor rest value after}, At cursor rest → parser cursor = .ok value after →
    ∃ front left, rest = front ++ left ∧ Form front value ∧ At after left
  malformed : ∀ {cursor rest error after}, At cursor rest → parser cursor = .error error after →
    error = .malformedFrame

theorem Takes.pure {α : Type} {Form : Bytes → α → Prop} {value : α} (form : Form [] value) :
    Takes (Pure.pure value) Form where
  sound := by
    intro cursor rest _ _ here run
    cases run
    exact ⟨[], rest, rfl, form, here⟩
  malformed := by
    intro _ _ _ _ _ run
    cases run

/-- **Parsers in sequence take forms in sequence.** -/
theorem Takes.bind {α β : Type} {parser : Attempt Cursor α} {next : α → Attempt Cursor β}
    {Form : Bytes → α → Prop} {Form' : Bytes → β → Prop} (first : Takes parser Form)
    (second : ∀ value front, Form front value →
      Takes (next value) fun back value' => Form' (front ++ back) value') :
    Takes (parser >>= next) Form' where
  sound := by
    intro cursor rest value' after here run
    obtain ⟨value, middle, step, run'⟩ := bind_eq_ok.mp run
    obtain ⟨front, left, rfl, form, there⟩ := first.sound here step
    obtain ⟨back, left', rfl, form', done⟩ := (second value front form).sound there run'
    exact ⟨front ++ back, left', (List.append_assoc _ _ _).symm, form', done⟩
  malformed := by
    intro cursor rest error after here run
    rcases bind_eq_error.mp run with step | ⟨value, middle, step, run'⟩
    · exact first.malformed here step
    · obtain ⟨front, left, _, form, there⟩ := first.sound here step
      exact (second value front form).malformed there run'

theorem takes_take (count : ℕ) :
    Takes (take count) fun front value => front = value ∧ value.length = count where
  sound := by
    intro cursor rest value after here run
    obtain ⟨inside, rfl⟩ := here
    unfold take at run
    split at run
    · cases run
    · rename_i room
      cases run
      have stop : cursor.pos + count ≤ cursor.buf.length := by omega
      refine ⟨_, cursor.buf.drop (cursor.pos + count), ?_, ⟨rfl, ?_⟩, stop, rfl⟩
      · rw [List.extract_eq_take_drop, Nat.add_sub_cancel_left, ← List.drop_drop,
          List.take_append_drop]
      · rw [List.extract_eq_take_drop, List.length_take, List.length_drop]
        omega
  malformed := by
    intro cursor rest error after _ run
    unfold take at run
    split at run
    · cases run
      rfl
    · cases run

theorem takes_u16 : Takes takeU16 fun front value => front = u16Bytes value := by
  refine (takes_take 2).bind fun bytes front form => Takes.pure ?_
  obtain ⟨rfl, length⟩ := form
  rw [List.append_nil, u16Bytes_u16OfBytes length]

theorem takes_u32 : Takes takeU32 fun front value => front = u32Bytes value := by
  refine (takes_take 4).bind fun bytes front form => Takes.pure ?_
  obtain ⟨rfl, length⟩ := form
  rw [List.append_nil, u32Bytes_u32OfBytes length]

theorem takes_u64 : Takes takeU64 fun front value => front = u64Bytes value := by
  refine (takes_take 8).bind fun bytes front form => Takes.pure ?_
  obtain ⟨rfl, length⟩ := form
  rw [List.append_nil, u64Bytes_u64OfBytes length]

/-- The form has the length the prefix announced, so the prefix is `lenBytes` of what follows. -/
theorem takes_bytes : Takes takeBytes fun front value => front = lenBytes value ++ value := by
  refine takes_u32.bind fun len front form => ?_
  subst form
  have body : Takes (take len.toNat >>= Pure.pure) fun back value =>
      u32Bytes len ++ back = lenBytes value ++ value := by
    refine (takes_take len.toNat).bind fun value back form => Takes.pure ?_
    obtain ⟨rfl, length⟩ := form
    rw [List.append_nil, lenBytes, length, UInt32.ofNat_toNat]
  rwa [bind_pure] at body

theorem takes_checkUtf8 (bytes : Bytes) :
    Takes (checkUtf8 bytes) fun front text => front = [] ∧ asBytes text = bytes := by
  rw [checkUtf8]
  rcases decoded : fromUtf8 bytes with _ | text
  · refine ⟨fun _ run => ?_, fun _ run => ?_⟩
    · cases run
    · cases run
      rfl
  · exact Takes.pure ⟨rfl, asBytes_of_fromUtf8 decoded⟩

theorem takes_string :
    Takes takeString fun front text => front = lenBytes (asBytes text) ++ asBytes text := by
  refine takes_bytes.bind fun bytes front form => ?_
  subst form
  have body : Takes (checkUtf8 bytes >>= Pure.pure) fun back text =>
      (lenBytes bytes ++ bytes) ++ back = lenBytes (asBytes text) ++ asBytes text := by
    refine (takes_checkUtf8 bytes).bind fun text back form => Takes.pure ?_
    obtain ⟨rfl, rfl⟩ := form
    rw [List.append_nil, List.append_nil]
  rwa [bind_pure] at body

end Cursor

/-! ### The decoder -/

namespace Frame

open Cursor

/-- **A known type's decoder takes encoded payloads**, one field after the other. -/
theorem takes_decodeFields {frameType : UInt8} (known : frameType ∈ knownTypes) :
    Takes (decodeFields frameType) fun front frame =>
      frame.frameType = frameType ∧ front = frame.encodePayload := by
  simp only [knownTypes, List.mem_cons, List.not_mem_nil, or_false] at known
  rcases known with rfl | rfl | rfl | rfl | rfl | rfl
  · refine takes_u64.bind fun tick _ form₁ => takes_u16.bind fun peerId _ form₂ =>
      takes_u64.bind fun hash _ form₃ => Takes.pure ?_
    subst form₁ form₂ form₃
    exact ⟨rfl, by simp [encodePayload]⟩
  · refine takes_u64.bind fun tick _ form₁ => takes_u16.bind fun peerId _ form₂ =>
      takes_u64.bind fun entityId _ form₃ => takes_u64.bind fun hash _ form₄ => Takes.pure ?_
    subst form₁ form₂ form₃ form₄
    exact ⟨rfl, by simp [encodePayload]⟩
  · refine takes_u64.bind fun tick _ form₁ => takes_u16.bind fun peerId _ form₂ =>
      takes_u64.bind fun entityId _ form₃ => takes_string.bind fun fieldName _ form₄ =>
      takes_u64.bind fun hash _ form₅ => takes_bytes.bind fun value _ form₆ => Takes.pure ?_
    subst form₁ form₂ form₃ form₄ form₅ form₆
    exact ⟨rfl, by simp [encodePayload]⟩
  · refine takes_u64.bind fun tick _ form₁ => takes_u16.bind fun peerId _ form₂ =>
      takes_bytes.bind fun compressed _ form₃ => Takes.pure ?_
    subst form₁ form₂ form₃
    exact ⟨rfl, by simp [encodePayload]⟩
  · refine takes_string.bind fun key _ form₁ => takes_string.bind fun value _ form₂ =>
      Takes.pure ?_
    subst form₁ form₂
    exact ⟨rfl, by simp [encodePayload]⟩
  · exact Takes.pure ⟨rfl, rfl⟩

/-- **The decoder's outcomes on a known type**: a frame whose encoding is the payload's front, or
a malformed frame. -/
theorem decodePayload_known {frameType : UInt8} (known : frameType ∈ knownTypes)
    (payload : Bytes) :
    (∃ frame, decodePayload frameType payload = .ok frame ∧ frame.frameType = frameType ∧
        ∃ trailing, payload = frame.encodePayload ++ trailing) ∨
      decodePayload frameType payload = .error .malformedFrame := by
  have takes := takes_decodeFields known
  have here : At { buf := payload, pos := 0 } payload := ⟨Nat.zero_le _, rfl⟩
  unfold decodePayload
  rcases run : decodeFields frameType { buf := payload, pos := 0 } with
    ⟨frame, after⟩ | ⟨error, after⟩
  · obtain ⟨front, left, split, ⟨sameType, form⟩, _⟩ := takes.sound here run
    subst form
    exact Or.inl ⟨frame, rfl, sameType, left, split⟩
  · rw [takes.malformed here run]
    exact Or.inr rfl

theorem decodePayload_sound {frameType : UInt8} {payload : Bytes} {frame : Frame}
    (decoded : decodePayload frameType payload = .ok frame) :
    frame.frameType = frameType ∧ ∃ trailing, payload = frame.encodePayload ++ trailing := by
  by_cases known : frameType ∈ knownTypes
  · rcases decodePayload_known known payload with ⟨frame', run, form⟩ | run
    · rw [decoded] at run
      cases run
      exact form
    · rw [decoded] at run
      cases run
  · rw [decodePayload_unknown known] at decoded
    cases decoded

/-- What follows an encoded payload is ignored. -/
theorem decodePayload_append {frame : Frame} (fits : frame.Fits) (trailing : Bytes) :
    decodePayload frame.frameType (frame.encodePayload ++ trailing) = .ok frame := by
  obtain ⟨after, run, _⟩ := reads_encodePayload frame fits
    { buf := frame.encodePayload ++ trailing, pos := 0 } trailing ⟨Nat.zero_le _, rfl⟩
  rw [decodePayload, run]

/-- The payloads below `2 ^ 32` bytes that decode to a frame. -/
theorem decodePayload_eq_ok {frameType : UInt8} {payload : Bytes}
    (short : payload.length < 2 ^ 32) (frame : Frame) :
    decodePayload frameType payload = .ok frame ↔
      frameType = frame.frameType ∧ ∃ trailing, payload = frame.encodePayload ++ trailing := by
  constructor
  · intro decoded
    obtain ⟨sameType, form⟩ := decodePayload_sound decoded
    exact ⟨sameType.symm, form⟩
  · rintro ⟨rfl, trailing, rfl⟩
    rw [List.length_append] at short
    exact decodePayload_append (show frame.encodePayload.length < 256 ^ 4 by omega) trailing

/-- **The decoder is exact.** On a payload below `2 ^ 32` bytes it returns a frame precisely when
the type is that frame's and the payload starts with its encoding; no payload starts with two
encodings of one type; an unknown type is reported as such, and everything else is malformed. -/
theorem decodePayload_exact (frameType : UInt8) (payload : Bytes)
    (short : payload.length < 2 ^ 32) :
    (∀ frame, decodePayload frameType payload = .ok frame ↔
        frameType = frame.frameType ∧ ∃ trailing, payload = frame.encodePayload ++ trailing) ∧
      (∀ frame frame' : Frame,
        (frameType = frame.frameType ∧ ∃ trailing, payload = frame.encodePayload ++ trailing) →
        (frameType = frame'.frameType ∧ ∃ trailing, payload = frame'.encodePayload ++ trailing) →
        frame = frame') ∧
      (∀ reported, decodePayload frameType payload = .error (.unknownFrameType reported) ↔
        reported = frameType ∧ frameType ∉ knownTypes) ∧
      ((∀ frame, decodePayload frameType payload ≠ .ok frame) → frameType ∈ knownTypes →
        decodePayload frameType payload = .error .malformedFrame) := by
  refine ⟨decodePayload_eq_ok short, fun frame frame' first second => ?_, fun reported => ?_,
    fun rejected known => ?_⟩
  · have run := (decodePayload_eq_ok short frame).mpr first
    rw [(decodePayload_eq_ok short frame').mpr second] at run
    cases run
    rfl
  · by_cases known : frameType ∈ knownTypes
    · refine ⟨fun run => ?_, fun ⟨_, unknown⟩ => absurd known unknown⟩
      rcases decodePayload_known known payload with ⟨frame, run', _⟩ | run' <;>
        · rw [run'] at run
          cases run
    · rw [decodePayload_unknown known]
      simp only [Except.error.injEq, Error.unknownFrameType.injEq]
      exact ⟨fun same => ⟨same.symm, known⟩, fun form => form.1.symm⟩
  · rcases decodePayload_known known payload with ⟨frame, run, _⟩ | run
    · exact absurd run (rejected frame)
    · exact run

/-- A tick hash with one byte after its fields. -/
theorem decodePayload_exact_sample :
    decodePayload typeTickHash ((tickHash 3 1 7).encodePayload ++ [9]) =
      .ok (tickHash 3 1 7) :=
  ((decodePayload_exact typeTickHash ((tickHash 3 1 7).encodePayload ++ [9]) (by decide)).1
    (tickHash 3 1 7)).mpr ⟨rfl, [9], rfl⟩

end Frame

end Foldback
