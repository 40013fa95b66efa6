/-
**The frame reader on arbitrary bytes.**

* `items_isPrefix_append`: a longer input only adds items.
* `items_encodeAll_append`: complete chunks are read on their own, and what follows them as if it
  stood alone.
* `skipped_eq`: what the reader passes over, and nests calls for, are the chunks of unknown types.
* `reader_isolates_iff`: **the laws together**, with what one complete chunk contributes, hold exactly
  where the runs of unknown chunks leave the stack room.
-/

import Foldback.Core.Decode

namespace Foldback

open ChunkStream Runs

namespace FrameReader

theorem length_items_le (input : Bytes) : (items input).length ≤ input.length / 5 := by
  have kept : ((chunks 4 input).filterMap readChunk).length ≤ (chunks 4 input).length :=
    List.length_filterMap_le _ _
  have room : (chunks 4 input).length * 5 ≤ input.length := length_chunks_mul_le input
  rw [items_eq]
  omega

/-- A longer input only adds items. -/
theorem items_isPrefix_append (input extension : Bytes) :
    items input <+: items (input ++ extension) := by
  rw [items_eq, items_eq]
  exact (chunks_isPrefix_append input extension).filterMap readChunk

/-- **Complete chunks contribute on their own**, and the rest reads as if it stood alone. -/
theorem items_encodeAll_append {stream : List Chunk} (fits : ∀ chunk ∈ stream, Fits 4 chunk)
    (rest : Bytes) :
    items (encodeAll 4 stream ++ rest) = stream.filterMap readChunk ++ items rest := by
  rw [items_eq, items_eq, chunks_encodeAll_append fits, List.filterMap_append]

theorem items_encodeAll {stream : List Chunk} (fits : ∀ chunk ∈ stream, Fits 4 chunk) :
    items (encodeAll 4 stream) = stream.filterMap readChunk := by
  have alone := items_encodeAll_append fits []
  rwa [List.append_nil, items_eq [], chunks_nil, List.filterMap_nil, List.append_nil] at alone

/-- The front of the input is the reader's first item. -/
theorem items_of_next {input rest : Bytes} {chunk : Chunk}
    (found : next 4 input = some (chunk, rest)) :
    items input = (readChunk chunk).toList ++ items rest := by
  rw [items_eq, items_eq, chunks_of_some found]
  rcases read : readChunk chunk with _ | item
  · rw [List.filterMap_cons_none read]
    rfl
  · rw [List.filterMap_cons_some read]
    rfl

theorem items_encode_append {chunk : Chunk} (fits : Fits 4 chunk) (rest : Bytes) :
    items (encode 4 chunk ++ rest) = (readChunk chunk).toList ++ items rest :=
  items_of_next (next_encode_append fits rest)

/-- A chunk of a known type is one item: its frame, or a malformed frame. -/
theorem readChunk_known {chunk : Chunk} (known : chunk.tag ∈ knownTypes) :
    (∃ frame, Frame.decodePayload chunk.tag chunk.payload = .ok frame ∧
        readChunk chunk = some (.ok frame)) ∨
      Frame.decodePayload chunk.tag chunk.payload = .error .malformedFrame ∧
        readChunk chunk = some (.error .malformedFrame) := by
  rcases Frame.decodePayload_known known chunk.payload with ⟨frame, run, _⟩ | run
  · exact Or.inl ⟨frame, run, by rw [readChunk, run]⟩
  · exact Or.inr ⟨run, by rw [readChunk, run]⟩

/-- A type byte this version does not know. -/
def unknownType (chunk : Chunk) : Bool := decide (chunk.tag ∉ knownTypes)

/-- The reader passes over exactly the chunks of unknown types. -/
theorem skipped_eq : skipped = unknownType := by
  funext chunk
  rw [skipped, unknownType]
  by_cases known : chunk.tag ∈ knownTypes
  · rw [decide_eq_false (not_not_intro known)]
    rcases readChunk_known known with ⟨_, _, read⟩ | ⟨_, read⟩ <;>
      · rw [read]
        rfl
  · rw [decide_eq_true known, show readChunk chunk = none from readChunk_unknown known chunk.payload]
    rfl

/-- A front has no longer runs than the whole stream. -/
theorem longestRun_le_append (input extension : Bytes) :
    longestRun unknownType (chunks 4 input) ≤ longestRun unknownType (chunks 4 (input ++ extension)) :=
  longestRun_mono (chunks_isPrefix_append input extension).isInfix

/-- Behind complete chunks the extension is read as if it stood alone. -/
theorem longestRun_le_behind {stream : List Chunk} (fits : ∀ chunk ∈ stream, Fits 4 chunk)
    (rest : Bytes) :
    longestRun unknownType (chunks 4 rest) ≤
      longestRun unknownType (chunks 4 (encodeAll 4 stream ++ rest)) := by
  rw [chunks_encodeAll_append fits]
  exact longestRun_mono (List.suffix_append _ _).isInfix

/-- What the reader makes of `input`, and of `input` with an extension behind it. It reaches its
`None`, always with the same items, at most a fifth as many as there are bytes; the extension only adds
items, and behind complete chunks it is read as if it stood alone; and a complete chunk, wherever it
stands, contributes one item of its own when its type is known and none when it is not. -/
def Isolates (stack : ℕ) (input extension : Bytes) : Prop :=
  ∃ list extended, (Yields stack input list ∧ ∀ other, Yields stack input other → other = list) ∧
    list.length ≤ input.length / 5 ∧
    Yields stack (input ++ extension) extended ∧ list <+: extended ∧
    (∀ stream : List Chunk, (∀ chunk ∈ stream, Fits 4 chunk) → input = encodeAll 4 stream →
      ∃ alone, Yields stack extension alone ∧ extended = list ++ alone) ∧
    ∀ (stream : List Chunk) (chunk : Chunk) (rest : Bytes), (∀ other ∈ stream, Fits 4 other) →
      Fits 4 chunk → input = encodeAll 4 stream ++ (encode 4 chunk ++ rest) →
      ∃ before after, Yields stack (encodeAll 4 stream) before ∧ Yields stack rest after ∧
        (chunk.tag ∈ knownTypes → ∃ item : Except Error Frame,
          (Frame.decodePayload chunk.tag chunk.payload = item ∧
            ((∃ frame, item = .ok frame) ∨ item = .error .malformedFrame)) ∧
          list = before ++ item :: after) ∧
        (chunk.tag ∉ knownTypes → list = before ++ after)

/-- The items around a complete chunk. -/
theorem items_around {stream : List Chunk} (fits : ∀ other ∈ stream, Fits 4 other) {chunk : Chunk}
    (fitsChunk : Fits 4 chunk) (rest : Bytes) :
    (chunk.tag ∈ knownTypes → ∃ item : Except Error Frame,
      (Frame.decodePayload chunk.tag chunk.payload = item ∧
        ((∃ frame, item = .ok frame) ∨ item = .error .malformedFrame)) ∧
      items (encodeAll 4 stream ++ (encode 4 chunk ++ rest)) =
        items (encodeAll 4 stream) ++ item :: items rest) ∧
      (chunk.tag ∉ knownTypes → items (encodeAll 4 stream ++ (encode 4 chunk ++ rest)) =
        items (encodeAll 4 stream) ++ items rest) := by
  have around : items (encodeAll 4 stream ++ (encode 4 chunk ++ rest)) =
      items (encodeAll 4 stream) ++ ((readChunk chunk).toList ++ items rest) := by
    rw [items_encodeAll_append fits, items_encode_append fitsChunk, items_encodeAll fits]
  constructor
  · intro known
    rcases readChunk_known known with ⟨frame, run, read⟩ | ⟨run, read⟩
    · refine ⟨.ok frame, ⟨run, Or.inl ⟨frame, rfl⟩⟩, ?_⟩
      rw [around, read]
      rfl
    · refine ⟨.error .malformedFrame, ⟨run, Or.inr rfl⟩, ?_⟩
      rw [around, read]
      rfl
  · intro unknown
    rw [around, show readChunk chunk = none from readChunk_unknown unknown chunk.payload]
    rfl

/-- **The reader is total, prefix-monotone, and isolates bad frames exactly on the streams whose runs
of consecutive unknown chunks leave its stack room.** -/
theorem reader_isolates_iff (stack : ℕ) (input extension : Bytes) :
    Isolates stack input extension ↔
      longestRun unknownType (chunks 4 (input ++ extension)) < stack := by
  constructor
  · rintro ⟨_, _, _, _, extended, _⟩
    rw [← skipped_eq]
    exact extended.holds.2
  · intro room
    have yields : ∀ part, longestRun unknownType (chunks 4 part) ≤
        longestRun unknownType (chunks 4 (input ++ extension)) → Yields stack part (items part) := by
      intro part shorter
      refine yields_items part ?_
      rw [skipped_eq]
      exact shorter.trans_lt room
    have inside := longestRun_le_append input extension
    refine ⟨items input, items (input ++ extension),
      ⟨yields input inside, fun other run => run.holds.1⟩, length_items_le input,
      yields _ le_rfl, items_isPrefix_append input extension, ?_, ?_⟩
    · rintro stream fits rfl
      refine ⟨items extension, yields extension (longestRun_le_behind fits extension), ?_⟩
      rw [items_encodeAll_append fits, items_encodeAll fits]
    · rintro stream chunk rest fits fitsChunk rfl
      have before := longestRun_le_append (encodeAll 4 stream) (encode 4 chunk ++ rest)
      have alone : ∀ other ∈ [chunk], Fits 4 other := by
        intro other member
        rw [List.mem_singleton.mp member]
        exact fitsChunk
      have one := longestRun_le_behind alone rest
      have after := longestRun_le_behind fits (encode 4 chunk ++ rest)
      rw [encodeAll, List.flatMap_singleton] at one
      obtain ⟨known, unknown⟩ := items_around fits fitsChunk rest
      exact ⟨items (encodeAll 4 stream), items rest, yields _ (before.trans inside),
        yields _ ((one.trans after).trans inside), known, unknown⟩

/-- 250000 zero bytes, for a stack with room for 50000 calls: the iterator never reaches its `None`. -/
theorem zeros_abort : ¬ Isolates 50000 (List.replicate 250000 0) [] := by
  rintro ⟨list, _, ⟨yields, _⟩, _⟩
  have zeros : List.replicate 250000 (0 : UInt8) = List.replicate (5 * 50000) 0 := rfl
  rw [zeros] at yields
  exact not_yields_zeros (le_refl 50000) list yields

end FrameReader

end Foldback
