/-
**Streams of tagged, length-prefixed chunks.**

A chunk is one tag byte, a `width`-byte little-endian length, and that many payload bytes. `chunks`
splits a byte string into the complete chunks at its front and ignores an incomplete tail.

* `chunks_encode_append`: a written chunk is the next chunk read, and what follows is untouched.
* `next_append_of_next`: more bytes never change a chunk that is already complete, so
  `chunks_isPrefix_append`: they only add chunks.
* `chunks_take_encodeAll`: **cutting a stream anywhere keeps exactly the chunks that end at or
  before the cut** (`endingBy`).
-/

import Foldback.Lib.Radix

namespace ChunkStream

open Radix

/-- One tag byte and its payload. -/
structure Chunk where
  tag : UInt8
  payload : List UInt8
  deriving DecidableEq, Repr

section Stream

variable (width : ℕ)

/-- The bytes of a chunk. -/
def encode (chunk : Chunk) : List UInt8 :=
  chunk.tag :: (leBytes width chunk.payload.length ++ chunk.payload)

/-- The bytes of a list of chunks. -/
def encodeAll (stream : List Chunk) : List UInt8 := stream.flatMap (encode width)

/-- The length prefix can hold the payload's length. -/
def Fits (chunk : Chunk) : Prop := chunk.payload.length < 256 ^ width

/-- The chunk at the front of `bytes`, if it is complete, and the bytes after it. -/
def next : List UInt8 → Option (Chunk × List UInt8)
  | [] => none
  | tag :: rest =>
    if rest.length < width then none
    else if (rest.drop width).length < leNat (rest.take width) then none
    else some (⟨tag, (rest.drop width).take (leNat (rest.take width))⟩,
      (rest.drop width).drop (leNat (rest.take width)))

@[simp]
theorem length_encode (chunk : Chunk) :
    (encode width chunk).length = 1 + width + chunk.payload.length := by
  simp only [encode, List.length_cons, List.length_append, length_leBytes]
  omega

theorem encodeAll_cons (chunk : Chunk) (stream : List Chunk) :
    encodeAll width (chunk :: stream) = encode width chunk ++ encodeAll width stream :=
  List.flatMap_cons

variable {width}

/-- A complete chunk's bytes are the front of the input, and its length prefix is exact. -/
theorem next_eq_some {bytes rest : List UInt8} {chunk : Chunk}
    (found : next width bytes = some (chunk, rest)) :
    ∃ prefixBytes : List UInt8, prefixBytes.length = width ∧
      leNat prefixBytes = chunk.payload.length ∧
      bytes = chunk.tag :: (prefixBytes ++ (chunk.payload ++ rest)) := by
  cases bytes with
  | nil => cases found
  | cons tag body =>
    simp only [next] at found
    split at found
    · cases found
    · split at found
      · cases found
      · rename_i long enough
        simp only [Option.some.injEq, Prod.mk.injEq] at found
        obtain ⟨rfl, rfl⟩ := found
        refine ⟨body.take width, ?_, ?_, ?_⟩
        · rw [List.length_take]
          omega
        · simp only [List.length_take]
          omega
        · rw [List.take_append_drop, List.take_append_drop]

/-- **The next chunk of a front with an exact prefix.** -/
theorem next_of_exact {tag : UInt8} {prefixBytes payload rest : List UInt8}
    (length : prefixBytes.length = width) (exact : leNat prefixBytes = payload.length) :
    next width (tag :: (prefixBytes ++ (payload ++ rest))) = some (⟨tag, payload⟩, rest) := by
  have front : (prefixBytes ++ (payload ++ rest)).take width = prefixBytes := by
    rw [← length, List.take_left]
  have back : (prefixBytes ++ (payload ++ rest)).drop width = payload ++ rest := by
    rw [← length, List.drop_left]
  rw [next, front, back, exact, if_neg, if_neg, List.take_left, List.drop_left]
  · simp
  · simp [length]

theorem next_encode_append {chunk : Chunk} (fits : Fits width chunk) (rest : List UInt8) :
    next width (encode width chunk ++ rest) = some (chunk, rest) := by
  have split : encode width chunk ++ rest =
      chunk.tag :: (leBytes width chunk.payload.length ++ (chunk.payload ++ rest)) := by
    simp [encode]
  rw [split]
  exact next_of_exact (length_leBytes _ _) (leNat_leBytes_of_lt fits)

/-- A chunk whose length does not fit is read back cut to what its prefix says. -/
theorem next_encode_append_mod (chunk : Chunk) (rest : List UInt8) :
    next width (encode width chunk ++ rest) =
      some (⟨chunk.tag, chunk.payload.take (chunk.payload.length % 256 ^ width)⟩,
        chunk.payload.drop (chunk.payload.length % 256 ^ width) ++ rest) := by
  have split : encode width chunk ++ rest = chunk.tag :: (leBytes width chunk.payload.length ++
      (chunk.payload.take (chunk.payload.length % 256 ^ width) ++
        (chunk.payload.drop (chunk.payload.length % 256 ^ width) ++ rest))) := by
    rw [← List.append_assoc (chunk.payload.take _), List.take_append_drop]
    simp [encode]
  have kept : leNat (leBytes width chunk.payload.length) =
      (chunk.payload.take (chunk.payload.length % 256 ^ width)).length := by
    rw [leNat_leBytes, List.length_take, min_eq_left (Nat.mod_le _ _)]
  rw [split]
  exact next_of_exact (length_leBytes _ _) kept

/-- **More bytes never change a complete chunk.** -/
theorem next_append_of_next {bytes rest : List UInt8} {chunk : Chunk}
    (found : next width bytes = some (chunk, rest)) (extension : List UInt8) :
    next width (bytes ++ extension) = some (chunk, rest ++ extension) := by
  obtain ⟨prefixBytes, length, exact, rfl⟩ := next_eq_some found
  have regroup : chunk.tag :: (prefixBytes ++ (chunk.payload ++ rest)) ++ extension =
      chunk.tag :: (prefixBytes ++ (chunk.payload ++ (rest ++ extension))) := by simp
  rw [regroup]
  exact next_of_exact length exact

theorem next_length {bytes rest : List UInt8} {chunk : Chunk}
    (found : next width bytes = some (chunk, rest)) :
    rest.length + chunk.payload.length + width + 1 = bytes.length := by
  obtain ⟨prefixBytes, length, _, rfl⟩ := next_eq_some found
  simp only [List.length_cons, List.length_append]
  omega

/-- A proper front of a chunk is not a chunk. -/
theorem next_take_encode {chunk : Chunk} (fits : Fits width chunk) (rest : List UInt8) {cut : ℕ}
    (short : cut < (encode width chunk).length) :
    next width ((encode width chunk ++ rest).take cut) = none := by
  rcases attempt : next width ((encode width chunk ++ rest).take cut) with _ | ⟨found, after⟩
  · rfl
  -- A chunk read from the cut front would be read from the whole stream too, so it is `chunk`.
  · have whole := next_append_of_next attempt ((encode width chunk ++ rest).drop cut)
    rw [List.take_append_drop, next_encode_append fits] at whole
    simp only [Option.some.injEq, Prod.mk.injEq] at whole
    have size := next_length attempt
    rw [← whole.1, List.length_take] at size
    rw [length_encode] at short
    omega

variable (width)

/-- The complete chunks at the front of `bytes`, in order. -/
def chunks (bytes : List UInt8) : List Chunk :=
  match _found : next width bytes with
  | none => []
  | some (chunk, rest) => chunk :: chunks rest
termination_by bytes.length
decreasing_by
  have := next_length _found
  omega

variable {width}

theorem chunks_of_none {bytes : List UInt8} (stop : next width bytes = none) :
    chunks width bytes = [] := by
  rw [chunks]
  split
  · rfl
  · rename_i found
    rw [stop] at found
    cases found

theorem chunks_of_some {bytes rest : List UInt8} {chunk : Chunk}
    (found : next width bytes = some (chunk, rest)) :
    chunks width bytes = chunk :: chunks width rest := by
  rw [chunks]
  split
  · rename_i stop
    rw [stop] at found
    cases found
  · rename_i found'
    rw [found'] at found
    simp only [Option.some.injEq, Prod.mk.injEq] at found
    rw [found.1, found.2]

@[simp]
theorem chunks_nil : chunks width [] = [] := chunks_of_none rfl

theorem chunks_encode_append {chunk : Chunk} (fits : Fits width chunk) (rest : List UInt8) :
    chunks width (encode width chunk ++ rest) = chunk :: chunks width rest :=
  chunks_of_some (next_encode_append fits rest)

/-- **A written stream is read back**, followed by whatever comes after it. -/
theorem chunks_encodeAll_append {stream : List Chunk} (fits : ∀ chunk ∈ stream, Fits width chunk)
    (rest : List UInt8) :
    chunks width (encodeAll width stream ++ rest) = stream ++ chunks width rest := by
  induction stream with
  | nil => rfl
  | cons chunk stream ih =>
    rw [encodeAll_cons, List.append_assoc, chunks_encode_append (fits chunk List.mem_cons_self),
      ih fun other member => fits other (List.mem_cons_of_mem _ member), List.cons_append]

/-- **More bytes only add chunks.** -/
theorem chunks_isPrefix_append (bytes extension : List UInt8) :
    chunks width bytes <+: chunks width (bytes ++ extension) := by
  induction length : bytes.length using Nat.strong_induction_on generalizing bytes with
  | _ size ih =>
    subst length
    rcases found : next width bytes with _ | ⟨chunk, rest⟩
    · rw [chunks_of_none found]
      exact List.nil_prefix
    · have shorter := next_length found
      rw [chunks_of_some found, chunks_of_some (next_append_of_next found extension)]
      exact (List.prefix_cons_inj chunk).mpr (ih rest.length (by omega) rest rfl)

/-- Every chunk takes its tag and its length prefix out of the input. -/
theorem length_chunks_mul_le (bytes : List UInt8) :
    (chunks width bytes).length * (width + 1) ≤ bytes.length := by
  induction length : bytes.length using Nat.strong_induction_on generalizing bytes with
  | _ size ih =>
    subst length
    rcases found : next width bytes with _ | ⟨chunk, rest⟩
    · rw [chunks_of_none found, List.length_nil, Nat.zero_mul]
      exact Nat.zero_le _
    · have shorter := next_length found
      have bound := ih rest.length (by omega) rest rfl
      rw [chunks_of_some found, List.length_cons, Nat.add_mul, Nat.one_mul]
      omega

/-! ### Cutting a stream -/

variable (width)

/-- The chunks of a stream that end at or before position `cut`. -/
def endingBy : ℕ → List Chunk → List Chunk
  | _, [] => []
  | cut, chunk :: stream =>
    if (encode width chunk).length ≤ cut then
      chunk :: endingBy (cut - (encode width chunk).length) stream
    else []

variable {width}

/-- **Truncation**: a stream cut at any position reads as the chunks that end by the cut. -/
theorem chunks_take_encodeAll {stream : List Chunk} (fits : ∀ chunk ∈ stream, Fits width chunk)
    (cut : ℕ) :
    chunks width ((encodeAll width stream).take cut) = endingBy width cut stream := by
  induction stream generalizing cut with
  | nil => rw [encodeAll, List.flatMap_nil, List.take_nil, chunks_nil, endingBy]
  | cons chunk stream ih =>
    have here := fits chunk List.mem_cons_self
    rw [encodeAll_cons, endingBy]
    split
    · rename_i whole
      rw [List.take_append, List.take_of_length_le whole, chunks_encode_append here,
        ih fun other member => fits other (List.mem_cons_of_mem _ member)]
    · rename_i short
      exact chunks_of_none (next_take_encode here _ (by omega))

end Stream

end ChunkStream
