/-
**The I/O surface of the crate: errors, byte sinks, byte sources and the fixed-width fields.**

* `Error` is `foldback_core::Error`, with the variants the modelled functions return.
* `Attempt σ α` is `fn(&mut σ) -> Result<α, Error>`: the state is kept on an error, so what a
  failing call has already done stays done.
* `Write` is the sink of `write_to<W: Write>`. `Bytes` is `Vec<u8>` (writing never fails), `Sink` is
  the `BufWriter<File>` of a recording session: a byte log and the outcomes of the coming
  `write_all` calls. A failing `write_all` appends nothing.
* `readExact` is `Read::read_exact` on bytes in memory: its only failure is the end of the input.
-/

import Foldback.Lib.Radix

namespace Foldback

open Radix

abbrev Bytes := List UInt8

/-- The `std::io::Error` kinds the code tells apart. -/
inductive IoError
  | unexpectedEof
  | other
  deriving DecidableEq, Repr

inductive Error
  | truncatedHeader
  | badMagic
  | malformedFrame
  | unknownFrameType (frameType : UInt8)
  | reflectionDepthExceeded (path : String) (maxDepth : ℕ)
  | reflectionRootNotStruct
  | io (error : IoError)
  deriving DecidableEq, Repr

/-- Two lower-case hexadecimal digits. -/
def hexByte (byte : UInt8) : String :=
  String.ofList [Nat.digitChar (byte.toNat / 16), Nat.digitChar (byte.toNat % 16)]

/-- The text of an error; `ioText` is that of an I/O error. -/
def Error.display (ioText : IoError → String) : Error → String
  | .truncatedHeader => "session file header is truncated"
  | .badMagic => "session file magic bytes do not match FBK1"
  | .malformedFrame => "frame payload is malformed or shorter than its declared fields"
  | .unknownFrameType frameType => "unrecognized frame type 0x" ++ hexByte frameType
  | .reflectionDepthExceeded path maxDepth =>
    "reflective hash walk exceeded max depth " ++ toString maxDepth ++ " at '" ++ path ++
      "' — likely a cyclic or self-referential reflected object graph"
  | .reflectionRootNotStruct =>
    "reflective hashing requires a struct root (so its #[derive(FoldbackHash)] tracked-field " ++
      "list has something to filter) — got a different reflected shape"
  | .io error => ioText error

/-- A call that changes a state and may fail part of the way. -/
abbrev Attempt (σ α : Type) := EStateM Error σ α

/-- Two calls in sequence succeed when the first does and the second does from there. -/
theorem bind_eq_ok {ε σ α β : Type} {first : EStateM ε σ α} {next : α → EStateM ε σ β}
    {state after : σ} {result : β} :
    (first >>= next) state = .ok result after ↔
      ∃ value middle, first state = .ok value middle ∧ next value middle = .ok result after := by
  show EStateM.bind first next state = _ ↔ _
  unfold EStateM.bind
  rcases first state with ⟨value, middle⟩ | ⟨error, middle⟩
  · constructor
    · exact fun run => ⟨value, middle, rfl, run⟩
    · rintro ⟨_, _, step, run⟩
      cases step
      exact run
  · exact ⟨nofun, fun ⟨_, _, step, _⟩ => nomatch step⟩

/-- They fail when the first does, or when the second does from where the first ended. -/
theorem bind_eq_error {ε σ α β : Type} {first : EStateM ε σ α} {next : α → EStateM ε σ β}
    {state after : σ} {error : ε} :
    (first >>= next) state = .error error after ↔ first state = .error error after ∨
      ∃ value middle, first state = .ok value middle ∧ next value middle = .error error after := by
  show EStateM.bind first next state = _ ↔ _
  unfold EStateM.bind
  rcases first state with ⟨value, middle⟩ | ⟨failed, middle⟩
  · constructor
    · exact fun run => Or.inr ⟨value, middle, rfl, run⟩
    · rintro (step | ⟨_, _, step, run⟩)
      · cases step
      · cases step
        exact run
  · constructor
    · intro run
      cases run
      exact Or.inl rfl
    · rintro (step | ⟨_, _, step, _⟩)
      · cases step
        rfl
      · cases step

/-! ### Sinks -/

/-- A sink for `write_all`. -/
class Write (W : Type) where
  writeAll : Bytes → Attempt W Unit
  flush : Attempt W Unit

/-- The `Vec<u8>` sink: every write appends. -/
instance : Write Bytes where
  writeAll bytes log := .ok () (log ++ bytes)
  flush log := .ok () log

/-- The `BufWriter<File>` sink: the bytes written so far, and for each coming `write_all` whether it
fails. After the last listed outcome every write succeeds. -/
structure Sink where
  log : Bytes
  faults : List Bool
  deriving DecidableEq, Repr

namespace Sink

def writeAll (bytes : Bytes) (sink : Sink) : EStateM.Result Error Sink Unit :=
  match sink.faults with
  | true :: faults => .error (.io .other) { sink with faults := faults }
  | _ :: faults => .ok () { log := sink.log ++ bytes, faults := faults }
  | [] => .ok () { sink with log := sink.log ++ bytes }

/-- `flush` has an outcome of its own, taken from the same list. -/
def flush (sink : Sink) : EStateM.Result Error Sink Unit :=
  match sink.faults with
  | true :: faults => .error (.io .other) { sink with faults := faults }
  | _ :: faults => .ok () { sink with faults := faults }
  | [] => .ok () sink

end Sink

instance : Write Sink where
  writeAll := Sink.writeAll
  flush := Sink.flush

/-! ### Sources -/

/-- The first `count` bytes and the rest; at the end of the input, `UnexpectedEof` with nothing
left to read. -/
def readExact (count : ℕ) (input : Bytes) : EStateM.Result IoError Bytes Bytes :=
  if count ≤ input.length then .ok (input.take count) (input.drop count)
  else .error .unexpectedEof []

theorem readExact_append {count : ℕ} {front : Bytes} (length : front.length = count)
    (rest : Bytes) : readExact count (front ++ rest) = .ok front rest := by
  rw [readExact, if_pos (by simp [length]), ← length, List.take_left, List.drop_left]

theorem readExact_short {count : ℕ} {input : Bytes} (short : input.length < count) :
    readExact count input = .error .unexpectedEof [] := by
  rw [readExact, if_neg (by omega)]

/-! ### Fixed-width fields -/

/-- `u16::to_le_bytes`. -/
def u16Bytes (value : UInt16) : Bytes := leBytes 2 value.toNat

/-- `u32::to_le_bytes`. -/
def u32Bytes (value : UInt32) : Bytes := leBytes 4 value.toNat

/-- `u64::to_le_bytes`. -/
def u64Bytes (value : UInt64) : Bytes := leBytes 8 value.toNat

/-- `u16::from_le_bytes`. -/
def u16OfBytes (bytes : Bytes) : UInt16 := UInt16.ofNat (leNat bytes)

/-- `u32::from_le_bytes`. -/
def u32OfBytes (bytes : Bytes) : UInt32 := UInt32.ofNat (leNat bytes)

/-- `u64::from_le_bytes`. -/
def u64OfBytes (bytes : Bytes) : UInt64 := UInt64.ofNat (leNat bytes)

@[simp]
theorem length_u16Bytes (value : UInt16) : (u16Bytes value).length = 2 := length_leBytes _ _

@[simp]
theorem length_u32Bytes (value : UInt32) : (u32Bytes value).length = 4 := length_leBytes _ _

@[simp]
theorem length_u64Bytes (value : UInt64) : (u64Bytes value).length = 8 := length_leBytes _ _

@[simp]
theorem u16OfBytes_u16Bytes (value : UInt16) : u16OfBytes (u16Bytes value) = value := by
  rw [u16OfBytes, u16Bytes, leNat_leBytes_of_lt value.toNat_lt, UInt16.ofNat_toNat]

@[simp]
theorem u32OfBytes_u32Bytes (value : UInt32) : u32OfBytes (u32Bytes value) = value := by
  rw [u32OfBytes, u32Bytes, leNat_leBytes_of_lt value.toNat_lt, UInt32.ofNat_toNat]

@[simp]
theorem u64OfBytes_u64Bytes (value : UInt64) : u64OfBytes (u64Bytes value) = value := by
  rw [u64OfBytes, u64Bytes, leNat_leBytes_of_lt value.toNat_lt, UInt64.ofNat_toNat]

/-! ### Strings -/

/-- `str::as_bytes`. -/
def asBytes (text : String) : Bytes := text.toUTF8.data.toList

/-- `String::from_utf8`. -/
def fromUtf8 (bytes : Bytes) : Option String := String.fromUTF8? ⟨bytes.toArray⟩

@[simp]
theorem fromUtf8_asBytes (text : String) : fromUtf8 (asBytes text) = some text := by
  have valid : text.toByteArray.IsValidUTF8 := text.isValidUTF8
  simp [fromUtf8, asBytes, String.fromUTF8?, String.fromUTF8, valid]

theorem asBytes_injective {text text' : String} (same : asBytes text = asBytes text') :
    text = text' := by
  have decoded := congrArg fromUtf8 same
  rw [fromUtf8_asBytes, fromUtf8_asBytes] at decoded
  exact Option.some.inj decoded

/-- The byte `0xFF` is no text. -/
theorem asBytes_ne_marker (text : String) : asBytes text ≠ [0xFF] := by
  intro same
  have malformed : fromUtf8 [0xFF] = none := by decide
  rw [← same, fromUtf8_asBytes] at malformed
  cases malformed

end Foldback
