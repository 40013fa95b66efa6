/-
**Decoding on a machine of `width`-bit words.**

`Cursor::take` adds a length prefix to its position before it compares. In the release profile that
sum is taken modulo `2 ^ width`, and a slice whose end lies before its start panics.

* `decodeFieldsOf` is `decode_payload`'s body over any `take`; over `Cursor.take` it is
  `Frame.decodeFields`, over `WordCursor.take width` it is what the machine runs.
* `Simulates`: up to a sum that wraps, the machine does what the exact decoder does; a wrapped sum
  panics.
* `decodesSafely_iff`: **decoding is safe exactly when no length prefix that is reached wraps** past
  its position, as it never does with 64-bit words.
-/

import Foldback.Core.Decode

namespace Foldback

open Radix

/-! ### The decoder over any `take` -/

section Generic

variable {m : Type → Type} [Monad m] (take : ℕ → m Bytes) (fail : {α : Type} → Error → m α)

def takeU16Of : m UInt16 := do
  let bytes ← take 2
  return u16OfBytes bytes

def takeU32Of : m UInt32 := do
  let bytes ← take 4
  return u32OfBytes bytes

def takeU64Of : m UInt64 := do
  let bytes ← take 8
  return u64OfBytes bytes

def takeBytesOf : m Bytes := do
  let len ← takeU32Of take
  take len.toNat

def checkUtf8Of (bytes : Bytes) : m String :=
  match fromUtf8 bytes with
  | some text => return text
  | none => fail .malformedFrame

def takeStringOf : m String := do
  let bytes ← takeBytesOf take
  checkUtf8Of fail bytes

/-- The body of `decode_payload`, on any cursor. -/
def decodeFieldsOf (frameType : UInt8) : m Frame :=
  if frameType = typeTickHash then do
    let tick ← takeU64Of take
    let peerId ← takeU16Of take
    let hash ← takeU64Of take
    return .tickHash tick peerId hash
  else if frameType = typeEntityHash then do
    let tick ← takeU64Of take
    let peerId ← takeU16Of take
    let entityId ← takeU64Of take
    let hash ← takeU64Of take
    return .entityHash tick peerId entityId hash
  else if frameType = typeFieldHash then do
    let tick ← takeU64Of take
    let peerId ← takeU16Of take
    let entityId ← takeU64Of take
    let fieldName ← takeStringOf take fail
    let hash ← takeU64Of take
    let value ← takeBytesOf take
    return .fieldHash tick peerId entityId fieldName hash value
  else if frameType = typeSnapshot then do
    let tick ← takeU64Of take
    let peerId ← takeU16Of take
    let compressed ← takeBytesOf take
    return .snapshot tick peerId compressed
  else if frameType = typeMetadata then do
    let key ← takeStringOf take fail
    let value ← takeStringOf take fail
    return .metadata key value
  else if frameType = typeEndOfStream then
    return .endOfStream
  else
    fail (.unknownFrameType frameType)

end Generic

/-- Over the cursor on natural numbers it is the decoder. -/
theorem decodeFieldsOf_take : decodeFieldsOf Cursor.take (fun error => throw error) =
    Frame.decodeFields := rfl

/-! ### The machine -/

/-- What ends a decode without a frame. -/
inductive Stop
  | error (error : Error)
  | panic
  deriving DecidableEq, Repr

/-- The cursor, and the `take` calls made so far: the position each starts at and the count it
takes. -/
structure WordCursor where
  buf : Bytes
  pos : ℕ
  calls : List (ℕ × ℕ)
  deriving DecidableEq, Repr

abbrev Decoding (α : Type) := EStateM Stop WordCursor α

namespace WordCursor

/-- `Cursor::take` with `usize` of `width` bits: `buf[pos..stop]` panics when `stop < pos`. -/
def take (width count : ℕ) : Decoding Bytes := fun cursor =>
  let stop := (cursor.pos + count) % 2 ^ width
  let called := { cursor with calls := cursor.calls ++ [(cursor.pos, count)] }
  if stop > cursor.buf.length then .error (.error .malformedFrame) called
  else if stop < cursor.pos then .error .panic called
  else .ok (cursor.buf.extract cursor.pos stop) { called with pos := stop }

def fail {α : Type} (error : Error) : Decoding α := throw (.error error)

def decodePayload (width : ℕ) (frameType : UInt8) (payload : Bytes) :
    EStateM.Result Stop WordCursor Frame :=
  decodeFieldsOf (take width) fail frameType { buf := payload, pos := 0, calls := [] }

end WordCursor

/-! ### What the exact parsers do -/

namespace Cursor

variable {buf : Bytes} {pos : ℕ} {after : Cursor}

/-- Of fixed width: it succeeds when `count` bytes are left, and then takes them. -/
def Advances {α : Type} (parser : Attempt Cursor α) (buf : Bytes) (count : ℕ) : Prop :=
  ∀ pos,
    (∀ value after, parser { buf, pos } = .ok value after →
      pos + count ≤ buf.length ∧ after = { buf, pos := pos + count }) ∧
    (pos + count ≤ buf.length → ∃ value, parser { buf, pos } = .ok value { buf, pos := pos + count })

theorem take_eq_ok {count : ℕ} {value : Bytes} :
    take count { buf, pos } = .ok value after ↔ pos + count ≤ buf.length ∧
      value = buf.extract pos (pos + count) ∧ after = { buf, pos := pos + count } := by
  unfold take
  by_cases room : pos + count > buf.length
  · rw [if_pos room]
    exact ⟨nofun, fun ⟨enough, _⟩ => absurd enough (by omega)⟩
  · rw [if_neg room]
    constructor
    · intro run
      cases run
      exact ⟨by omega, rfl, rfl⟩
    · rintro ⟨_, rfl, rfl⟩
      rfl

theorem advances_take (buf : Bytes) (count : ℕ) : Advances (take count) buf count := by
  refine fun pos => ⟨fun value after run => ?_,
    fun enough => ⟨_, take_eq_ok.mpr ⟨enough, rfl, rfl⟩⟩⟩
  obtain ⟨enough, _, there⟩ := take_eq_ok.mp run
  exact ⟨enough, there⟩

theorem Advances.map {α β : Type} {parser : Attempt Cursor α} {count : ℕ}
    (advances : Advances parser buf count) (f : α → β) :
    Advances (parser >>= fun value => pure (f value)) buf count := by
  refine fun pos => ⟨fun value' after run => ?_, fun enough => ?_⟩
  · obtain ⟨value, middle, step, done⟩ := bind_eq_ok.mp run
    cases done
    exact (advances pos).1 value _ step
  · obtain ⟨value, step⟩ := (advances pos).2 enough
    exact ⟨f value, bind_eq_ok.mpr ⟨value, _, step, rfl⟩⟩

theorem advances_u16 (buf : Bytes) : Advances takeU16 buf 2 := (advances_take buf 2).map _
theorem advances_u32 (buf : Bytes) : Advances takeU32 buf 4 := (advances_take buf 4).map _
theorem advances_u64 (buf : Bytes) : Advances takeU64 buf 8 := (advances_take buf 8).map _

end Cursor

/-! ### Running on both -/

section Simulation

variable (width : ℕ) (buf : Bytes)

/-- None of the calls' sums wraps. -/
def Exact (calls : List (ℕ × ℕ)) : Prop := ∀ call ∈ calls, call.1 + call.2 < 2 ^ width

variable {width} in
theorem Exact.append {calls calls' : List (ℕ × ℕ)} (exact : Exact width calls)
    (exact' : Exact width calls') : Exact width (calls ++ calls') := by
  intro call member
  rcases List.mem_append.mp member with inside | inside
  · exact exact call inside
  · exact exact' call inside

/-- From a position where `Fit` holds the machine's parser does what the exact one does, and calls
`take` with sums that do not wrap; from any other position it panics. -/
structure Simulates {α : Type} (onMachine : Decoding α) (exact : Attempt Cursor α)
    (Fit : ℕ → Prop) : Prop where
  ok : ∀ {pos : ℕ} {value : α} {after : Cursor} (calls : List (ℕ × ℕ)), pos ≤ buf.length → Fit pos →
    exact { buf, pos } = .ok value after → after.buf = buf ∧ after.pos ≤ buf.length ∧
      ∃ more, Exact width more ∧
        onMachine { buf, pos, calls } = .ok value { buf, pos := after.pos, calls := calls ++ more }
  error : ∀ {pos : ℕ} {error : Error} {after : Cursor} (calls : List (ℕ × ℕ)), pos ≤ buf.length →
    Fit pos → exact { buf, pos } = .error error after →
      ∃ more stopped, Exact width more ∧
        onMachine { buf, pos, calls } =
          .error (.error error) { buf, pos := stopped, calls := calls ++ more }
  wraps : ∀ {pos : ℕ} (calls : List (ℕ × ℕ)), pos ≤ buf.length → ¬ Fit pos →
    ∃ after, onMachine { buf, pos, calls } = .error .panic after

variable {width buf}

theorem Simulates.congr {α : Type} {onMachine : Decoding α} {exact : Attempt Cursor α}
    {Fit Fit' : ℕ → Prop} (simulates : Simulates width buf onMachine exact Fit)
    (same : ∀ pos ≤ buf.length, (Fit pos ↔ Fit' pos)) :
    Simulates width buf onMachine exact Fit' where
  ok calls inside fit run := simulates.ok calls inside ((same _ inside).mpr fit) run
  error calls inside fit run := simulates.error calls inside ((same _ inside).mpr fit) run
  wraps calls inside unfit :=
    simulates.wraps calls inside fun fit => unfit ((same _ inside).mp fit)

theorem Simulates.pure {α : Type} (value : α) :
    Simulates width buf (Pure.pure value) (Pure.pure value) fun _ => True where
  ok := by
    intro pos value' after calls inside _ run
    cases run
    exact ⟨rfl, inside, [], nofun, by rw [List.append_nil]; rfl⟩
  error := by
    intro _ _ _ _ _ _ run
    cases run
  wraps _ _ unfit := absurd trivial unfit

theorem Simulates.fail {α : Type} (error : Error) :
    Simulates width buf (WordCursor.fail error : Decoding α) (throw error) fun _ => True where
  ok := by
    intro _ _ _ _ _ _ run
    cases run
  error := by
    intro pos error' after calls _ _ run
    cases run
    exact ⟨[], pos, nofun, by rw [List.append_nil]; rfl⟩
  wraps _ _ unfit := absurd trivial unfit

/-- **Parsers in sequence**: the second one's condition is met wherever the first one stops. -/
theorem Simulates.bind {α β : Type} {onMachine : Decoding α} {exact : Attempt Cursor α}
    {Fit : ℕ → Prop} {next : α → Decoding β} {nextExact : α → Attempt Cursor β}
    {Fit' : α → ℕ → Prop} (first : Simulates width buf onMachine exact Fit)
    (second : ∀ value, Simulates width buf (next value) (nextExact value) (Fit' value)) :
    Simulates width buf (onMachine >>= next) (exact >>= nextExact) fun pos =>
      Fit pos ∧ ∀ value after, exact { buf, pos } = .ok value after → Fit' value after.pos where
  ok := by
    rintro pos value' after calls inside ⟨fit, later⟩ run
    obtain ⟨value, ⟨middleBuf, middlePos⟩, step, run'⟩ := bind_eq_ok.mp run
    obtain ⟨same, within, more, exactMore, machine⟩ := first.ok calls inside fit step
    subst same
    obtain ⟨same', within', more', exactMore', machine'⟩ :=
      (second value).ok (calls ++ more) within (later _ _ step) run'
    refine ⟨same', within', more ++ more', exactMore.append exactMore', ?_⟩
    rw [← List.append_assoc]
    exact bind_eq_ok.mpr ⟨value, _, machine, machine'⟩
  error := by
    rintro pos failure after calls inside ⟨fit, later⟩ run
    rcases bind_eq_error.mp run with step | ⟨value, ⟨middleBuf, middlePos⟩, step, run'⟩
    · obtain ⟨more, stopped, exactMore, machine⟩ := first.error calls inside fit step
      exact ⟨more, stopped, exactMore, bind_eq_error.mpr (Or.inl machine)⟩
    · obtain ⟨same, within, more, exactMore, machine⟩ := first.ok calls inside fit step
      subst same
      obtain ⟨more', stopped, exactMore', machine'⟩ :=
        (second value).error (calls ++ more) within (later _ _ step) run'
      refine ⟨more ++ more', stopped, exactMore.append exactMore', ?_⟩
      rw [← List.append_assoc]
      exact bind_eq_error.mpr (Or.inr ⟨value, _, machine, machine'⟩)
  wraps := by
    intro pos calls inside unfit
    by_cases fit : Fit pos
    · -- The first parser ends where the second one's condition fails.
      have broken : ∃ value after, exact { buf, pos } = .ok value after ∧
          ¬ Fit' value after.pos := by
        by_contra none
        refine unfit ⟨fit, fun value after step => ?_⟩
        by_contra bad
        exact none ⟨value, after, step, bad⟩
      obtain ⟨value, middle, step, bad⟩ := broken
      obtain ⟨_, within, more, _, machine⟩ := first.ok calls inside fit step
      obtain ⟨after, panics⟩ := (second value).wraps (calls ++ more) within bad
      exact ⟨after, bind_eq_error.mpr (Or.inr ⟨value, _, machine, panics⟩)⟩
    · obtain ⟨after, panics⟩ := first.wraps calls inside fit
      exact ⟨after, bind_eq_error.mpr (Or.inl panics)⟩

/-- **One `take`**: the sum wraps or the machine compares and slices exactly. -/
theorem simulates_take (inMemory : buf.length < 2 ^ width) {count : ℕ} (small : count < 2 ^ width) :
    Simulates width buf (WordCursor.take width count) (Cursor.take count)
      fun pos => pos + count < 2 ^ width where
  ok := by
    intro pos value after calls inside fit run
    obtain ⟨enough, rfl, rfl⟩ := Cursor.take_eq_ok.mp run
    refine ⟨rfl, enough, [(pos, count)], fun call member => ?_, ?_⟩
    · rw [List.mem_singleton.mp member]
      exact fit
    · simp only [WordCursor.take, Nat.mod_eq_of_lt fit]
      rw [if_neg (by omega), if_neg (by omega)]
  error := by
    intro pos error after calls inside fit run
    unfold Cursor.take at run
    split at run
    · rename_i long
      cases run
      refine ⟨[(pos, count)], pos, fun call member => ?_, ?_⟩
      · rw [List.mem_singleton.mp member]
        exact fit
      · simp only [WordCursor.take, Nat.mod_eq_of_lt fit]
        rw [if_pos long]
    · cases run
  wraps := by
    intro pos calls inside unfit
    have wrapped : (pos + count) % 2 ^ width = pos + count - 2 ^ width := by
      rw [Nat.mod_eq_sub_mod (by omega), Nat.mod_eq_of_lt (by omega)]
    refine ⟨{ buf, pos, calls := calls ++ [(pos, count)] }, ?_⟩
    simp only [WordCursor.take, wrapped]
    rw [if_neg (by omega), if_pos (by omega)]

theorem Simulates.map {α β : Type} {onMachine : Decoding α} {exact : Attempt Cursor α}
    {Fit : ℕ → Prop} (simulates : Simulates width buf onMachine exact Fit) (f : α → β) :
    Simulates width buf (onMachine >>= fun value => Pure.pure (f value))
      (exact >>= fun value => Pure.pure (f value)) Fit :=
  (simulates.bind fun value => Simulates.pure (f value)).congr fun _ _ =>
    ⟨fun both => both.1, fun fit => ⟨fit, fun _ _ _ => trivial⟩⟩

/-- After a fixed-width field that always fits, the condition is the rest's, `count` bytes on. -/
theorem Simulates.skip {α β : Type} {onMachine : Decoding α} {exact : Attempt Cursor α}
    {next : α → Decoding β} {nextExact : α → Attempt Cursor β} {Fit' : ℕ → Prop} {count : ℕ}
    (first : Simulates width buf onMachine exact fun _ => True)
    (advances : Cursor.Advances exact buf count)
    (second : ∀ value, Simulates width buf (next value) (nextExact value) Fit') :
    Simulates width buf (onMachine >>= next) (exact >>= nextExact) fun pos =>
      pos + count ≤ buf.length → Fit' (pos + count) := by
  refine (first.bind second).congr fun pos _ => ⟨fun ⟨_, later⟩ enough => ?_, fun rest => ?_⟩
  · obtain ⟨value, step⟩ := (advances pos).2 enough
    exact later value _ step
  · refine ⟨trivial, fun value after step => ?_⟩
    obtain ⟨enough, rfl⟩ := (advances pos).1 value after step
    exact rest enough

/-! ### The fields of a payload -/

/-- The length stored at a position. -/
def announced (buf : Bytes) (pos : ℕ) : ℕ := leNat (buf.extract pos (pos + 4))

/-- The length prefix at a position, if it is there, does not wrap past its end. -/
def PrefixFits (width : ℕ) (buf : Bytes) (pos : ℕ) : Prop :=
  pos + 4 ≤ buf.length → pos + 4 + announced buf pos < 2 ^ width

theorem takeU32_eq_ok {pos : ℕ} {value : UInt32} {after : Cursor} :
    Cursor.takeU32 { buf, pos } = .ok value after ↔ pos + 4 ≤ buf.length ∧
      value.toNat = announced buf pos ∧ after = { buf, pos := pos + 4 } := by
  have length : pos + 4 ≤ buf.length → (buf.extract pos (pos + 4)).length = 4 := by
    intro enough
    rw [List.extract_eq_take_drop, List.length_take, List.length_drop]
    omega
  constructor
  · intro run
    obtain ⟨bytes, middle, step, done⟩ := bind_eq_ok.mp run
    obtain ⟨enough, rfl, rfl⟩ := Cursor.take_eq_ok.mp step
    cases done
    exact ⟨enough, FrameReader.u32OfBytes_toNat (length enough), rfl⟩
  · rintro ⟨enough, same, rfl⟩
    have stored := FrameReader.u32OfBytes_toNat (length enough)
    refine bind_eq_ok.mpr ⟨_, _, Cursor.take_eq_ok.mpr ⟨enough, rfl, rfl⟩, ?_⟩
    rw [UInt32.toNat_inj.mp (same.trans stored.symm)]
    rfl

theorem announced_lt (buf : Bytes) (pos : ℕ) : announced buf pos < 2 ^ 32 := by
  have bound := leNat_lt (buf.extract pos (pos + 4))
  have length : (buf.extract pos (pos + 4)).length ≤ 4 := by
    rw [List.extract_eq_take_drop, List.length_take]
    omega
  exact lt_of_lt_of_le bound (Nat.pow_le_pow_right (by norm_num) length)

theorem takeBytes_eq_ok {pos : ℕ} {value : Bytes} {after : Cursor} :
    Cursor.takeBytes { buf, pos } = .ok value after ↔
      pos + 4 + announced buf pos ≤ buf.length ∧
        value = buf.extract (pos + 4) (pos + 4 + announced buf pos) ∧
        after = { buf, pos := pos + 4 + announced buf pos } := by
  constructor
  · intro run
    obtain ⟨len, middle, step, body⟩ := bind_eq_ok.mp run
    obtain ⟨_, stored, rfl⟩ := takeU32_eq_ok.mp step
    have taken := Cursor.take_eq_ok.mp body
    rwa [stored] at taken
  · intro taken
    have stored : (UInt32.ofNat (announced buf pos)).toNat = announced buf pos :=
      UInt32.toNat_ofNat_of_lt' (announced_lt buf pos)
    have prefixRead : Cursor.takeU32 { buf, pos } =
        .ok (UInt32.ofNat (announced buf pos)) { buf, pos := pos + 4 } :=
      takeU32_eq_ok.mpr ⟨by omega, stored, rfl⟩
    refine bind_eq_ok.mpr ⟨_, _, prefixRead, Cursor.take_eq_ok.mpr ?_⟩
    rw [stored]
    exact taken

theorem checkUtf8_eq_ok {bytes : Bytes} {cursor after : Cursor} {text : String} :
    Cursor.checkUtf8 bytes cursor = .ok text after ↔ fromUtf8 bytes = some text ∧ after = cursor := by
  unfold Cursor.checkUtf8
  rcases fromUtf8 bytes with _ | decoded
  · exact ⟨nofun, nofun⟩
  · constructor
    · intro run
      cases run
      exact ⟨rfl, rfl⟩
    · rintro ⟨same, rfl⟩
      cases same
      rfl

theorem takeString_eq_ok {pos : ℕ} {text : String} {after : Cursor} :
    Cursor.takeString { buf, pos } = .ok text after ↔
      pos + 4 + announced buf pos ≤ buf.length ∧
        fromUtf8 (buf.extract (pos + 4) (pos + 4 + announced buf pos)) = some text ∧
        after = { buf, pos := pos + 4 + announced buf pos } := by
  constructor
  · intro run
    obtain ⟨bytes, middle, step, done⟩ := bind_eq_ok.mp run
    obtain ⟨enough, rfl, rfl⟩ := takeBytes_eq_ok.mp step
    obtain ⟨valid, rfl⟩ := checkUtf8_eq_ok.mp done
    exact ⟨enough, valid, rfl⟩
  · rintro ⟨enough, valid, rfl⟩
    exact bind_eq_ok.mpr ⟨_, _, takeBytes_eq_ok.mpr ⟨enough, rfl, rfl⟩,
      checkUtf8_eq_ok.mpr ⟨valid, rfl⟩⟩

/-! ### The readers of the fields -/

section Readers

variable (wide : 2 ^ 32 ≤ 2 ^ width) (inMemory : buf.length + 8 < 2 ^ width)

include inMemory

/-- A field of eight bytes at most never wraps. -/
theorem simulates_fixed {α : Type} {count : ℕ} (short : count ≤ 8) (f : Bytes → α) :
    Simulates width buf (WordCursor.take width count >>= fun bytes => Pure.pure (f bytes))
      (Cursor.take count >>= fun bytes => Pure.pure (f bytes)) fun _ => True :=
  ((simulates_take (by omega) (by omega)).map f).congr fun pos _ => by
    constructor
    · exact fun _ => trivial
    · intro _
      omega

theorem simulates_u16 : Simulates width buf (takeU16Of (WordCursor.take width)) Cursor.takeU16
    fun _ => True := simulates_fixed inMemory (by norm_num) u16OfBytes

theorem simulates_u32 : Simulates width buf (takeU32Of (WordCursor.take width)) Cursor.takeU32
    fun _ => True := simulates_fixed inMemory (by norm_num) u32OfBytes

theorem simulates_u64 : Simulates width buf (takeU64Of (WordCursor.take width)) Cursor.takeU64
    fun _ => True := simulates_fixed inMemory (by norm_num) u64OfBytes

include wide

/-- **A length-prefixed field** wraps exactly when its prefix does. -/
theorem simulates_bytes : Simulates width buf (takeBytesOf (WordCursor.take width))
    Cursor.takeBytes (PrefixFits width buf) := by
  have body : ∀ len : UInt32, Simulates width buf (WordCursor.take width len.toNat)
      (Cursor.take len.toNat) fun pos => pos + len.toNat < 2 ^ width :=
    fun len => simulates_take (by omega) (lt_of_lt_of_le len.toNat_lt wide)
  refine ((simulates_u32 inMemory).bind body).congr fun pos _ =>
    ⟨fun ⟨_, later⟩ enough => ?_, fun fit => ⟨trivial, fun len after step => ?_⟩⟩
  · obtain ⟨len, step⟩ := (Cursor.advances_u32 buf pos).2 enough
    have stop := later len _ step
    rwa [(takeU32_eq_ok.mp step).2.1] at stop
  · obtain ⟨enough, stored, rfl⟩ := takeU32_eq_ok.mp step
    rw [stored]
    exact fit enough

omit wide inMemory in
theorem simulates_checkUtf8 (bytes : Bytes) :
    Simulates width buf (checkUtf8Of WordCursor.fail bytes) (Cursor.checkUtf8 bytes)
      fun _ => True := by
  unfold checkUtf8Of Cursor.checkUtf8
  rcases fromUtf8 bytes with _ | text
  · exact Simulates.fail .malformedFrame
  · exact Simulates.pure text

theorem simulates_string :
    Simulates width buf (takeStringOf (WordCursor.take width) WordCursor.fail) Cursor.takeString
      (PrefixFits width buf) :=
  ((simulates_bytes wide inMemory).bind fun bytes => simulates_checkUtf8 bytes).congr
    fun _ _ => ⟨fun both => both.1, fun fit => ⟨fit, fun _ _ _ => trivial⟩⟩

end Readers

/-! ### The decoder -/

variable (width) in
/-- **No length prefix that decoding reaches wraps**: the only one of a snapshot; the name's and,
behind a valid name, the value's of a field hash; the key's and, behind a valid key, the value's of
a metadata frame. -/
def LengthsFit (frameType : UInt8) (payload : Bytes) : Prop :=
  if frameType = typeFieldHash then
    PrefixFits width payload 18 ∧
      (22 + announced payload 18 ≤ payload.length →
        (fromUtf8 (payload.extract 22 (22 + announced payload 18))).isSome →
        PrefixFits width payload (22 + announced payload 18 + 8))
  else if frameType = typeSnapshot then
    PrefixFits width payload 10
  else if frameType = typeMetadata then
    PrefixFits width payload 0 ∧
      (4 + announced payload 0 ≤ payload.length →
        (fromUtf8 (payload.extract 4 (4 + announced payload 0))).isSome →
        PrefixFits width payload (4 + announced payload 0))
  else True

/-- What holds wherever a string ends holds behind a valid string. -/
theorem after_string_iff {pos : ℕ} {Holds : ℕ → Prop} :
    (∀ text after, Cursor.takeString { buf, pos } = .ok text after → Holds after.pos) ↔
      (pos + 4 + announced buf pos ≤ buf.length →
        (fromUtf8 (buf.extract (pos + 4) (pos + 4 + announced buf pos))).isSome →
        Holds (pos + 4 + announced buf pos)) := by
  constructor
  · intro all enough valid
    obtain ⟨text, decoded⟩ := Option.isSome_iff_exists.mp valid
    exact all text _ (takeString_eq_ok.mpr ⟨enough, decoded, rfl⟩)
  · intro behind text after step
    obtain ⟨enough, decoded, rfl⟩ := takeString_eq_ok.mp step
    exact behind enough (Option.isSome_iff_exists.mpr ⟨text, decoded⟩)

/-- **The decoder on the machine** does what the exact one does, or panics where a prefix wraps. -/
theorem simulates_decodeFields (wide : 2 ^ 32 ≤ 2 ^ width) (inMemory : buf.length + 8 < 2 ^ width)
    (frameType : UInt8) :
    ∃ Fit, Simulates width buf (decodeFieldsOf (WordCursor.take width) WordCursor.fail frameType)
      (Frame.decodeFields frameType) Fit ∧ (Fit 0 ↔ LengthsFit width frameType buf) := by
  have u16 := simulates_u16 inMemory
  have u64 := simulates_u64 inMemory
  have bytes := simulates_bytes wide inMemory
  have string := simulates_string wide inMemory
  have skip16 := Cursor.advances_u16 buf
  have skip64 := Cursor.advances_u64 buf
  by_cases known : frameType ∈ knownTypes
  · simp only [knownTypes, List.mem_cons, List.not_mem_nil, or_false] at known
    rcases known with rfl | rfl | rfl | rfl | rfl | rfl
    · refine ⟨_, u64.skip skip64 fun tick => u16.skip skip16 fun peerId => u64.map _, ?_⟩
      simp [LengthsFit, typeTickHash, typeFieldHash, typeSnapshot, typeMetadata]
    · refine ⟨_, u64.skip skip64 fun tick => u16.skip skip16 fun peerId => u64.skip skip64
        fun entityId => u64.map _, ?_⟩
      simp [LengthsFit, typeEntityHash, typeFieldHash, typeSnapshot, typeMetadata]
    · refine ⟨_, u64.skip skip64 fun tick => u16.skip skip16 fun peerId => u64.skip skip64
        fun entityId => string.bind fun name => u64.skip skip64 fun hash => bytes.map _, ?_⟩
      show (8 ≤ buf.length → 10 ≤ buf.length → 18 ≤ buf.length → PrefixFits width buf 18 ∧
        ∀ text after, Cursor.takeString { buf, pos := 18 } = .ok text after →
          after.pos + 8 ≤ buf.length → PrefixFits width buf (after.pos + 8)) ↔
        PrefixFits width buf 18 ∧ _
      rw [@after_string_iff buf 18 fun pos => pos + 8 ≤ buf.length → PrefixFits width buf (pos + 8)]
      constructor
      · intro fit
        refine ⟨fun enough => (fit (by omega) (by omega) (by omega)).1 enough,
          fun enough valid => ?_⟩
        intro room
        exact (fit (by omega) (by omega) (by omega)).2 enough valid (by omega) room
      · rintro ⟨name, value⟩ _ _ _
        exact ⟨name, fun enough valid _ => value enough valid⟩
    · refine ⟨_, u64.skip skip64 fun tick => u16.skip skip16 fun peerId => bytes.map _, ?_⟩
      show (8 ≤ buf.length → 10 ≤ buf.length → PrefixFits width buf 10) ↔ PrefixFits width buf 10
      exact ⟨fun fit enough => fit (by omega) (by omega) enough, fun fit _ _ => fit⟩
    · refine ⟨_, string.bind fun key => string.map _, ?_⟩
      show (PrefixFits width buf 0 ∧ ∀ text after, Cursor.takeString { buf, pos := 0 } =
        .ok text after → PrefixFits width buf after.pos) ↔ PrefixFits width buf 0 ∧ _
      rw [after_string_iff, Nat.zero_add]
    · refine ⟨_, Simulates.pure _, ?_⟩
      simp [LengthsFit, typeEndOfStream, typeFieldHash, typeSnapshot, typeMetadata]
  · simp only [knownTypes, List.mem_cons, List.not_mem_nil, or_false, not_or] at known
    obtain ⟨no₁, no₂, no₃, no₄, no₅, no₆⟩ := known
    refine ⟨fun _ => True, ?_, ?_⟩
    · rw [decodeFieldsOf, Frame.decodeFields, if_neg no₁, if_neg no₂, if_neg no₃, if_neg no₄,
        if_neg no₅, if_neg no₆, if_neg no₁, if_neg no₂, if_neg no₃, if_neg no₄, if_neg no₅,
        if_neg no₆]
      exact Simulates.fail _
    · rw [LengthsFit, if_neg no₃, if_neg no₄, if_neg no₅]

end Simulation

/-! ### Safety -/

namespace WordCursor

def callsOf {α : Type} : EStateM.Result Stop WordCursor α → List (ℕ × ℕ)
  | .ok _ cursor => cursor.calls
  | .error _ cursor => cursor.calls

def outcomeOf {α : Type} : EStateM.Result Stop WordCursor α → Except Stop α
  | .ok value _ => .ok value
  | .error stop _ => .error stop

/-- Every `take` call's sum is exact, every call that passes the bounds test slices within the
payload, and the result is a frame, a malformed frame or an unknown type. -/
def DecodesSafely (width : ℕ) (frameType : UInt8) (payload : Bytes) : Prop :=
  (∀ call ∈ callsOf (decodePayload width frameType payload),
      call.1 + call.2 < 2 ^ width ∧
        (¬ (call.1 + call.2) % 2 ^ width > payload.length →
          call.1 ≤ call.1 + call.2 ∧ call.1 + call.2 ≤ payload.length)) ∧
    ((∃ frame, outcomeOf (decodePayload width frameType payload) = .ok frame) ∨
      outcomeOf (decodePayload width frameType payload) = .error (.error .malformedFrame) ∨
      outcomeOf (decodePayload width frameType payload) =
        .error (.error (.unknownFrameType frameType)))

/-- On the machine a payload decodes as on natural numbers, unless a prefix wraps, which panics. -/
theorem decodePayload_eq {width : ℕ} (wide : 2 ^ 32 ≤ 2 ^ width) (frameType : UInt8)
    {payload : Bytes} (inMemory : payload.length + 8 < 2 ^ width) :
    (LengthsFit width frameType payload →
        Exact width (callsOf (decodePayload width frameType payload)) ∧
          outcomeOf (decodePayload width frameType payload) =
            (Frame.decodePayload frameType payload).mapError .error) ∧
      (¬ LengthsFit width frameType payload →
        outcomeOf (decodePayload width frameType payload) = .error .panic) := by
  obtain ⟨Fit, simulates, sameFit⟩ := simulates_decodeFields wide inMemory frameType
  refine ⟨fun fits => ?_, fun unfit => ?_⟩
  · unfold decodePayload Frame.decodePayload
    rcases run : Frame.decodeFields frameType { buf := payload, pos := 0 } with
      ⟨frame, after⟩ | ⟨error, after⟩
    · obtain ⟨_, _, more, exact, machine⟩ :=
        simulates.ok [] (Nat.zero_le _) (sameFit.mpr fits) run
      rw [machine]
      exact ⟨exact, rfl⟩
    · obtain ⟨more, stopped, exact, machine⟩ :=
        simulates.error [] (Nat.zero_le _) (sameFit.mpr fits) run
      rw [machine]
      exact ⟨exact, rfl⟩
  · obtain ⟨after, panics⟩ := simulates.wraps [] (Nat.zero_le _) fun fit => unfit (sameFit.mp fit)
    rw [decodePayload, panics]
    rfl

/-- A prefix is below `2 ^ 32`, so on 64-bit words it never wraps. -/
theorem lengthsFit_of_wide {frameType : UInt8} {payload : Bytes}
    (inMemory : payload.length < 2 ^ 63) : LengthsFit 64 frameType payload := by
  have fits : ∀ pos, PrefixFits 64 payload pos := by
    intro pos enough
    have small := announced_lt payload pos
    omega
  unfold LengthsFit
  split
  · exact ⟨fits _, fun _ _ => fits _⟩
  · split
    · exact fits _
    · split
      · exact ⟨fits _, fun _ _ => fits _⟩
      · trivial

/-- **Decoding is safe exactly when no length prefix it reaches wraps**, and on 64-bit words it is
always. -/
theorem decodesSafely_iff (width : ℕ) (word : width = 32 ∨ width = 64) (frameType : UInt8)
    (payload : Bytes) (inMemory : payload.length < 2 ^ (width - 1)) :
    (DecodesSafely width frameType payload ↔ LengthsFit width frameType payload) ∧
      (width = 64 → DecodesSafely width frameType payload) := by
  have wide : 2 ^ 32 ≤ 2 ^ width := by
    rcases word with rfl | rfl <;> norm_num
  have room : payload.length + 8 < 2 ^ width := by
    rcases word with rfl | rfl <;> omega
  obtain ⟨whenFits, whenWraps⟩ := decodePayload_eq wide frameType room
  have safe : DecodesSafely width frameType payload ↔ LengthsFit width frameType payload := by
    constructor
    · intro ⟨_, outcome⟩
      by_contra unfit
      rw [whenWraps unfit] at outcome
      rcases outcome with ⟨_, run⟩ | run | run <;> cases run
    · intro fits
      obtain ⟨exact, outcome⟩ := whenFits fits
      refine ⟨fun call member => ⟨exact call member, fun within => ?_⟩, ?_⟩
      · rw [Nat.mod_eq_of_lt (exact call member)] at within
        omega
      · rw [outcome]
        by_cases known : frameType ∈ knownTypes
        · rcases Frame.decodePayload_known known payload with ⟨frame, run, _⟩ | run
          · exact Or.inl ⟨frame, by rw [run]; rfl⟩
          · exact Or.inr (Or.inl (by rw [run]; rfl))
        · exact Or.inr (Or.inr (by rw [Frame.decodePayload_unknown known]; rfl))
  refine ⟨safe, fun is64 => safe.mpr ?_⟩
  subst is64
  exact lengthsFit_of_wide inMemory

/-- A snapshot of two bytes, on 32-bit words. -/
theorem decodesSafely_sample :
    (DecodesSafely 32 typeSnapshot (Frame.snapshot 1 0 [5, 6]).encodePayload ↔
        LengthsFit 32 typeSnapshot (Frame.snapshot 1 0 [5, 6]).encodePayload) ∧
      (32 = 64 → DecodesSafely 32 typeSnapshot (Frame.snapshot 1 0 [5, 6]).encodePayload) :=
  decodesSafely_iff 32 (Or.inl rfl) typeSnapshot (Frame.snapshot 1 0 [5, 6]).encodePayload
    (by decide)

/-- A snapshot whose prefix is `2 ^ 32 - 1` at position 14: the slice `14..13` panics. -/
theorem snapshot_panics_32 :
    outcomeOf (decodePayload 32 typeSnapshot (List.replicate 10 0 ++ List.replicate 4 0xFF)) =
        .error .panic ∧
      ¬ DecodesSafely 32 typeSnapshot (List.replicate 10 0 ++ List.replicate 4 0xFF) := by
  have panics : outcomeOf (decodePayload 32 typeSnapshot
      (List.replicate 10 0 ++ List.replicate 4 0xFF)) = .error .panic := by decide
  refine ⟨panics, fun ⟨_, outcome⟩ => ?_⟩
  rw [panics] at outcome
  rcases outcome with ⟨_, run⟩ | run | run <;> cases run

end WordCursor

end Foldback
