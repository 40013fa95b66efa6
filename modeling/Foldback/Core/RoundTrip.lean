/-
**Writing and reading back: frames, and whole files under truncation.**

* `Reads parser bytes value`: wherever `bytes` stand, `parser` takes exactly them and returns
  `value`. It composes along `>>=` (`Reads.bind`), so `decodePayload_encodePayload` is one chain of
  field readers per frame type.
* `writeTo_bytes`: `Frame::write_to` appends `Frame.encode`, one chunk of the stream.
* `file_cut_reads_back_iff`: **a file cut at any byte reads as its header and the known frames that
  end by the cut**, whatever unknown chunks stand in between, as long as no run of them outgrows the
  reader's stack.
-/

import Foldback.Core.ReaderStack

namespace Foldback

open Radix ChunkStream Runs

/-! ### Readers that invert writers -/

namespace Cursor

/-- What is left to read is `rest`. -/
def At (cursor : Cursor) (rest : Bytes) : Prop :=
  cursor.pos ≤ cursor.buf.length ∧ cursor.buf.drop cursor.pos = rest

/-- Wherever `bytes` stand, `parser` takes exactly them and returns `value`. -/
def Reads {α : Type} (parser : Attempt Cursor α) (bytes : Bytes) (value : α) : Prop :=
  ∀ cursor rest, At cursor (bytes ++ rest) → ∃ after, parser cursor = .ok value after ∧ At after rest

theorem Reads.pure {α : Type} (value : α) : Reads (Pure.pure value) [] value :=
  fun cursor _ here => ⟨cursor, rfl, here⟩

/-- **Readers in sequence read the concatenation.** -/
theorem Reads.bind {α β : Type} {parser : Attempt Cursor α} {next : α → Attempt Cursor β}
    {bytes bytes' : Bytes} {value : α} {value' : β} (first : Reads parser bytes value)
    (second : Reads (next value) bytes' value') :
    Reads (parser >>= next) (bytes ++ bytes') value' := by
  intro cursor rest here
  rw [List.append_assoc] at here
  obtain ⟨middle, run, there⟩ := first cursor (bytes' ++ rest) here
  obtain ⟨after, run', done⟩ := second middle rest there
  exact ⟨after, bind_eq_ok.mpr ⟨value, middle, run, run'⟩, done⟩

theorem Reads.map {α β : Type} {parser : Attempt Cursor α} {bytes : Bytes} {value : α}
    (reads : Reads parser bytes value) (f : α → β) :
    Reads (parser >>= fun a => Pure.pure (f a)) bytes (f value) := by
  have joined : Reads (parser >>= fun a => Pure.pure (f a)) (bytes ++ []) (f value) :=
    reads.bind (Reads.pure (f value))
  rwa [List.append_nil] at joined

theorem reads_take (bytes : Bytes) : Reads (take bytes.length) bytes bytes := by
  intro cursor rest ⟨inside, left⟩
  have room : bytes.length ≤ cursor.buf.length - cursor.pos := by
    rw [← List.length_drop, left, List.length_append]
    omega
  refine ⟨{ cursor with pos := cursor.pos + bytes.length }, ?_, ?_, ?_⟩
  · rw [take, if_neg (by omega), List.extract_eq_take_drop, left, Nat.add_sub_cancel_left,
      List.take_left]
  · show cursor.pos + bytes.length ≤ cursor.buf.length
    omega
  · show cursor.buf.drop (cursor.pos + bytes.length) = rest
    rw [← List.drop_drop, left, List.drop_left]

theorem reads_u16 (value : UInt16) : Reads takeU16 (u16Bytes value) value := by
  have taken := reads_take (u16Bytes value)
  rw [length_u16Bytes] at taken
  simpa [takeU16] using taken.map u16OfBytes

theorem reads_u32 (value : UInt32) : Reads takeU32 (u32Bytes value) value := by
  have taken := reads_take (u32Bytes value)
  rw [length_u32Bytes] at taken
  simpa [takeU32] using taken.map u32OfBytes

theorem reads_u64 (value : UInt64) : Reads takeU64 (u64Bytes value) value := by
  have taken := reads_take (u64Bytes value)
  rw [length_u64Bytes] at taken
  simpa [takeU64] using taken.map u64OfBytes

theorem reads_bytes {value : Bytes} (fits : value.length < 256 ^ 4) :
    Reads takeBytes (lenBytes value ++ value) value := by
  refine (reads_u32 (UInt32.ofNat value.length)).bind ?_
  have exact : (UInt32.ofNat value.length).toNat = value.length := UInt32.toNat_ofNat_of_lt' fits
  rw [exact]
  exact reads_take value

theorem reads_string {text : String} (fits : (asBytes text).length < 256 ^ 4) :
    Reads takeString (lenBytes (asBytes text) ++ asBytes text) text := by
  have decoded : Reads (checkUtf8 (asBytes text)) [] text := by
    rw [checkUtf8, fromUtf8_asBytes]
    exact Reads.pure text
  have joined : Reads takeString ((lenBytes (asBytes text) ++ asBytes text) ++ []) text :=
    (reads_bytes fits).bind decoded
  rwa [List.append_nil] at joined

end Cursor

/-! ### One frame -/

/-- `len as u32` loses nothing that the four bytes could hold. -/
theorem lenBytes_eq (bytes : Bytes) : lenBytes bytes = leBytes 4 bytes.length := by
  rw [lenBytes, u32Bytes, UInt32.toNat_ofNat', leBytes, leBytes]
  exact congrArg _ (digits_mod 256 4 bytes.length)

namespace Frame

open Cursor

/-- The whole payload, and so each of its fields, is shorter than `2 ^ 32`. -/
def Fits (frame : Frame) : Prop := frame.encodePayload.length < 256 ^ 4

instance (frame : Frame) : Decidable frame.Fits := inferInstanceAs (Decidable (_ < _))

/-- The frame as a chunk of the stream. -/
def chunk (frame : Frame) : Chunk := ⟨frame.frameType, frame.encodePayload⟩

/-- The bytes `write_to` appends. -/
def encode (frame : Frame) : Bytes := ChunkStream.encode 4 frame.chunk

theorem writeTo_bytes (frame : Frame) (log : Bytes) :
    frame.writeTo log = .ok () (log ++ frame.encode) := by
  show EStateM.Result.ok () (((log ++ [frame.frameType]) ++ lenBytes frame.encodePayload) ++
    frame.encodePayload) = _
  rw [lenBytes_eq]
  simp [Frame.encode, ChunkStream.encode, Frame.chunk]

/-- The fields of `decode_payload`, read off what `encode_payload` wrote. -/
theorem reads_encodePayload (frame : Frame) (fits : frame.Fits) :
    Reads (decodeFields frame.frameType) frame.encodePayload frame := by
  unfold Fits at fits
  cases frame with
  | tickHash tick peerId hash =>
    exact (reads_u64 tick).bind ((reads_u16 peerId).bind ((reads_u64 hash).map _))
  | entityHash tick peerId entityId hash =>
    exact (reads_u64 tick).bind ((reads_u16 peerId).bind ((reads_u64 entityId).bind
      ((reads_u64 hash).map _)))
  | fieldHash tick peerId entityId fieldName hash value =>
    simp only [encodePayload, List.length_append] at fits
    have name : Reads takeString (lenBytes (asBytes fieldName) ++ asBytes fieldName) fieldName :=
      reads_string (by omega)
    have raw : Reads takeBytes (lenBytes value ++ value) value := reads_bytes (by omega)
    have regroup : (fieldHash tick peerId entityId fieldName hash value).encodePayload =
        u64Bytes tick ++ (u16Bytes peerId ++ (u64Bytes entityId ++
          ((lenBytes (asBytes fieldName) ++ asBytes fieldName) ++ (u64Bytes hash ++
            (lenBytes value ++ value))))) := by simp [encodePayload]
    rw [regroup]
    exact (reads_u64 tick).bind ((reads_u16 peerId).bind ((reads_u64 entityId).bind
      (name.bind ((reads_u64 hash).bind (raw.map _)))))
  | snapshot tick peerId compressed =>
    simp only [encodePayload, List.length_append] at fits
    exact (reads_u64 tick).bind ((reads_u16 peerId).bind ((reads_bytes (by omega)).map _))
  | metadata key value =>
    simp only [encodePayload, List.length_append] at fits
    have regroup : (metadata key value).encodePayload =
        (lenBytes (asBytes key) ++ asBytes key) ++ (lenBytes (asBytes value) ++ asBytes value) := by
      simp [encodePayload]
    rw [regroup]
    exact (reads_string (by omega)).bind ((reads_string (by omega)).map _)
  | endOfStream => exact Reads.pure endOfStream

/-- **A frame survives its own encoding.** -/
theorem decodePayload_encodePayload {frame : Frame} (fits : frame.Fits) :
    decodePayload frame.frameType frame.encodePayload = .ok frame := by
  obtain ⟨after, run, _⟩ := reads_encodePayload frame fits
    { buf := frame.encodePayload, pos := 0 } [] ⟨Nat.zero_le _, by simp⟩
  rw [decodePayload, run]

theorem readChunk_chunk {frame : Frame} (fits : frame.Fits) :
    FrameReader.readChunk frame.chunk = some (.ok frame) := by
  rw [FrameReader.readChunk, chunk, decodePayload_encodePayload fits]

end Frame

/-! ### The header -/

namespace Header

theorem length_encode (header : Header) : header.encode.length = headerLen := by
  simp [encode, magic, headerLen]

theorem readFrom_encode (header : Header) (rest : Bytes) :
    readFrom (header.encode ++ rest) = .ok header rest := by
  obtain ⟨version, rate, peers, build⟩ := header
  have fields : ∀ first second third fourth : Bytes, first.length = 2 → second.length = 4 →
      third.length = 4 → fourth.length = 16 →
      let buf := magic ++ (first ++ ([0, 0] ++ (second ++ (third ++ fourth))))
      buf.extract 0 4 = magic ∧ buf.extract 4 6 = first ∧ buf.extract 8 12 = second ∧
        buf.extract 12 16 = third ∧ buf.extract 16 32 = fourth := by
    intro first second third fourth length₁ length₂ length₃ length₄
    simp (disch := omega) [magic, List.extract_eq_take_drop, List.drop_append, List.take_append,
      List.drop_eq_nil_of_le, List.take_of_length_le, length₁, length₂, length₃]
  obtain ⟨isMagic, atVersion, atRate, atPeers, atBuild⟩ := fields (u16Bytes version)
    (u32Bytes rate) (u32Bytes peers) build.toList (by simp) (by simp) (by simp) (by simp)
  rw [readFrom, readExact_append (length_encode _)]
  simp only [encode, isMagic, atVersion, atRate, atPeers, atBuild, ne_eq, not_true_eq_false,
    if_false, u16OfBytes_u16Bytes, u32OfBytes_u32Bytes]
  congr 2
  ext index bound
  simp [List.getD_eq_getElem?_getD]

theorem readFrom_short {input : Bytes} (short : input.length < headerLen) :
    readFrom input = .error .truncatedHeader [] := by
  rw [readFrom, readExact_short short]

end Header

/-! ### A whole file, cut anywhere -/

/-- One item of a recorded stream: a frame, or a chunk of a type this reader does not know. -/
inductive StreamItem
  | frame (written : Frame)
  | unknown (frameType : UInt8) (payload : Bytes)
  deriving DecidableEq, Repr

/-- The six frame types of the format. -/
def knownTypes : List UInt8 :=
  [typeTickHash, typeEntityHash, typeFieldHash, typeSnapshot, typeMetadata, typeEndOfStream]

theorem frameType_mem_knownTypes (frame : Frame) : frame.frameType ∈ knownTypes := by
  cases frame <;> simp [Frame.frameType, knownTypes]

theorem Frame.decodePayload_unknown {frameType : UInt8} (unknown : frameType ∉ knownTypes)
    (payload : Bytes) :
    Frame.decodePayload frameType payload = .error (.unknownFrameType frameType) := by
  simp only [knownTypes, List.mem_cons, List.not_mem_nil, or_false, not_or] at unknown
  obtain ⟨no₁, no₂, no₃, no₄, no₅, no₆⟩ := unknown
  rw [Frame.decodePayload, Frame.decodeFields, if_neg no₁, if_neg no₂, if_neg no₃, if_neg no₄,
    if_neg no₅, if_neg no₆]
  rfl

theorem readChunk_unknown {frameType : UInt8} (unknown : frameType ∉ knownTypes) (payload : Bytes) :
    FrameReader.readChunk ⟨frameType, payload⟩ = none := by
  rw [FrameReader.readChunk, Frame.decodePayload_unknown unknown]

namespace StreamItem

/-- Frames fit their length prefixes; an unknown chunk has an unknown type and a `u32` length. -/
def WellFormed : StreamItem → Prop
  | .frame written => written.Fits
  | .unknown frameType payload => frameType ∉ knownTypes ∧ payload.length < 256 ^ 4

instance : DecidablePred WellFormed
  | .frame written => inferInstanceAs (Decidable written.Fits)
  | .unknown _ _ => inferInstanceAs (Decidable (_ ∧ _))

def writeTo {W : Type} [Write W] : StreamItem → Attempt W Unit
  | .frame written => written.writeTo
  | .unknown frameType payload => do
    Write.writeAll [frameType]
    Write.writeAll (lenBytes payload)
    Write.writeAll payload

def chunk : StreamItem → Chunk
  | .frame written => written.chunk
  | .unknown frameType payload => ⟨frameType, payload⟩

/-- The bytes `writeTo` appends. -/
def encode (item : StreamItem) : Bytes := ChunkStream.encode 4 item.chunk

def isUnknown : StreamItem → Bool
  | .frame _ => false
  | .unknown _ _ => true

/-- The frame a reader of this version sees in the item. -/
def known : StreamItem → Option Frame
  | .frame written => some written
  | .unknown _ _ => none

theorem fits {item : StreamItem} (wellFormed : item.WellFormed) : ChunkStream.Fits 4 item.chunk := by
  cases item with
  | frame written => exact wellFormed
  | unknown frameType payload => exact wellFormed.2

theorem readChunk_chunk {item : StreamItem} (wellFormed : item.WellFormed) :
    FrameReader.readChunk item.chunk = item.known.map .ok := by
  cases item with
  | frame written => exact Frame.readChunk_chunk wellFormed
  | unknown frameType payload => exact readChunk_unknown wellFormed.1 payload

theorem writeTo_bytes (item : StreamItem) (log : Bytes) :
    item.writeTo log = .ok () (log ++ item.encode) := by
  cases item with
  | frame written => exact written.writeTo_bytes log
  | unknown frameType payload =>
    show EStateM.Result.ok () (((log ++ [frameType]) ++ lenBytes payload) ++ payload) = _
    rw [lenBytes_eq]
    simp [encode, ChunkStream.encode, chunk]

end StreamItem

/-- A file: the header, then the items in order. -/
def writeFile {W : Type} [Write W] (header : Header) (items : List StreamItem) : Attempt W Unit := do
  header.writeTo
  items.forM StreamItem.writeTo

/-- The items whose encoding ends at or before position `cut`, when the first one starts at position
`start`. -/
def itemsEndingBy (cut start : ℕ) : List StreamItem → List StreamItem
  | [] => []
  | item :: items =>
    (if start + item.encode.length ≤ cut then [item] else []) ++
      itemsEndingBy cut (start + item.encode.length) items

/-- The known frames among them. -/
def framesEndingBy (cut start : ℕ) (items : List StreamItem) : List Frame :=
  (itemsEndingBy cut start items).filterMap StreamItem.known

theorem writeItems_bytes (items : List StreamItem) (log : Bytes) :
    (items.forM StreamItem.writeTo : Attempt Bytes Unit) log =
      .ok () (log ++ encodeAll 4 (items.map StreamItem.chunk)) := by
  induction items generalizing log with
  | nil => simp [encodeAll, pure, EStateM.pure]
  | cons item items ih =>
    show EStateM.bind item.writeTo (fun _ => items.forM StreamItem.writeTo) log = _
    simp only [EStateM.bind, StreamItem.writeTo_bytes, ih, List.map_cons, encodeAll_cons,
      StreamItem.encode, List.append_assoc]

theorem writeFile_bytes (header : Header) (items : List StreamItem) :
    writeFile header items ([] : Bytes) =
      .ok () (header.encode ++ encodeAll 4 (items.map StreamItem.chunk)) :=
  writeItems_bytes items header.encode

theorem itemsEndingBy_past {cut start : ℕ} (past : cut < start) (items : List StreamItem) :
    itemsEndingBy cut start items = [] := by
  induction items generalizing start with
  | nil => rfl
  | cons item items ih => rw [itemsEndingBy, if_neg (by omega), ih (by omega), List.append_nil]

/-- The chunks of the stream that end by a cut are those of the items that do. -/
theorem endingBy_chunks (start room : ℕ) (items : List StreamItem) :
    endingBy 4 room (items.map StreamItem.chunk) =
      (itemsEndingBy (start + room) start items).map StreamItem.chunk := by
  induction items generalizing start room with
  | nil => rfl
  | cons item items ih =>
    rw [List.map_cons, endingBy, itemsEndingBy]
    split
    · rename_i whole
      change item.encode.length ≤ room at whole
      have rest := ih (start + item.encode.length) (room - item.encode.length)
      rw [show start + item.encode.length + (room - item.encode.length) = start + room by omega]
        at rest
      rw [if_pos (by omega : start + item.encode.length ≤ start + room), List.singleton_append,
        List.map_cons, ← rest]
      rfl
    · rename_i short
      change ¬ item.encode.length ≤ room at short
      rw [if_neg (by omega : ¬ start + item.encode.length ≤ start + room),
        itemsEndingBy_past (by omega)]
      rfl

theorem mem_of_mem_itemsEndingBy {cut start : ℕ} {item : StreamItem} {items : List StreamItem}
    (member : item ∈ itemsEndingBy cut start items) : item ∈ items := by
  induction items generalizing start with
  | nil => exact member
  | cons first items ih =>
    rw [itemsEndingBy] at member
    rcases List.mem_append.mp member with here | later
    · split at here
      · exact List.mem_cons.mpr (Or.inl (List.mem_singleton.mp here))
      · cases here
    · exact List.mem_cons_of_mem first (ih later)

/-- Well-formed items decode to the known frames among them. -/
theorem filterMap_readChunk {items : List StreamItem}
    (wellFormed : ∀ item ∈ items, item.WellFormed) :
    (items.map StreamItem.chunk).filterMap FrameReader.readChunk =
      (items.filterMap StreamItem.known).map .ok := by
  induction items with
  | nil => rfl
  | cons item items ih =>
    have here := StreamItem.readChunk_chunk (wellFormed item List.mem_cons_self)
    have rest := ih fun other member => wellFormed other (List.mem_cons_of_mem item member)
    rw [List.map_cons]
    rcases known : item.known with _ | frame
    · rw [List.filterMap_cons_none (by rw [here, known]; rfl), List.filterMap_cons_none known, rest]
    · rw [List.filterMap_cons_some (by rw [here, known]; rfl), List.filterMap_cons_some known, rest]
      rfl

/-- The reader passes over exactly the unknown items. -/
theorem longestRun_items {items : List StreamItem} (wellFormed : ∀ item ∈ items, item.WellFormed) :
    longestRun FrameReader.skipped (items.map StreamItem.chunk) =
      longestRun StreamItem.isUnknown items := by
  refine longestRun_map fun item member => ?_
  rw [FrameReader.skipped, StreamItem.readChunk_chunk (wellFormed item member)]
  cases item <;> rfl

/-- The file cut at position `cut` reads back: before byte 32 the header is reported truncated; from
there on the header comes back, and iterating the reader yields, with no error, exactly the known
frames that end at or before the cut, and then `None`. -/
def CutReadsBack (stack : ℕ) (header : Header) (items : List StreamItem) (cut : ℕ) : Prop :=
  ∃ file : Bytes, writeFile header items ([] : Bytes) = .ok () file ∧
    (cut < 32 → ∃ rest, Header.readFrom (file.take cut) = .error .truncatedHeader rest) ∧
    (32 ≤ cut → ∃ rest, Header.readFrom (file.take cut) = .ok header rest ∧
      FrameReader.Yields stack rest ((framesEndingBy cut 32 items).map .ok))

/-- What a cut from byte 32 on leaves behind the header. -/
theorem readFrom_take (header : Header) (stream : Bytes) {cut : ℕ} (long : 32 ≤ cut) :
    Header.readFrom ((header.encode ++ stream).take cut) = .ok header (stream.take (cut - 32)) := by
  have split : (header.encode ++ stream).take cut = header.encode ++ stream.take (cut - 32) := by
    rw [List.take_append, header.length_encode, List.take_of_length_le]
    · rfl
    · rw [header.length_encode]
      exact long
  rw [split]
  exact Header.readFrom_encode _ _

/-- The chunks a cut leaves of a well-formed stream. -/
theorem chunks_take_items {items : List StreamItem} (wellFormed : ∀ item ∈ items, item.WellFormed)
    {cut : ℕ} (long : 32 ≤ cut) :
    chunks 4 ((encodeAll 4 (items.map StreamItem.chunk)).take (cut - 32)) =
      (itemsEndingBy cut 32 items).map StreamItem.chunk := by
  have fits : ∀ chunk ∈ items.map StreamItem.chunk, ChunkStream.Fits 4 chunk := by
    intro chunk member
    obtain ⟨item, inside, rfl⟩ := List.mem_map.mp member
    exact StreamItem.fits (wellFormed item inside)
  rw [chunks_take_encodeAll fits, endingBy_chunks 32, Nat.add_sub_cancel' long]

/-- What the reader makes of the rest of a cut file, on a stack with room for `stack` calls. -/
theorem yields_take_items {items : List StreamItem} (wellFormed : ∀ item ∈ items, item.WellFormed)
    {cut stack : ℕ} (long : 32 ≤ cut) :
    FrameReader.Yields stack ((encodeAll 4 (items.map StreamItem.chunk)).take (cut - 32))
        ((framesEndingBy cut 32 items).map .ok) ↔
      longestRun StreamItem.isUnknown (itemsEndingBy cut 32 items) < stack := by
  have kept : ∀ item ∈ itemsEndingBy cut 32 items, item.WellFormed :=
    fun item member => wellFormed item (mem_of_mem_itemsEndingBy member)
  rw [FrameReader.yields_iff, FrameReader.items_eq, chunks_take_items wellFormed long,
    filterMap_readChunk kept, longestRun_items kept]
  exact ⟨fun both => both.2, fun room => ⟨rfl, room⟩⟩

/-- **A file cut at any byte reads back exactly if the cut is inside the header or every run of
consecutive unknown chunks before it leaves the reader's stack room.** -/
theorem file_cut_reads_back_iff (stack : ℕ) (header : Header) (items : List StreamItem)
    (wellFormed : ∀ item ∈ items, item.WellFormed) (cut : ℕ) :
    CutReadsBack stack header items cut ↔
      cut < 32 ∨ longestRun StreamItem.isUnknown (itemsEndingBy cut 32 items) < stack := by
  have wrote := writeFile_bytes header items
  constructor
  · rintro ⟨file, wrote', _, after⟩
    rw [wrote] at wrote'
    cases wrote'
    rcases Nat.lt_or_ge cut 32 with short | long
    · exact Or.inl short
    · obtain ⟨rest, read, yields⟩ := after long
      rw [readFrom_take header _ long] at read
      cases read
      exact Or.inr ((yields_take_items wellFormed long).mp yields)
  · intro room
    refine ⟨_, wrote, fun short => ⟨[], Header.readFrom_short ?_⟩, fun long => ?_⟩
    · rw [List.length_take]
      exact lt_of_le_of_lt (min_le_left _ _) short
    · refine ⟨_, readFrom_take header _ long, (yields_take_items wellFormed long).mpr ?_⟩
      exact room.resolve_left (by omega)

/-- A file with an unknown chunk between two frames, on a stack with room for two calls. -/
theorem file_cut_reads_back_iff_sample :
    CutReadsBack 2 (Header.new 60 2 (Vector.replicate 16 7))
        [.frame (.tickHash 1 0 7), .unknown 0x7E [1, 2, 3], .frame .endOfStream] 70 ↔
      70 < 32 ∨ longestRun StreamItem.isUnknown (itemsEndingBy 70 32
        [.frame (.tickHash 1 0 7), .unknown 0x7E [1, 2, 3], .frame .endOfStream]) < 2 :=
  file_cut_reads_back_iff _ _ _ (by decide) _

/-- The zero bytes of as many empty chunks of type 0. -/
theorem encodeAll_zeros (count : ℕ) :
    encodeAll 4 (List.replicate count ⟨0, []⟩) = List.replicate (5 * count) 0 := by
  induction count with
  | zero => rfl
  | succ count ih =>
    rw [List.replicate_succ, encodeAll_cons, ih, Nat.mul_succ, Nat.add_comm, List.replicate_add]
    rfl

/-- Unknown chunks that fill the stack are fatal to a reader that gets to them all. -/
theorem not_yields_zeros {stack count : ℕ} (many : stack ≤ count)
    (list : List (Except Error Frame)) :
    ¬ FrameReader.Yields stack (List.replicate (5 * count) 0) list := by
  intro yields
  have room := yields.holds.2
  have unknown : ∀ chunk ∈ List.replicate count (⟨0, []⟩ : Chunk),
      FrameReader.skipped chunk = true := by
    intro chunk member
    rw [List.eq_of_mem_replicate member]
    rfl
  have fits : ∀ chunk ∈ List.replicate count (⟨0, []⟩ : Chunk), ChunkStream.Fits 4 chunk := by
    intro chunk member
    rw [List.eq_of_mem_replicate member]
    exact Nat.pow_pos (by decide)
  have whole := chunks_encodeAll_append fits []
  rw [List.append_nil, chunks_nil, List.append_nil, encodeAll_zeros] at whole
  rw [whole, longestRun_of_all unknown, List.length_replicate] at room
  omega

/-- A file of 50000 empty unknown chunks, for a stack with room for 50000 calls. -/
theorem unknown_run_aborts :
    ¬ CutReadsBack 50000 (Header.new 60 2 (Vector.replicate 16 7))
        (List.replicate 50000 (.unknown 0 [])) 250032 := by
  rintro ⟨file, wrote, _, after⟩
  rw [writeFile_bytes] at wrote
  cases wrote
  obtain ⟨rest, read, yields⟩ := after (by decide)
  rw [readFrom_take _ _ (by decide), List.map_replicate] at read
  have zeros : encodeAll 4 (List.replicate 50000 (StreamItem.unknown 0 []).chunk) =
      List.replicate 250000 0 := encodeAll_zeros 50000
  rw [zeros, List.take_replicate] at read
  cases read
  exact not_yields_zeros (le_refl 50000) _ yields

end Foldback
