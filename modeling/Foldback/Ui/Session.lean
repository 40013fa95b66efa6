/-
**The UI's session data, as the backend's `session.rs` loads it.**

* `load` reads a file to its end and folds its frames (`Loading.add`); `frameToLiveEvent` converts
  one frame for live mode. The data types are generic in the type `ν` of ticks and entity ids:
  `UInt64` in the backend, a JavaScript number in the page.
* `foldl_add`: what the loop has gathered after a list of frames, each list on its own.
* `load_holds`: **the data of a file** in terms of the frames it holds.
-/

import Foldback.Core.Bisect
import Foldback.Core.Loading
import Foldback.Lib.KeyOrder

namespace Foldback

open Radix

inductive LoadError
  | openFailed (path : String) (source : IoError)
  | format (path : String) (source : Error)
  deriving DecidableEq, Repr

def LoadError.wrap (path : String) : Wrap LoadError :=
  { openFailed := .openFailed path, format := .format path }

structure TickHashEntry (ν : Type) where
  tick : ν
  peerId : UInt16
  hash : String
  deriving DecidableEq, Repr

structure EntityHashEntry (ν : Type) where
  tick : ν
  peerId : UInt16
  entityId : ν
  hash : String
  deriving DecidableEq, Repr

structure FieldHashEntry (ν : Type) where
  tick : ν
  peerId : UInt16
  entityId : ν
  fieldName : String
  hash : String
  valueHex : String
  deriving DecidableEq, Repr

structure SessionData (ν : Type) where
  fileName : String
  tickRateHz : UInt32
  peerCount : UInt32
  buildId : String
  minTick : ν
  maxTick : ν
  endedCleanly : Bool
  tickHashes : List (TickHashEntry ν)
  entityHashes : List (EntityHashEntry ν)
  fieldHashes : List (FieldHashEntry ν)
  snapshotTicks : List ν
  metadataCount : ℕ
  divergenceTick : Option ν
  deriving DecidableEq, Repr

/-- The `kind` tag of the serialized event is the constructor. -/
inductive LiveEvent (ν : Type)
  | hello (tickRateHz peerCount : UInt32) (buildId : String)
  | tickHash (entry : TickHashEntry ν)
  | entityHash (entry : EntityHashEntry ν)
  | fieldHash (entry : FieldHashEntry ν)
  | snapshot (tick : ν)
  | metadata
  | endOfStream
  | disconnected (reason : String)
  deriving DecidableEq, Repr

/-! ### Hexadecimal text -/

/-- `width` lowercase hexadecimal digits, most significant first. -/
def hexDigits (width value : ℕ) : String :=
  String.ofList ((digits 16 width value).reverse.map Nat.digitChar)

def hex (bytes : UInt64) : String := hexDigits 16 bytes.toNat

/-- Every byte as two digits. -/
def hexBytes (bytes : Bytes) : String := String.join (bytes.map fun byte => hexDigits 2 byte.toNat)

theorem hexDigits_injOn {width first second : ℕ} (smallFirst : first < 16 ^ width)
    (smallSecond : second < 16 ^ width) (same : hexDigits width first = hexDigits width second) :
    first = second := by
  have charInj : ∀ digit < 16, ∀ digit' < 16, Nat.digitChar digit = Nat.digitChar digit' →
      digit = digit' := by decide
  have chars := String.ofList_injective same
  rw [List.map_reverse, List.map_reverse, List.reverse_inj] at chars
  have read := KeyOrder.map_eq_of_map_eq (g := id) (fun digit member digit' member' =>
    charInj digit (digit_lt (by norm_num) width first digit member)
      digit' (digit_lt (by norm_num) width second digit' member')) chars
  rw [List.map_id, List.map_id] at read
  exact digits_injOn smallFirst smallSecond read

theorem hex_injective : Function.Injective hex := by
  intro first second same
  exact UInt64.toNat_inj.mp (hexDigits_injOn first.toNat_lt second.toNat_lt same)

/-! ### Frames -/

def TickHashRecord.toEntry (record : TickHashRecord) : TickHashEntry UInt64 :=
  { tick := record.tick, peerId := record.peerId, hash := hex record.hash }

def frameToLiveEvent : Frame → LiveEvent UInt64
  | .tickHash tick peerId hash => .tickHash { tick, peerId, hash := hex hash }
  | .entityHash tick peerId entityId hash => .entityHash { tick, peerId, entityId, hash := hex hash }
  | .fieldHash tick peerId entityId fieldName hash value =>
    .fieldHash { tick, peerId, entityId, fieldName, hash := hex hash, valueHex := hexBytes value }
  | .snapshot tick _ _ => .snapshot tick
  | .metadata .. => .metadata
  | .endOfStream => .endOfStream

/-- The variables of `load`'s loop over the frames; `minTick` starts at `u64::MAX`. -/
structure Loading where
  tickRecords : List TickHashRecord := []
  tickHashes : List (TickHashEntry UInt64) := []
  entityHashes : List (EntityHashEntry UInt64) := []
  fieldHashes : List (FieldHashEntry UInt64) := []
  snapshotTicks : List UInt64 := []
  metadataCount : ℕ := 0
  endedCleanly : Bool := false
  minTick : UInt64 := 0xFFFFFFFFFFFFFFFF
  maxTick : UInt64 := 0
  deriving DecidableEq, Repr

def Loading.add (loading : Loading) : Frame → Loading
  | .tickHash tick peerId hash =>
    { loading with
      minTick := min loading.minTick tick
      maxTick := max loading.maxTick tick
      tickRecords := loading.tickRecords ++ [{ tick, peerId, hash }]
      tickHashes := loading.tickHashes ++ [{ tick, peerId, hash := hex hash }] }
  | .entityHash tick peerId entityId hash =>
    { loading with
      entityHashes := loading.entityHashes ++ [{ tick, peerId, entityId, hash := hex hash }] }
  | .fieldHash tick peerId entityId fieldName hash value =>
    { loading with
      fieldHashes := loading.fieldHashes ++
        [{ tick, peerId, entityId, fieldName, hash := hex hash, valueHex := hexBytes value }] }
  | .snapshot tick _ _ => { loading with snapshotTicks := loading.snapshotTicks ++ [tick] }
  | .metadata .. => { loading with metadataCount := loading.metadataCount + 1 }
  | .endOfStream => { loading with endedCleanly := true }

/-- The end of `load`. `dedup` drops repeats of the sorted list's neighbours. -/
def Loading.finish (fileName : String) (header : Header) (loading : Loading) : SessionData UInt64 :=
  let data : SessionData UInt64 :=
    { fileName
      tickRateHz := header.tickRateHz
      peerCount := header.peerCount
      buildId := hexBytes header.buildId.toList
      minTick := if loading.minTick = 0xFFFFFFFFFFFFFFFF then 0 else loading.minTick
      maxTick := loading.maxTick
      endedCleanly := loading.endedCleanly
      tickHashes := loading.tickHashes
      entityHashes := loading.entityHashes
      fieldHashes := loading.fieldHashes
      snapshotTicks := loading.snapshotTicks
      metadataCount := loading.metadataCount
      divergenceTick := none }
  match findFirstDivergence loading.tickRecords with
  | none => data
  | some divergence =>
    { data with
      snapshotTicks := (loading.snapshotTicks.insertionSort (· ≤ ·)).destutter (· ≠ ·)
      divergenceTick := some divergence.tick }

/-- `fileName` is the path's last component, if it has one. -/
def load (path : String) (fileName : Option String) (opened : Except IoError Bytes) :
    Except LoadError (SessionData UInt64) := do
  let (header, frames) ← loadRecording (LoadError.wrap path) opened
  return (frames.foldl Loading.add {}).finish (fileName.getD path) header

/-! ### What the loop gathers -/

def recordsOf (frames : List Frame) : List TickHashRecord :=
  frames.filterMap fun
    | .tickHash tick peerId hash => some { tick, peerId, hash }
    | _ => none

def entityEntriesOf (frames : List Frame) : List (EntityHashEntry UInt64) :=
  frames.filterMap fun
    | .entityHash tick peerId entityId hash => some { tick, peerId, entityId, hash := hex hash }
    | _ => none

def fieldEntriesOf (frames : List Frame) : List (FieldHashEntry UInt64) :=
  frames.filterMap fun
    | .fieldHash tick peerId entityId fieldName hash value =>
      some { tick, peerId, entityId, fieldName, hash := hex hash, valueHex := hexBytes value }
    | _ => none

def snapshotTicksOf (frames : List Frame) : List UInt64 :=
  frames.filterMap fun
    | .snapshot tick _ _ => some tick
    | _ => none

def Frame.isMetadata : Frame → Bool
  | .metadata .. => true
  | _ => false

def Frame.isEndOfStream : Frame → Bool
  | .endOfStream => true
  | _ => false

/-- **What the loop gathers.** -/
theorem foldl_add (frames : List Frame) (loading : Loading) : frames.foldl Loading.add loading =
    { tickRecords := loading.tickRecords ++ recordsOf frames
      tickHashes := loading.tickHashes ++ (recordsOf frames).map TickHashRecord.toEntry
      entityHashes := loading.entityHashes ++ entityEntriesOf frames
      fieldHashes := loading.fieldHashes ++ fieldEntriesOf frames
      snapshotTicks := loading.snapshotTicks ++ snapshotTicksOf frames
      metadataCount := loading.metadataCount + frames.countP Frame.isMetadata
      endedCleanly := loading.endedCleanly || frames.any Frame.isEndOfStream
      minTick := ((recordsOf frames).map TickHashRecord.tick).foldl min loading.minTick
      maxTick := ((recordsOf frames).map TickHashRecord.tick).foldl max loading.maxTick } := by
  induction frames generalizing loading with
  | nil => simp [recordsOf, entityEntriesOf, fieldEntriesOf, snapshotTicksOf]
  | cons frame frames ih =>
    rw [List.foldl_cons, ih]
    cases frame with
    | metadata key value =>
      have counted : (Frame.metadata key value :: frames).countP Frame.isMetadata =
          frames.countP Frame.isMetadata + 1 := List.countP_cons_of_pos rfl
      rw [counted, Nat.add_comm _ 1, ← Nat.add_assoc]
      rfl
    | _ =>
      simp [Loading.add, recordsOf, entityEntriesOf, fieldEntriesOf, snapshotTicksOf,
        TickHashRecord.toEntry, Frame.isMetadata, Frame.isEndOfStream]

/-- The loop's variables at its end. -/
def Loading.ofFrames (frames : List Frame) : Loading := frames.foldl Loading.add {}

/-- **A file loads as what it holds.** -/
theorem load_holds (path : String) (fileName : Option String) {file : Bytes} {header : Header}
    {frames : List Frame} (holds : Holds file header frames) :
    load path fileName (.ok file) =
      .ok ((Loading.ofFrames frames).finish (fileName.getD path) header) := by
  rw [load, loadRecording_ok _ holds]
  rfl

/-! ### The data of a file -/

/-- The two endings of `load` differ in the divergence and in how snapshot ticks are listed. -/
theorem finish_eq (fileName : String) (header : Header) (loading : Loading) :
    ∃ snapshotTicks, (∀ tick, tick ∈ snapshotTicks ↔ tick ∈ loading.snapshotTicks) ∧
      loading.finish fileName header =
        { fileName
          tickRateHz := header.tickRateHz
          peerCount := header.peerCount
          buildId := hexBytes header.buildId.toList
          minTick := if loading.minTick = 0xFFFFFFFFFFFFFFFF then 0 else loading.minTick
          maxTick := loading.maxTick
          endedCleanly := loading.endedCleanly
          tickHashes := loading.tickHashes
          entityHashes := loading.entityHashes
          fieldHashes := loading.fieldHashes
          snapshotTicks
          metadataCount := loading.metadataCount
          divergenceTick := (findFirstDivergence loading.tickRecords).map DivergenceTick.tick } := by
  unfold Loading.finish
  rcases findFirstDivergence loading.tickRecords with _ | divergence
  · exact ⟨loading.snapshotTicks, fun _ => Iff.rfl, rfl⟩
  · refine ⟨_, fun tick => ?_, rfl⟩
    rw [(List.pairwise_insertionSort (· ≤ ·) loading.snapshotTicks).destutter_eq_dedup,
      List.mem_dedup, List.mem_insertionSort]

end Foldback
