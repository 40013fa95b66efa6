/-
**The `Session` API, as `session.rs` implements it.**

* `Session` is the source's record; `hashBytes` stands for `hash_bytes` (xxh3), a parameter of every
  function that hashes.
* Every recording method is an `Attempt Session Unit`: what it has changed before a failing write
  stays changed.
* `emit` is the common tail `if let Some(w) = &mut self.writer { frame.write_to(w)?; }`.
* `Call`, `Response` and `step` make the API a machine: a run is any sequence of calls.
-/

import Foldback.Core.Bisect
import Foldback.Core.RingBuffer
import Foldback.Core.Schema
import Foldback.Lib.Machine

namespace Foldback

open Grouping

structure PendingHash where
  tick : UInt64
  hash : UInt64
  deriving DecidableEq, Repr

structure Session where
  tickRateHz : UInt32
  peerCount : UInt32
  localPeerId : UInt16
  ring : RingBuffer (UInt64 × UInt64)
  pending : List PendingHash
  hashesByTick : Table UInt64 (UInt16 × UInt64)
  checkedTicks : Finset UInt64
  cumulative : UInt64
  writer : Option Sink
  writtenSchemas : Finset String

/-- `recordTo` is the outcome of `File::create` on the given path: an error, or an empty file and
the outcomes of the writes to come. -/
structure SessionBuilder where
  tickRateHz : UInt32 := 60
  peerCount : UInt32 := 1
  localPeerId : UInt16 := 0
  retention : ℕ := 600
  buildId : Vector UInt8 16 := Vector.replicate 16 0
  recordTo : Option (Except IoError (List Bool)) := none

namespace SessionBuilder

def header (builder : SessionBuilder) : Header :=
  Header.new builder.tickRateHz builder.peerCount builder.buildId

/-- The session `build` returns once it has its writer. -/
def session (builder : SessionBuilder) (writer : Option Sink) : Session where
  tickRateHz := builder.tickRateHz
  peerCount := builder.peerCount
  localPeerId := builder.localPeerId
  ring := RingBuffer.new builder.retention
  pending := []
  hashesByTick := ∅
  checkedTicks := ∅
  cumulative := 0
  writer := writer
  writtenSchemas := ∅

def build (builder : SessionBuilder) : Except Error Session :=
  match builder.recordTo with
  | none => .ok (builder.session none)
  | some (.error error) => .error (.io error)
  | some (.ok faults) =>
    match builder.header.writeTo ({ log := [], faults } : Sink) with
    | .ok _ sink => .ok (builder.session (some sink))
    | .error error _ => .error error

end SessionBuilder

/-- The 24 bytes `combine` hashes. -/
def combineBuffer (acc tick hash : UInt64) : Bytes := u64Bytes acc ++ (u64Bytes tick ++ u64Bytes hash)

def combine (hashBytes : Bytes → UInt64) (acc tick hash : UInt64) : UInt64 :=
  hashBytes (combineBuffer acc tick hash)

/-- Write one frame, when there is a writer. -/
def emit (frame : Frame) : Option Sink → Except Error Unit × Option Sink
  | none => (.ok (), none)
  | some sink =>
    match frame.writeTo sink with
    | .ok _ sink => (.ok (), some sink)
    | .error error sink => (.error error, some sink)

namespace Session

def writeFrame (frame : Frame) : Attempt Session Unit := fun session =>
  match emit frame session.writer with
  | (.ok _, writer) => .ok () { session with writer }
  | (.error error, writer) => .error error { session with writer }

def recordPeerHash (tick : UInt64) (peerId : UInt16) (hash : UInt64) : Attempt Session Unit := do
  modify fun session => { session with
    ring := session.ring.push (tick, hash)
    hashesByTick := push session.hashesByTick tick (peerId, hash) }
  writeFrame (.tickHash tick peerId hash)

def hashTick (hashBytes : Bytes → UInt64) (tick : UInt64) (stateBytes : Bytes) :
    Attempt Session Unit := do
  let hash := hashBytes stateBytes
  let session ← get
  recordPeerHash tick session.localPeerId hash
  modify fun session => { session with
    pending := session.pending ++ [{ tick, hash }]
    cumulative := combine hashBytes session.cumulative tick hash }

def recordPeerEntityHash (tick : UInt64) (peerId : UInt16) (entityId hash : UInt64) :
    Attempt Session Unit :=
  writeFrame (.entityHash tick peerId entityId hash)

def hashEntity (hashBytes : Bytes → UInt64) (tick entityId : UInt64) (stateBytes : Bytes) :
    Attempt Session Unit := do
  let session ← get
  recordPeerEntityHash tick session.localPeerId entityId (hashBytes stateBytes)

def recordPeerFieldHash (tick : UInt64) (peerId : UInt16) (entityId : UInt64) (fieldName : String)
    (hash : UInt64) (valueBytes : Bytes) : Attempt Session Unit :=
  writeFrame (.fieldHash tick peerId entityId fieldName hash valueBytes)

def hashField (hashBytes : Bytes → UInt64) (tick entityId : UInt64) (fieldName : String)
    (valueBytes : Bytes) : Attempt Session Unit := do
  let session ← get
  recordPeerFieldHash tick session.localPeerId entityId fieldName (hashBytes valueBytes) valueBytes

/-- The type is marked as written before its frame is. -/
def recordSchema (typeName : String) (trackedFields : List String) : Attempt Session Unit := do
  let session ← get
  if typeName ∈ session.writtenSchemas then return
  set { session with writtenSchemas := insert typeName session.writtenSchemas }
  writeFrame (.metadata (schemaMetadataKey typeName) (fingerprint trackedFields))

def takePendingHashes (session : Session) : List PendingHash × Session :=
  (session.pending, { session with pending := [] })

def pendingHashCount (session : Session) : ℕ := session.pending.length

def takePendingHashesUpTo (max : ℕ) (session : Session) : List PendingHash × Session :=
  let n := min session.pending.length max
  (session.pending.take n, { session with pending := session.pending.drop n })

/-- Ascending over the ticks: skip those already reported, return the first that disagrees. -/
def checkDivergence (session : Session) : Option DivergenceTick × Session :=
  match firstKey (fun tick peerHashes => !decide (tick ∈ session.checkedTicks) && disagree peerHashes)
      session.hashesByTick with
  | some tick => (some ⟨tick⟩, { session with checkedTicks := insert tick session.checkedTicks })
  | none => (none, session)

def finish (session : Session) : UInt64 := session.cumulative

def finishRecording : Attempt Session Unit := do
  writeFrame .endOfStream
  let session ← get
  match session.writer with
  | none => return
  | some sink =>
    match Sink.flush sink with
    | .ok _ sink => set { session with writer := some sink }
    | .error error sink =>
      set { session with writer := some sink }
      throw error

end Session

/-! ### The session as a machine -/

/-- One call of the API. -/
inductive Call
  | hashTick (tick : UInt64) (stateBytes : Bytes)
  | recordPeerHash (tick : UInt64) (peerId : UInt16) (hash : UInt64)
  | hashEntity (tick entityId : UInt64) (stateBytes : Bytes)
  | recordPeerEntityHash (tick : UInt64) (peerId : UInt16) (entityId hash : UInt64)
  | hashField (tick entityId : UInt64) (fieldName : String) (valueBytes : Bytes)
  | recordPeerFieldHash (tick : UInt64) (peerId : UInt16) (entityId : UInt64) (fieldName : String)
      (hash : UInt64) (valueBytes : Bytes)
  | recordSchema (typeName : String) (trackedFields : List String)
  | takePendingHashes
  | takePendingHashesUpTo (max : ℕ)
  | checkDivergence
  | finishRecording
  deriving DecidableEq, Repr

/-- What a call returns. -/
inductive Response
  | returned (result : Except Error Unit)
  | drained (hashes : List PendingHash)
  | divergence (found : Option DivergenceTick)
  deriving DecidableEq

/-- An attempt's result, and the state it leaves. -/
def outcome (attempt : Attempt Session Unit) (session : Session) : Response × Session :=
  match attempt session with
  | .ok _ session => (.returned (.ok ()), session)
  | .error error session => (.returned (.error error), session)

def step (hashBytes : Bytes → UInt64) (session : Session) : Call → Response × Session
  | .hashTick tick stateBytes => outcome (Session.hashTick hashBytes tick stateBytes) session
  | .recordPeerHash tick peerId hash => outcome (Session.recordPeerHash tick peerId hash) session
  | .hashEntity tick entityId stateBytes =>
    outcome (Session.hashEntity hashBytes tick entityId stateBytes) session
  | .recordPeerEntityHash tick peerId entityId hash =>
    outcome (Session.recordPeerEntityHash tick peerId entityId hash) session
  | .hashField tick entityId fieldName valueBytes =>
    outcome (Session.hashField hashBytes tick entityId fieldName valueBytes) session
  | .recordPeerFieldHash tick peerId entityId fieldName hash valueBytes =>
    outcome (Session.recordPeerFieldHash tick peerId entityId fieldName hash valueBytes) session
  | .recordSchema typeName trackedFields =>
    outcome (Session.recordSchema typeName trackedFields) session
  | .takePendingHashes =>
    let drained := session.takePendingHashes
    (.drained drained.1, drained.2)
  | .takePendingHashesUpTo max =>
    let drained := session.takePendingHashesUpTo max
    (.drained drained.1, drained.2)
  | .checkDivergence =>
    let checked := session.checkDivergence
    (.divergence checked.1, checked.2)
  | .finishRecording => outcome Session.finishRecording session

/-- A sequence of calls on a session: each call with its response, and the final session. -/
def run (hashBytes : Bytes → UInt64) (session : Session) (calls : List Call) :
    List (Call × Response) × Session :=
  Machine.run (step hashBytes) session calls

end Foldback
