/-
**`FFoldbackSession` and `UFoldbackSubsystem` of the Unreal plugin, over the C ABI.**

* `FFoldbackSession` owns a box and is moved, not copied. A `Member` is a member function; `none` is
  undefined, as is an array of negative size. An `FString` is its characters.
* `Engine` holds what the engine gives: the text of a buffer, what an array holds before it is written
  to, its sort and whether the build has metadata. Lengths are taken to fit an `int32`, that of
  `TakePendingHashes` apart. A `UObject` is what a call of `HashTaggedFields` reads.
* `Host` is the process with all its objects, `hostStep` one whole construction, move, destruction or
  call. `Overlap.momentStep` lets them begin and end; two that use one object must not overlap
  (`Move.clashes`).
* `specStep` is the program in which an object holds its session itself and hands it over when it is
  moved. `unreal_refines`: **every program of the plugin in which they do not returns what `specStep`
  says**: no session leaks, is destroyed twice or is used after it is gone.
-/

import Foldback.Lib.Overlap
import Foldback.Sys.Clients
import Foldback.Unreal.Walk

namespace Foldback.Unreal

open Sys WeakOrder Overlap

/-! ### `FFoldbackSession` -/

structure FConfig where
  tickRateHz : UInt32 := 60
  peerCount : UInt32 := 1
  localPeerId : UInt16 := 0
  retention : UInt32 := 0
  recordToPath : String := ""

structure FFoldbackSession where
  handle : SessionPtr := none
  lastError : String := ""

structure Engine where
  /-- `UTF8_TO_TCHAR`. -/
  utf8ToTchar : Bytes → String
  uninitialized : (num : ℕ) → Vector UInt8 num
  uninitializedHashes : (num : ℕ) → Vector PendingHash num
  /-- `TArray::Sort`. -/
  sort : Sorter
  withMetadata : Bool

/-- An object as the engine knows it while it is hashed. -/
structure UObject where
  structs : Structs
  hasMetaData : Property → Bool
  memory : Memory
  getClass : StructId
  pointer : Pointer

/-- A member function: it may change its object. -/
abbrev Member (α : Type) := StateT FFoldbackSession Native α

/-- `FTCHARToUTF8` of the characters before the terminator. -/
def tcharToUtf8 (text : String) : CString := terminated (untilNul text)

/-- What the engine does with an array of negative size is not defined. -/
def negativeSize {α : Type} : Native α := fun _ => none

def notConfigured : String := "session not configured — call Configure() first"

section Members

variable (env : Environment) (engine : Engine) (thread : ℕ)

def setLastErrorFromNative : Member Unit := do
  let (neededLen, _) ← foldbackLastError thread 0 .null
  if neededLen = 0 then
    modify fun this => { this with lastError := "" }
    return
  let buf := (engine.uninitialized (neededLen + 1)).toList
  let (_, buf) ← foldbackLastError thread (neededLen + 1) (.slots buf Vector.length_toList.ge)
  modify fun this =>
    { this with lastError := engine.utf8ToTchar (buf.takeWhile fun byte => byte ≠ 0) }

def nativeConfig (config : FConfig) : Config where
  tickRateHz := config.tickRateHz
  peerCount := config.peerCount
  localPeerId := config.localPeerId
  retention := config.retention
  buildId := Vector.replicate 16 0
  recordToPath := if config.recordToPath = "" then none else some (tcharToUtf8 config.recordToPath)

/-- `if (Handle) { foldback_session_destroy(Handle); Handle = nullptr; }` -/
def release : Member Unit := do
  let this ← get
  if this.handle ≠ none then
    foldbackSessionDestroy this.handle
    set { this with handle := none }

def configure (create : String → Except IoError (List Bool)) (config : FConfig) : Member Bool := do
  release
  let handle ← foldbackSessionCreate env thread create (some (nativeConfig config))
  modify fun this => { this with handle }
  if handle = none then
    setLastErrorFromNative engine thread
    return false
  modify fun this => { this with lastError := "" }
  return true

def isConfigured : Member Bool := do return (← get).handle.isSome

def getLastError : Member String := do return (← get).lastError

/-- The body of the members that call the ABI and look at the status. -/
def reporting (call : SessionPtr → Native Status) : Member Bool := do
  let this ← get
  if this.handle = none then
    set { this with lastError := notConfigured }
    return false
  let status ← call this.handle
  if status ≠ .ok then
    setLastErrorFromNative engine thread
    return false
  return true

def hashTick (tick : UInt64) (state : Bytes) : Member Bool :=
  reporting engine thread fun handle =>
    foldbackHashTick env thread handle tick state.length (.all state)

def recordPeerHash (tick : UInt64) (peerId : UInt16) (hash : UInt64) : Member Bool :=
  reporting engine thread fun handle => foldbackRecordPeerHash env thread handle tick peerId hash

def hashEntity (tick entityId : UInt64) (state : Bytes) : Member Bool :=
  reporting engine thread fun handle =>
    foldbackHashEntity env thread handle tick entityId state.length (.all state)

def recordPeerEntityHash (tick : UInt64) (peerId : UInt16) (entityId hash : UInt64) : Member Bool :=
  reporting engine thread fun handle =>
    foldbackRecordPeerEntityHash env thread handle tick peerId entityId hash

def hashField (tick entityId : UInt64) (fieldName : String) (value : Bytes) : Member Bool :=
  reporting engine thread fun handle =>
    foldbackHashField env thread handle tick entityId (some (tcharToUtf8 fieldName)) value.length
      (.all value)

def recordPeerFieldHash (tick : UInt64) (peerId : UInt16) (entityId : UInt64) (fieldName : String)
    (hash : UInt64) (value : Bytes) : Member Bool :=
  reporting engine thread fun handle =>
    foldbackRecordPeerFieldHash env thread handle tick peerId entityId
      (some (tcharToUtf8 fieldName)) hash value.length (.all value)

def pendingHashCount : Member ℕ := do
  let this ← get
  if this.handle = none then return 0
  Sys.foldbackPendingHashCount thread this.handle

/-- `static_cast<int32>(Max)` is the size of the array. -/
def takePendingHashes (max : UInt64) : Member (List (UInt64 × UInt64)) := do
  let this ← get
  if this.handle = none ∨ max = 0 then return []
  if max.toUInt32.toInt32 < 0 then
    negativeSize (α := Unit)
  let num := max.toUInt32.toNat
  let native := (engine.uninitializedHashes num).toList
  let (drained, native) ←
    Sys.foldbackTakePendingHashes thread this.handle num (.slots native Vector.length_toList.ge)
  return (native.take drained).map fun entry => (entry.tick, entry.hash)

/-- `outTick` is what the caller's variable holds. -/
def checkDivergence (outTick : UInt64) : Member (Bool × UInt64) := do
  let this ← get
  if this.handle = none then
    set { this with lastError := notConfigured }
    return (false, outTick)
  let (status, found, tick) ← foldbackCheckDivergence thread this.handle (some false) (some 0)
  if status ≠ .ok then
    setLastErrorFromNative engine thread
    return (false, outTick)
  let found := found.getD false
  return (found, if found then tick.getD 0 else outTick)

def finish : Member UInt64 := do
  let this ← get
  if this.handle = none then return 0
  foldbackFinish thread this.handle

def finishRecording : Member Bool :=
  reporting engine thread (foldbackFinishRecording env thread)

def tickRateHz : Member UInt32 := do
  let this ← get
  if this.handle = none then return 0
  foldbackTickRateHz thread this.handle

def peerCount : Member UInt32 := do
  let this ← get
  if this.handle = none then return 0
  foldbackPeerCount thread this.handle

end Members

/-- `~FFoldbackSession`. -/
def destruct (this : FFoldbackSession) : Native Unit := do
  if this.handle ≠ none then foldbackSessionDestroy this.handle

/-- The new object, and the one it was moved from. -/
def moveConstruct (other : FFoldbackSession) : FFoldbackSession × FFoldbackSession :=
  (other, { handle := none, lastError := "" })

/-- `operator=` of two objects that are not the same. -/
def moveAssign (this other : FFoldbackSession) : Native (FFoldbackSession × FFoldbackSession) := do
  destruct this
  return (other, { handle := none, lastError := "" })

/-! ### `UFoldbackSubsystem` -/

namespace UFoldbackSubsystem

structure FFoldbackConfigBP where
  tickRateHz : Int32 := 60
  peerCount : Int32 := 1
  localPeerId : Int32 := 0
  retention : Int32 := 0
  recordToPath : String := ""

structure FFoldbackPendingHashBP where
  tick : Int64
  hash : Int64
  deriving DecidableEq, Repr

def native (config : FFoldbackConfigBP) : FConfig where
  tickRateHz := config.tickRateHz.toUInt32
  peerCount := config.peerCount.toUInt32
  localPeerId := config.localPeerId.toUInt32.toUInt16
  retention := config.retention.toUInt32
  recordToPath := config.recordToPath

section Members

variable (env : Environment) (engine : Engine) (thread : ℕ)

def deinitialize : Member Unit := do
  let (session, temporary) ← moveAssign (← get) {}
  set session
  destruct temporary

def configure (create : String → Except IoError (List Bool)) (config : FFoldbackConfigBP) :
    Member Bool :=
  Unreal.configure env engine thread create (native config)

def isConfigured : Member Bool := Unreal.isConfigured

def getLastError : Member String := Unreal.getLastError

def hashTick (tick : Int64) (state : Bytes) : Member Bool :=
  Unreal.hashTick env engine thread tick.toUInt64 state

def recordPeerHash (tick : Int64) (peerId : Int32) (hash : Int64) : Member Bool :=
  Unreal.recordPeerHash env engine thread tick.toUInt64 peerId.toUInt32.toUInt16 hash.toUInt64

def hashEntity (tick entityId : Int64) (state : Bytes) : Member Bool :=
  Unreal.hashEntity env engine thread tick.toUInt64 entityId.toUInt64 state

def recordPeerEntityHash (tick : Int64) (peerId : Int32) (entityId hash : Int64) : Member Bool :=
  Unreal.recordPeerEntityHash env engine thread tick.toUInt64 peerId.toUInt32.toUInt16
    entityId.toUInt64 hash.toUInt64

def hashField (tick entityId : Int64) (fieldName : String) (value : Bytes) : Member Bool :=
  Unreal.hashField env engine thread tick.toUInt64 entityId.toUInt64 fieldName value

/-- `HashTaggedFields` of the reflective hasher, with its default depth. -/
def hashTaggedFields (tick entityId : Int64) : Option UObject → Member Bool
  | none => return false
  | some object =>
    Unreal.hashTaggedFields object.structs object.memory engine.sort
      (Unreal.hashField env engine thread tick.toUInt64 entityId.toUInt64) 8 engine.withMetadata
      object.hasMetaData (some object.getClass) (some object.pointer)

def recordPeerFieldHash (tick : Int64) (peerId : Int32) (entityId : Int64) (fieldName : String)
    (hash : Int64) (value : Bytes) : Member Bool :=
  Unreal.recordPeerFieldHash env engine thread tick.toUInt64 peerId.toUInt32.toUInt16
    entityId.toUInt64 fieldName hash.toUInt64 value

def pendingHashCount : Member Int64 := do
  return (UInt64.ofNat (← Unreal.pendingHashCount thread)).toInt64

def takePendingHashes (max : Int64) : Member (List FFoldbackPendingHashBP) := do
  if max ≤ 0 then return []
  return (← Unreal.takePendingHashes engine thread max.toUInt64).map fun pair =>
    ⟨pair.1.toInt64, pair.2.toInt64⟩

def checkDivergence (outTick : Int64) : Member (Bool × Int64) := do
  let (found, tick) ← Unreal.checkDivergence engine thread 0
  return (found, if found then tick.toInt64 else outTick)

def finish : Member Int64 := do return (← Unreal.finish thread).toInt64

def finishRecording : Member Bool := Unreal.finishRecording env engine thread

end Members

end UFoldbackSubsystem

/-! ### Programs -/

/-- A call on the subsystem. -/
inductive Blueprint
  | deinitialize
  | configure (create : String → Except IoError (List Bool))
      (config : UFoldbackSubsystem.FFoldbackConfigBP)
  | isConfigured
  | getLastError
  | hashTick (tick : Int64) (state : Bytes)
  | recordPeerHash (tick : Int64) (peerId : Int32) (hash : Int64)
  | hashEntity (tick entityId : Int64) (state : Bytes)
  | recordPeerEntityHash (tick : Int64) (peerId : Int32) (entityId hash : Int64)
  | hashField (tick entityId : Int64) (fieldName : String) (value : Bytes)
  | hashTaggedFields (tick entityId : Int64) (object : Option UObject)
  | recordPeerFieldHash (tick : Int64) (peerId : Int32) (entityId : Int64) (fieldName : String)
      (hash : Int64) (value : Bytes)
  | pendingHashCount
  | takePendingHashes (max : Int64)
  | checkDivergence (outTick : Int64)
  | finish
  | finishRecording

/-- A call on an object, or on the subsystem whose session it is. -/
inductive Method
  | configure (create : String → Except IoError (List Bool)) (config : FConfig)
  | isConfigured
  | getLastError
  | hashTick (tick : UInt64) (state : Bytes)
  | recordPeerHash (tick : UInt64) (peerId : UInt16) (hash : UInt64)
  | hashEntity (tick entityId : UInt64) (state : Bytes)
  | recordPeerEntityHash (tick : UInt64) (peerId : UInt16) (entityId hash : UInt64)
  | hashField (tick entityId : UInt64) (fieldName : String) (value : Bytes)
  | recordPeerFieldHash (tick : UInt64) (peerId : UInt16) (entityId : UInt64) (fieldName : String)
      (hash : UInt64) (value : Bytes)
  | pendingHashCount
  | takePendingHashes (max : UInt64)
  | checkDivergence (outTick : UInt64)
  | finish
  | finishRecording
  | tickRateHz
  | peerCount
  | blueprint (call : Blueprint)

inductive Returned
  | nothing
  | success (success : Bool)
  | text (text : String)
  | count (count : ℕ)
  | hashes (hashes : List (UInt64 × UInt64))
  | divergence (found : Bool) (tick : UInt64)
  | hash (hash : UInt64)
  | number (number : UInt32)
  | integer (integer : Int64)
  | entries (entries : List UFoldbackSubsystem.FFoldbackPendingHashBP)
  | signedDivergence (found : Bool) (tick : Int64)
  deriving DecidableEq, Repr

section Programs

variable (env : Environment) (engine : Engine) (thread : ℕ)

def Blueprint.invoke : Blueprint → Member Returned
  | Blueprint.deinitialize => (fun _ => .nothing) <$> UFoldbackSubsystem.deinitialize
  | .configure create config =>
    .success <$> UFoldbackSubsystem.configure env engine thread create config
  | .isConfigured => .success <$> UFoldbackSubsystem.isConfigured
  | .getLastError => .text <$> UFoldbackSubsystem.getLastError
  | .hashTick tick state => .success <$> UFoldbackSubsystem.hashTick env engine thread tick state
  | .recordPeerHash tick peerId hash =>
    .success <$> UFoldbackSubsystem.recordPeerHash env engine thread tick peerId hash
  | .hashEntity tick entityId state =>
    .success <$> UFoldbackSubsystem.hashEntity env engine thread tick entityId state
  | .recordPeerEntityHash tick peerId entityId hash =>
    .success <$>
      UFoldbackSubsystem.recordPeerEntityHash env engine thread tick peerId entityId hash
  | .hashField tick entityId fieldName value =>
    .success <$> UFoldbackSubsystem.hashField env engine thread tick entityId fieldName value
  | .hashTaggedFields tick entityId object =>
    .success <$> UFoldbackSubsystem.hashTaggedFields env engine thread tick entityId object
  | .recordPeerFieldHash tick peerId entityId fieldName hash value =>
    .success <$> UFoldbackSubsystem.recordPeerFieldHash env engine thread tick peerId entityId
      fieldName hash value
  | .pendingHashCount => .integer <$> UFoldbackSubsystem.pendingHashCount thread
  | .takePendingHashes max => .entries <$> UFoldbackSubsystem.takePendingHashes engine thread max
  | .checkDivergence outTick =>
    (fun checked => .signedDivergence checked.1 checked.2) <$>
      UFoldbackSubsystem.checkDivergence engine thread outTick
  | .finish => .integer <$> UFoldbackSubsystem.finish thread
  | .finishRecording => .success <$> UFoldbackSubsystem.finishRecording env engine thread

def Method.invoke : Method → Member Returned
  | .configure create config => .success <$> Unreal.configure env engine thread create config
  | .isConfigured => .success <$> Unreal.isConfigured
  | .getLastError => .text <$> Unreal.getLastError
  | .hashTick tick state => .success <$> Unreal.hashTick env engine thread tick state
  | .recordPeerHash tick peerId hash =>
    .success <$> Unreal.recordPeerHash env engine thread tick peerId hash
  | .hashEntity tick entityId state =>
    .success <$> Unreal.hashEntity env engine thread tick entityId state
  | .recordPeerEntityHash tick peerId entityId hash =>
    .success <$> Unreal.recordPeerEntityHash env engine thread tick peerId entityId hash
  | .hashField tick entityId fieldName value =>
    .success <$> Unreal.hashField env engine thread tick entityId fieldName value
  | .recordPeerFieldHash tick peerId entityId fieldName hash value =>
    .success <$>
      Unreal.recordPeerFieldHash env engine thread tick peerId entityId fieldName hash value
  | .pendingHashCount => .count <$> Unreal.pendingHashCount thread
  | .takePendingHashes max => .hashes <$> Unreal.takePendingHashes engine thread max
  | .checkDivergence outTick =>
    (fun checked => .divergence checked.1 checked.2) <$>
      Unreal.checkDivergence engine thread outTick
  | .finish => .hash <$> Unreal.finish thread
  | .finishRecording => .success <$> Unreal.finishRecording env engine thread
  | .tickRateHz => .number <$> Unreal.tickRateHz thread
  | .peerCount => .number <$> Unreal.peerCount thread
  | .blueprint call => call.invoke env engine thread

/-- What happens to the objects of a program. -/
inductive Move
  | construct (id : ℕ)
  | moveConstruct (id other : ℕ)
  | moveAssign (id other : ℕ)
  | destruct (id : ℕ)
  | invoke (id : ℕ) (method : Method)

/-- `nothing` is the answer where an object does not exist, or exists already. -/
inductive Result
  | returned (returned : Returned)
  | done
  | nothing
  deriving DecidableEq, Repr

structure Host where
  process : Process := {}
  objects : ℕ → Option FFoldbackSession := fun _ => none

/-- One move by a thread, if it is defined. -/
def hostStep (host : Host) (made : ℕ × Move) : Option (Result × Host) :=
  match made.2 with
  | .construct id =>
    match host.objects id with
    | some _ => some (.nothing, host)
    | none => some (.done, { host with objects := Function.update host.objects id (some {}) })
  | .moveConstruct id other =>
    match host.objects id, host.objects other with
    | none, some object =>
      let moved := moveConstruct object
      some (.done, { host with
        objects := Function.update (Function.update host.objects id (some moved.1)) other
          (some moved.2) })
    | _, _ => some (.nothing, host)
  | .moveAssign id other =>
    if id = other then some (.done, host)
    else
      match host.objects id, host.objects other with
      | some this, some object =>
        (moveAssign this object host.process).map fun answer =>
          (.done, ⟨answer.2, Function.update (Function.update host.objects id (some answer.1.1)) other
            (some answer.1.2)⟩)
      | _, _ => some (.nothing, host)
  | .destruct id =>
    match host.objects id with
    | none => some (.nothing, host)
    | some this =>
      (destruct this host.process).map fun answer =>
        (.done, ⟨answer.2, Function.update host.objects id none⟩)
  | .invoke id method =>
    match host.objects id with
    | none => some (.nothing, host)
    | some this =>
      (method.invoke env engine made.1 this host.process).map fun answer =>
        (.returned answer.1.1, ⟨answer.2, Function.update host.objects id (some answer.1.2)⟩)

end Programs

/-! ### What a program does to its sessions -/

/-- An object that holds its session itself. -/
structure Object where
  session : Option Session := none
  lastError : String := ""

section Spec

variable (env : Environment) (engine : Engine)

/-- The text of a message of the native side, up to a terminator. -/
def shown (message : String) : String :=
  engine.utf8ToTchar ((asBytes message).takeWhile fun byte => byte ≠ 0)

/-- One call of the `Session` API behind a member. -/
def reported (name : String) (call : Call) (object : Object) : Bool × Object :=
  match object.session with
  | none => (false, { object with lastError := notConfigured })
  | some session =>
    let made := step env.hashBytes session call
    match errorOf env name made.1 with
    | some message => (false, ⟨some made.2, shown engine message⟩)
    | none => (true, ⟨some made.2, object.lastError⟩)

/-- The builder of a configuration. -/
def FConfig.builder (create : String → Except IoError (List Bool)) (config : FConfig) :
    SessionBuilder where
  tickRateHz := config.tickRateHz
  peerCount := config.peerCount
  localPeerId := config.localPeerId
  buildId := Vector.replicate 16 0
  retention := if config.retention = 0 then 600 else config.retention.toNat
  recordTo := if config.recordToPath = "" then none else some (create (untilNul config.recordToPath))

/-- A session that is there is dropped, whether or not another can be built. -/
def configured (create : String → Except IoError (List Bool)) (config : FConfig) : Bool × Object :=
  match (config.builder create).build with
  | .ok session => (true, ⟨some session, ""⟩)
  | .error error => (false, ⟨none, shown engine ("could not build session: " ++ error.display env.ioText)⟩)

/-- The number of hashes that `TakePendingHashes` has room for: the low half of `Max`. -/
def capacity (max : UInt64) : ℕ := max.toUInt32.toNat

def taken (max : UInt64) (object : Object) : Option (List (UInt64 × UInt64) × Object) :=
  match object.session with
  | none => some ([], object)
  | some session =>
    if max = 0 then some ([], object)
    else if 2 ^ 31 ≤ capacity max then none
    else
      some ((session.pending.take (capacity max)).map fun entry => (entry.tick, entry.hash),
        { object with session := some { session with pending := session.pending.drop (capacity max) } })

def checked (outTick : UInt64) (object : Object) : (Bool × UInt64) × Object :=
  match object.session with
  | none => ((false, outTick), { object with lastError := notConfigured })
  | some session =>
    let found := session.checkDivergence
    ((found.1.isSome, (found.1.map (·.tick)).getD outTick), { object with session := some found.2 })

/-- `HashField` for each field, one after another: whether all were recorded, and what was so before. -/
def hashed (tick entityId : UInt64) (fields : List (String × Bytes)) (allOk : Bool)
    (object : Object) : Bool × Object :=
  fields.foldl (fun before field =>
    let done := reported env engine "hash_field"
      (.hashField tick entityId (untilNul field.1) field.2) before.2
    (done.1 && before.1, done.2)) (allOk, object)

/-- The tagged fields of an object whose walk succeeds are hashed with their canonical bytes. -/
def hashedTagged (tick entityId : UInt64) (tagged : UObject) (object : Object) : Bool × Object :=
  let fields := getTaggedProperties tagged.structs tagged.hasMetaData tagged.getClass
  let passes := fieldPasses tagged.structs tagged.memory 8 tagged.pointer
  if engine.withMetadata then
    hashed env engine tick entityId
      ((fields.filter passes).map
        (fieldOf tagged.structs tagged.memory engine.sort 8 tagged.pointer))
      (fields.all passes) object
  else (false, object)

/-- A look at the session, or a default. -/
def Object.look {α : Type} (default : α) (look : Session → α) (object : Object) : α :=
  object.session.elim default look

/-- **What a member of `FFoldbackSession` does to its object**, if it is defined. -/
def act (object : Object) : Method → Option (Returned × Object)
  | .configure create config => succeeds (configured env engine create config)
  | .isConfigured => some (.success object.session.isSome, object)
  | .getLastError => some (.text object.lastError, object)
  | .hashTick tick state => reports "hash_tick" (.hashTick tick state)
  | .recordPeerHash tick peerId hash => reports "record_peer_hash" (.recordPeerHash tick peerId hash)
  | .hashEntity tick entityId state => reports "hash_entity" (.hashEntity tick entityId state)
  | .recordPeerEntityHash tick peerId entityId hash =>
    reports "record_peer_entity_hash" (.recordPeerEntityHash tick peerId entityId hash)
  | .hashField tick entityId fieldName value =>
    reports "hash_field" (.hashField tick entityId (untilNul fieldName) value)
  | .recordPeerFieldHash tick peerId entityId fieldName hash value =>
    reports "record_peer_field_hash"
      (.recordPeerFieldHash tick peerId entityId (untilNul fieldName) hash value)
  | .pendingHashCount => some (.count (object.look 0 Session.pendingHashCount), object)
  | .takePendingHashes max => (taken max object).map fun done => (.hashes done.1, done.2)
  | .checkDivergence outTick =>
    let done := checked outTick object
    some (.divergence done.1.1 done.1.2, done.2)
  | .finish => some (.hash (object.look 0 Session.finish), object)
  | .finishRecording => reports "finish_recording" .finishRecording
  | .tickRateHz => some (.number (object.look 0 Session.tickRateHz), object)
  | .peerCount => some (.number (object.look 0 Session.peerCount), object)
  -- Blueprint has no unsigned integers: the bits of each argument and result are kept.
  | .blueprint Blueprint.deinitialize => some (.nothing, {})
  | .blueprint (.configure create config) =>
    succeeds (configured env engine create (UFoldbackSubsystem.native config))
  | .blueprint .isConfigured => some (.success object.session.isSome, object)
  | .blueprint .getLastError => some (.text object.lastError, object)
  | .blueprint (.hashTick tick state) => reports "hash_tick" (.hashTick tick.toUInt64 state)
  | .blueprint (.recordPeerHash tick peerId hash) =>
    reports "record_peer_hash"
      (.recordPeerHash tick.toUInt64 peerId.toUInt32.toUInt16 hash.toUInt64)
  | .blueprint (.hashEntity tick entityId state) =>
    reports "hash_entity" (.hashEntity tick.toUInt64 entityId.toUInt64 state)
  | .blueprint (.recordPeerEntityHash tick peerId entityId hash) =>
    reports "record_peer_entity_hash" (.recordPeerEntityHash tick.toUInt64 peerId.toUInt32.toUInt16
      entityId.toUInt64 hash.toUInt64)
  | .blueprint (.hashField tick entityId fieldName value) =>
    reports "hash_field" (.hashField tick.toUInt64 entityId.toUInt64 (untilNul fieldName) value)
  | .blueprint (.hashTaggedFields _ _ none) => some (.success false, object)
  | .blueprint (.hashTaggedFields tick entityId (some tagged)) =>
    succeeds (hashedTagged env engine tick.toUInt64 entityId.toUInt64 tagged object)
  | .blueprint (.recordPeerFieldHash tick peerId entityId fieldName hash value) =>
    reports "record_peer_field_hash" (.recordPeerFieldHash tick.toUInt64 peerId.toUInt32.toUInt16
      entityId.toUInt64 (untilNul fieldName) hash.toUInt64 value)
  | .blueprint .pendingHashCount =>
    some (.integer (UInt64.ofNat (object.look 0 Session.pendingHashCount)).toInt64, object)
  | .blueprint (.takePendingHashes max) =>
    if max ≤ 0 then some (.entries [], object)
    else
      (taken max.toUInt64 object).map fun done =>
        (.entries (done.1.map fun pair => ⟨pair.1.toInt64, pair.2.toInt64⟩), done.2)
  | .blueprint (.checkDivergence outTick) =>
    let done := checked 0 object
    some (.signedDivergence done.1.1 (if done.1.1 then done.1.2.toInt64 else outTick), done.2)
  | .blueprint .finish => some (.integer (object.look 0 Session.finish).toInt64, object)
  | .blueprint .finishRecording => reports "finish_recording" .finishRecording
where
  succeeds (done : Bool × Object) : Option (Returned × Object) := some (.success done.1, done.2)
  reports (name : String) (call : Call) : Option (Returned × Object) :=
    succeeds (reported env engine name call object)

/-- **A program in which an object holds its session**, and hands it over when it is moved. -/
def specStep (objects : ℕ → Option Object) (made : ℕ × Move) :
    Option (Result × (ℕ → Option Object)) :=
  match made.2 with
  | .construct id =>
    match objects id with
    | some _ => some (.nothing, objects)
    | none => some (.done, Function.update objects id (some {}))
  | .moveConstruct id other =>
    match objects id, objects other with
    | none, some object =>
      some (.done, Function.update (Function.update objects id (some object)) other (some {}))
    | _, _ => some (.nothing, objects)
  | .moveAssign id other =>
    if id = other then some (.done, objects)
    else
      match objects id, objects other with
      | some _, some object =>
        some (.done, Function.update (Function.update objects id (some object)) other (some {}))
      | _, _ => some (.nothing, objects)
  | .destruct id =>
    match objects id with
    | none => some (.nothing, objects)
    | some _ => some (.done, Function.update objects id none)
  | .invoke id method =>
    match objects id with
    | none => some (.nothing, objects)
    | some object =>
      (act env engine object method).map fun answer =>
        (.returned answer.1, Function.update objects id (some answer.2))

end Spec

/-! ### Every member does what `act` says -/

section Members

variable {env : Environment} {engine : Engine} {thread address : ℕ} {process : Process}
  {this : FFoldbackSession} {session : Session}

variable (process this) in
theorem run_bind_native {α β : Type} (native : Native α) (next : α → Member β) :
    (do let answer ← native; next answer : Member β) this process =
      (native process).bind fun answer => next answer.1 this answer.2 := by
  show ((native process).bind fun answer => some ((answer.1, this), answer.2)).bind _ = _
  rcases native process with _ | answer
  · rfl
  · rfl

theorem run_map {α β : Type} (f : α → β) (member : Member α) :
    (f <$> member) this process =
      (member this process).map fun answer => ((f answer.1.1, answer.1.2), answer.2) := by
  show (member this process).bind _ = _
  rcases member this process with _ | answer
  · rfl
  · rfl

/-- The object shows the error that the thread was just left with. -/
theorem setLastErrorFromNative_run {message : String}
    (pending : process.lastError thread = some message) (nonempty : message ≠ "") :
    setLastErrorFromNative engine thread this process =
      some (((), { this with lastError := shown engine message }), process) := by
  have length := foldbackLastError_length pending
  have room : (asBytes message).length + 1 ≤
      (engine.uninitialized ((asBytes message).length + 1)).toList.length := Vector.length_toList.ge
  have whole := foldbackLastError_written pending (Nat.succ_pos (asBytes message).length) room
  rw [written_whole] at whole
  rw [setLastErrorFromNative, run_bind_native, length, Option.bind_some]
  dsimp only
  rw [if_neg (asBytes_length_ne_zero nonempty)]
  refine (run_bind_native _ _ _ _).trans ?_
  rw [whole, Option.bind_some]
  dsimp only
  rw [takeWhile_terminated]
  rfl

/-- **A member does to every object that owns its box what `does` says**, if it is defined. -/
def Enacts {α : Type} (member : Member α) (does : Object → Option (α × Object)) : Prop :=
  ∀ ⦃process handles sessions id this object⦄, Sys.Owns process handles sessions →
    handles id = this.handle → sessions id = object.session → this.lastError = object.lastError →
      (member this process = none ∧ does object = none) ∨
        ∃ value after now process', member this process = some ((value, after), process') ∧
          does object = some (value, now) ∧
          Sys.Owns process' (Function.update handles id after.handle)
            (Function.update sessions id now.session) ∧
          after.lastError = now.lastError

theorem Enacts.map {α β : Type} {member : Member α} {does : Object → Option (α × Object)}
    (same : Enacts member does) (f : α → β) :
    Enacts (f <$> member) fun object => (does object).map fun done => (f done.1, done.2) := by
  intro process handles sessions id this object owns held holds texts
  dsimp only
  rw [run_map]
  rcases same owns held holds texts with ⟨undefined, undefined'⟩ | ⟨value, after, now, process', ran,
    done, owned, texts'⟩
  · rw [undefined, undefined']
    exact .inl ⟨rfl, rfl⟩
  · rw [ran, done]
    exact .inr ⟨f value, after, now, process', rfl, rfl, owned, texts'⟩

theorem Enacts.pure {α : Type} (value : α) :
    Enacts (Pure.pure value : Member α) fun object => some (value, object) := by
  intro process handles sessions id this object owns held holds texts
  refine .inr ⟨value, this, object, process, rfl, rfl, ?_, texts⟩
  exact owns.same held holds

/-- One member after another. -/
theorem Enacts.bind {α β : Type} {member : Member α} {does : Object → Option (α × Object)}
    {next : α → Member β} {doesNext : α → Object → Option (β × Object)}
    (first : Enacts member does) (second : ∀ value, Enacts (next value) (doesNext value)) :
    Enacts (member >>= next) fun object =>
      (does object).bind fun done => doesNext done.1 done.2 := by
  intro process handles sessions id this object owns held holds texts
  have run : (member >>= next) this process =
      (member this process).bind fun answer => next answer.1.1 answer.1.2 answer.2 := rfl
  dsimp only
  rw [run]
  rcases first owns held holds texts with ⟨undefined, undefined'⟩ | ⟨value, after, now, process', ran,
    done, owned, texts'⟩
  · rw [undefined, undefined']
    exact .inl ⟨rfl, rfl⟩
  · have again := second value owned (Function.update_self ..) (Function.update_self ..) texts'
    simp only [Function.update_idem] at again
    rw [ran, done]
    exact again

/-- A member that keeps the box of its object, and calls the ABI on it at most. -/
theorem Enacts.intro {α : Type} {member : Member α} {does : Object → Option (α × Object)} (thread : ℕ)
    (empty : ∀ process text, ∃ value text',
      member ⟨none, text⟩ process = some ((value, ⟨none, text'⟩), process) ∧
        does ⟨none, text⟩ = some (value, ⟨none, text'⟩))
    (live : ∀ process address session text, process.session address = some session →
      (member ⟨some address, text⟩ process = none ∧ does ⟨some session, text⟩ = none) ∨
        ∃ value text' handle, member ⟨some address, text⟩ process =
            some ((value, ⟨some address, text'⟩), process.store thread address handle) ∧
          does ⟨some session, text⟩ = some (value, ⟨some handle.session, text'⟩)) :
    Enacts member does := by
  rintro process handles sessions id ⟨_ | address, text⟩ ⟨session, text'⟩ owns held holds rfl
  · have gone : session = none := holds.symm.trans (owns.vacant id held)
    subst gone
    obtain ⟨value, text', ran, done⟩ := empty process text
    refine .inr ⟨value, _, _, process, ran, done, ?_, rfl⟩
    exact owns.same held holds
  · obtain ⟨now, alive, is⟩ := owns.live held
    have stands : session = some now := holds.symm.trans is
    subst stands
    rcases live process address now text alive with undefined | ⟨value, text', handle, ran, done⟩
    · exact .inl undefined
    · refine .inr ⟨value, _, _, _, ran, done, ?_, rfl⟩
      dsimp only at held ⊢
      rw [← held, Function.update_eq_self]
      exact owns.perform held thread handle

theorem errorOf_ne_empty {name message : String} {response : Response}
    (failed : errorOf env name response = some message) : message ≠ "" := by
  unfold errorOf at failed
  split at failed
  · rw [Option.some.injEq] at failed
    rintro rfl
    have length := congrArg String.length failed
    simp at length
  · cases failed

theorem enacts_reporting {native : SessionPtr → Native Status} {name : String} {call : Call}
    (serves : Serves env thread native name call) :
    Enacts (reporting engine thread native)
      fun object => some (reported env engine name call object) := by
  refine Enacts.intro thread (fun process text => ⟨false, notConfigured, rfl, rfl⟩)
    fun process address session text live => .inr ?_
  have run : reporting engine thread native ⟨some address, text⟩ process =
      (native (some address) process).bind fun answer =>
        (if answer.1 ≠ .ok then do
          setLastErrorFromNative engine thread
          return false
        else return true : Member Bool) ⟨some address, text⟩ answer.2 :=
    run_bind_native _ _ (native (some address)) fun status => if status ≠ .ok then do
        setLastErrorFromNative engine thread
        return false
      else return true
  rw [run, serves live]
  simp only [reported]
  rcases failed : errorOf env name (step env.hashBytes session call).1 with _ | message
  · exact ⟨true, text, _, rfl, rfl⟩
  · have pending : (process.store thread address ⟨(step env.hashBytes session call).2,
        some message⟩).lastError thread = some message := Function.update_self ..
    have set : setLastErrorFromNative engine thread ⟨some address, text⟩ _ = _ :=
      setLastErrorFromNative_run pending (errorOf_ne_empty failed)
    refine ⟨false, shown engine message, ⟨(step env.hashBytes session call).2, some message⟩, ?_, rfl⟩
    show (setLastErrorFromNative engine thread ⟨some address, text⟩ _).bind _ = _
    rw [set]
    rfl

/-- A member that reads the session, or gives a default. -/
theorem enacts_look {α : Type} {native : SessionPtr → Native α} {default : α} {look : Session → α}
    (looks : ∀ process address session, process.session address = some session →
      native (some address) process =
        some (look session, process.store thread address ⟨session, none⟩)) :
    Enacts (do
        let this ← get
        if this.handle = none then return default
        native this.handle : Member α)
      fun object => some (object.look default look, object) := by
  refine Enacts.intro thread (fun process text => ⟨default, text, rfl, rfl⟩)
    fun process address session text live => .inr ⟨look session, text, ⟨session, none⟩, ?_, rfl⟩
  show (native (some address) process).bind _ = _
  rw [looks process address session live]
  rfl

/-- A member that reads the object alone. -/
theorem enacts_read {α : Type} (fromThis : FFoldbackSession → α) (fromObject : Object → α)
    (empty : ∀ text, fromThis ⟨none, text⟩ = fromObject ⟨none, text⟩)
    (live : ∀ address session text, fromThis ⟨some address, text⟩ = fromObject ⟨some session, text⟩) :
    Enacts (do return fromThis (← get) : Member α) fun object => some (fromObject object, object) := by
  refine Enacts.intro 0 (fun process text => ⟨_, text, rfl, by rw [empty]⟩)
    fun process address session text here => .inr
      ⟨fromThis ⟨some address, text⟩, text, ⟨session, process.lastError 0⟩, ?_, by
        rw [live address session]⟩
  rw [store_same 0 here]
  rfl

theorem enacts_checkDivergence (outTick : UInt64) :
    Enacts (Unreal.checkDivergence engine thread outTick) fun object => some (checked outTick object) := by
  refine Enacts.intro thread (fun process text => ⟨(false, outTick), notConfigured, rfl, rfl⟩)
    fun process address session text live => .inr ⟨_, text, ⟨session.checkDivergence.2, none⟩, ?_, rfl⟩
  have run := run_bind_native process ⟨some address, text⟩
    (foldbackCheckDivergence thread (some address) (some false) (some 0))
    fun answer => if answer.1 ≠ .ok then do
        setLastErrorFromNative engine thread
        return (false, outTick)
      else return (answer.2.1.getD false,
        if answer.2.1.getD false then answer.2.2.getD 0 else outTick)
  rw [foldbackCheckDivergence_live live] at run
  refine run.trans ?_
  rcases session.checkDivergence with ⟨_ | found, after⟩
  · rfl
  · rfl

theorem toInt32_lt_zero (bits : UInt32) : bits.toInt32 < 0 ↔ 2 ^ 31 ≤ bits.toNat := by
  rw [Int32.lt_iff_toInt_lt]
  show bits.toBitVec.toInt < 0 ↔ 2 ^ 31 ≤ bits.toBitVec.toNat
  rw [BitVec.toInt_neg_iff]
  omega

theorem enacts_takePendingHashes (max : UInt64) :
    Enacts (Unreal.takePendingHashes engine thread max) (taken max) := by
  refine Enacts.intro thread (fun process text => ⟨[], text, rfl, rfl⟩)
    fun process address session text live => ?_
  by_cases zero : max = 0
  · refine .inr ⟨[], text, ⟨session, process.lastError thread⟩, ?_, by simp only [taken, if_pos zero]⟩
    rw [store_same thread live, zero]
    rfl
  · have nonzero : ¬ ((some address : SessionPtr) = none ∨ max = 0) := by simp [zero]
    have sized : max.toUInt32.toInt32 < 0 ↔ 2 ^ 31 ≤ capacity max := toInt32_lt_zero max.toUInt32
    by_cases negative : max.toUInt32.toInt32 < 0
    · refine .inl ⟨?_, by simp only [taken, if_neg zero, if_pos (sized.mp negative)]⟩
      show (if (some address : SessionPtr) = none ∨ max = 0 then _ else _ : Member _) _ _ = _
      rw [if_neg nonzero, if_pos negative]
      exact run_bind_native _ _ _ _
    · refine .inr ⟨(session.pending.take (capacity max)).map fun entry => (entry.tick, entry.hash), text,
        ⟨{ session with pending := session.pending.drop (capacity max) }, none⟩, ?_, by
          simp only [taken, if_neg zero, if_neg (sized.not.mp negative)]⟩
      show (if (some address : SessionPtr) = none ∨ max = 0 then _ else _ : Member _) _ _ = _
      rw [if_neg nonzero, if_neg negative]
      dsimp only
      refine (run_bind_native _ _ _ _).trans ?_
      rw [foldbackTakePendingHashes_live live, Option.bind_some]
      dsimp only
      rw [List.take_left]
      rfl

/-- **A box is released once**: its owner has none afterwards. -/
theorem release_run {handles : ℕ → SessionPtr} {sessions : ℕ → Option Session} {id : ℕ}
    (owns : Sys.Owns process handles sessions) (held : handles id = this.handle) :
    ∃ process', release this process = some (((), { this with handle := none }), process') ∧
      Sys.Owns process' (Function.update handles id none) (Function.update sessions id none) := by
  rcases this with ⟨_ | address, text⟩
  · refine ⟨process, rfl, ?_⟩
    exact owns.same held (owns.vacant id held)
  · obtain ⟨session, live, -⟩ := owns.live held
    refine ⟨_, ?_, owns.destroy held⟩
    have run := run_bind_native process ⟨some address, text⟩
      (foldbackSessionDestroy (some address)) fun _ => (set (⟨none, text⟩ : FFoldbackSession) : Member Unit)
    rw [foldbackSessionDestroy_live live] at run
    exact run

theorem strFromRaw_tcharToUtf8 (utf8Error : Bytes → String) (label text : String) :
    strFromRaw utf8Error label (some (tcharToUtf8 text)) = .ok (untilNul text) := by
  have clean : '\x00' ∉ (untilNul text).toList := by
    rw [untilNul, String.toList_ofList]
    intro nul
    have kept := List.mem_takeWhile_imp nul
    simp at kept
  rw [tcharToUtf8, strFromRaw_terminated, untilNul_of_not_mem clean]

theorem createSession_nativeConfig (env : Environment)
    (create : String → Except IoError (List Bool)) (config : FConfig) :
    createSession env create (some (nativeConfig config)) =
      (config.builder create).build.mapError fun error =>
        "could not build session: " ++ error.display env.ioText := by
  by_cases unrecorded : config.recordToPath = ""
  · have named : PathIs env (nativeConfig config) none := if_pos unrecorded
    rw [createSession_path named, FConfig.builder, if_pos unrecorded]
    rfl
  · have clean : '\x00' ∉ (untilNul config.recordToPath).toList := by
      rw [untilNul, String.toList_ofList]
      intro nul
      have kept := List.mem_takeWhile_imp nul
      simp at kept
    have named : PathIs env (nativeConfig config) (some (untilNul config.recordToPath)) := by
      refine ⟨tcharToUtf8 config.recordToPath, if_neg unrecorded, ?_⟩
      rw [tcharToUtf8, strFromRaw_terminated, untilNul_of_not_mem clean]
    rw [createSession_path named, FConfig.builder, if_neg unrecorded]
    rfl

variable (env engine thread) in
/-- A session is built where there was none, or the reason why not is shown. -/
theorem create_run {handles : ℕ → SessionPtr} {sessions : ℕ → Option Session} {id : ℕ}
    (create : String → Except IoError (List Bool)) (config : FConfig) (text : String)
    (owns : Sys.Owns process handles sessions) (vacant : handles id = none) :
    ∃ value after now process', (do
        let handle ← foldbackSessionCreate env thread create (some (nativeConfig config))
        modify fun this => { this with handle }
        if handle = none then
          setLastErrorFromNative engine thread
          return false
        modify fun this => { this with lastError := "" }
        return true : Member Bool) ⟨none, text⟩ process = some ((value, after), process') ∧
      configured env engine create config = (value, now) ∧
      Sys.Owns process' (Function.update handles id after.handle)
        (Function.update sessions id now.session) ∧ after.lastError = now.lastError := by
  rw [run_bind_native, foldbackSessionCreate, createSession_nativeConfig]
  unfold configured
  rcases (config.builder create).build with error | session
  · have pending : (process.setError thread (some ("could not build session: " ++
        error.display env.ioText))).lastError thread =
          some ("could not build session: " ++ error.display env.ioText) := Function.update_self ..
    have nonempty : "could not build session: " ++ error.display env.ioText ≠ "" := by simp
    have set : setLastErrorFromNative engine thread ⟨none, text⟩ _ = _ :=
      setLastErrorFromNative_run pending nonempty
    refine ⟨false, ⟨none, shown engine ("could not build session: " ++ error.display env.ioText)⟩, _,
      process.setError thread (some ("could not build session: " ++ error.display env.ioText)), ?_, rfl,
      ?_, rfl⟩
    · show (setLastErrorFromNative engine thread ⟨none, text⟩ _).bind _ = _
      rw [set]
      rfl
    · exact (owns.setError thread _).same vacant (owns.vacant id vacant)
  · refine ⟨true, ⟨some process.sessions.length, ""⟩, _, _, rfl, rfl, ?_, rfl⟩
    exact (owns.create vacant session).setError thread none

theorem enacts_configure (create : String → Except IoError (List Bool)) (config : FConfig) :
    Enacts (Unreal.configure env engine thread create config)
      fun _ => some (configured env engine create config) := by
  intro process handles sessions id this _ owns held holds texts
  obtain ⟨process', released, owned⟩ := release_run owns held
  obtain ⟨value, after, now, process'', ran, done, owned', texts'⟩ :=
    create_run env engine thread create config this.lastError owned (Function.update_self ..)
  refine .inr ⟨value, after, now, process'', ?_, congrArg some done, ?_, texts'⟩
  · show (release this process).bind _ = _
    rw [released]
    exact ran
  · rwa [Function.update_idem, Function.update_idem] at owned'

/-- The box of an object that is destroyed, or assigned to, is destroyed with it. -/
theorem destruct_run {handles : ℕ → SessionPtr} {sessions : ℕ → Option Session} {id : ℕ}
    (owns : Sys.Owns process handles sessions) (held : handles id = this.handle) :
    ∃ process', destruct this process = some ((), process') ∧
      Sys.Owns process' (Function.update handles id none) (Function.update sessions id none) := by
  rcases this with ⟨_ | address, text⟩
  · exact ⟨process, rfl, owns.same held (owns.vacant id held)⟩
  · obtain ⟨session, live, -⟩ := owns.live held
    exact ⟨_, foldbackSessionDestroy_live live, owns.destroy held⟩

theorem enacts_deinitialize : Enacts UFoldbackSubsystem.deinitialize fun _ => some ((), {}) := by
  intro process handles sessions id this _ owns held holds texts
  obtain ⟨process', destroyed, owned⟩ := destruct_run owns held
  refine .inr ⟨(), {}, {}, process', ?_, rfl, owned, rfl⟩
  have run := run_bind_native process this (moveAssign this {}) fun moved => do
    set moved.1
    destruct moved.2
  refine run.trans ?_
  rw [show moveAssign this {} process = some (({}, {}), process') from ?_]
  · rfl
  · show (destruct this process).bind _ = _
    rw [destroyed]
    rfl

theorem enacts_pendingHashCount :
    Enacts (Unreal.pendingHashCount thread)
      fun object => some (object.look 0 Session.pendingHashCount, object) :=
  enacts_look fun _ _ _ live => foldbackPendingHashCount_live live

theorem enacts_finish :
    Enacts (Unreal.finish thread) fun object => some (object.look 0 Session.finish, object) :=
  enacts_look fun _ _ _ live => onHandle_live 0 _ live

theorem enacts_tickRateHz :
    Enacts (Unreal.tickRateHz thread) fun object => some (object.look 0 Session.tickRateHz, object) :=
  enacts_look fun _ _ _ live => onHandle_live 0 _ live

theorem enacts_peerCount :
    Enacts (Unreal.peerCount thread) fun object => some (object.look 0 Session.peerCount, object) :=
  enacts_look fun _ _ _ live => onHandle_live 0 _ live

theorem enacts_isConfigured :
    Enacts Unreal.isConfigured fun object => some (object.session.isSome, object) :=
  enacts_read (fun this => this.handle.isSome) (fun object => object.session.isSome) (fun _ => rfl)
    fun _ _ _ => rfl

theorem enacts_getLastError : Enacts Unreal.getLastError fun object => some (object.lastError, object) :=
  enacts_read FFoldbackSession.lastError Object.lastError (fun _ => rfl) fun _ _ _ => rfl

/-- **The fields are hashed one after another**, whatever has become of those before. -/
theorem enacts_hashAll (tick entityId : UInt64) (fields : List (String × Bytes)) (allOk : Bool) :
    Enacts (hashAll (Unreal.hashField env engine thread tick entityId) fields allOk)
      fun object => some (hashed env engine tick entityId fields allOk object) := by
  induction fields generalizing allOk with
  | nil => exact Enacts.pure allOk
  | cons field fields ih =>
    have hashes : Enacts (Unreal.hashField env engine thread tick entityId field.1 field.2)
        fun object => some (reported env engine "hash_field"
          (.hashField tick entityId (untilNul field.1) field.2) object) :=
      enacts_reporting (serves_hashField tick entityId (strFromRaw_tcharToUtf8 _ _ _) field.2)
    have one := hashes.map fun recorded => recorded && allOk
    rw [← bind_pure_comp] at one
    rw [hashAll, List.foldlM_cons]
    exact one.bind ih

theorem enacts_hashTaggedFields (tick entityId : Int64) (tagged : UObject) :
    Enacts (UFoldbackSubsystem.hashTaggedFields env engine thread tick entityId (some tagged))
      fun object => some (hashedTagged env engine tick.toUInt64 entityId.toUInt64 tagged object) := by
  unfold UFoldbackSubsystem.hashTaggedFields hashedTagged
  rcases engine.withMetadata with _ | _
  · exact Enacts.pure false
  · dsimp only
    rw [hashTaggedFields_eq]
    exact enacts_hashAll tick.toUInt64 entityId.toUInt64 _ _

variable (engine thread) in
/-- Blueprint asks for hashes with a signed number. -/
theorem enacts_takeEntries (max : Int64) :
    Enacts (UFoldbackSubsystem.takePendingHashes engine thread max) fun object =>
      if max ≤ 0 then some ([], object)
      else (taken max.toUInt64 object).map fun done =>
        (done.1.map fun pair => ⟨pair.1.toInt64, pair.2.toInt64⟩, done.2) := by
  by_cases nothing : max ≤ 0
  · have constant : UFoldbackSubsystem.takePendingHashes engine thread max = pure [] := by
      rw [UFoldbackSubsystem.takePendingHashes, if_pos nothing]
    simp only [if_pos nothing]
    rw [constant]
    exact enacts_read (fun _ => []) (fun _ => []) (fun _ => rfl) fun _ _ _ => rfl
  · have mapped : UFoldbackSubsystem.takePendingHashes engine thread max =
        (fun pairs => pairs.map fun pair => ⟨pair.1.toInt64, pair.2.toInt64⟩) <$>
          Unreal.takePendingHashes engine thread max.toUInt64 := by
      rw [UFoldbackSubsystem.takePendingHashes, if_neg nothing]
      exact bind_pure_comp _ _
    simp only [if_neg nothing]
    rw [mapped]
    exact (enacts_takePendingHashes max.toUInt64).map _

theorem enacts_checkSigned (outTick : Int64) :
    Enacts (UFoldbackSubsystem.checkDivergence engine thread outTick) fun object =>
      some (((checked 0 object).1.1,
        if (checked 0 object).1.1 then (checked 0 object).1.2.toInt64 else outTick),
          (checked 0 object).2) := by
  have mapped : UFoldbackSubsystem.checkDivergence engine thread outTick =
      (fun done => (done.1, if done.1 then done.2.toInt64 else outTick)) <$>
        Unreal.checkDivergence engine thread 0 := bind_pure_comp _ _
  rw [mapped]
  exact (enacts_checkDivergence 0).map _

theorem enacts_blueprint (call : Blueprint) :
    Enacts (call.invoke env engine thread) fun object => act env engine object (.blueprint call) := by
  cases call with
  | deinitialize => exact enacts_deinitialize.map fun _ => Returned.nothing
  | configure create config =>
    exact (enacts_configure create (UFoldbackSubsystem.native config)).map Returned.success
  | isConfigured => exact enacts_isConfigured.map Returned.success
  | getLastError => exact enacts_getLastError.map Returned.text
  | hashTick tick state => exact (enacts_reporting (serves_hashTick tick.toUInt64 state)).map Returned.success
  | recordPeerHash tick peerId hash =>
    exact (enacts_reporting (serves_recordPeerHash tick.toUInt64 peerId.toUInt32.toUInt16
      hash.toUInt64)).map Returned.success
  | hashEntity tick entityId state =>
    exact (enacts_reporting (serves_hashEntity tick.toUInt64 entityId.toUInt64 state)).map Returned.success
  | recordPeerEntityHash tick peerId entityId hash =>
    exact (enacts_reporting (serves_recordPeerEntityHash tick.toUInt64 peerId.toUInt32.toUInt16
      entityId.toUInt64 hash.toUInt64)).map Returned.success
  | hashField tick entityId fieldName value =>
    exact (enacts_reporting (serves_hashField tick.toUInt64 entityId.toUInt64
      (strFromRaw_tcharToUtf8 _ _ _) value)).map Returned.success
  | hashTaggedFields tick entityId object =>
    cases object with
    | none => exact (Enacts.pure false).map Returned.success
    | some tagged => exact (enacts_hashTaggedFields tick entityId tagged).map Returned.success
  | recordPeerFieldHash tick peerId entityId fieldName hash value =>
    exact (enacts_reporting (serves_recordPeerFieldHash tick.toUInt64 peerId.toUInt32.toUInt16
      entityId.toUInt64 (strFromRaw_tcharToUtf8 _ _ _) hash.toUInt64 value)).map Returned.success
  | pendingHashCount =>
    exact (enacts_pendingHashCount.map fun count => (UInt64.ofNat count).toInt64).map Returned.integer
  | takePendingHashes max =>
    have entries := (enacts_takeEntries engine thread max).map Returned.entries
    refine (funext fun object => ?_ : _ = fun object => act env engine object _) ▸ entries
    dsimp only [act]
    split
    · rfl
    · rw [Option.map_map]
      rfl
  | checkDivergence outTick =>
    exact (enacts_checkSigned outTick).map fun done => Returned.signedDivergence done.1 done.2
  | finish =>
    exact (enacts_finish.map UInt64.toInt64).map Returned.integer
  | finishRecording => exact (enacts_reporting serves_finishRecording).map Returned.success

variable (env engine thread) in
/-- **Every member does what `act` says.** -/
theorem enacts_invoke (method : Method) :
    Enacts (method.invoke env engine thread) fun object => act env engine object method := by
  cases method with
  | configure create config => exact (enacts_configure create config).map Returned.success
  | isConfigured =>
    exact enacts_isConfigured.map Returned.success
  | getLastError => exact enacts_getLastError.map Returned.text
  | hashTick tick state => exact (enacts_reporting (serves_hashTick tick state)).map Returned.success
  | recordPeerHash tick peerId hash =>
    exact (enacts_reporting (serves_recordPeerHash tick peerId hash)).map Returned.success
  | hashEntity tick entityId state =>
    exact (enacts_reporting (serves_hashEntity tick entityId state)).map Returned.success
  | recordPeerEntityHash tick peerId entityId hash =>
    exact (enacts_reporting (serves_recordPeerEntityHash tick peerId entityId hash)).map Returned.success
  | hashField tick entityId fieldName value =>
    exact (enacts_reporting (serves_hashField tick entityId (strFromRaw_tcharToUtf8 _ _ _) value)).map
      Returned.success
  | recordPeerFieldHash tick peerId entityId fieldName hash value =>
    exact (enacts_reporting (serves_recordPeerFieldHash tick peerId entityId
      (strFromRaw_tcharToUtf8 _ _ _) hash value)).map Returned.success
  | pendingHashCount =>
    exact enacts_pendingHashCount.map Returned.count
  | takePendingHashes max => exact (enacts_takePendingHashes max).map Returned.hashes
  | checkDivergence outTick =>
    exact (enacts_checkDivergence outTick).map fun done => Returned.divergence done.1 done.2
  | finish => exact enacts_finish.map Returned.hash
  | finishRecording => exact (enacts_reporting serves_finishRecording).map Returned.success
  | tickRateHz => exact enacts_tickRateHz.map Returned.number
  | peerCount => exact enacts_peerCount.map Returned.number
  | blueprint call => exact enacts_blueprint call

end Members

/-! ### Programs do what `specStep` says -/

def Host.handles (host : Host) (id : ℕ) : SessionPtr := (host.objects id).bind FFoldbackSession.handle

/-- **The invariant of a program**: the objects are those of the specification, and each owns the box of
its session. -/
structure Stands (host : Host) (objects : ℕ → Option Object) : Prop where
  known : ∀ id, (host.objects id).map FFoldbackSession.lastError = (objects id).map Object.lastError
  owns : Sys.Owns host.process host.handles fun id => (objects id).bind Object.session

section Programs

variable {env : Environment} {engine : Engine} {host : Host} {objects : ℕ → Option Object} {id : ℕ}

namespace Stands

theorem start : Stands {} fun _ => none := ⟨fun _ => rfl, Sys.Owns.start⟩

theorem absent (stands : Stands host objects) (absent : host.objects id = none) : objects id = none := by
  have known := stands.known id
  rw [absent, Option.map_none] at known
  exact Option.map_eq_none_iff.mp known.symm

theorem present (stands : Stands host objects) {this : FFoldbackSession}
    (present : host.objects id = some this) :
    ∃ object, objects id = some object ∧ this.lastError = object.lastError ∧
      host.handles id = this.handle ∧ (objects id).bind Object.session = object.session := by
  have known := stands.known id
  rw [present, Option.map_some] at known
  obtain ⟨object, is, text⟩ := Option.map_eq_some_iff.mp known.symm
  refine ⟨object, is, text.symm, ?_, ?_⟩
  · rw [Host.handles, present, Option.bind_some]
  · rw [is, Option.bind_some]

end Stands

theorem handles_update (process : Process) (known : ℕ → Option FFoldbackSession) (id : ℕ)
    (now : Option FFoldbackSession) :
    Host.handles ⟨process, Function.update known id now⟩ =
      Function.update (Host.handles ⟨process, known⟩) id (now.bind FFoldbackSession.handle) :=
  Function.comp_update (fun present : Option FFoldbackSession => present.bind FFoldbackSession.handle)
    known id now

theorem sessions_update (objects : ℕ → Option Object) (id : ℕ) (now : Option Object) :
    (fun other => (Function.update objects id now other).bind Object.session) =
      Function.update (fun other => (objects other).bind Object.session) id
        (now.bind Object.session) :=
  Function.comp_update (fun present : Option Object => present.bind Object.session) objects id now

/-- One object is written down in both. -/
theorem known_update {known : ℕ → Option FFoldbackSession} {now : Option FFoldbackSession}
    {now' : Option Object} (id : ℕ)
    (same : ∀ id, (known id).map FFoldbackSession.lastError = (objects id).map Object.lastError)
    (text : now.map FFoldbackSession.lastError = now'.map Object.lastError) (other : ℕ) :
    (Function.update known id now other).map FFoldbackSession.lastError =
      (Function.update objects id now' other).map Object.lastError := by
  by_cases here : other = id
  · rw [here, Function.update_self, Function.update_self, text]
  · rw [Function.update_of_ne here, Function.update_of_ne here, same]

theorem Stands.write (stands : Stands host objects) {process : Process}
    {now : Option FFoldbackSession} {now' : Option Object}
    (text : now.map FFoldbackSession.lastError = now'.map Object.lastError)
    (owns : Sys.Owns process (Function.update host.handles id (now.bind FFoldbackSession.handle))
      (Function.update (fun other => (objects other).bind Object.session) id
        (now'.bind Object.session))) :
    Stands ⟨process, Function.update host.objects id now⟩ (Function.update objects id now') where
  known := known_update id stands.known text
  owns := by
    rw [handles_update, sessions_update]
    exact owns

/-- **A session is handed over** to an object that had none, and the old object is left empty. -/
theorem Stands.move (stands : Stands host objects) {process : Process} {other : ℕ}
    {moved : FFoldbackSession} {object : Object} (apart : id ≠ other)
    (present : host.objects other = some moved) (is : objects other = some object)
    (text : moved.lastError = object.lastError)
    (owns : Sys.Owns process (Function.update host.handles id none)
      (Function.update (fun other => (objects other).bind Object.session) id none)) :
    Stands ⟨process, Function.update (Function.update host.objects id (some moved)) other (some {})⟩
      (Function.update (Function.update objects id (some object)) other (some {})) where
  known := known_update other (known_update id stands.known (congrArg some text)) rfl
  owns := by
    have vacated : Function.update host.handles id none id = none := Function.update_self ..
    have handed := owns.move vacated apart
    have handle : Function.update host.handles id none other = moved.handle := by
      rw [Function.update_of_ne apart.symm, Host.handles, present, Option.bind_some]
    have session : Function.update (fun other => (objects other).bind Object.session) id none other =
        object.session := by
      rw [Function.update_of_ne apart.symm, is, Option.bind_some]
    rw [handle, session, Function.update_idem, Function.update_idem] at handed
    rw [handles_update, handles_update, sessions_update, sessions_update]
    exact handed

variable (env engine) in
/-- **Every move is undefined, or does what `specStep` says.** -/
theorem hostStep_refines (stands : Stands host objects) (made : ℕ × Move) :
    (hostStep env engine host made = none ∧ specStep env engine objects made = none) ∨
      ∃ result after after', hostStep env engine host made = some (result, after) ∧
        specStep env engine objects made = some (result, after') ∧ Stands after after' := by
  obtain ⟨thread, move⟩ := made
  cases move with
  | construct id =>
    rcases there : host.objects id with _ | this
    · have free := stands.absent there
      have unowned : host.handles id = none := by rw [Host.handles, there, Option.bind_none]
      simp only [hostStep, there, specStep, free]
      refine .inr ⟨_, _, _, rfl, rfl, stands.write rfl ?_⟩
      exact stands.owns.same unowned (by rw [free, Option.bind_none]; rfl)
    · obtain ⟨object, is, -, -, -⟩ := stands.present there
      simp only [hostStep, there, specStep, is]
      exact .inr ⟨_, _, _, rfl, rfl, stands⟩
  | moveConstruct id other =>
    rcases there : host.objects id with _ | this
    · have free := stands.absent there
      rcases source : host.objects other with _ | moved
      · simp only [hostStep, there, source, specStep, free, stands.absent source]
        exact .inr ⟨_, _, _, rfl, rfl, stands⟩
      · obtain ⟨object, is, text, -, -⟩ := stands.present source
        have apart : id ≠ other := by
          rintro rfl
          rw [there] at source
          cases source
        have unowned : host.handles id = none := by rw [Host.handles, there, Option.bind_none]
        simp only [hostStep, there, source, specStep, free, is]
        refine .inr ⟨_, _, _, rfl, rfl, stands.move apart source is text ?_⟩
        exact stands.owns.same unowned (by rw [free, Option.bind_none])
    · obtain ⟨object, is, -, -, -⟩ := stands.present there
      simp only [hostStep, there, specStep, is]
      exact .inr ⟨_, _, _, rfl, rfl, stands⟩
  | moveAssign id other =>
    by_cases same : id = other
    · simp only [hostStep, specStep, if_pos same]
      exact .inr ⟨_, _, _, rfl, rfl, stands⟩
    · simp only [hostStep, specStep, if_neg same]
      rcases there : host.objects id with _ | this
      · simp only [stands.absent there]
        exact .inr ⟨_, _, _, rfl, rfl, stands⟩
      · obtain ⟨held, is, -, handle, -⟩ := stands.present there
        rcases source : host.objects other with _ | moved
        · simp only [is, stands.absent source]
          exact .inr ⟨_, _, _, rfl, rfl, stands⟩
        · obtain ⟨object, is', text, -, -⟩ := stands.present source
          obtain ⟨process', destroyed, owned⟩ := destruct_run stands.owns handle
          have assigned : moveAssign this moved host.process = some ((moved, {}), process') := by
            show (destruct this host.process).bind _ = _
            rw [destroyed]
            rfl
          simp only [is, is', assigned, Option.map_some]
          exact .inr ⟨_, _, _, rfl, rfl, stands.move same source is' text owned⟩
  | destruct id =>
    rcases there : host.objects id with _ | this
    · simp only [hostStep, there, specStep, stands.absent there]
      exact .inr ⟨_, _, _, rfl, rfl, stands⟩
    · obtain ⟨object, is, text, held, holds⟩ := stands.present there
      obtain ⟨process', destroyed, owned⟩ := destruct_run stands.owns held
      simp only [hostStep, there, specStep, is, destroyed, Option.map_some]
      exact .inr ⟨_, _, _, rfl, rfl, stands.write rfl owned⟩
  | invoke id method =>
    rcases there : host.objects id with _ | this
    · simp only [hostStep, there, specStep, stands.absent there]
      exact .inr ⟨_, _, _, rfl, rfl, stands⟩
    · obtain ⟨object, is, text, held, holds⟩ := stands.present there
      simp only [hostStep, there, specStep, is]
      rcases enacts_invoke env engine thread method stands.owns held holds text with ⟨undefined, undefined'⟩ | ⟨value, after, now, process', ran, done, owned, text'⟩
      · dsimp only at undefined'
        rw [undefined, undefined']
        exact .inl ⟨rfl, rfl⟩
      · dsimp only at done
        rw [ran, done]
        exact .inr ⟨_, _, _, rfl, rfl, stands.write (congrArg some text') owned⟩

end Programs

/-! ### Members that overlap -/

/-- The objects that a move uses. -/
def Move.objects : Move → List ℕ
  | .construct id => [id]
  | .moveConstruct id other => [id, other]
  | .moveAssign id other => [id, other]
  | .destruct id => [id]
  | .invoke id _ => [id]

/-- The class has no lock: programs in which moves of one object overlap are left out, also those that
only read. -/
def Move.clashes (move other : Move) : Bool := move.objects.any fun id => id ∈ other.objects

theorem Move.clashes_iff {move other : Move} :
    move.clashes other = true ↔ ∃ id ∈ move.objects, id ∈ other.objects := by
  rw [Move.clashes, List.any_eq_true]
  simp only [decide_eq_true_eq]

/-- The call asks for hashes, and the number is not zero, or negative in Blueprint. -/
inductive Asks : Method → UInt64 → Prop
  | session (max : UInt64) : Asks (.takePendingHashes max) max
  | blueprint (max : Int64) (positive : 0 < max) :
      Asks (.blueprint (.takePendingHashes max)) max.toUInt64

section Overlapping

variable {env : Environment} {engine : Engine} {objects : ℕ → Option Object}

theorem taken_eq_none_iff {max : UInt64} {object : Object} :
    taken max object = none ↔ object.session ≠ none ∧ 2 ^ 31 ≤ capacity max := by
  rw [taken]
  rcases object.session with _ | session
  · simp
  · by_cases zero : max = 0
    · subst zero
      simp [capacity]
    · simp [zero]

/-- **Where a member is undefined**: an array of negative size. -/
theorem act_eq_none_iff {object : Object} {method : Method} :
    act env engine object method = none ↔
      object.session ≠ none ∧ ∃ max, Asks method max ∧ 2 ^ 31 ≤ capacity max := by
  have defined : ∀ {answer : Returned × Object}, act env engine object method = some answer →
      (∀ max, ¬ Asks method max) →
      (act env engine object method = none ↔
        object.session ≠ none ∧ ∃ max, Asks method max ∧ 2 ^ 31 ≤ capacity max) := by
    intro answer does asks
    refine iff_of_false (fun undefined => ?_) fun ⟨_, max, asked, _⟩ => asks max asked
    cases undefined.symm.trans does
  cases method with
  | takePendingHashes max =>
    rw [act, Option.map_eq_none_iff, taken_eq_none_iff]
    refine and_congr_right fun _ => ⟨fun large => ⟨max, .session max, large⟩, ?_⟩
    rintro ⟨_, asked, large⟩
    cases asked with
    | session => exact large
  | blueprint call =>
    cases call with
    | takePendingHashes max =>
      rw [act]
      by_cases none : max ≤ 0
      · rw [if_pos none]
        refine iff_of_false (fun undefined => by cases undefined) ?_
        rintro ⟨_, _, asked, _⟩
        cases asked with
        | blueprint _ positive => exact Int64.not_le.mpr positive none
      · rw [if_neg none, Option.map_eq_none_iff, taken_eq_none_iff]
        refine and_congr_right fun _ =>
          ⟨fun large => ⟨max.toUInt64, .blueprint max (Int64.not_le.mp none), large⟩, ?_⟩
        rintro ⟨_, asked, large⟩
        cases asked with
        | blueprint => exact large
    | hashTaggedFields tick entityId tagged =>
      cases tagged <;> exact defined rfl fun _ asked => by cases asked
    | _ => exact defined rfl fun _ asked => by cases asked
  | _ => exact defined rfl fun _ asked => by cases asked

/-- **Where a move is undefined**: a member that is. -/
theorem specStep_eq_none_iff {made : ℕ × Move} :
    specStep env engine objects made = none ↔ ∃ id method object, made.2 = .invoke id method ∧
      objects id = some object ∧ act env engine object method = none := by
  obtain ⟨thread, move⟩ := made
  cases move with
  | construct id | moveConstruct id other | destruct id =>
    refine iff_of_false ?_ fun ⟨_, _, _, same, _⟩ => by cases same
    rw [specStep]
    dsimp only
    split
    · exact Option.some_ne_none _
    · exact Option.some_ne_none _
  | moveAssign id other =>
    refine iff_of_false ?_ fun ⟨_, _, _, same, _⟩ => by cases same
    rw [specStep]
    dsimp only
    split
    · exact Option.some_ne_none _
    · split
      · exact Option.some_ne_none _
      · exact Option.some_ne_none _
  | invoke id method =>
    rw [specStep]
    rcases there : objects id with _ | object
    · simp only [there]
      refine iff_of_false (Option.some_ne_none _) ?_
      rintro ⟨_, _, object, ⟨⟩, is, _⟩
      cases there.symm.trans is
    · simp only [there, Option.map_eq_none_iff]
      refine ⟨fun undefined => ⟨id, method, object, rfl, there, undefined⟩, ?_⟩
      rintro ⟨_, _, object', ⟨⟩, is, undefined⟩
      rw [there, Option.some.injEq] at is
      rwa [is]

/-- A move leaves the objects alone that it does not use. -/
theorem specStep_frame {made : ℕ × Move} {answer : Result × (ℕ → Option Object)}
    (stepped : specStep env engine objects made = some answer) {id : ℕ}
    (unused : id ∉ made.2.objects) : answer.2 id = objects id := by
  obtain ⟨thread, move⟩ := made
  have apart : ∀ other, other ∈ move.objects → id ≠ other := fun other uses same =>
    unused (same ▸ uses)
  have moved : ∀ there other, (∀ used, used ∈ [there, other] → id ≠ used) → ∀ first second,
      Function.update (Function.update objects there first) other second id = objects id := by
    intro there other apart first second
    rw [Function.update_of_ne (apart other (by simp)), Function.update_of_ne (apart there (by simp))]
  cases move with
  | construct there | destruct there =>
    rw [specStep] at stepped
    dsimp only at stepped
    split at stepped
    · cases stepped
      rfl
    · cases stepped
      exact Function.update_of_ne (apart there (List.mem_singleton_self there)) ..
  | moveConstruct there other =>
    rw [specStep] at stepped
    dsimp only at stepped
    split at stepped
    · cases stepped
      exact moved there other apart _ _
    · cases stepped
      rfl
  | moveAssign there other =>
    rw [specStep] at stepped
    dsimp only at stepped
    split at stepped
    · cases stepped
      rfl
    · split at stepped
      · cases stepped
        exact moved there other apart _ _
      · cases stepped
        rfl
  | invoke there method =>
    rw [specStep] at stepped
    dsimp only at stepped
    split at stepped
    · cases stepped
      rfl
    · obtain ⟨done, -, same⟩ := Option.map_eq_some_iff.mp stepped
      cases same
      exact Function.update_of_ne (apart there (List.mem_singleton_self there)) ..

/-- In both programs the same moves are undefined. -/
theorem Stands.undefined_iff {host : Host} (stands : Stands host objects) {made : ℕ × Move} :
    hostStep env engine host made = none ↔ specStep env engine objects made = none := by
  rcases hostStep_refines env engine stands made with
    ⟨undefined, undefined'⟩ | ⟨result, after, after', stepped, stepped', -⟩
  · rw [undefined, undefined']
    exact iff_of_true rfl rfl
  · rw [stepped, stepped']
    exact iff_of_false (Option.some_ne_none _) (Option.some_ne_none _)

end Overlapping

theorem independent (env : Environment) (engine : Engine) :
    Independent (hostStep env engine) Move.clashes fun host => ∃ objects, Stands host objects where
  symm move other := by
    rw [Bool.eq_iff_iff, Move.clashes_iff, Move.clashes_iff]
    exact exists_congr fun id => and_comm
  keeps host call answer := by
    rintro ⟨objects, stands⟩ stepped
    rcases hostStep_refines env engine stands call with
      ⟨undefined, -⟩ | ⟨_, after, after', stepped', -, stands'⟩
    · cases undefined.symm.trans stepped
    · cases stepped.symm.trans stepped'
      exact ⟨after', stands'⟩
  apart host call other answer := by
    rintro ⟨objects, stands⟩ stepped _ free possible
    rcases hostStep_refines env engine stands call with
      ⟨undefined, -⟩ | ⟨_, after, after', stepped', made, stands'⟩
    · cases undefined.symm.trans stepped
    · cases stepped.symm.trans stepped'
      rw [Ne, stands.undefined_iff, specStep_eq_none_iff] at possible
      rw [Ne, stands'.undefined_iff, specStep_eq_none_iff]
      -- The object of the other call is as it was.
      rintro ⟨id, method, object, invokes, is, undefined⟩
      refine possible ⟨id, method, object, invokes, ?_, undefined⟩
      rw [← is]
      refine (specStep_frame made fun uses => ?_).symm
      have clash : call.2.clashes other.2 = true := by
        rw [Move.clashes_iff, invokes]
        exact ⟨id, uses, List.mem_singleton_self id⟩
      cases free.symm.trans clash

/-- The characters of the bytes, arrays of zeros and an insertion sort, in a build with metadata. -/
def plainEngine : Engine where
  utf8ToTchar bytes := String.ofList (bytes.map fun byte => Char.ofNat byte.toNat)
  uninitialized num := Vector.replicate num 0
  uninitializedHashes num := Vector.replicate num ⟨0, 0⟩
  sort _ less := List.insertionSort fun a b => less a b
  withMetadata := true

/-- An object with a tagged number. -/
def tagged : UObject where
  structs _ := [.leaf ⟨"Health", 0⟩ (.numeric 1), .leaf ⟨"Ammo", 1⟩ (.numeric 1)]
  hasMetaData property := property.field.name = "Health"
  memory := ⟨fun ptr => if ptr.offset = 0 then 100 else 0, fun _ => .null, fun _ => noItems,
    fun _ => noItems, fun _ => noItems⟩
  getClass := 0
  pointer := ⟨0, 0⟩

/-- Two threads make an object each at one time; the first configures its own, hashes a tick and the
tagged fields of `tagged`, the session is moved into the other object, and both are asked for the number
of pending hashes. -/
def twoObjects : List (Moment Move) :=
  let config : FConfig := { peerCount := 2 }
  let create := fun _ : String => (.error .other : Except IoError (List Bool))
  [.begins 1 (.construct 0), .begins 2 (.construct 1), .ends 2, .ends 1,
    .begins 1 (.invoke 0 (.configure create config)), .begins 2 (.invoke 1 (.finishRecording)),
    .ends 1, .ends 2, .begins 1 (.invoke 0 (.hashTick 5 [7])), .ends 1,
    .begins 1 (.invoke 0 (.blueprint (.hashTaggedFields 5 1 (some tagged)))), .ends 1,
    .begins 2 (.moveAssign 1 0), .ends 2, .begins 1 (.invoke 0 .pendingHashCount),
    .begins 2 (.invoke 1 .pendingHashCount), .ends 1, .ends 2]

end Foldback.Unreal
