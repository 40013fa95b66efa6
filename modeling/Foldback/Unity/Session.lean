/-
**`FoldbackSession` of the Unity binding, over the C ABI.**

* `FoldbackSession` is the managed object; its methods call the ABI through pointers that the runtime
  pins. `getString` is `Encoding.UTF8.GetString`; lengths are taken to fit an `int`.
* `Host` is the process with all its objects, `hostStep` one whole call of a constructor, a method or
  `Dispose` by a thread. `Overlap.momentStep` lets calls begin and end; those of one object must not
  overlap (`Move.clashes`).
* `Method.act` says what a method does to the object's session, without handles; `specStep` is the
  program in which every object holds its session, or nothing once it is disposed.
* `unity_refines`: **every program in which they do not is defined and returns and throws what
  `specStep` says**, no session leaks and none is used after `Dispose`.
-/

import Foldback.Lib.Overlap
import Foldback.Sys.Clients
import Foldback.Unity.Text

namespace Foldback.Unity

open Sys Overlap

/-! ### Strings -/

theorem decode_append_nul (text : Text) : decode (text ++ [0]) = decode text ++ ['\x00'] := by
  fun_induction decode text with
  | case1 => rfl
  | case2 unit =>
    have zero : decode [0] = ['\x00'] := by decide
    have low : isLowSurrogate 0 = false := by decide
    rw [List.singleton_append, decode, low, zero]
    rcases high : isHighSurrogate unit
    · rcases lower : isLowSurrogate unit
      · rfl
      · rfl
    · rfl
  | case3 unit next rest high low ih => simp [decode, high, low, ih]
  | case4 unit next rest high low ih =>
    rw [List.cons_append] at ih
    simp [decode, high, low, ih]
  | case5 unit next rest high low ih =>
    rw [List.cons_append] at ih
    simp [decode, high, low, ih]
  | case6 unit next rest high low ih =>
    rw [List.cons_append] at ih
    simp [decode, high, low, ih]

/-- The characters of a string. -/
def ofText (text : Text) : String := String.ofList (decode text)

theorem utf8_append_nul (text : Text) : utf8 (text ++ [0]) = asBytes (ofText text) ++ [0] := by
  rw [utf8, ofText, decode_append_nul, asBytes_ofList, asBytes_ofList, List.flatMap_append]
  rfl

/-- `Utf8Buffer`: the bytes of `value + "\0"`, for null those of `"\0"`. -/
def utf8Buffer (value : Option Text) : CString where
  memory := utf8 (value.getD [] ++ [0])
  terminated := by
    rw [utf8_append_nul]
    exact List.mem_append_right _ List.mem_cons_self

theorem utf8Buffer_eq (value : Option Text) : utf8Buffer value = terminated (ofText (value.getD [])) := by
  have memory := utf8_append_nul (value.getD [])
  unfold utf8Buffer terminated
  simp only [memory]

/-- What the native side reads of a string. -/
def received (value : Option Text) : String := untilNul (ofText (value.getD []))

theorem strFromRaw_utf8Buffer (utf8Error : Bytes → String) (label : String) (value : Option Text) :
    strFromRaw utf8Error label (some (utf8Buffer value)) = .ok (received value) := by
  rw [utf8Buffer_eq]
  exact strFromRaw_terminated utf8Error label _

/-! ### The binding -/

structure FoldbackConfig where
  tickRateHz : UInt32
  peerCount : UInt32
  localPeerId : UInt16
  retention : UInt32
  buildId : Option Bytes
  recordToPath : Option Text

inductive Exception
  | argument (message paramName : String)
  | argumentNull (paramName : String)
  | objectDisposed (objectName : String)
  | foldback (message : Text)
  deriving DecidableEq, Repr

/-- The managed object; its handle is zero once it is disposed. -/
structure FoldbackSession where
  handle : SessionPtr
  disposed : Bool

/-- Code that calls the ABI and may throw. -/
abbrev Managed (α : Type) := ExceptT Exception Native α

def statusName : Status → String
  | .ok => "Ok"
  | .nullPointer => "NullPointer"
  | .invalidUtf8 => "InvalidUtf8"
  | .io => "Io"
  | .panic => "Panic"

section Binding

variable (env : Environment) (getString : Bytes → Text) (thread : ℕ)

def getLastError : Native Text := do
  let (len, buf) ← foldbackLastError thread 1024 (.slots (List.replicate 1024 0) List.length_replicate.ge)
  if len = 0 then return units "(no error recorded)"
  let truncated := min len (1024 - 1)
  return getString (buf.take truncated)

def throwIfError (status : Status) (call : String) : Managed Unit := do
  if status ≠ .ok then
    let text ← getLastError getString thread
    throw (.foldback (units (call ++ " failed (" ++ statusName status ++ "): ") ++ text))

def throwIfDisposed (this : FoldbackSession) : Managed Unit := do
  if this.disposed then throw (.objectDisposed "FoldbackSession")

/-- The sixteen bytes of a build id. -/
def sixteen (bytes : Bytes) : Vector UInt8 16 := Vector.ofFn fun index => bytes.getD index 0

def nativeConfig (config : FoldbackConfig) : Config where
  tickRateHz := config.tickRateHz
  peerCount := config.peerCount
  localPeerId := config.localPeerId
  retention := config.retention
  buildId := sixteen (config.buildId.getD (List.replicate 16 0))
  recordToPath := config.recordToPath.map fun path => utf8Buffer (some path)

def construct (create : String → Except IoError (List Bool)) (config : FoldbackConfig) :
    Managed FoldbackSession := do
  if (config.buildId.getD (List.replicate 16 0)).length ≠ 16 then
    throw (.argument "BuildId must be exactly 16 bytes." "config")
  let handle ← foldbackSessionCreate env thread create (some (nativeConfig config))
  if handle = none then
    let text ← getLastError getString thread
    throw (.foldback (units "could not create Foldback session: " ++ text))
  return { handle, disposed := false }

variable (this : FoldbackSession)

def hashTick (tick : UInt64) (state : Option Bytes) : Managed Unit := do
  throwIfDisposed this
  let bytes := state.getD []
  let status ← foldbackHashTick env thread this.handle tick bytes.length (.all bytes)
  throwIfError getString thread status "HashTick"

def recordPeerHash (tick : UInt64) (peerId : UInt16) (hash : UInt64) : Managed Unit := do
  throwIfDisposed this
  let status ← foldbackRecordPeerHash env thread this.handle tick peerId hash
  throwIfError getString thread status "RecordPeerHash"

def hashEntity (tick entityId : UInt64) (state : Option Bytes) : Managed Unit := do
  throwIfDisposed this
  let bytes := state.getD []
  let status ← foldbackHashEntity env thread this.handle tick entityId bytes.length (.all bytes)
  throwIfError getString thread status "HashEntity"

def recordPeerEntityHash (tick : UInt64) (peerId : UInt16) (entityId hash : UInt64) :
    Managed Unit := do
  throwIfDisposed this
  let status ← foldbackRecordPeerEntityHash env thread this.handle tick peerId entityId hash
  throwIfError getString thread status "RecordPeerEntityHash"

def hashField (tick entityId : UInt64) (fieldName : Option Text) (value : Option Bytes) :
    Managed Unit := do
  throwIfDisposed this
  let bytes := value.getD []
  if fieldName = none then throw (.argumentNull "fieldName")
  let status ← foldbackHashField env thread this.handle tick entityId (some (utf8Buffer fieldName))
    bytes.length (.all bytes)
  throwIfError getString thread status "HashField"

def recordPeerFieldHash (tick : UInt64) (peerId : UInt16) (entityId : UInt64)
    (fieldName : Option Text) (hash : UInt64) (value : Option Bytes) : Managed Unit := do
  throwIfDisposed this
  let bytes := value.getD []
  if fieldName = none then throw (.argumentNull "fieldName")
  let status ← foldbackRecordPeerFieldHash env thread this.handle tick peerId entityId
    (some (utf8Buffer fieldName)) hash bytes.length (.all bytes)
  throwIfError getString thread status "RecordPeerFieldHash"

def recordSchema (typeName : Option Text) (trackedFields : Option (List (Option Text))) :
    Managed Unit := do
  throwIfDisposed this
  if typeName = none then throw (.argumentNull "typeName")
  let ptrs : List CharPtr := (trackedFields.getD []).map fun field => some (utf8Buffer field)
  let status ← foldbackRecordSchema env thread this.handle (some (utf8Buffer typeName)) ptrs.length
    (.all ptrs)
  throwIfError getString thread status "RecordSchema"

def takePendingHashes : Managed (List PendingHash) := do
  throwIfDisposed this
  let count ← Sys.foldbackPendingHashCount thread this.handle
  if count = 0 then return []
  let native := List.replicate count (⟨0, 0⟩ : PendingHash)
  let (written, native) ← Sys.foldbackTakePendingHashes thread this.handle count
    (.slots native List.length_replicate.ge)
  return native.take written

/-- `tick` is what the caller's variable holds. -/
def checkDivergence (tick : UInt64) : Managed (Bool × UInt64) := do
  throwIfDisposed this
  let (status, found, tick) ← foldbackCheckDivergence thread this.handle (some false) (some tick)
  throwIfError getString thread status "CheckDivergence"
  return (found.getD false, tick.getD 0)

def finish : Managed UInt64 := do
  throwIfDisposed this
  foldbackFinish thread this.handle

def finishRecording : Managed Unit := do
  throwIfDisposed this
  let status ← foldbackFinishRecording env thread this.handle
  throwIfError getString thread status "FinishRecording"

def tickRateHz : Managed UInt32 := do
  throwIfDisposed this
  foldbackTickRateHz thread this.handle

def peerCount : Managed UInt32 := do
  throwIfDisposed this
  foldbackPeerCount thread this.handle

def dispose : Native FoldbackSession := do
  if this.disposed then return this
  if this.handle ≠ none then foldbackSessionDestroy this.handle
  return { handle := none, disposed := true }

end Binding

/-! ### Programs -/

inductive Method
  | hashTick (tick : UInt64) (state : Option Bytes)
  | recordPeerHash (tick : UInt64) (peerId : UInt16) (hash : UInt64)
  | hashEntity (tick entityId : UInt64) (state : Option Bytes)
  | recordPeerEntityHash (tick : UInt64) (peerId : UInt16) (entityId hash : UInt64)
  | hashField (tick entityId : UInt64) (fieldName : Option Text) (value : Option Bytes)
  | recordPeerFieldHash (tick : UInt64) (peerId : UInt16) (entityId : UInt64)
      (fieldName : Option Text) (hash : UInt64) (value : Option Bytes)
  | recordSchema (typeName : Option Text) (trackedFields : Option (List (Option Text)))
  | takePendingHashes
  | checkDivergence (tick : UInt64)
  | finish
  | finishRecording
  | tickRateHz
  | peerCount

inductive Returned
  | unit
  | hashes (hashes : List PendingHash)
  | divergence (found : Bool) (tick : UInt64)
  | hash (hash : UInt64)
  | number (number : UInt32)
  deriving DecidableEq, Repr

section Programs

variable (env : Environment) (getString : Bytes → Text) (thread : ℕ)

def Method.invoke (this : FoldbackSession) : Method → Managed Returned
  | .hashTick tick state => (fun _ => .unit) <$> Unity.hashTick env getString thread this tick state
  | .recordPeerHash tick peerId hash =>
    (fun _ => .unit) <$> Unity.recordPeerHash env getString thread this tick peerId hash
  | .hashEntity tick entityId state =>
    (fun _ => .unit) <$> Unity.hashEntity env getString thread this tick entityId state
  | .recordPeerEntityHash tick peerId entityId hash =>
    (fun _ => .unit) <$> Unity.recordPeerEntityHash env getString thread this tick peerId entityId hash
  | .hashField tick entityId fieldName value =>
    (fun _ => .unit) <$> Unity.hashField env getString thread this tick entityId fieldName value
  | .recordPeerFieldHash tick peerId entityId fieldName hash value =>
    (fun _ => .unit) <$> Unity.recordPeerFieldHash env getString thread this tick peerId entityId
      fieldName hash value
  | .recordSchema typeName trackedFields =>
    (fun _ => .unit) <$> Unity.recordSchema env getString thread this typeName trackedFields
  | .takePendingHashes => .hashes <$> Unity.takePendingHashes thread this
  | .checkDivergence tick =>
    (fun checked => .divergence checked.1 checked.2) <$>
      Unity.checkDivergence getString thread this tick
  | .finish => .hash <$> Unity.finish thread this
  | .finishRecording => (fun _ => .unit) <$> Unity.finishRecording env getString thread this
  | .tickRateHz => .number <$> Unity.tickRateHz thread this
  | .peerCount => .number <$> Unity.peerCount thread this

/-- What happens to an object; `id` is the reference to it. -/
inductive Move
  | construct (id : ℕ) (create : String → Except IoError (List Bool)) (config : FoldbackConfig)
  | invoke (id : ℕ) (method : Method)
  | dispose (id : ℕ)

/-- `nothing` is the answer for a reference that is taken already, or does not exist. -/
inductive Result
  | returned (returned : Returned)
  | thrown (exception : Exception)
  | nothing
  deriving DecidableEq, Repr

def Result.of : Except Exception Returned → Result
  | .ok value => .returned value
  | .error exception => .thrown exception

structure Host where
  process : Process := {}
  objects : ℕ → Option FoldbackSession := fun _ => none

/-- One whole move by a thread, if it is defined. -/
def hostStep (host : Host) (made : ℕ × Move) : Option (Result × Host) :=
  match made.2 with
  | .construct id create config =>
    match host.objects id with
    | some _ => some (.nothing, host)
    | none =>
      ((construct env getString made.1 create config).run host.process).map fun answer =>
        match answer.1 with
        | .ok this =>
          (.returned .unit,
            { process := answer.2, objects := Function.update host.objects id (some this) })
        | .error exception => (.thrown exception, { host with process := answer.2 })
  | .invoke id method =>
    match host.objects id with
    | none => some (.nothing, host)
    | some this =>
      ((method.invoke env getString made.1 this).run host.process).map fun answer =>
        (.of answer.1, { host with process := answer.2 })
  | .dispose id =>
    match host.objects id with
    | none => some (.nothing, host)
    | some this =>
      ((dispose this).run host.process).map fun answer =>
        (.returned .unit,
          { process := answer.2, objects := Function.update host.objects id (some answer.1) })

end Programs

/-! ### What a program does to its sessions -/

section Spec

variable (env : Environment) (getString : Bytes → Text)

/-- The text of an exception for a message of the native side, of which 1023 bytes are read. -/
def shown (message : String) : Text :=
  if message = "" then units "(no error recorded)" else getString ((asBytes message).take 1023)

/-- One call of the `Session` API behind a method. -/
def called (method name : String) (call : Foldback.Call) (session : Session) :
    Except Exception Returned × Session :=
  let made := step env.hashBytes session call
  match made.1 with
  | .returned (.error error) =>
    (.error (.foldback (units (method ++ " failed (Panic): ") ++
      shown getString (name ++ " failed: " ++ error.display env.ioText))), made.2)
  | _ => (.ok .unit, made.2)

/-- **What a method does to the session of its object**, and what it returns or throws. -/
def Method.act (session : Session) : Method → Except Exception Returned × Session
  | .hashTick tick state =>
    called env getString "HashTick" "hash_tick" (.hashTick tick (state.getD [])) session
  | .recordPeerHash tick peerId hash =>
    called env getString "RecordPeerHash" "record_peer_hash" (.recordPeerHash tick peerId hash) session
  | .hashEntity tick entityId state =>
    called env getString "HashEntity" "hash_entity" (.hashEntity tick entityId (state.getD [])) session
  | .recordPeerEntityHash tick peerId entityId hash =>
    called env getString "RecordPeerEntityHash" "record_peer_entity_hash"
      (.recordPeerEntityHash tick peerId entityId hash) session
  | .hashField tick entityId fieldName value =>
    if fieldName = none then (.error (.argumentNull "fieldName"), session)
    else
      called env getString "HashField" "hash_field"
        (.hashField tick entityId (received fieldName) (value.getD [])) session
  | .recordPeerFieldHash tick peerId entityId fieldName hash value =>
    if fieldName = none then (.error (.argumentNull "fieldName"), session)
    else
      called env getString "RecordPeerFieldHash" "record_peer_field_hash"
        (.recordPeerFieldHash tick peerId entityId (received fieldName) hash (value.getD [])) session
  | .recordSchema typeName trackedFields =>
    if typeName = none then (.error (.argumentNull "typeName"), session)
    else
      called env getString "RecordSchema" "record_schema"
        (.recordSchema (received typeName) ((trackedFields.getD []).map received)) session
  | .takePendingHashes => (.ok (.hashes session.pending), { session with pending := [] })
  | .checkDivergence tick =>
    match session.checkDivergence with
    | (some found, after) => (.ok (.divergence true found.tick), after)
    | (none, after) => (.ok (.divergence false tick), after)
  | .finish => (.ok (.hash session.finish), session)
  | .finishRecording => called env getString "FinishRecording" "finish_recording" .finishRecording session
  | .tickRateHz => (.ok (.number session.tickRateHz), session)
  | .peerCount => (.ok (.number session.peerCount), session)

/-- The builder of a configuration. -/
def FoldbackConfig.builder (create : String → Except IoError (List Bool)) (config : FoldbackConfig) :
    SessionBuilder where
  tickRateHz := config.tickRateHz
  peerCount := config.peerCount
  localPeerId := config.localPeerId
  buildId := sixteen (config.buildId.getD (List.replicate 16 0))
  retention := if config.retention = 0 then 600 else config.retention.toNat
  recordTo := config.recordToPath.map fun path => create (received (some path))

/-- **A program in which an object holds its session**, and nothing once it is disposed. -/
def specStep (objects : ℕ → Option (Option Session)) (made : ℕ × Move) :
    Result × (ℕ → Option (Option Session)) :=
  match made.2 with
  | .construct id create config =>
    match objects id with
    | some _ => (.nothing, objects)
    | none =>
      if (config.buildId.getD (List.replicate 16 0)).length ≠ 16 then
        (.thrown (.argument "BuildId must be exactly 16 bytes." "config"), objects)
      else
        match (config.builder create).build with
        | .ok session => (.returned .unit, Function.update objects id (some (some session)))
        | .error error =>
          (.thrown (.foldback (units "could not create Foldback session: " ++
            shown getString ("could not build session: " ++ error.display env.ioText))), objects)
  | .invoke id method =>
    match objects id with
    | none => (.nothing, objects)
    | some none => (.thrown (.objectDisposed "FoldbackSession"), objects)
    | some (some session) =>
      let acted := method.act env getString session
      (.of acted.1, Function.update objects id (some (some acted.2)))
  | .dispose id =>
    match objects id with
    | none => (.nothing, objects)
    | some _ => (.returned .unit, Function.update objects id (some none))

end Spec

/-! ### Every method does what `act` says -/

section Methods

variable {env : Environment} {getString : Bytes → Text} {thread address : ℕ} {process : Process}
  {session : Session}

theorem run_bind_native {α β : Type} (native : Native α) (next : α → Managed β) :
    (do let answer ← native; next answer : Managed β).run process =
      (native process).bind fun answer => (next answer.1).run answer.2 := by
  show ((Except.ok <$> native : Native (Except Exception α)) process).bind _ = _
  rw [map_native]
  rcases native process with _ | answer
  · rfl
  · rfl

theorem run_map {α β : Type} (f : α → β) (managed : Managed α) :
    (f <$> managed).run process =
      (managed.run process).map fun answer => (answer.1.map f, answer.2) := by
  show ((managed.run process).bind fun answer => _) = _
  rcases managed.run process with _ | ⟨_ | value, after⟩
  · rfl
  · rfl
  · rfl

theorem open_run {α : Type} {this : FoldbackSession} (alive : this.disposed = false)
    (rest : Managed α) :
    (do throwIfDisposed this; rest : Managed α) = rest := by
  unfold throwIfDisposed
  rw [alive]
  rfl

theorem disposed_run {α : Type} {this : FoldbackSession} (disposed : this.disposed = true)
    (rest : Managed α) :
    (do throwIfDisposed this; rest : Managed α).run process =
      some (.error (.objectDisposed "FoldbackSession"), process) := by
  unfold throwIfDisposed
  rw [disposed]
  rfl

/-- The exception shows the error that the thread was just left with. -/
theorem getLastError_pending {message : String} (pending : process.lastError thread = some message) :
    getLastError getString thread process = some (shown getString message, process) := by
  have room : 1024 ≤ (List.replicate 1024 (0 : UInt8)).length := List.length_replicate.ge
  have read := foldbackLastError_written pending (by decide : 0 < 1024) room
  show (foldbackLastError thread 1024 (.slots (List.replicate 1024 0) _) process).bind _ = _
  rw [read, Option.bind_some]
  by_cases empty : message = ""
  · subst empty
    rfl
  · have copied : ((asBytes message).take (min (asBytes message).length (1024 - 1))).length =
        min (asBytes message).length (1024 - 1) := by
      rw [List.length_take, min_assoc, min_comm (1024 - 1), ← min_assoc, min_self]
    have text : (written message 1024 (List.replicate 1024 0)).take
        (min (asBytes message).length (1024 - 1)) = (asBytes message).take 1023 := by
      rw [written, List.append_assoc, List.take_left' copied, List.take_eq_take_iff,
        min_comm (asBytes message).length, min_assoc, min_self]
    show (if (asBytes message).length = 0 then pure (units "(no error recorded)")
      else pure (getString ((written message 1024 (List.replicate 1024 0)).take
        (min (asBytes message).length (1024 - 1)))) : Native Text) process = _
    rw [if_neg (asBytes_length_ne_zero empty), shown, if_neg empty, text]
    rfl

theorem throwIfError_panic (method : String) :
    throwIfError getString thread .panic method = (do
      let text ← getLastError getString thread
      throw (.foldback (units (method ++ " failed (Panic): ") ++ text))) := by
  have message : method ++ " failed (" ++ statusName .panic ++ "): " = method ++ " failed (Panic): " := by
    rw [String.append_assoc, String.append_assoc]
    rfl
  rw [throwIfError, message]
  rfl

/-- A method that ends in one call of the `Session` API, with its status looked at. -/
theorem status_live {native : SessionPtr → Native Status} {method name : String} {call : Foldback.Call}
    (serves : Serves env thread native name call) (live : process.session address = some session) :
    ∃ lastError, ((fun _ => Returned.unit) <$> (do
        let status ← native (some address)
        throwIfError getString thread status method : Managed Unit)).run process =
      some ((called env getString method name call session).1,
        process.store thread address
          ⟨(called env getString method name call session).2, lastError⟩) := by
  refine ⟨errorOf env name (step env.hashBytes session call).1, ?_⟩
  rw [run_map, run_bind_native, serves live, called]
  rcases step env.hashBytes session call with ⟨⟨error | _⟩ | _ | _, after⟩
  · have pending : (process.store thread address
        ⟨after, some (name ++ " failed: " ++ error.display env.ioText)⟩).lastError thread =
          some (name ++ " failed: " ++ error.display env.ioText) := Function.update_self ..
    have read : getLastError getString thread _ = _ := getLastError_pending pending
    show Option.map _ (ExceptT.run (throwIfError getString thread .panic method) _) = _
    rw [throwIfError_panic]
    exact (congrArg _ (run_bind_native _ _)).trans (by rw [errorOf, read]; rfl)
  · rfl
  · rfl
  · rfl

theorem fieldsFromRaw_all (utf8Error : Bytes → String) (fields : List (Option Text)) :
    fieldsFromRaw utf8Error (fields.map fun field => some (utf8Buffer field)).length
      (.all (fields.map fun field => some (utf8Buffer field))) = .ok (fields.map received) := by
  have each : (fields.map fun field => some (utf8Buffer field)).mapM
      (strFromRaw utf8Error "field_names entry") = .ok (fields.map received) := by
    induction fields with
    | nil => rfl
    | cons field fields ih =>
      rw [List.map_cons, List.mapM_cons, strFromRaw_utf8Buffer, ih]
      rfl
  unfold fieldsFromRaw
  split
  · show (List.take _ _).mapM _ = _
    rw [List.take_length, each]
  · rename_i empty
    rw [List.length_map] at empty
    rw [List.length_eq_zero_iff.mp (Nat.eq_zero_of_not_pos empty)]
    rfl

theorem serves_recordSchema (typeName : Text) (fields : List (Option Text)) :
    Serves env thread (fun session => foldbackRecordSchema env thread session
        (some (utf8Buffer (some typeName))) (fields.map fun field => some (utf8Buffer field)).length
        (.all (fields.map fun field => some (utf8Buffer field)))) "record_schema"
      (.recordSchema (received (some typeName)) (fields.map received)) := by
  refine Serves.intro (.recordSchema (some (utf8Buffer (some typeName))) _
    (.all (fields.map fun field => some (utf8Buffer field)))) (fun _ => rfl) ?_ (fun _ => rfl) rfl
  rw [Operation.request, strFromRaw_utf8Buffer, fieldsFromRaw_all]
  rfl

/-- A method that throws before it calls the ABI. -/
theorem thrown_live (live : process.session address = some session) {exception : Exception} :
    ∃ lastError, some ((.error exception : Except Exception Returned), process) =
      some ((.error exception : Except Exception Returned),
        process.store thread address ⟨session, lastError⟩) :=
  ⟨process.lastError thread, by rw [store_same thread live]⟩

/-- A method that returns what the ABI does. -/
theorem query_live {α : Type} {native : Native α} {value : α} (pack : α → Returned)
    (ran : native process = some (value, process.store thread address ⟨session, none⟩)) :
    ∃ lastError, (pack <$> (native : Managed α)).run process =
      some (.ok (pack value), process.store thread address ⟨session, lastError⟩) := by
  refine ⟨none, ?_⟩
  rw [run_map]
  show (((Except.ok <$> native : Native (Except Exception α)) process).map _) = _
  rw [map_native, ran]
  rfl

/-- The array has a slot for each entry that is pending, so that all are taken. -/
theorem takePendingHashes_live (live : process.session address = some session) :
    ∃ lastError, (Method.takePendingHashes.invoke env getString thread ⟨some address, false⟩).run
        process =
      some (.ok (.hashes session.pending),
        process.store thread address ⟨{ session with pending := [] }, lastError⟩) := by
  refine ⟨none, ?_⟩
  rw [Method.invoke, run_map, takePendingHashes, open_run rfl, run_bind_native,
    foldbackPendingHashCount_live live, Option.bind_some]
  by_cases empty : session.pending.length = 0
  · have pending : session.pending = [] := List.length_eq_zero_iff.mp empty
    have drained : { session with pending := [] } = session := by rw [← pending]
    rw [drained, if_pos empty, pending]
    rfl
  · rw [if_neg empty]
    dsimp only
    have here : (process.store thread address ⟨session, none⟩).session address = some session :=
      session_store_self live ⟨session, none⟩
    rw [run_bind_native, foldbackTakePendingHashes_live here, store_store, List.take_length,
      List.drop_length]
    show some (Except.ok (Returned.hashes (List.take _ _)), _) = _
    rw [List.take_left]

variable (env getString thread) in
/-- **Every method of an object that is not disposed does what `act` says.** -/
theorem invoke_live (live : process.session address = some session) (method : Method) :
    ∃ lastError, (method.invoke env getString thread ⟨some address, false⟩).run process =
      some ((method.act env getString session).1,
        process.store thread address ⟨(method.act env getString session).2, lastError⟩) := by
  cases method with
  | hashTick tick state => exact status_live (serves_hashTick tick (state.getD [])) live
  | recordPeerHash tick peerId hash => exact status_live (serves_recordPeerHash tick peerId hash) live
  | hashEntity tick entityId state =>
    exact status_live (serves_hashEntity tick entityId (state.getD [])) live
  | recordPeerEntityHash tick peerId entityId hash =>
    exact status_live (serves_recordPeerEntityHash tick peerId entityId hash) live
  | hashField tick entityId fieldName value =>
    rcases fieldName with _ | name
    · exact thrown_live live
    · exact status_live
        (serves_hashField tick entityId (strFromRaw_utf8Buffer _ _ (some name)) (value.getD [])) live
  | recordPeerFieldHash tick peerId entityId fieldName hash value =>
    rcases fieldName with _ | name
    · exact thrown_live live
    · exact status_live (serves_recordPeerFieldHash tick peerId entityId
        (strFromRaw_utf8Buffer _ _ (some name)) hash (value.getD [])) live
  | recordSchema typeName trackedFields =>
    rcases typeName with _ | name
    · exact thrown_live live
    · exact status_live (serves_recordSchema name (trackedFields.getD [])) live
  | takePendingHashes => exact takePendingHashes_live live
  | checkDivergence tick =>
    have ran : foldbackCheckDivergence thread (some address) (some false) (some tick) process = _ :=
      foldbackCheckDivergence_live live false tick
    refine ⟨none, ?_⟩
    rw [Method.invoke, run_map, Unity.checkDivergence, open_run rfl, run_bind_native, ran, Method.act]
    rcases session.checkDivergence with ⟨_ | found, after⟩
    · rfl
    · rfl
  | finish => exact query_live .hash (onHandle_live 0 _ live)
  | finishRecording => exact status_live serves_finishRecording live
  | tickRateHz => exact query_live .number (onHandle_live 0 _ live)
  | peerCount => exact query_live .number (onHandle_live 0 _ live)


/-- On a disposed object, every method throws before it calls the ABI. -/
theorem invoke_disposed {this : FoldbackSession} (disposed : this.disposed = true) (method : Method) :
    (method.invoke env getString thread this).run process =
      some (.error (.objectDisposed "FoldbackSession"), process) := by
  have thrown : ∀ {α : Type} (pack : α → Returned) (rest : Managed α),
      (pack <$> (do throwIfDisposed this; rest : Managed α)).run process =
        some (.error (.objectDisposed "FoldbackSession"), process) := by
    intro α pack rest
    rw [run_map, disposed_run disposed]
    rfl
  cases method with
  | takePendingHashes => exact thrown .hashes _
  | checkDivergence tick => exact thrown (fun checked : Bool × UInt64 => .divergence checked.1 checked.2) _
  | finish => exact thrown .hash _
  | tickRateHz => exact thrown .number _
  | peerCount => exact thrown .number _
  | _ => exact thrown (fun _ => .unit) _

end Methods

/-! ### Programs do what `specStep` says -/

def Host.handle (host : Host) (id : ℕ) : SessionPtr := (host.objects id).bind fun this => this.handle

/-- **The invariant of a program**: an object that is not disposed owns the box of its session, and every
box that lives has such an object. -/
structure Mirrors (host : Host) (objects : ℕ → Option (Option Session)) : Prop where
  known : ∀ id, (host.objects id).isSome = (objects id).isSome
  disposed : ∀ id this, host.objects id = some this → (this.disposed = true ↔ this.handle = none)
  owns : Owns host.process host.handle fun id => (objects id).join

section Programs

variable {env : Environment} {getString : Bytes → Text} {thread : ℕ} {host : Host}
  {objects : ℕ → Option (Option Session)} {id : ℕ} {this : FoldbackSession}

namespace Mirrors

theorem start : Mirrors {} fun _ => none where
  known _ := rfl
  disposed _ _ present := by cases present
  owns := Owns.start

theorem absent (mirrors : Mirrors host objects) : host.objects id = none ↔ objects id = none := by
  rw [← Option.not_isSome_iff_eq_none, mirrors.known, Option.not_isSome_iff_eq_none]

/-- A disposed object stands for nothing. -/
theorem dead (mirrors : Mirrors host objects) (present : host.objects id = some this)
    (released : this.handle = none) : objects id = some none := by
  have nothing := mirrors.owns.vacant id (by rw [Host.handle, present, Option.bind_some, released])
  have known := mirrors.known id
  rw [present, Option.isSome_some] at known
  obtain ⟨held, is⟩ := Option.isSome_iff_exists.mp known.symm
  rw [is, Option.join_some] at nothing
  rw [is, nothing]

theorem points (_ : Mirrors host objects) (present : host.objects id = some this) {address : ℕ}
    (held : this.handle = some address) : host.handle id = some address := by
  rw [Host.handle, present, Option.bind_some, held]

theorem whole (mirrors : Mirrors host objects) (present : host.objects id = some this) {address : ℕ}
    (held : this.handle = some address) : this = ⟨some address, false⟩ := by
  have disposed : this.disposed = false := by
    rw [← Bool.not_eq_true, mirrors.disposed id this present, held]
    exact Option.some_ne_none address
  cases this
  cases held
  cases disposed
  rfl

/-- Any other stands for the session of its box. -/
theorem alive (mirrors : Mirrors host objects) (present : host.objects id = some this) {address : ℕ}
    (held : this.handle = some address) :
    ∃ session, host.process.session address = some session ∧ objects id = some (some session) := by
  obtain ⟨session, live, is⟩ := mirrors.owns.live (mirrors.points present held)
  exact ⟨session, live, Option.join_eq_some_iff.mp is⟩

end Mirrors

theorem createSession_nativeConfig (env : Environment)
    (create : String → Except IoError (List Bool)) (config : FoldbackConfig) :
    createSession env create (some (nativeConfig config)) =
      (config.builder create).build.mapError fun error =>
        "could not build session: " ++ error.display env.ioText := by
  have named : PathIs env (nativeConfig config)
      (config.recordToPath.map fun path => received (some path)) := by
    rcases path : config.recordToPath with _ | text
    · show config.recordToPath.map _ = _
      rw [path]
      rfl
    · refine ⟨utf8Buffer (some text), ?_, strFromRaw_utf8Buffer _ _ (some text)⟩
      rw [nativeConfig, path]
      rfl
  rw [createSession_path named, Option.map_map]
  rfl

variable (env getString thread) in
/-- A constructor makes an object with a box of its own, or throws and leaves the sessions alone. -/
theorem construct_run (create : String → Except IoError (List Bool)) (config : FoldbackConfig)
    (process : Process) (sized : (config.buildId.getD (List.replicate 16 0)).length = 16) :
    (∃ session, (config.builder create).build = .ok session ∧
      (construct env getString thread create config).run process =
        some (.ok ⟨some process.sessions.length, false⟩,
          { process with sessions := process.sessions ++ [some session] }.setError thread none)) ∨
    ∃ error, (config.builder create).build = .error error ∧
      (construct env getString thread create config).run process =
        some (.error (.foldback (units "could not create Foldback session: " ++
            shown getString ("could not build session: " ++ error.display env.ioText))),
          process.setError thread (some ("could not build session: " ++ error.display env.ioText))) := by
  have created := createSession_nativeConfig env create config
  have run : (construct env getString thread create config).run process =
      (foldbackSessionCreate env thread create (some (nativeConfig config)) process).bind fun answer =>
        (if answer.1 = none then do
            let text ← getLastError getString thread
            throw (.foldback (units "could not create Foldback session: " ++ text))
          else return ⟨answer.1, false⟩ : Managed FoldbackSession).run answer.2 := by
    rw [construct, if_neg (not_not_intro sized)]
    exact run_bind_native _ _
  rw [run, foldbackSessionCreate, created]
  rcases built : (config.builder create).build with error | session
  · refine .inr ⟨error, rfl, ?_⟩
    have pending : (process.setError thread (some ("could not build session: " ++
        error.display env.ioText))).lastError thread =
          some ("could not build session: " ++ error.display env.ioText) := Function.update_self ..
    have thrown : ((do
        let text ← getLastError getString thread
        throw (.foldback (units "could not create Foldback session: " ++ text)) :
          Managed FoldbackSession)).run (process.setError thread (some ("could not build session: " ++
            error.display env.ioText))) = _ := run_bind_native _ _
    rw [getLastError_pending pending] at thrown
    exact thrown
  · exact .inl ⟨session, rfl, rfl⟩

theorem handle_update (process : Process) (known : ℕ → Option FoldbackSession) (id : ℕ)
    (this : FoldbackSession) :
    Host.handle ⟨process, Function.update known id (some this)⟩ =
      Function.update (Host.handle ⟨process, known⟩) id this.handle :=
  Function.comp_update (fun present : Option FoldbackSession => present.bind fun this => this.handle)
    known id (some this)

theorem join_update (objects : ℕ → Option (Option Session)) (id : ℕ) (now : Option Session) :
    (fun other => (Function.update objects id (some now) other).join) =
      Function.update (fun other => (objects other).join) id now :=
  Function.comp_update Option.join objects id (some now)

namespace Mirrors

/-- One object is replaced, or a new one is added. -/
theorem replace (mirrors : Mirrors host objects) {process : Process} {now : Option Session}
    (agrees : this.disposed = true ↔ this.handle = none)
    (owns : Owns process (Function.update host.handle id this.handle)
      (Function.update (fun other => (objects other).join) id now)) :
    Mirrors ⟨process, Function.update host.objects id (some this)⟩
      (Function.update objects id (some now)) where
  known other := by
    dsimp only
    by_cases here : other = id
    · rw [here, Function.update_self, Function.update_self, Option.isSome_some, Option.isSome_some]
    · rw [Function.update_of_ne here, Function.update_of_ne here, mirrors.known]
  disposed other that present := by
    dsimp only at present
    by_cases here : other = id
    · rw [here, Function.update_self] at present
      cases present
      exact agrees
    · rw [Function.update_of_ne here] at present
      exact mirrors.disposed other that present
  owns := by
    rw [handle_update, join_update]
    exact owns

/-- The objects stay as they are. -/
theorem keep (mirrors : Mirrors host objects) {process : Process} {now : ℕ → Option (Option Session)}
    (known : ∀ id, (now id).isSome = (objects id).isSome)
    (owns : Owns process host.handle fun id => (now id).join) :
    Mirrors { host with process } now :=
  ⟨fun id => (mirrors.known id).trans (known id).symm, mirrors.disposed, owns⟩

end Mirrors

/-- **Every move is defined, and does what `specStep` says.** -/
theorem hostStep_refines (mirrors : Mirrors host objects) (made : ℕ × Move) :
    ∃ after, hostStep env getString host made =
        some ((specStep env getString objects made).1, after) ∧
      Mirrors after (specStep env getString objects made).2 := by
  obtain ⟨thread, move⟩ := made
  cases move with
  | construct id create config =>
    rcases absent : host.objects id with _ | this
    · have free : objects id = none := mirrors.absent.mp absent
      have unowned : host.handle id = none := by rw [Host.handle, absent, Option.bind_none]
      simp only [hostStep, absent, specStep, free]
      by_cases sized : (config.buildId.getD (List.replicate 16 0)).length = 16
      · rw [if_neg (not_not_intro sized)]
        rcases construct_run env getString thread create config host.process sized with ⟨session, built, run⟩ | ⟨error, built, run⟩
        · rw [run, built]
          refine ⟨_, rfl, mirrors.replace (by simp) ?_⟩
          exact (mirrors.owns.create unowned session).setError thread none
        · rw [run, built]
          exact ⟨_, rfl, mirrors.keep (fun _ => rfl) (mirrors.owns.setError thread _)⟩
      · rw [if_pos sized, construct, if_pos sized]
        exact ⟨_, rfl, mirrors⟩
    · have taken : objects id ≠ none := fun free => by
        rw [mirrors.absent.mpr free] at absent
        cases absent
      obtain ⟨held, is⟩ := Option.ne_none_iff_exists'.mp taken
      simp only [hostStep, absent, specStep, is]
      exact ⟨host, rfl, mirrors⟩
  | invoke id method =>
    rcases present : host.objects id with _ | this
    · simp only [hostStep, present, specStep, mirrors.absent.mp present]
      exact ⟨host, rfl, mirrors⟩
    · rcases held : this.handle with _ | address
      · have disposed := (mirrors.disposed id this present).mpr held
        simp only [hostStep, present, specStep, mirrors.dead present held,
          invoke_disposed disposed method, Option.map_some]
        exact ⟨_, rfl, mirrors⟩
      · obtain ⟨session, live, is⟩ := mirrors.alive present held
        have same : this = ⟨some address, false⟩ := mirrors.whole present held
        obtain ⟨lastError, run⟩ := invoke_live env getString thread live method
        simp only [hostStep, present, specStep, is, same, run, Option.map_some]
        refine ⟨_, rfl, mirrors.keep (fun other => ?_) ?_⟩
        · by_cases here : other = id
          · rw [here, Function.update_self, is, Option.isSome_some, Option.isSome_some]
          · rw [Function.update_of_ne here]
        · rw [join_update]
          exact mirrors.owns.perform (mirrors.points present held) thread _
  | dispose id =>
    rcases present : host.objects id with _ | this
    · simp only [hostStep, present, specStep, mirrors.absent.mp present]
      exact ⟨host, rfl, mirrors⟩
    · rcases held : this.handle with _ | address
      · have disposed := (mirrors.disposed id this present).mpr held
        have dead := mirrors.dead present held
        have run : dispose this host.process = some (this, host.process) := by
          rw [dispose, if_pos disposed]
          rfl
        have kept : Function.update host.objects id (some this) = host.objects := by
          rw [← present, Function.update_eq_self]
        have kept' : Function.update objects id (some none) = objects := by
          rw [← dead, Function.update_eq_self]
        simp only [hostStep, present, specStep, dead, kept']
        refine ⟨host, ?_, mirrors⟩
        show (dispose this host.process).map _ = _
        rw [run, Option.map_some, kept]
      · obtain ⟨session, live, is⟩ := mirrors.alive present held
        have same : this = ⟨some address, false⟩ := mirrors.whole present held
        have run : dispose ⟨some address, false⟩ host.process = some (⟨none, true⟩,
            { host.process with sessions := host.process.sessions.set address none }) := by
          show (foldbackSessionDestroy (some address) host.process).bind _ = _
          rw [foldbackSessionDestroy_live live]
          rfl
        simp only [hostStep, present, specStep, is]
        have agrees : (⟨none, true⟩ : FoldbackSession).disposed = true ↔
            (⟨none, true⟩ : FoldbackSession).handle = none := by simp
        refine ⟨_, ?_, mirrors.replace agrees (mirrors.owns.destroy (mirrors.points present held))⟩
        show (dispose this host.process).map _ = _
        rw [same, run]
        rfl

end Programs

/-! ### Members that overlap -/

/-- The object whose constructor, member or `Dispose` it is. -/
def Move.object : Move → ℕ
  | .construct id _ _ => id
  | .invoke id _ => id
  | .dispose id => id

/-- The class has no lock, and sets `_disposed` after the box is destroyed: programs in which members of
one object overlap are left out, also those that only read. -/
def Move.clashes (move other : Move) : Bool := move.object = other.object

theorem independent (env : Environment) (getString : Bytes → Text) :
    Independent (hostStep env getString) Move.clashes fun host => ∃ objects, Mirrors host objects where
  symm move other := decide_eq_decide.mpr eq_comm
  keeps host call answer := by
    rintro ⟨objects, mirrors⟩ stepped
    obtain ⟨after, stepped', mirrors'⟩ := hostStep_refines mirrors call
    cases stepped.symm.trans stepped'
    exact ⟨_, mirrors'⟩
  apart host call other answer := by
    rintro ⟨objects, mirrors⟩ stepped _ _ _ undefined
    obtain ⟨after, stepped', mirrors'⟩ := hostStep_refines mirrors call
    cases stepped.symm.trans stepped'
    obtain ⟨_, stepped'', _⟩ := hostStep_refines mirrors' other
    cases undefined.symm.trans stepped''

/-- **A program whose members of one object do not overlap is defined, and does what `specStep` says**,
with the members in the order in which they ended: every object mirrors its session until it is
disposed, the boxes of all other sessions have been destroyed, and no call is made on them. What this
leaves out is a member that begins while another member of its object runs. -/
theorem unity_refines (env : Environment) (getString : Bytes → Text) (moments : List (Moment Move))
    (trace : List (Moment Move × Option ((ℕ × Move) × Result))) (busy : Busy Host Move)
    (ran : overlapped (hostStep env getString) Move.clashes {} moments = some (trace, busy)) :
    ended trace = (Machine.run (specStep env getString) (fun _ => none)
        ((ended trace).map Prod.fst)).1 ∧
      Mirrors busy.state (Machine.run (specStep env getString) (fun _ => none)
        ((ended trace).map Prod.fst)).2 ∧
      ∀ moment, momentStep (hostStep env getString) Move.clashes busy moment = none ↔
        ∃ thread move, moment = .begins thread move ∧ (∀ call ∈ busy.running, call.1 ≠ thread) ∧
          ∃ call ∈ busy.running, call.2.object = move.object := by
  obtain ⟨ordered, sound⟩ := ran_in_order (independent env getString) ⟨_, Mirrors.start⟩ ran
  obtain ⟨host, simulated, mirrors⟩ := Machine.attempt_simulates Mirrors
    (fun _ _ made mirrors => hostStep_refines mirrors made) Mirrors.start ((ended trace).map Prod.fst)
  rw [ordered, Option.some.injEq, Prod.mk.injEq] at simulated
  refine ⟨simulated.1, simulated.2 ▸ mirrors, fun moment => (momentStep_eq_none_iff sound).trans ?_⟩
  have defined : ∀ made, hostStep env getString busy.state made ≠ none := by
    intro made undefined
    obtain ⟨_, stepped, _⟩ := hostStep_refines (simulated.2 ▸ mirrors) made
    cases undefined.symm.trans stepped
  constructor
  · rintro ⟨thread, move, begins, idle, refused | ⟨call, member, clash⟩⟩
    · exact absurd refused (defined _)
    · exact ⟨thread, move, begins, idle, call, member, of_decide_eq_true clash⟩
  · rintro ⟨thread, move, begins, idle, call, member, same⟩
    exact ⟨thread, move, begins, idle, .inr ⟨call, member, decide_eq_true same⟩⟩

/-- Two threads make an object each at one time; one of them disposes of its own while the other looks
at its own; then a member is called on each. -/
def twoObjects : List (Moment Move) :=
  let config : FoldbackConfig := ⟨60, 2, 0, 0, none, none⟩
  let create := fun _ : String => (.error .other : Except IoError (List Bool))
  [.begins 1 (.construct 0 create config), .begins 2 (.construct 1 create config), .ends 2, .ends 1,
    .begins 1 (.dispose 0), .begins 2 (.invoke 1 .tickRateHz), .ends 1, .ends 2,
    .begins 1 (.invoke 0 .peerCount), .begins 2 (.invoke 1 .peerCount), .ends 2, .ends 1]

theorem unity_refines_two : ∃ trace busy,
    overlapped (hostStep countingEnvironment fun _ => []) Move.clashes {} twoObjects =
        some (trace, busy) ∧
      (ended trace).map Prod.snd = [.returned .unit, .returned .unit, .returned .unit,
        .returned (.number 60), .returned (.number 2), .thrown (.objectDisposed "FoldbackSession")] ∧
      Mirrors busy.state (Machine.run (specStep countingEnvironment fun _ => []) (fun _ => none)
        ((ended trace).map Prod.fst)).2 := by
  have observed : (overlapped (hostStep countingEnvironment fun _ => []) Move.clashes {}
      twoObjects).map (fun ran => (ended ran.1).map Prod.snd) = some [.returned .unit,
        .returned .unit, .returned .unit, .returned (.number 60), .returned (.number 2),
        .thrown (.objectDisposed "FoldbackSession")] := by decide +kernel
  obtain ⟨⟨trace, busy⟩, ran, same⟩ := Option.map_eq_some_iff.mp observed
  exact ⟨trace, busy, ran, same,
    (unity_refines countingEnvironment (fun _ => []) twoObjects trace busy ran).2.1⟩

end Foldback.Unity
