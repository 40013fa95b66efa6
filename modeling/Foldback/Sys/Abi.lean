/-
**The C ABI of `foldback-sys`, function by function.**

* `Process` is what the callers share: the boxed sessions and every thread's last error. A box is not
  used again once it is destroyed, so that a pointer into it stays recognisable.
* `Native α` is one call into the library. `none` is a call that breaks its safety contract: a pointer
  that is neither null nor a session that was created and not destroyed.
* `CString` and `Slots` are pointers that keep their contract: a terminated string, and as many
  elements as the length says.
* `Environment` holds what the library takes from elsewhere: the hash and the texts of errors. The
  allocator is taken to grant what is asked of it.
-/

import Foldback.Sys.Pending

namespace Foldback.Sys

/-- Of these, only `ok` and `panic` are ever returned. -/
inductive Status
  | ok
  | nullPointer
  | invalidUtf8
  | io
  | panic
  deriving DecidableEq, Repr

/-! ### Pointers -/

/-- A `const char *` that is not null. -/
structure CString where
  memory : Bytes
  terminated : 0 ∈ memory

/-- What `CStr::from_ptr` reads: the bytes before the first zero. -/
def CString.bytes (string : CString) : Bytes := string.memory.takeWhile fun byte => byte ≠ 0

abbrev CharPtr := Option CString

/-- Null, or a pointer to at least `len` elements. -/
inductive Slots (α : Type) (len : ℕ)
  | null
  | slots (memory : List α) (room : len ≤ memory.length)

namespace Slots

variable {α : Type} {len : ℕ}

def isNull : Slots α len → Bool
  | null => true
  | slots .. => false

def memory : Slots α len → List α
  | null => []
  | slots memory _ => memory

/-- A pointer to the elements of an array, passed with their number. -/
def all (array : List α) : Slots α array.length := slots array (le_refl _)

end Slots

/-- Null, or the box that `foldback_session_create` returned. -/
abbrev SessionPtr := Option ℕ

structure Config where
  tickRateHz : UInt32
  peerCount : UInt32
  localPeerId : UInt16
  retention : UInt32
  buildId : Vector UInt8 16
  recordToPath : CharPtr

structure Environment where
  hashBytes : Bytes → UInt64
  ioText : IoError → String
  /-- The text of `Utf8Error`. -/
  utf8Error : Bytes → String

/-! ### The process -/

/-- A destroyed session leaves `none`. `LAST_ERROR` is a thread-local. -/
structure Process where
  sessions : List (Option Session) := []
  lastError : ℕ → Option String := fun _ => none

namespace Process

/-- The session of a box. -/
def session (process : Process) (address : ℕ) : Option Session :=
  process.sessions[address]?.join

def setError (process : Process) (thread : ℕ) (lastError : Option String) : Process :=
  { process with lastError := Function.update process.lastError thread lastError }

/-- What a closure that ran on the session of a box leaves. -/
def store (process : Process) (thread address : ℕ) (handle : Handle) : Process :=
  { sessions := process.sessions.set address (some handle.session)
    lastError := Function.update process.lastError thread handle.lastError }

end Process

/-- One call into the library; `none` is undefined behaviour. -/
abbrev Native (α : Type) := StateT Process Option α

/-- A function on the session that a pointer points to; a null pointer is an error. -/
def onHandle {α : Type} (thread : ℕ) (default : α) (session : SessionPtr) (f : Handle → α × Handle) :
    Native α := fun process =>
  match session with
  | none => some (default, process.setError thread (some "session was null"))
  | some address =>
    (process.session address).map fun session =>
      let answer := f { session, lastError := process.lastError thread }
      (answer.1, process.store thread address answer.2)

/-- `run_catching` around `as_session_mut(session)?` and the rest of the closure. -/
def onSession {α : Type} (thread : ℕ) (default : α) (session : SessionPtr) (f : AbiM α) : Native α :=
  onHandle thread default session (runCatching default f)

/-! ### Arguments -/

def strFromRaw (utf8Error : Bytes → String) (label : String) : CharPtr → Except String String
  | none => .error (label ++ " was null")
  | some string =>
    match fromUtf8 string.bytes with
    | some text => .ok text
    | none => .error (label ++ " was not valid UTF-8: " ++ utf8Error string.bytes)

def bytesFromRaw (len : ℕ) (ptr : Slots UInt8 len) : Except String Bytes :=
  if len = 0 then .ok []
  else
    match ptr with
    | .null => .error "state pointer was null but len was nonzero"
    | .slots memory _ => .ok (memory.take len)

/-- The names of `foldback_record_schema`. `Vec::with_capacity(field_count)` comes first: on a 64-bit
target it panics from `2 ^ 59` names on, and the panic is caught. Behind a pointer that is not null there
are as many pointers in memory, which is fewer. -/
def fieldsFromRaw (utf8Error : Bytes → String) (fieldCount : ℕ) (fieldNames : Slots CharPtr fieldCount) :
    Except String (List String) :=
  if 0 < fieldCount then
    match fieldNames with
    | .null =>
      if fieldCount < 2 ^ 59 then .error "field_names was null but field_count was nonzero"
      else .error "capacity overflow"
    | .slots memory _ => (memory.take fieldCount).mapM (strFromRaw utf8Error "field_names entry")
  else .ok []

/-- `?` on a check that looks at the arguments only. -/
def checked {α : Type} : Except String α → AbiM α
  | .ok value => pure value
  | .error message => throw message

/-- `.map_err(|e| format!("{name} failed: {e}"))?; Ok(Status::Ok)`. -/
def failing (ioText : IoError → String) (name : String) (attempt : Attempt Session Unit) :
    AbiM Status := fun session =>
  match attempt session with
  | .ok _ after => .ok .ok after
  | .error error after => .error (name ++ " failed: " ++ error.display ioText) after

/-! ### The functions -/

section Functions

variable (env : Environment) (thread : ℕ)

/-- The builder of a configuration whose path, if it has one, is valid; `create` is `File::create`. -/
def builderOf (config : Config) (recordTo : Option (Except IoError (List Bool))) : SessionBuilder where
  tickRateHz := config.tickRateHz
  peerCount := config.peerCount
  localPeerId := config.localPeerId
  buildId := config.buildId
  retention := if config.retention = 0 then 600 else config.retention.toNat
  recordTo := recordTo

/-- The closure of `foldback_session_create`. -/
def createSession (create : String → Except IoError (List Bool)) (config : Option Config) :
    Except String Session := do
  match config with
  | none => throw "config was null"
  | some config =>
    let recordTo ← match config.recordToPath with
      | none => pure none
      | some path => some <$> strFromRaw env.utf8Error "record_to_path" (some path)
    match (builderOf config (recordTo.map create)).build with
    | .ok session => pure session
    | .error error => throw ("could not build session: " ++ error.display env.ioText)

def foldbackSessionCreate (create : String → Except IoError (List Bool)) (config : Option Config) :
    Native SessionPtr := fun process =>
  match createSession env create config with
  | .ok session =>
    some (some process.sessions.length,
      { process with sessions := process.sessions ++ [some session] }.setError thread none)
  | .error message => some (none, process.setError thread (some message))

def foldbackSessionDestroy (session : SessionPtr) : Native Unit := fun process =>
  match session with
  | none => some ((), process)
  | some address =>
    (process.session address).map fun _ =>
      ((), { process with sessions := process.sessions.set address none })

def foldbackHashTick (session : SessionPtr) (tick : UInt64) (len : ℕ) (state : Slots UInt8 len) :
    Native Status :=
  onSession thread .panic session do
    let bytes ← checked (bytesFromRaw len state)
    failing env.ioText "hash_tick" (Session.hashTick env.hashBytes tick bytes)

def foldbackRecordPeerHash (session : SessionPtr) (tick : UInt64) (peerId : UInt16) (hash : UInt64) :
    Native Status :=
  onSession thread .panic session
    (failing env.ioText "record_peer_hash" (Session.recordPeerHash tick peerId hash))

def foldbackHashEntity (session : SessionPtr) (tick entityId : UInt64) (len : ℕ)
    (state : Slots UInt8 len) : Native Status :=
  onSession thread .panic session do
    let bytes ← checked (bytesFromRaw len state)
    failing env.ioText "hash_entity" (Session.hashEntity env.hashBytes tick entityId bytes)

def foldbackRecordPeerEntityHash (session : SessionPtr) (tick : UInt64) (peerId : UInt16)
    (entityId hash : UInt64) : Native Status :=
  onSession thread .panic session
    (failing env.ioText "record_peer_entity_hash"
      (Session.recordPeerEntityHash tick peerId entityId hash))

def foldbackHashField (session : SessionPtr) (tick entityId : UInt64) (fieldName : CharPtr)
    (valueLen : ℕ) (value : Slots UInt8 valueLen) : Native Status :=
  onSession thread .panic session do
    let fieldName ← checked (strFromRaw env.utf8Error "field_name" fieldName)
    let bytes ← checked (bytesFromRaw valueLen value)
    failing env.ioText "hash_field" (Session.hashField env.hashBytes tick entityId fieldName bytes)

def foldbackRecordPeerFieldHash (session : SessionPtr) (tick : UInt64) (peerId : UInt16)
    (entityId : UInt64) (fieldName : CharPtr) (hash : UInt64) (valueLen : ℕ)
    (value : Slots UInt8 valueLen) : Native Status :=
  onSession thread .panic session do
    let fieldName ← checked (strFromRaw env.utf8Error "field_name" fieldName)
    let bytes ← checked (bytesFromRaw valueLen value)
    failing env.ioText "record_peer_field_hash"
      (Session.recordPeerFieldHash tick peerId entityId fieldName hash bytes)

def foldbackRecordSchema (session : SessionPtr) (typeName : CharPtr) (fieldCount : ℕ)
    (fieldNames : Slots CharPtr fieldCount) : Native Status :=
  onSession thread .panic session do
    let typeName ← checked (strFromRaw env.utf8Error "type_name" typeName)
    let fields ← checked (fieldsFromRaw env.utf8Error fieldCount fieldNames)
    failing env.ioText "record_schema" (Session.recordSchema typeName fields)

def foldbackPendingHashCount (session : SessionPtr) : Native ℕ :=
  onHandle thread 0 session Foldback.foldbackPendingHashCount

/-- The number of entries written, and what `out` points to afterwards. -/
def foldbackTakePendingHashes (session : SessionPtr) (outCapacity : ℕ) (out : OutPointer outCapacity) :
    Native (ℕ × List PendingHash) :=
  onHandle thread (0, out.memory) session (Foldback.foldbackTakePendingHashes outCapacity out)

/-- `outFound` and `outTick` are null or hold a value; they are returned as the call leaves them. -/
def foldbackCheckDivergence (session : SessionPtr) (outFound : Option Bool) (outTick : Option UInt64) :
    Native (Status × Option Bool × Option UInt64) :=
  onSession thread (.panic, outFound, outTick) session do
    if outFound = none ∨ outTick = none then throw "out_found or out_tick was null"
    match ← modifyGet Session.checkDivergence with
    | some found => return (.ok, some true, some found.tick)
    | none => return (.ok, some false, outTick)

def foldbackFinish (session : SessionPtr) : Native UInt64 :=
  onSession thread 0 session do return (← get).finish

def foldbackFinishRecording (session : SessionPtr) : Native Status :=
  onSession thread .panic session (failing env.ioText "finish_recording" Session.finishRecording)

def foldbackTickRateHz (session : SessionPtr) : Native UInt32 :=
  onSession thread 0 session do return (← get).tickRateHz

def foldbackPeerCount (session : SessionPtr) : Native UInt32 :=
  onSession thread 0 session do return (← get).peerCount

/-- The length of the message, and what `buf` points to afterwards. -/
def foldbackLastError (bufLen : ℕ) (buf : Slots UInt8 bufLen) : Native (ℕ × Bytes) := fun process =>
  match process.lastError thread with
  | none => some ((0, buf.memory), process)
  | some message =>
    let bytes := asBytes message
    if 0 < bufLen ∧ buf.isNull = false then
      let copyLen := min bytes.length (bufLen - 1)
      some ((bytes.length, bytes.take copyLen ++ [0] ++ buf.memory.drop (copyLen + 1)), process)
    else some ((bytes.length, buf.memory), process)

end Functions

end Foldback.Sys
