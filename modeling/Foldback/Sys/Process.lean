/-
**The C ABI, one whole call after another.**

* `Entry` is one call into the library, `Operation` one on a session; a run is any sequence of entries,
  each made by a thread. With each answer the run keeps the last error that the thread is left with.
  Calls that overlap in time are the subject of `Sys.Threads`.
* `respond` says what an operation does: check its pointers, make one call of the `Session` API or
  read the session, and reply. `perform_live`: **every function of the ABI does this.**
* `Process.Served`: the session of a box is the one its creation built, after the calls of its entries.
* `Refines.run`: **every box is served, and each thread's last error is its own**, in every run that
  keeps the safety contract; `processStep_eq_none_iff`: a call breaks it exactly on a dead pointer.
-/

import Foldback.Sys.Abi

namespace Foldback.Sys

open Machine

/-! ### The calls -/

/-- A call on a session. -/
inductive Operation
  | hashTick (tick : UInt64) (len : ℕ) (state : Slots UInt8 len)
  | recordPeerHash (tick : UInt64) (peerId : UInt16) (hash : UInt64)
  | hashEntity (tick entityId : UInt64) (len : ℕ) (state : Slots UInt8 len)
  | recordPeerEntityHash (tick : UInt64) (peerId : UInt16) (entityId hash : UInt64)
  | hashField (tick entityId : UInt64) (fieldName : CharPtr) (valueLen : ℕ)
      (value : Slots UInt8 valueLen)
  | recordPeerFieldHash (tick : UInt64) (peerId : UInt16) (entityId : UInt64) (fieldName : CharPtr)
      (hash : UInt64) (valueLen : ℕ) (value : Slots UInt8 valueLen)
  | recordSchema (typeName : CharPtr) (fieldCount : ℕ) (fieldNames : Slots CharPtr fieldCount)
  | pendingHashCount
  | takePendingHashes (outCapacity : ℕ) (out : OutPointer outCapacity)
  | checkDivergence (outFound : Option Bool) (outTick : Option UInt64)
  | finish
  | finishRecording
  | tickRateHz
  | peerCount

inductive Entry
  | sessionCreate (create : String → Except IoError (List Bool)) (config : Option Config)
  | sessionDestroy (session : SessionPtr)
  | on (session : SessionPtr) (operation : Operation)
  | lastError (bufLen : ℕ) (buf : Slots UInt8 bufLen)

/-- What a call returns, and what it leaves behind its out-pointers. -/
inductive Answer
  | session (session : SessionPtr)
  | unit
  | status (status : Status)
  | count (count : ℕ)
  | written (count : ℕ) (memory : List PendingHash)
  | divergence (status : Status) (found : Option Bool) (tick : Option UInt64)
  | hash (hash : UInt64)
  | number (number : UInt32)
  | message (length : ℕ) (memory : Bytes)
  deriving DecidableEq

/-- An answer, with the last error that the calling thread has now. -/
structure Observed where
  answer : Answer
  lastError : Option String
  deriving DecidableEq

section Perform

variable (env : Environment) (thread : ℕ)

def Operation.perform (session : SessionPtr) : Operation → Native Answer
  | .hashTick tick len state => .status <$> foldbackHashTick env thread session tick len state
  | .recordPeerHash tick peerId hash =>
    .status <$> foldbackRecordPeerHash env thread session tick peerId hash
  | .hashEntity tick entityId len state =>
    .status <$> foldbackHashEntity env thread session tick entityId len state
  | .recordPeerEntityHash tick peerId entityId hash =>
    .status <$> foldbackRecordPeerEntityHash env thread session tick peerId entityId hash
  | .hashField tick entityId fieldName valueLen value =>
    .status <$> foldbackHashField env thread session tick entityId fieldName valueLen value
  | .recordPeerFieldHash tick peerId entityId fieldName hash valueLen value =>
    .status <$> foldbackRecordPeerFieldHash env thread session tick peerId entityId fieldName hash
      valueLen value
  | .recordSchema typeName fieldCount fieldNames =>
    .status <$> foldbackRecordSchema env thread session typeName fieldCount fieldNames
  | .pendingHashCount => .count <$> foldbackPendingHashCount thread session
  | .takePendingHashes outCapacity out =>
    (fun written => .written written.1 written.2) <$>
      foldbackTakePendingHashes thread session outCapacity out
  | .checkDivergence outFound outTick =>
    (fun checked => .divergence checked.1 checked.2.1 checked.2.2) <$>
      foldbackCheckDivergence thread session outFound outTick
  | .finish => .hash <$> foldbackFinish thread session
  | .finishRecording => .status <$> foldbackFinishRecording env thread session
  | .tickRateHz => .number <$> foldbackTickRateHz thread session
  | .peerCount => .number <$> foldbackPeerCount thread session

def Entry.perform : Entry → Native Answer
  | .sessionCreate create config => .session <$> foldbackSessionCreate env thread create config
  | .sessionDestroy session => (fun _ => .unit) <$> foldbackSessionDestroy session
  | .on session operation => operation.perform env thread session
  | .lastError bufLen buf =>
    (fun written => .message written.1 written.2) <$> foldbackLastError thread bufLen buf

end Perform

/-- One whole call by a thread, if it keeps the contract. -/
def processStep (env : Environment) (process : Process) (made : ℕ × Entry) :
    Option (Observed × Process) :=
  (made.2.perform env made.1 process).map fun answer =>
    (⟨answer.1, answer.2.lastError made.1⟩, answer.2)

abbrev Trace := List ((ℕ × Entry) × Observed)

/-- The run of a sequence of calls, if all keep the contract. -/
def processRun (env : Environment) (entries : List (ℕ × Entry)) : Option (Trace × Process) :=
  Machine.attempt (processStep env) {} entries

/-! ### What an operation does -/

/-- One call of the `Session` API, under the name that its errors carry, or a look at the session. -/
inductive Request
  | call (name : String) (call : Call)
  | query (answer : Session → Answer)

namespace Operation

/-- The request, or the message about a pointer. -/
def request (utf8Error : Bytes → String) : Operation → Except String Request
  | hashTick tick len state => do
    let bytes ← bytesFromRaw len state
    return .call "hash_tick" (.hashTick tick bytes)
  | recordPeerHash tick peerId hash =>
    .ok (.call "record_peer_hash" (.recordPeerHash tick peerId hash))
  | hashEntity tick entityId len state => do
    let bytes ← bytesFromRaw len state
    return .call "hash_entity" (.hashEntity tick entityId bytes)
  | recordPeerEntityHash tick peerId entityId hash =>
    .ok (.call "record_peer_entity_hash" (.recordPeerEntityHash tick peerId entityId hash))
  | hashField tick entityId fieldName valueLen value => do
    let fieldName ← strFromRaw utf8Error "field_name" fieldName
    let bytes ← bytesFromRaw valueLen value
    return .call "hash_field" (.hashField tick entityId fieldName bytes)
  | recordPeerFieldHash tick peerId entityId fieldName hash valueLen value => do
    let fieldName ← strFromRaw utf8Error "field_name" fieldName
    let bytes ← bytesFromRaw valueLen value
    return .call "record_peer_field_hash"
      (.recordPeerFieldHash tick peerId entityId fieldName hash bytes)
  | recordSchema typeName fieldCount fieldNames => do
    let typeName ← strFromRaw utf8Error "type_name" typeName
    let fields ← fieldsFromRaw utf8Error fieldCount fieldNames
    return .call "record_schema" (.recordSchema typeName fields)
  | pendingHashCount => .ok (.query fun session => .count session.pendingHashCount)
  | takePendingHashes outCapacity out =>
    if 0 < outCapacity ∧ out.isNull = true then .error "out was null but out_capacity was nonzero"
    else .ok (.call "take_pending_hashes" (.takePendingHashesUpTo outCapacity))
  | checkDivergence outFound outTick =>
    if outFound = none ∨ outTick = none then .error "out_found or out_tick was null"
    else .ok (.call "check_divergence" .checkDivergence)
  | finish => .ok (.query fun session => .hash session.finish)
  | finishRecording => .ok (.call "finish_recording" .finishRecording)
  | tickRateHz => .ok (.query fun session => .number session.tickRateHz)
  | peerCount => .ok (.query fun session => .number session.peerCount)

/-- The answer of a call that fails: the out-pointers are not written to. -/
def failed : Operation → Answer
  | pendingHashCount => .count 0
  | takePendingHashes _ out => .written 0 out.memory
  | checkDivergence outFound outTick => .divergence .panic outFound outTick
  | finish => .hash 0
  | tickRateHz => .number 0
  | peerCount => .number 0
  | _ => .status .panic

/-- The answer to what the session responds, if that is no error. -/
def reply (operation : Operation) : Response → Answer
  | .returned _ => .status .ok
  | .drained hashes =>
    match operation with
    | takePendingHashes _ out => .written hashes.length (hashes ++ out.memory.drop hashes.length)
    | _ => .count hashes.length
  | .divergence found =>
    match operation, found with
    | checkDivergence .., some found => .divergence .ok (some true) (some found.tick)
    | checkDivergence _ outTick, none => .divergence .ok (some false) outTick
    | _, _ => .unit

/-- One call of the `Session` API, and what its thread observes. -/
def answerCall (env : Environment) (operation : Operation) (name : String) (call : Call)
    (session : Session) : Observed × Session :=
  let made := step env.hashBytes session call
  match made.1 with
  | .returned (.error error) =>
    (⟨operation.failed, some (name ++ " failed: " ++ error.display env.ioText)⟩, made.2)
  | response => (⟨operation.reply response, none⟩, made.2)

/-- The answer to a request, or to a message about a pointer. -/
def answer (env : Environment) (operation : Operation) (request : Except String Request)
    (session : Session) : Observed × Session :=
  match request with
  | .error message => (⟨operation.failed, some message⟩, session)
  | .ok (.query answer) => (⟨answer session, none⟩, session)
  | .ok (.call name call) => operation.answerCall env name call session

/-- **What an operation does to its session**, and what its thread observes. -/
def respond (env : Environment) (operation : Operation) (session : Session) : Observed × Session :=
  operation.answer env (operation.request env.utf8Error) session

end Operation

/-! ### The functions do what `respond` says -/

/-- What the process is after an operation on the session of a box. -/
def Process.observe (process : Process) (thread address : ℕ) (answered : Observed × Session) :
    Option (Answer × Process) :=
  some (answered.1.answer, process.store thread address ⟨answered.2, answered.1.lastError⟩)

section Live

variable {env : Environment} {thread address : ℕ} {process : Process} {session : Session}

theorem map_native {α β : Type} (f : α → β) (native : Native α) :
    (f <$> native) process = (native process).map fun answer => (f answer.1, answer.2) := by
  show (native process).bind _ = _
  rw [Option.map_eq_bind]
  rfl

theorem onHandle_live {α : Type} (default : α) (f : Handle → α × Handle)
    (live : process.session address = some session) :
    onHandle thread default (some address) f process =
      some ((f ⟨session, process.lastError thread⟩).1,
        process.store thread address (f ⟨session, process.lastError thread⟩).2) := by
  simp only [onHandle, live, Option.map_some]

/-- A closure that ends in one call of the `Session` API. -/
theorem failing_live (operation : Operation) (call : Call) {name : String}
    {attempt : Attempt Session Unit} (live : process.session address = some session)
    (same : outcome attempt session = step env.hashBytes session call)
    (failed : operation.failed = .status .panic) :
    (Answer.status <$> onSession thread .panic (some address) (failing env.ioText name attempt))
        process =
      process.observe thread address
        (operation.answer env (.ok (.call name call)) session) := by
  rw [map_native, onSession, onHandle_live _ _ live]
  simp only [Operation.answer, Operation.answerCall, ← same, runCatching, failing, outcome]
  rcases attempt session with ⟨_, after⟩ | ⟨error, after⟩
  · rfl
  · simp only [Process.observe, failed]
    rfl

/-- A check that fails ends the closure. -/
theorem checked_live {α : Type} (operation : Operation) {check : Except String α}
    {next : α → AbiM Status} {request : α → Except String Request}
    (live : process.session address = some session) (failed : operation.failed = .status .panic)
    (passes : ∀ value, (Answer.status <$> onSession thread .panic (some address) (next value))
      process = process.observe thread address (operation.answer env (request value) session)) :
    (Answer.status <$> onSession thread .panic (some address) (checked check >>= next)) process =
      process.observe thread address (operation.answer env (check >>= request) session) := by
  cases check with
  | ok value => exact passes value
  | error message =>
    rw [map_native, onSession, onHandle_live _ _ live]
    show _ = process.observe thread address (⟨operation.failed, some message⟩, session)
    rw [failed]
    rfl

/-- **Every function of the ABI does what `respond` says** on a session that lives. -/
theorem perform_live (operation : Operation) (live : process.session address = some session) :
    operation.perform env thread (some address) process =
      process.observe thread address (operation.respond env session) := by
  cases operation with
  | hashTick tick len state =>
    exact checked_live (.hashTick tick len state) live rfl fun bytes =>
      failing_live _ (.hashTick tick bytes) live rfl rfl
  | recordPeerHash tick peerId hash =>
    exact failing_live (.recordPeerHash tick peerId hash) (.recordPeerHash tick peerId hash) live
      rfl rfl
  | hashEntity tick entityId len state =>
    exact checked_live (.hashEntity tick entityId len state) live rfl fun bytes =>
      failing_live _ (.hashEntity tick entityId bytes) live rfl rfl
  | recordPeerEntityHash tick peerId entityId hash =>
    exact failing_live (.recordPeerEntityHash tick peerId entityId hash)
      (.recordPeerEntityHash tick peerId entityId hash) live rfl rfl
  | hashField tick entityId fieldName valueLen value =>
    exact checked_live (.hashField tick entityId fieldName valueLen value) live rfl fun name =>
      checked_live _ live rfl fun bytes =>
        failing_live _ (.hashField tick entityId name bytes) live rfl rfl
  | recordPeerFieldHash tick peerId entityId fieldName hash valueLen value =>
    exact checked_live (.recordPeerFieldHash tick peerId entityId fieldName hash valueLen value)
      live rfl fun name => checked_live _ live rfl fun bytes =>
        failing_live _ (.recordPeerFieldHash tick peerId entityId name hash bytes) live rfl rfl
  | recordSchema typeName fieldCount fieldNames =>
    exact checked_live (.recordSchema typeName fieldCount fieldNames) live rfl fun name =>
      checked_live _ live rfl fun fields =>
        failing_live _ (.recordSchema name fields) live rfl rfl
  | pendingHashCount =>
    rw [Operation.perform, map_native, foldbackPendingHashCount, onHandle_live _ _ live]
    rfl
  | takePendingHashes outCapacity out =>
    rw [Operation.perform, map_native, foldbackTakePendingHashes, onHandle_live _ _ live]
    by_cases null : 0 < outCapacity ∧ out.isNull = true
    · rw [take_null outCapacity out _ null.2 null.1]
      simp only [Operation.respond, Operation.request, if_pos null]
      rfl
    · rw [take_slots outCapacity out _ null]
      simp only [Operation.respond, Operation.request, if_neg null]
      rfl
  | checkDivergence outFound outTick =>
    rw [Operation.perform, map_native, foldbackCheckDivergence, onSession, onHandle_live _ _ live]
    by_cases null : outFound = none ∨ outTick = none
    · simp only [Operation.respond, Operation.request, if_pos null]
      rfl
    · have bound : ∀ next : Option DivergenceTick → AbiM (Status × Option Bool × Option UInt64),
          (modifyGet Session.checkDivergence >>= next) session =
            next session.checkDivergence.1 session.checkDivergence.2 := fun _ => rfl
      simp only [Operation.respond, Operation.answer, Operation.request, if_neg null,
        Operation.answerCall, step, runCatching, bound]
      rcases session.checkDivergence with ⟨_ | found, after⟩
      · rfl
      · rfl
  | finish =>
    rw [Operation.perform, map_native, foldbackFinish, onSession, onHandle_live _ _ live]
    rfl
  | finishRecording => exact failing_live .finishRecording .finishRecording live rfl rfl
  | tickRateHz =>
    rw [Operation.perform, map_native, foldbackTickRateHz, onSession, onHandle_live _ _ live]
    rfl
  | peerCount =>
    rw [Operation.perform, map_native, foldbackPeerCount, onSession, onHandle_live _ _ live]
    rfl

theorem perform_null (env : Environment) (thread : ℕ) (process : Process) (operation : Operation) :
    operation.perform env thread none process =
      some (operation.failed, process.setError thread (some "session was null")) := by
  cases operation <;> rfl

/-- On a session that was destroyed, or was never made, a call is undefined. -/
theorem perform_dangling (operation : Operation) (dangling : process.session address = none) :
    operation.perform env thread (some address) process = none := by
  have undefined : ∀ {α : Type} (f : α → Answer) (default : α) (g : Handle → α × Handle),
      (f <$> onHandle thread default (some address) g) process = none := by
    intro α f default g
    rw [map_native, onHandle, dangling]
    rfl
  cases operation with
  | pendingHashCount => exact undefined _ 0 _
  | takePendingHashes outCapacity out => exact undefined _ (0, out.memory) _
  | checkDivergence outFound outTick => exact undefined _ (.panic, outFound, outTick) _
  | finish => exact undefined _ 0 _
  | tickRateHz => exact undefined _ 0 _
  | peerCount => exact undefined _ 0 _
  | _ => exact undefined _ .panic _

end Live

/-- **What one call does**, one case for each way it can end. -/
inductive Effect (env : Environment) (thread : ℕ) (before : Process) :
    Entry → Observed → Process → Prop
  | created {create : String → Except IoError (List Bool)} {config : Option Config} (start : Session)
      (made : createSession env create config = .ok start) :
      Effect env thread before (.sessionCreate create config)
        ⟨.session (some before.sessions.length), none⟩
        ({ before with sessions := before.sessions ++ [some start] }.setError thread none)
  | refused {create : String → Except IoError (List Bool)} {config : Option Config} (message : String)
      (fails : createSession env create config = .error message) :
      Effect env thread before (.sessionCreate create config) ⟨.session none, some message⟩
        (before.setError thread (some message))
  | destroyed (address : ℕ) (session : Session) (live : before.session address = some session) :
      Effect env thread before (.sessionDestroy (some address)) ⟨.unit, before.lastError thread⟩
        { before with sessions := before.sessions.set address none }
  | kept : Effect env thread before (.sessionDestroy none) ⟨.unit, before.lastError thread⟩ before
  | performed (address : ℕ) (session : Session) (operation : Operation)
      (live : before.session address = some session) :
      Effect env thread before (.on (some address) operation) (operation.respond env session).1
        (before.store thread address
          ⟨(operation.respond env session).2, (operation.respond env session).1.lastError⟩)
  | null (operation : Operation) :
      Effect env thread before (.on none operation)
        ⟨operation.failed, some "session was null"⟩
        (before.setError thread (some "session was null"))
  | read (bufLen : ℕ) (buf : Slots UInt8 bufLen) (length : ℕ) (memory : Bytes) :
      Effect env thread before (.lastError bufLen buf)
        ⟨.message length memory, before.lastError thread⟩ before

theorem effect_of_processStep {env : Environment} {thread : ℕ} {before after : Process} {entry : Entry}
    {observed : Observed} (stepped : processStep env before (thread, entry) = some (observed, after)) :
    Effect env thread before entry observed after := by
  obtain ⟨⟨answer, final⟩, performed, same⟩ := Option.map_eq_some_iff.mp stepped
  cases same
  cases entry with
  | sessionCreate create config =>
    simp only [Entry.perform, map_native, foldbackSessionCreate] at performed
    rcases made : createSession env create config with message | start
    · rw [made] at performed
      cases performed
      have refused : Effect env thread before _ _ _ := .refused message made
      simpa [Process.setError] using refused
    · rw [made] at performed
      cases performed
      have created : Effect env thread before _ _ _ := .created start made
      simpa [Process.setError] using created
  | sessionDestroy session =>
    simp only [Entry.perform, map_native, foldbackSessionDestroy] at performed
    rcases session with _ | address
    · cases performed
      exact .kept
    · rcases live : before.session address with _ | session
      · simp only [live, Option.map_none] at performed
        cases performed
      · simp only [live, Option.map_some] at performed
        cases performed
        exact .destroyed address session live
  | on session operation =>
    rcases session with _ | address
    · rw [Entry.perform, perform_null] at performed
      cases performed
      have null : Effect env thread before _ _ _ := .null operation
      simpa [Process.setError] using null
    · rcases live : before.session address with _ | session
      · rw [Entry.perform, perform_dangling operation live] at performed
        cases performed
      · rw [Entry.perform, perform_live operation live] at performed
        cases performed
        have done : Effect env thread before _ _ _ := .performed address session operation live
        simpa [Process.store] using done
  | lastError bufLen buf =>
    have quiet : final = before ∧ ∃ length memory, answer = .message length memory := by
      simp only [Entry.perform, map_native, foldbackLastError] at performed
      split at performed
      · cases performed
        exact ⟨rfl, _, _, rfl⟩
      · split at performed
        all_goals
          cases performed
          exact ⟨rfl, _, _, rfl⟩
    obtain ⟨rfl, length, memory, rfl⟩ := quiet
    exact .read bufLen buf length memory

/-! ### The sessions of a process -/

namespace Process

variable {process : Process} {address : ℕ}

@[simp]
theorem session_setError (process : Process) (thread : ℕ) (lastError : Option String) (address : ℕ) :
    (process.setError thread lastError).session address = process.session address := rfl

theorem lt_length_of_session {session : Session} (live : process.session address = some session) :
    address < process.sessions.length := by
  by_contra beyond
  rw [Process.session, List.getElem?_eq_none (Nat.le_of_not_lt beyond)] at live
  cases live

/-- A new box changes no other. -/
theorem session_push (process : Process) (start : Session) (address : ℕ) :
    ({ process with sessions := process.sessions ++ [some start] } : Process).session address =
      if address = process.sessions.length then some start else process.session address := by
  unfold session
  by_cases here : address = process.sessions.length
  · rw [if_pos here, here]
    simp
  · rw [if_neg here]
    rcases Nat.lt_or_gt_of_ne here with before | beyond
    · rw [List.getElem?_append_left before]
    · rw [List.getElem?_eq_none (by simpa using beyond), List.getElem?_eq_none beyond.le]

theorem session_set (process : Process) {there : ℕ} (inside : there < process.sessions.length)
    (now : Option Session) (address : ℕ) :
    ({ process with sessions := process.sessions.set there now } : Process).session address =
      if address = there then now else process.session address := by
  unfold session
  by_cases here : address = there
  · rw [if_pos here, here, List.getElem?_set_self inside]
    rfl
  · rw [if_neg here, List.getElem?_set_ne (Ne.symm here)]

theorem session_store (process : Process) {there : ℕ} (inside : there < process.sessions.length)
    (thread : ℕ) (handle : Handle) (address : ℕ) :
    (process.store thread there handle).session address =
      if address = there then some handle.session else process.session address :=
  session_set process inside (some handle.session) address

end Process

/-! ### Whole runs -/

/-- The call that an entry makes on the session of a box. -/
def Entry.callOn (utf8Error : Bytes → String) (address : ℕ) : Entry → Option Call
  | .on (some there) operation =>
    if there = address then
      match operation.request utf8Error with
      | .ok (.call _ call) => some call
      | _ => none
    else none
  | _ => none

def callsOn (utf8Error : Bytes → String) (address : ℕ) (trace : Trace) : List Call :=
  trace.filterMap fun entry => entry.1.2.callOn utf8Error address

/-- The session of the `Session` API after the calls of a trace. -/
def sessionAfter (env : Environment) (address : ℕ) (start : Session) (since : Trace) : Session :=
  (run env.hashBytes start (callsOn env.utf8Error address since)).2

/-- **The session of a box is that of the `Session` API**, and so is every answer that it gave. -/
structure Served (env : Environment) (address : ℕ) (start : Session) (since : Trace)
    (session : Session) : Prop where
  state : session = sessionAfter env address start since
  answers : ∀ first thread operation observed rest,
    since = first ++ ((thread, .on (some address) operation), observed) :: rest →
      observed = (operation.respond env (sessionAfter env address start first)).1

/-- The box was made by an entry of the trace, and is served since. -/
def ServedSince (env : Environment) (address : ℕ) (trace : Trace) (session : Session) : Prop :=
  ∃ before thread create config start since,
    trace = before ++ ((thread, .sessionCreate create config), ⟨.session (some address), none⟩) :: since ∧
      createSession env create config = .ok start ∧ Served env address start since session

/-- The last error that the last call of a thread left. -/
def lastObserved (thread : ℕ) (trace : Trace) : Option String :=
  (trace.filter fun entry => entry.1.1 = thread).getLast?.bind fun entry => entry.2.lastError

section Runs

variable {env : Environment} {address thread : ℕ} {start session : Session} {since : Trace}

/-- The last entry of a list that is taken apart is among the rest, or is the one taken out. -/
theorem split_snoc {α : Type} {list first rest : List α} {last here : α}
    (split : list ++ [last] = first ++ here :: rest) :
    (here = last ∧ first = list ∧ rest = []) ∨
      ∃ rest', rest = rest' ++ [last] ∧ list = first ++ here :: rest' := by
  rcases rest.eq_nil_or_concat' with rfl | ⟨rest', last', rfl⟩
  · obtain ⟨same, last⟩ := List.append_inj' split rfl
    exact .inl ⟨(List.singleton_inj.mp last).symm, same.symm, rfl⟩
  · rw [← List.cons_append, ← List.append_assoc] at split
    obtain ⟨same, last⟩ := List.append_inj' split rfl
    exact .inr ⟨rest', by rw [List.singleton_inj.mp last], same⟩

theorem Served.fresh (env : Environment) (address : ℕ) (start : Session) :
    Served env address start [] start where
  state := rfl
  answers first thread operation observed rest split := by
    cases first <;> cases split

theorem answerCall_session (operation : Operation) (name : String) (call : Call) (session : Session) :
    (operation.answerCall env name call session).2 = (step env.hashBytes session call).2 := by
  simp only [Operation.answerCall]
  split <;> rfl

theorem sessionAfter_snoc (entry : ℕ × Entry) (observed : Observed) :
    sessionAfter env address start (since ++ [(entry, observed)]) =
      (run env.hashBytes (sessionAfter env address start since)
        (entry.2.callOn env.utf8Error address).toList).2 := by
  have calls : callsOn env.utf8Error address (since ++ [(entry, observed)]) =
      callsOn env.utf8Error address since ++ (entry.2.callOn env.utf8Error address).toList := by
    rw [callsOn, List.filterMap_append, callsOn, List.filterMap_cons, List.filterMap_nil]
    rcases entry.2.callOn env.utf8Error address with _ | call <;> rfl
  rw [sessionAfter, calls, run, Machine.run_append]
  rfl

/-- What happens to other sessions leaves this one as it is. -/
theorem Served.other (served : Served env address start since session) (entry : ℕ × Entry)
    (observed : Observed) (elsewhere : ∀ operation, entry.2 ≠ .on (some address) operation) :
    Served env address start (since ++ [(entry, observed)]) session where
  state := by
    have silent : entry.2.callOn env.utf8Error address = none := by
      rcases made : entry.2 with _ | _ | ⟨_ | there, operation⟩ | _
      all_goals try rfl
      rw [Entry.callOn, if_neg]
      rintro rfl
      exact elsewhere operation made
    rw [sessionAfter_snoc, silent, served.state]
    rfl
  answers first by_ operation seen rest split := by
    rcases split_snoc split with ⟨same, -, -⟩ | ⟨rest', -, earlier⟩
    · exact absurd (congrArg (fun entry => entry.1.2) same).symm (elsewhere operation)
    · exact served.answers first by_ operation seen rest' earlier

/-- An operation on it is a call of the `Session` API. -/
theorem Served.perform (served : Served env address start since session) (thread : ℕ)
    (operation : Operation) :
    Served env address start
      (since ++ [((thread, .on (some address) operation), (operation.respond env session).1)])
      (operation.respond env session).2 where
  state := by
    rw [sessionAfter_snoc, ← served.state, Entry.callOn, if_pos rfl]
    unfold Operation.respond
    rcases operation.request env.utf8Error with message | ⟨name, call⟩ | answer
    · rfl
    · exact answerCall_session operation name call session
    · rfl
  answers first by_ made seen rest split := by
    rcases split_snoc split with ⟨same, first, -⟩ | ⟨rest', -, earlier⟩
    · cases same
      rw [first, ← served.state]
    · exact served.answers first by_ made seen rest' earlier

theorem ServedSince.other {trace : Trace} (served : ServedSince env address trace session)
    (entry : ℕ × Entry) (observed : Observed)
    (elsewhere : ∀ operation, entry.2 ≠ .on (some address) operation) :
    ServedSince env address (trace ++ [(entry, observed)]) session := by
  obtain ⟨before, thread, create, config, start, since, split, made, served⟩ := served
  refine ⟨before, thread, create, config, start, since ++ [(entry, observed)], ?_, made,
    served.other entry observed elsewhere⟩
  rw [split, List.append_assoc, List.cons_append]

theorem ServedSince.perform {trace : Trace} (served : ServedSince env address trace session)
    (thread : ℕ) (operation : Operation) :
    ServedSince env address
      (trace ++ [((thread, .on (some address) operation), (operation.respond env session).1)])
      (operation.respond env session).2 := by
  obtain ⟨before, creator, create, config, start, since, split, made, served⟩ := served
  refine ⟨before, creator, create, config, start, since ++ [_], ?_, made,
    served.perform thread operation⟩
  rw [split, List.append_assoc, List.cons_append]

end Runs

/-- The box was returned by `foldback_session_create`. -/
def MadeIn (address : ℕ) (trace : Trace) : Prop :=
  ∃ entry ∈ trace, entry.2.answer = .session (some address)

/-- The box was given to `foldback_session_destroy`. -/
def DestroyedIn (address : ℕ) (trace : Trace) : Prop :=
  ∃ entry ∈ trace, entry.1.2 = .sessionDestroy (some address)

/-- **The invariant of a process**: a box lives from its creation to its destruction, it is served
meanwhile, and every thread has its own last error. -/
structure Refines (env : Environment) (trace : Trace) (process : Process) : Prop where
  made : ∀ address, MadeIn address trace ↔ address < process.sessions.length
  destroyed : ∀ address, DestroyedIn address trace → MadeIn address trace
  alive : ∀ address, (process.session address).isSome ↔
    MadeIn address trace ∧ ¬ DestroyedIn address trace
  served : ∀ address session, process.session address = some session →
    ServedSince env address trace session
  lastError : ∀ thread, process.lastError thread = lastObserved thread trace

section Step

variable {env : Environment} {thread : ℕ} {before after : Process} {entry : Entry}
  {observed : Observed}

/-- **A call changes the last error of its own thread alone.** -/
theorem Effect.lastError (effect : Effect env thread before entry observed after) (other : ℕ) :
    after.lastError other =
      if other = thread then observed.lastError else before.lastError other := by
  have updated : ∀ (error : Option String),
      Function.update before.lastError thread error other =
        if other = thread then error else before.lastError other := by
    intro error
    rw [Function.update_apply]
  have same : before.lastError other =
      if other = thread then before.lastError thread else before.lastError other := by
    split
    · rename_i here
      rw [here]
    · rfl
  cases effect with
  | created start made => exact updated none
  | refused message fails => exact updated (some message)
  | destroyed address session live => exact same
  | kept => exact same
  | performed address session operation live => exact updated _
  | null operation => exact updated _
  | read bufLen buf length memory => exact same

theorem lastObserved_snoc (trace : Trace) (entry : ℕ × Entry) (observed : Observed) (other : ℕ) :
    lastObserved other (trace ++ [(entry, observed)]) =
      if other = entry.1 then observed.lastError else lastObserved other trace := by
  unfold lastObserved
  rw [List.filter_append]
  by_cases own : other = entry.1
  · have kept : [(entry, observed)].filter (fun entry => entry.1.1 = other) = [(entry, observed)] := by
      simp [own]
    rw [if_pos own, kept, List.getLast?_concat]
    rfl
  · have dropped : [(entry, observed)].filter (fun entry => entry.1.1 = other) = [] := by
      simp [Ne.symm own]
    rw [if_neg own, dropped, List.append_nil]

theorem madeIn_snoc (trace : Trace) (entry : ℕ × Entry) (observed : Observed) (address : ℕ) :
    MadeIn address (trace ++ [(entry, observed)]) ↔
      MadeIn address trace ∨ observed.answer = .session (some address) := by
  simp [MadeIn, or_and_right, exists_or]

theorem destroyedIn_snoc (trace : Trace) (entry : ℕ × Entry) (observed : Observed) (address : ℕ) :
    DestroyedIn address (trace ++ [(entry, observed)]) ↔
      DestroyedIn address trace ∨ entry.2 = .sessionDestroy (some address) := by
  simp [DestroyedIn, or_and_right, exists_or]

/-- A request behind a check is one that the check lets through. -/
theorem query_of_bind {α : Type} {check : Except String α} {request : α → Except String Request}
    {answer : Session → Answer} (asked : (check >>= request) = .ok (.query answer)) :
    ∃ value, request value = .ok (.query answer) := by
  cases check with
  | ok value => exact ⟨value, asked⟩
  | error message => cases asked

/-- No operation returns a session. -/
theorem respond_ne_session (operation : Operation) (session : Session) (address : SessionPtr) :
    (operation.respond env session).1.answer ≠ .session address := by
  have failed : operation.failed ≠ .session address := by
    cases operation <;> simp [Operation.failed]
  have replied : ∀ response, operation.reply response ≠ .session address := by
    intro response
    unfold Operation.reply
    split
    · simp
    · split <;> simp
    · split <;> simp
  unfold Operation.respond Operation.answer
  split
  · exact failed
  · rename_i answer asked
    cases operation with
    | pendingHashCount => cases asked; simp
    | finish => cases asked; simp
    | tickRateHz => cases asked; simp
    | peerCount => cases asked; simp
    | hashTick tick len state =>
      obtain ⟨bytes, asked⟩ := query_of_bind asked
      cases asked
    | hashEntity tick entityId len state =>
      obtain ⟨bytes, asked⟩ := query_of_bind asked
      cases asked
    | hashField tick entityId fieldName valueLen value =>
      obtain ⟨name, asked⟩ := query_of_bind asked
      obtain ⟨bytes, asked⟩ := query_of_bind asked
      cases asked
    | recordPeerFieldHash tick peerId entityId fieldName hash valueLen value =>
      obtain ⟨name, asked⟩ := query_of_bind asked
      obtain ⟨bytes, asked⟩ := query_of_bind asked
      cases asked
    | recordSchema typeName fieldCount fieldNames =>
      obtain ⟨name, asked⟩ := query_of_bind asked
      obtain ⟨fields, asked⟩ := query_of_bind asked
      cases asked
    | takePendingHashes outCapacity out =>
      rw [Operation.request] at asked
      split at asked <;> cases asked
    | checkDivergence outFound outTick =>
      rw [Operation.request] at asked
      split at asked <;> cases asked
    | _ => cases asked
  · simp only [Operation.answerCall]
    split
    · exact failed
    · exact replied _

end Step

namespace Refines

variable {env : Environment} {trace : Trace} {thread : ℕ} {before after : Process} {entry : Entry}
  {observed : Observed}

theorem start (env : Environment) : Refines env [] {} where
  made address := ⟨fun ⟨_, member, _⟩ => absurd member List.not_mem_nil, fun inside => absurd inside
    (Nat.not_lt_zero address)⟩
  destroyed address := fun ⟨_, member, _⟩ => absurd member List.not_mem_nil
  alive address := ⟨fun live => (by cases live), fun ⟨⟨_, member, _⟩, _⟩ =>
    absurd member List.not_mem_nil⟩
  served address session live := by cases live
  lastError thread := rfl

/-- A call that neither makes nor destroys a box and leaves every session as it was served. -/
theorem quiet (refines : Refines env trace before)
    (effect : Effect env thread before entry observed after)
    (boxes : after.sessions = before.sessions)
    (made : ∀ address, observed.answer ≠ .session (some address))
    (destroyed : ∀ address, entry ≠ .sessionDestroy (some address))
    (elsewhere : ∀ address operation, entry ≠ .on (some address) operation) :
    Refines env (trace ++ [((thread, entry), observed)]) after where
  made address := by
    rw [madeIn_snoc, boxes, refines.made, or_iff_left (made address)]
  destroyed address := by
    rw [madeIn_snoc, destroyedIn_snoc, or_iff_left (made address), or_iff_left (destroyed address)]
    exact refines.destroyed address
  alive address := by
    rw [madeIn_snoc, destroyedIn_snoc, or_iff_left (made address), or_iff_left (destroyed address),
      Process.session, boxes]
    exact refines.alive address
  served address session live := by
    rw [Process.session, boxes] at live
    exact (refines.served address session live).other _ _ (elsewhere address)
  lastError other := by
    rw [effect.lastError, lastObserved_snoc, refines.lastError]

/-- **Every call keeps the invariant.** -/
theorem step (refines : Refines env trace before)
    (effect : Effect env thread before entry observed after) :
    Refines env (trace ++ [((thread, entry), observed)]) after := by
  have lastError : ∀ other, after.lastError other =
      lastObserved other (trace ++ [((thread, entry), observed)]) := by
    intro other
    rw [effect.lastError, lastObserved_snoc, refines.lastError]
  cases effect with
  | refused message fails =>
    exact refines.quiet (.refused message fails) rfl (fun _ => by simp) (fun _ => by simp)
      fun _ _ => by simp
  | kept => exact refines.quiet .kept rfl (fun _ => by simp) (fun _ => by simp) fun _ _ => by simp
  | null operation =>
    refine refines.quiet (.null operation) rfl (fun _ => ?_) (fun _ => by simp) fun _ _ => by simp
    cases operation <;> simp [Operation.failed]
  | read bufLen buf length memory =>
    exact refines.quiet (.read bufLen buf length memory) rfl (fun _ => by simp) (fun _ => by simp)
      fun _ _ => by simp
  | created start made =>
    rename_i create config
    have here : ∀ address, Answer.session (some before.sessions.length) = .session (some address) ↔
        address = before.sessions.length := by
      intro address
      simp [eq_comm]
    have kept : ∀ address, DestroyedIn address (trace ++ [((thread, .sessionCreate create config),
        ⟨.session (some before.sessions.length), none⟩)]) ↔ DestroyedIn address trace :=
      fun address => (destroyedIn_snoc _ _ _ address).trans (or_iff_left (by simp))
    refine ⟨fun address => ?_, fun address => ?_, fun address => ?_, fun address session live => ?_,
      lastError⟩
    · rw [madeIn_snoc, here, refines.made]
      simp only [Process.setError, List.length_append, List.length_singleton]
      omega
    · rw [madeIn_snoc, kept]
      exact fun destroyed => .inl (refines.destroyed address destroyed)
    · rw [Process.session_setError, Process.session_push, madeIn_snoc, kept, here]
      by_cases fresh : address = before.sessions.length
      · rw [if_pos fresh]
        refine iff_of_true rfl ⟨.inr fresh, fun destroyed => ?_⟩
        exact absurd ((refines.made address).mp (refines.destroyed address destroyed)) (by omega)
      · rw [if_neg fresh, or_iff_left fresh]
        exact refines.alive address
    · rw [Process.session_setError, Process.session_push] at live
      split at live
      · rename_i fresh
        cases live
        subst fresh
        exact ⟨trace, thread, _, _, start, [], rfl, made, Served.fresh env _ start⟩
      · exact (refines.served address session live).other _ _ fun _ => by simp
  | destroyed address session live =>
    have inside := Process.lt_length_of_session live
    refine ⟨fun other => ?_, fun other => ?_, fun other => ?_, fun other session live => ?_,
      lastError⟩
    · rw [madeIn_snoc, refines.made, or_iff_left (by simp), List.length_set]
    · rw [madeIn_snoc, destroyedIn_snoc]
      rintro (destroyed | same)
      · exact .inl (refines.destroyed other destroyed)
      · cases same
        exact .inl ((refines.made address).mpr inside)
    · rw [Process.session_set before inside, madeIn_snoc, destroyedIn_snoc, or_iff_left (by simp)]
      by_cases here : other = address
      · rw [if_pos here]
        exact iff_of_false (by simp) fun alive => alive.2 (.inr (by rw [here]))
      · rw [if_neg here, or_iff_left (by simpa using Ne.symm here)]
        exact refines.alive other
    · rw [Process.session_set before inside] at live
      split at live
      · cases live
      · exact (refines.served other session live).other _ _ fun _ => by simp
  | performed address session operation live =>
    have inside := Process.lt_length_of_session live
    have answered : ∀ other, (operation.respond env session).1.answer ≠ .session (some other) :=
      fun other => respond_ne_session operation session (some other)
    refine ⟨fun other => ?_, fun other => ?_, fun other => ?_, fun other now live' => ?_, lastError⟩
    · rw [madeIn_snoc, refines.made, or_iff_left (answered other), Process.store, List.length_set]
    · rw [madeIn_snoc, destroyedIn_snoc, or_iff_left (answered other), or_iff_left (by simp)]
      exact refines.destroyed other
    · rw [Process.session_store before inside, madeIn_snoc, destroyedIn_snoc,
        or_iff_left (answered other), or_iff_left (by simp)]
      by_cases here : other = address
      · rw [if_pos here, here, ← refines.alive, live]
        exact iff_of_true rfl rfl
      · rw [if_neg here]
        exact refines.alive other
    · rw [Process.session_store before inside] at live'
      split at live'
      · rename_i here
        cases live'
        subst here
        exact (refines.served other session live).perform thread operation
      · rename_i elsewhere
        exact (refines.served other now live').other _ _ fun _ same => elsewhere (by cases same; rfl)

/-- The invariant of a whole run. -/
theorem run {entries : List (ℕ × Entry)} {process : Process}
    (ran : processRun env entries = some (trace, process)) : Refines env trace process :=
  Machine.attempt_history_rule (Refines env) (Refines.start env)
    (fun _ _ _ _ _ refines stepped => refines.step (effect_of_processStep stepped)) ran

end Refines

/-- A call is undefined exactly on a pointer to a box that does not live. -/
theorem processStep_eq_none_iff {env : Environment} {process : Process} {thread : ℕ} {entry : Entry} :
    processStep env process (thread, entry) = none ↔
      ∃ address, process.session address = none ∧
        (entry = .sessionDestroy (some address) ∨ ∃ operation, entry = .on (some address) operation) := by
  rw [processStep, Option.map_eq_none_iff]
  constructor
  · intro undefined
    cases entry with
    | sessionCreate create config =>
      rw [Entry.perform, map_native, Option.map_eq_none_iff, foldbackSessionCreate] at undefined
      split at undefined <;> cases undefined
    | sessionDestroy session =>
      rw [Entry.perform, map_native, Option.map_eq_none_iff] at undefined
      rcases session with _ | address
      · cases undefined
      · exact ⟨address, Option.map_eq_none_iff.mp undefined, .inl rfl⟩
    | on session operation =>
      rcases session with _ | address
      · rw [Entry.perform, perform_null] at undefined
        cases undefined
      · rcases live : process.session address with _ | session
        · exact ⟨address, live, .inr ⟨operation, rfl⟩⟩
        · rw [Entry.perform, perform_live operation live] at undefined
          cases undefined
    | lastError bufLen buf =>
      rw [Entry.perform, map_native, Option.map_eq_none_iff, foldbackLastError] at undefined
      split at undefined
      · cases undefined
      · simp only at undefined
        split at undefined <;> cases undefined
  · rintro ⟨address, dangling, rfl | ⟨operation, rfl⟩⟩
    · simp [Entry.perform, map_native, foldbackSessionDestroy, dangling]
    · exact perform_dangling operation dangling

/-- Two threads make a session each; one of them passes a null pointer, the other hashes a tick, finds
the divergence that a peer reports and is destroyed. -/
def twoThreads : List (ℕ × Entry) :=
  let config : Config := ⟨60, 2, 0, 0, Vector.replicate 16 0, none⟩
  let create := fun _ : String => (.error .other : Except IoError (List Bool))
  [(1, .sessionCreate create (some config)), (2, .sessionCreate create (some config)),
    (1, .on (some 0) (.hashTick 5 1 .null)), (2, .on (some 1) (.hashTick 5 1 (.slots [7] (by decide)))),
    (2, .on (some 1) (.recordPeerHash 5 1 9)),
    (2, .on (some 1) (.checkDivergence (some false) (some 0))), (2, .sessionDestroy (some 1)),
    (2, .on none .finish)]

/-- The hash counts the bytes. -/
def countingEnvironment : Environment where
  hashBytes bytes := UInt64.ofNat bytes.length
  ioText _ := "I/O error"
  utf8Error _ := "invalid utf-8 sequence"

end Foldback.Sys
