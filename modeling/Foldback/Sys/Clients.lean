/-
**What every client of the C ABI relies on.**

* `terminated`: a text as a C string. `strFromRaw_terminated`: **it is read up to its first NUL**, and is
  always valid UTF-8.
* `thread_reads_own_error`: **a thread reads the whole message of its own last call in two calls**, one
  for the length and one for the bytes, whatever other threads do in between.
* `Owns`: each owner has the box of its session, no two have the same, and no box is without an owner.
  Making, destroying, moving and using a session keep this.
-/

import Foldback.Sys.Process

namespace Foldback.Sys

open Machine

/-! ### Texts -/

theorem asBytes_ofList (chars : List Char) :
    asBytes (String.ofList chars) = chars.flatMap String.utf8EncodeChar := by
  unfold asBytes
  rw [String.toUTF8, String.toByteArray_ofList, List.utf8Encode, List.data_toByteArray]

/-- A byte that has a high bit set is not zero. -/
theorem ofNat_add_ne_zero {value high : ℕ} (positive : 0 < high) (small : value + high < 256) :
    0 ≠ UInt8.ofNat (value + high) := by
  intro zero
  have same := congrArg UInt8.toNat zero
  rw [UInt8.toNat_ofNat', Nat.mod_eq_of_lt small] at same
  have none : (0 : UInt8).toNat = 0 := rfl
  omega

/-- No character but NUL has a zero byte. -/
theorem zero_not_mem_utf8EncodeChar {char : Char} (other : char ≠ '\x00') :
    0 ∉ String.utf8EncodeChar char := by
  have nonzero : char.val.toNat ≠ 0 := fun zero => other (Char.ext (UInt32.toNat_inj.mp zero))
  unfold String.utf8EncodeChar
  simp only
  split
  · rw [List.mem_singleton]
    intro zero
    have same := congrArg UInt8.toNat zero
    rw [UInt8.toNat_ofNat', Nat.mod_eq_of_lt (by omega)] at same
    exact nonzero same.symm
  · split
    · simp only [List.mem_cons, List.not_mem_nil, or_false, not_or]
      exact ⟨ofNat_add_ne_zero (by omega) (by omega), ofNat_add_ne_zero (by omega) (by omega)⟩
    · split
      · simp only [List.mem_cons, List.not_mem_nil, or_false, not_or]
        exact ⟨ofNat_add_ne_zero (by omega) (by omega), ofNat_add_ne_zero (by omega) (by omega),
          ofNat_add_ne_zero (by omega) (by omega)⟩
      · simp only [List.mem_cons, List.not_mem_nil, or_false, not_or]
        exact ⟨ofNat_add_ne_zero (by omega) (by omega), ofNat_add_ne_zero (by omega) (by omega),
          ofNat_add_ne_zero (by omega) (by omega), ofNat_add_ne_zero (by omega) (by omega)⟩

/-- A text with a terminating zero. -/
def terminated (text : String) : CString where
  memory := asBytes text ++ [0]
  terminated := List.mem_append_right _ List.mem_cons_self

/-- The part of a text before its first NUL. -/
def untilNul (text : String) : String :=
  String.ofList (text.toList.takeWhile fun char => char ≠ '\x00')

theorem takeWhile_utf8 (chars : List Char) :
    (chars.flatMap String.utf8EncodeChar ++ [0]).takeWhile (fun byte => byte ≠ 0) =
      (chars.takeWhile fun char => char ≠ '\x00').flatMap String.utf8EncodeChar := by
  induction chars with
  | nil => rfl
  | cons char chars ih =>
    by_cases nul : char = '\x00'
    · subst nul
      rfl
    · have whole : ∀ byte ∈ String.utf8EncodeChar char, decide (byte ≠ 0) = true := by
        intro byte member
        refine decide_eq_true fun zero => zero_not_mem_utf8EncodeChar nul ?_
        rwa [zero] at member
      have kept : (char :: chars).takeWhile (fun char => char ≠ '\x00') =
          char :: chars.takeWhile fun char => char ≠ '\x00' := by
        simp [nul]
      rw [List.flatMap_cons, List.append_assoc, List.takeWhile_append_of_pos whole, ih, kept,
        List.flatMap_cons]

theorem bytes_terminated (text : String) : (terminated text).bytes = asBytes (untilNul text) := by
  have chars := takeWhile_utf8 text.toList
  rw [← asBytes_ofList, ← asBytes_ofList, String.ofList_toList] at chars
  exact chars

/-- **A text is read up to its first NUL.** -/
theorem strFromRaw_terminated (utf8Error : Bytes → String) (label text : String) :
    strFromRaw utf8Error label (some (terminated text)) = .ok (untilNul text) := by
  rw [strFromRaw, bytes_terminated, fromUtf8_asBytes]

theorem untilNul_of_not_mem {text : String} (clean : '\x00' ∉ text.toList) : untilNul text = text := by
  have whole : text.toList.takeWhile (fun char => char ≠ '\x00') = text.toList := by
    rw [List.takeWhile_eq_self_iff]
    intro char member
    exact decide_eq_true fun nul => clean (nul ▸ member)
  rw [untilNul, whole, String.ofList_toList]

/-! ### The last error -/

theorem asBytes_length_ne_zero {message : String} (nonempty : message ≠ "") :
    (asBytes message).length ≠ 0 := by
  intro zero
  have bytes : asBytes message = asBytes "" := List.length_eq_zero_iff.mp zero
  exact nonempty (asBytes_injective bytes)

/-- What a buffer holds once a message was written to it. -/
def written (message : String) (bufLen : ℕ) (memory : Bytes) : Bytes :=
  let copyLen := min (asBytes message).length (bufLen - 1)
  (asBytes message).take copyLen ++ [0] ++ memory.drop (copyLen + 1)

section LastError

variable {env : Environment} {thread : ℕ} {process : Process} {message : String}

theorem foldbackLastError_length (pending : process.lastError thread = some message) :
    foldbackLastError thread 0 .null process = some (((asBytes message).length, []), process) := by
  unfold foldbackLastError
  rw [pending]
  rfl

theorem foldbackLastError_written (pending : process.lastError thread = some message) {bufLen : ℕ}
    (positive : 0 < bufLen) {memory : Bytes} (room : bufLen ≤ memory.length) :
    foldbackLastError thread bufLen (.slots memory room) process =
      some (((asBytes message).length, written message bufLen memory), process) := by
  unfold foldbackLastError
  rw [pending]
  simp only [positive, Slots.isNull, and_self, if_true]
  rfl

/-- What follows the terminator is not read. -/
theorem takeWhile_terminated (bytes rest : Bytes) :
    (bytes ++ 0 :: rest).takeWhile (fun byte => byte ≠ 0) =
      bytes.takeWhile fun byte => byte ≠ 0 := by
  induction bytes with
  | nil => rfl
  | cons byte bytes ih =>
    by_cases zero : byte = 0
    · simp [zero]
    · rw [List.cons_append, List.takeWhile_cons, List.takeWhile_cons, ih]

/-- A buffer with room for the terminator holds the whole message. -/
theorem written_whole (message : String) (memory : Bytes) :
    written message ((asBytes message).length + 1) memory =
      asBytes message ++ 0 :: memory.drop ((asBytes message).length + 1) := by
  simp [written]

/-- **Other threads leave the error as it is.** -/
theorem lastError_of_others {others : List (ℕ × Entry)} (apart : ∀ made ∈ others, made.1 ≠ thread)
    {trace : Trace} {after : Process}
    (ran : Machine.attempt (processStep env) process others = some (trace, after)) :
    after.lastError thread = process.lastError thread := by
  induction others generalizing process trace with
  | nil =>
    cases ran
    rfl
  | cons made others ih =>
    obtain ⟨observed, middle, rest, stepped, ran, -⟩ := Machine.attempt_cons ran
    have first := (effect_of_processStep stepped).lastError thread
    rw [if_neg (Ne.symm (apart made List.mem_cons_self))] at first
    rw [ih (fun made member => apart made (List.mem_cons_of_mem _ member)) ran, first]

/-- **A thread reads the message of its own last call**, whatever other threads do before it asks and
between its two questions: the length, the bytes that fit with a terminator behind them, and all of
them if the buffer has room for the length and one more. -/
theorem thread_reads_own_error (env : Environment) (entries : List (ℕ × Entry)) (trace : Trace)
    (process : Process) (ran : processRun env entries = some (trace, process)) (thread : ℕ)
    (message : String) (failed : lastObserved thread trace = some message)
    (others : List (ℕ × Entry)) (apart : ∀ made ∈ others, made.1 ≠ thread) (trace' : Trace)
    (after : Process)
    (ran' : Machine.attempt (processStep env) process others = some (trace', after)) :
    foldbackLastError thread 0 .null process = some (((asBytes message).length, []), process) ∧
    (∀ bufLen memory, ∀ room : bufLen ≤ memory.length, 0 < bufLen →
      ∃ buffer, foldbackLastError thread bufLen (.slots memory room) after =
          some (((asBytes message).length, buffer), after) ∧
        buffer.length = memory.length ∧
        buffer.takeWhile (fun byte => byte ≠ 0) =
          ((asBytes message).take (bufLen - 1)).takeWhile (fun byte => byte ≠ 0) ∧
        buffer.drop bufLen = memory.drop bufLen) ∧
    ∀ memory, ∀ room : (asBytes message).length + 1 ≤ memory.length,
      foldbackLastError thread ((asBytes message).length + 1) (.slots memory room) after =
        some (((asBytes message).length,
          asBytes message ++ 0 :: memory.drop ((asBytes message).length + 1)), after) := by
  have pending : process.lastError thread = some message :=
    ((Refines.run ran).lastError thread).trans failed
  have later : after.lastError thread = some message := (lastError_of_others apart ran').trans pending
  refine ⟨foldbackLastError_length pending, fun bufLen memory room positive => ?_,
    fun memory room => ?_⟩
  · refine ⟨_, foldbackLastError_written later positive room, ?_, ?_, ?_⟩
    · simp only [written, List.length_append, List.length_take, List.length_singleton,
        List.length_drop]
      omega
    · have cut : (asBytes message).take (min (asBytes message).length (bufLen - 1)) =
          (asBytes message).take (bufLen - 1) := by
        rw [List.take_eq_take_iff, min_comm (asBytes message).length, min_assoc, min_self]
      rw [written, List.append_assoc, List.singleton_append, takeWhile_terminated, cut]
    · have front : ((asBytes message).take (min (asBytes message).length (bufLen - 1)) ++ [0]).length =
          min (asBytes message).length (bufLen - 1) + 1 := by
        simp only [List.length_append, List.length_take, List.length_singleton]
        omega
      rw [written, List.drop_append, List.drop_of_length_le (by omega), List.nil_append, front,
        List.drop_drop]
      congr 1
      omega
  · rw [foldbackLastError_written later (Nat.succ_pos _) room, written_whole]

theorem thread_reads_own_error_two :
    let message := "state pointer was null but len was nonzero"
    ∃ process after, (processRun countingEnvironment (twoThreads.take 3)).map Prod.snd = some process ∧
      foldbackLastError 1 0 .null process = some (((asBytes message).length, []), process) ∧
      foldbackLastError 1 ((asBytes message).length + 1)
          (.slots (List.replicate ((asBytes message).length + 1) 7) (List.length_replicate.ge)) after =
        some (((asBytes message).length, asBytes message ++ [0]), after) := by
  intro message
  obtain ⟨⟨trace, process⟩, ran, failed⟩ := Option.map_eq_some_iff.mp
    (show (processRun countingEnvironment (twoThreads.take 3)).map (fun ran => lastObserved 1 ran.1) =
      some (some message) by decide +kernel)
  obtain ⟨⟨rest, after⟩, ran', -⟩ := Option.map_eq_some_iff.mp
    (show ((processRun countingEnvironment (twoThreads.take 3)).bind fun ran =>
        Machine.attempt (processStep countingEnvironment) ran.2 (twoThreads.drop 3)).map (fun _ => ()) =
      some () by decide +kernel)
  rw [ran] at ran'
  obtain ⟨length, -, whole⟩ := thread_reads_own_error countingEnvironment _ trace process ran 1 message
    failed (twoThreads.drop 3) (by decide) rest after ran'
  refine ⟨process, after, by rw [ran]; rfl, length, ?_⟩
  rw [whole, List.drop_replicate, Nat.sub_self, List.replicate_zero]

end LastError

/-! ### Calls on a session that lives -/

section Live

variable {thread address : ℕ} {process : Process} {session : Session}

/-- Storing what is there changes nothing. -/
theorem store_same (thread : ℕ) (live : process.session address = some session) :
    process.store thread address ⟨session, process.lastError thread⟩ = process := by
  have present : process.sessions[address]? = some (some session) := Option.join_eq_some_iff.mp live
  obtain ⟨inside, here⟩ := List.getElem?_eq_some_iff.mp present
  have sessions : process.sessions.set address (some session) = process.sessions := by
    rw [← here, List.set_getElem_self]
  rw [Process.store, Function.update_eq_self, sessions]

theorem store_store (process : Process) (thread address : ℕ) (first second : Handle) :
    (process.store thread address first).store thread address second =
      process.store thread address second := by
  simp only [Process.store, List.set_set, Function.update_idem]

theorem session_store_self (live : process.session address = some session) (after : Handle) :
    (process.store thread address after).session address = some after.session := by
  rw [Process.session_store process (Process.lt_length_of_session live), if_pos rfl]

theorem foldbackSessionDestroy_live (live : process.session address = some session) :
    foldbackSessionDestroy (some address) process =
      some ((), { process with sessions := process.sessions.set address none }) := by
  rw [foldbackSessionDestroy, live]
  rfl

theorem foldbackPendingHashCount_live (live : process.session address = some session) :
    foldbackPendingHashCount thread (some address) process =
      some (session.pending.length, process.store thread address ⟨session, none⟩) :=
  onHandle_live _ _ live

theorem takePendingHashesUpTo_eq (max : ℕ) (session : Session) :
    session.takePendingHashesUpTo max =
      (session.pending.take max, { session with pending := session.pending.drop max }) := by
  simp only [Session.takePendingHashesUpTo]
  rcases Nat.le_total max session.pending.length with short | long
  · rw [Nat.min_eq_right short]
  · rw [Nat.min_eq_left long, List.take_length, List.drop_length, List.take_of_length_le long,
      List.drop_of_length_le long]

/-- A buffer for `max` entries is filled from the front. -/
theorem foldbackTakePendingHashes_live (live : process.session address = some session) {max : ℕ}
    {memory : List PendingHash} (room : max ≤ memory.length) :
    foldbackTakePendingHashes thread (some address) max (.slots memory room) process =
      some (((session.pending.take max).length,
          session.pending.take max ++ memory.drop (session.pending.take max).length),
        process.store thread address
          ⟨{ session with pending := session.pending.drop max }, none⟩) := by
  have valid : ¬ (0 < max ∧ (OutPointer.slots memory room).isNull = true) := by
    simp [OutPointer.isNull]
  rw [foldbackTakePendingHashes, onHandle_live _ _ live, take_slots max (.slots memory room) _ valid,
    takePendingHashesUpTo_eq]
  rfl

theorem foldbackCheckDivergence_live (live : process.session address = some session) (found : Bool)
    (tick : UInt64) :
    foldbackCheckDivergence thread (some address) (some found) (some tick) process =
      some ((.ok, some session.checkDivergence.1.isSome,
          some ((session.checkDivergence.1.map (·.tick)).getD tick)),
        process.store thread address ⟨session.checkDivergence.2, none⟩) := by
  rw [foldbackCheckDivergence, onSession, onHandle_live _ _ live]
  have bound : ∀ next : Option DivergenceTick → AbiM (Status × Option Bool × Option UInt64),
      (modifyGet Session.checkDivergence >>= next) session =
        next session.checkDivergence.1 session.checkDivergence.2 := fun _ => rfl
  simp only [runCatching, reduceCtorEq, or_self, if_false, bound]
  rcases session.checkDivergence with ⟨_ | found, after⟩
  · rfl
  · rfl

end Live

/-! ### Calls that return a status -/

/-- The message of a failed call of the `Session` API. -/
def errorOf (env : Environment) (name : String) : Response → Option String
  | .returned (.error error) => some (name ++ " failed: " ++ error.display env.ioText)
  | _ => none

/-- A function that makes one call of the `Session` API and returns how it went. -/
def Serves (env : Environment) (thread : ℕ) (native : SessionPtr → Native Status) (name : String)
    (call : Call) : Prop :=
  ∀ ⦃process : Process⦄ ⦃address : ℕ⦄ ⦃session : Session⦄,
    process.session address = some session →
      native (some address) process =
        some (if (errorOf env name (step env.hashBytes session call).1).isSome then .panic else .ok,
          process.store thread address ⟨(step env.hashBytes session call).2,
            errorOf env name (step env.hashBytes session call).1⟩)

section Serves

variable {env : Environment} {thread : ℕ}

/-- A function whose arguments pass its checks. -/
theorem Serves.intro (operation : Operation) {native : SessionPtr → Native Status} {name : String}
    {call : Call} {attempt : Attempt Session Unit}
    (performs : ∀ session, operation.perform env thread session = Answer.status <$> native session)
    (requested : operation.request env.utf8Error = .ok (.call name call))
    (same : ∀ session, step env.hashBytes session call = outcome attempt session)
    (failed : operation.failed = .status .panic) : Serves env thread native name call := by
  intro process address session live
  have performed : operation.perform env thread (some address) process = _ :=
    perform_live operation live
  rw [performs, Operation.respond, requested, Operation.answer, Operation.answerCall, same,
    map_native] at performed
  rw [same]
  unfold outcome at performed ⊢
  rcases attempted : attempt session with ⟨_, after⟩ | ⟨error, after⟩
  · simp only [attempted] at performed
    obtain ⟨⟨status, final⟩, ran, answered⟩ := Option.map_eq_some_iff.mp performed
    cases answered
    exact ran
  · simp only [attempted] at performed
    obtain ⟨⟨status, final⟩, ran, answered⟩ := Option.map_eq_some_iff.mp performed
    simp only [failed, Prod.mk.injEq, Answer.status.injEq] at answered
    obtain ⟨rfl, rfl⟩ := answered
    exact ran

theorem bytesFromRaw_all (bytes : Bytes) :
    bytesFromRaw bytes.length (Slots.all bytes) = .ok bytes := by
  unfold bytesFromRaw
  split
  · rename_i empty
    rw [List.length_eq_zero_iff.mp empty]
  · show Except.ok (bytes.take bytes.length) = _
    rw [List.take_length]

theorem serves_hashTick (tick : UInt64) (bytes : Bytes) :
    Serves env thread (fun session =>
      foldbackHashTick env thread session tick bytes.length (.all bytes)) "hash_tick"
      (.hashTick tick bytes) := by
  refine Serves.intro (.hashTick tick bytes.length (.all bytes)) (fun _ => rfl) ?_
    (fun _ => rfl) rfl
  rw [Operation.request, bytesFromRaw_all]
  rfl

theorem serves_recordPeerHash (tick : UInt64) (peerId : UInt16) (hash : UInt64) :
    Serves env thread (fun session => foldbackRecordPeerHash env thread session tick peerId hash)
      "record_peer_hash" (.recordPeerHash tick peerId hash) :=
  Serves.intro (.recordPeerHash tick peerId hash) (fun _ => rfl) rfl (fun _ => rfl) rfl

theorem serves_hashEntity (tick entityId : UInt64) (bytes : Bytes) :
    Serves env thread (fun session =>
      foldbackHashEntity env thread session tick entityId bytes.length (.all bytes)) "hash_entity"
      (.hashEntity tick entityId bytes) := by
  refine Serves.intro (.hashEntity tick entityId bytes.length (.all bytes))
    (fun _ => rfl) ?_ (fun _ => rfl) rfl
  rw [Operation.request, bytesFromRaw_all]
  rfl

theorem serves_recordPeerEntityHash (tick : UInt64) (peerId : UInt16) (entityId hash : UInt64) :
    Serves env thread (fun session =>
      foldbackRecordPeerEntityHash env thread session tick peerId entityId hash)
      "record_peer_entity_hash" (.recordPeerEntityHash tick peerId entityId hash) :=
  Serves.intro (.recordPeerEntityHash tick peerId entityId hash) (fun _ => rfl) rfl
    (fun _ => rfl) rfl

theorem serves_hashField (tick entityId : UInt64) {ptr : CharPtr} {fieldName : String}
    (named : strFromRaw env.utf8Error "field_name" ptr = .ok fieldName) (bytes : Bytes) :
    Serves env thread (fun session =>
      foldbackHashField env thread session tick entityId ptr bytes.length (.all bytes)) "hash_field"
      (.hashField tick entityId fieldName bytes) := by
  refine Serves.intro (.hashField tick entityId ptr bytes.length (.all bytes))
    (fun _ => rfl) ?_ (fun _ => rfl) rfl
  rw [Operation.request, named, bytesFromRaw_all]
  rfl

theorem serves_recordPeerFieldHash (tick : UInt64) (peerId : UInt16) (entityId : UInt64)
    {ptr : CharPtr} {fieldName : String}
    (named : strFromRaw env.utf8Error "field_name" ptr = .ok fieldName) (hash : UInt64)
    (bytes : Bytes) :
    Serves env thread (fun session => foldbackRecordPeerFieldHash env thread session tick peerId
      entityId ptr hash bytes.length (.all bytes)) "record_peer_field_hash"
      (.recordPeerFieldHash tick peerId entityId fieldName hash bytes) := by
  refine Serves.intro (.recordPeerFieldHash tick peerId entityId ptr hash bytes.length
    (.all bytes)) (fun _ => rfl) ?_ (fun _ => rfl) rfl
  rw [Operation.request, named, bytesFromRaw_all]
  rfl

theorem serves_finishRecording :
    Serves env thread (foldbackFinishRecording env thread) "finish_recording" .finishRecording :=
  Serves.intro .finishRecording (fun _ => rfl) rfl (fun _ => rfl) rfl

end Serves

/-! ### Creation -/

/-- The path of a configuration: there is none, or it is a valid string. -/
def PathIs (env : Environment) (config : Config) : Option String → Prop
  | none => config.recordToPath = none
  | some text => ∃ ptr, config.recordToPath = some ptr ∧
      strFromRaw env.utf8Error "record_to_path" (some ptr) = .ok text

/-- A session with a valid path is what its builder builds. -/
theorem createSession_path {env : Environment} {config : Config} {path : Option String}
    (named : PathIs env config path) (create : String → Except IoError (List Bool)) :
    createSession env create (some config) =
      (builderOf config (path.map create)).build.mapError fun error =>
        "could not build session: " ++ error.display env.ioText := by
  rcases path with _ | text
  · have null : config.recordToPath = none := named
    simp only [createSession, null, pure_bind, Option.map_none]
    cases (builderOf config none).build with
    | ok session => rfl
    | error error => rfl
  · obtain ⟨ptr, given, valid⟩ := named
    have checked : (some <$> (.ok text : Except String String)) = pure (some text) := rfl
    simp only [createSession, given, valid, checked, pure_bind]
    cases (builderOf config (Option.map create (some text))).build with
    | ok session => rfl
    | error error => rfl

/-! ### Ownership -/

/-- **Each owner has the box of its session**, no two owners have the same box, and every box that lives
has an owner. -/
structure Owns (process : Process) (handle : ℕ → SessionPtr) (session : ℕ → Option Session) : Prop where
  vacant : ∀ owner, handle owner = none → session owner = none
  points : ∀ owner address, handle owner = some address →
    process.session address = session owner ∧ (session owner).isSome
  distinct : ∀ owner other address, handle owner = some address → handle other = some address →
    owner = other
  covered : ∀ address, (process.session address).isSome → ∃ owner, handle owner = some address

namespace Owns

variable {process : Process} {handle : ℕ → SessionPtr} {session : ℕ → Option Session} {owner : ℕ}

theorem start : Owns {} (fun _ => none) fun _ => none where
  vacant _ _ := rfl
  points _ _ held := by cases held
  distinct _ _ _ held := by cases held
  covered address live := by cases live

theorem live (owns : Owns process handle session) {address : ℕ} (held : handle owner = some address) :
    ∃ now, process.session address = some now ∧ session owner = some now := by
  obtain ⟨same, present⟩ := owns.points owner address held
  obtain ⟨now, is⟩ := Option.isSome_iff_exists.mp present
  exact ⟨now, same.trans is, is⟩

theorem setError (owns : Owns process handle session) (thread : ℕ) (lastError : Option String) :
    Owns (process.setError thread lastError) handle session :=
  ⟨owns.vacant, owns.points, owns.distinct, owns.covered⟩

/-- Writing down what is there changes nothing. -/
theorem same (owns : Owns process handle session) {held : SessionPtr} {now : Option Session}
    (has : handle owner = held) (is : session owner = now) :
    Owns process (Function.update handle owner held) (Function.update session owner now) := by
  rw [← has, ← is, Function.update_eq_self, Function.update_eq_self]
  exact owns

/-- A new box goes to an owner that had none. -/
theorem create (owns : Owns process handle session) (free : handle owner = none) (start : Session) :
    Owns { process with sessions := process.sessions ++ [some start] }
      (Function.update handle owner (some process.sessions.length))
      (Function.update session owner (some start)) where
  vacant other empty := by
    by_cases here : other = owner
    · rw [here, Function.update_self] at empty
      cases empty
    · rw [Function.update_of_ne here] at empty ⊢
      exact owns.vacant other empty
  points other address held := by
    by_cases here : other = owner
    · rw [here, Function.update_self] at held ⊢
      cases held
      rw [Process.session_push, if_pos rfl]
      exact ⟨rfl, rfl⟩
    · rw [Function.update_of_ne here] at held ⊢
      obtain ⟨now, live, -⟩ := owns.live held
      rw [Process.session_push, if_neg (Process.lt_length_of_session live).ne]
      exact owns.points other address held
  distinct first second address held held' := by
    have fresh : ∀ other, handle other ≠ some process.sessions.length := by
      intro other held
      obtain ⟨now, live, -⟩ := owns.live held
      exact absurd (Process.lt_length_of_session live) (Nat.lt_irrefl _)
    by_cases here : first = owner
    · by_cases there : second = owner
      · rw [here, there]
      · rw [here, Function.update_self] at held
        rw [Function.update_of_ne there] at held'
        cases held
        exact absurd held' (fresh second)
    · by_cases there : second = owner
      · rw [there, Function.update_self] at held'
        rw [Function.update_of_ne here] at held
        cases held'
        exact absurd held (fresh first)
      · rw [Function.update_of_ne here] at held
        rw [Function.update_of_ne there] at held'
        exact owns.distinct first second address held held'
  covered address live := by
    rw [Process.session_push] at live
    split at live
    · rename_i fresh
      exact ⟨owner, by rw [Function.update_self, fresh]⟩
    · obtain ⟨other, held⟩ := owns.covered address live
      refine ⟨other, ?_⟩
      rw [Function.update_of_ne, held]
      rintro rfl
      rw [free] at held
      cases held

/-- A box is destroyed by its owner, who has none afterwards. -/
theorem destroy (owns : Owns process handle session) {address : ℕ}
    (held : handle owner = some address) :
    Owns { process with sessions := process.sessions.set address none }
      (Function.update handle owner none) (Function.update session owner none) where
  vacant other empty := by
    by_cases here : other = owner
    · rw [here, Function.update_self]
    · rw [Function.update_of_ne here] at empty ⊢
      exact owns.vacant other empty
  points other there held' := by
    obtain ⟨now, live, -⟩ := owns.live held
    by_cases here : other = owner
    · rw [here, Function.update_self] at held'
      cases held'
    · rw [Function.update_of_ne here] at held' ⊢
      rw [Process.session_set process (Process.lt_length_of_session live), if_neg]
      · exact owns.points other there held'
      · rintro rfl
        exact here (owns.distinct other owner there held' held)
  distinct first second there held' held'' := by
    by_cases here : first = owner
    · rw [here, Function.update_self] at held'
      cases held'
    · by_cases here' : second = owner
      · rw [here', Function.update_self] at held''
        cases held''
      · rw [Function.update_of_ne here] at held'
        rw [Function.update_of_ne here'] at held''
        exact owns.distinct first second there held' held''
  covered there live' := by
    obtain ⟨now, live, -⟩ := owns.live held
    rw [Process.session_set process (Process.lt_length_of_session live)] at live'
    split at live'
    · cases live'
    · rename_i elsewhere
      obtain ⟨other, held'⟩ := owns.covered there live'
      refine ⟨other, ?_⟩
      rw [Function.update_of_ne, held']
      rintro rfl
      rw [held] at held'
      exact elsewhere (Option.some.inj held').symm

/-- A call on a box changes the session of its owner alone. -/
theorem perform (owns : Owns process handle session) {address : ℕ}
    (held : handle owner = some address) (thread : ℕ) (after : Handle) :
    Owns (process.store thread address after) handle
      (Function.update session owner (some after.session)) where
  vacant other empty := by
    rw [Function.update_of_ne]
    · exact owns.vacant other empty
    · rintro rfl
      rw [held] at empty
      cases empty
  points other there held' := by
    obtain ⟨now, live, -⟩ := owns.live held
    rw [Process.session_store process (Process.lt_length_of_session live)]
    by_cases here : other = owner
    · rw [here, held] at held'
      cases held'
      rw [here, Function.update_self, if_pos rfl]
      exact ⟨rfl, rfl⟩
    · rw [Function.update_of_ne here, if_neg]
      · exact owns.points other there held'
      · rintro rfl
        exact here (owns.distinct other owner there held' held)
  distinct := owns.distinct
  covered there live' := by
    obtain ⟨now, live, -⟩ := owns.live held
    rw [Process.session_store process (Process.lt_length_of_session live)] at live'
    split at live'
    · rename_i here
      exact ⟨owner, here ▸ held⟩
    · exact owns.covered there live'

/-- A box is handed over to an owner that had none. -/
theorem move (owns : Owns process handle session) {target : ℕ} (free : handle target = none)
    (apart : target ≠ owner) :
    Owns process (Function.update (Function.update handle target (handle owner)) owner none)
      (Function.update (Function.update session target (session owner)) owner none) := by
  have at_ : ∀ {α : Type} (f : ℕ → Option α) (other : ℕ),
      Function.update (Function.update f target (f owner)) owner none other =
        if other = owner then none else if other = target then f owner else f other := by
    intro α f other
    simp only [Function.update_apply]
  refine ⟨fun other empty => ?_, fun other address held => ?_, fun first second address held held' => ?_,
    fun address live => ?_⟩
  · rw [at_] at empty ⊢
    split_ifs at empty ⊢
    · rfl
    · exact owns.vacant owner empty
    · exact owns.vacant other empty
  · rw [at_] at held ⊢
    split_ifs at held ⊢
    · exact owns.points owner address held
    · exact owns.points other address held
  · rw [at_] at held held'
    split_ifs at held held' with here there here' there'
    · rw [there, there']
    · exact absurd (owns.distinct owner second address held held').symm here'
    · exact absurd (owns.distinct first owner address held held') here
    · exact owns.distinct first second address held held'
  · obtain ⟨other, held⟩ := owns.covered address live
    by_cases here : other = owner
    · refine ⟨target, ?_⟩
      rw [at_, if_neg apart, if_pos rfl, ← here, held]
    · refine ⟨other, ?_⟩
      rw [at_, if_neg here, if_neg, held]
      rintro rfl
      rw [free] at held
      cases held

end Owns

end Foldback.Sys
