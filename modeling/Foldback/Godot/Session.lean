/-
**`FoldbackSession` of the Godot extension, over the `Session` API.**

* `FoldbackSession` is the GDScript object: a session once it is configured, and the text of its last
  error. `Method` is what a script can call, `invoke` what the call returns and leaves.
* A dictionary is read by its keys. `try_to` takes a value of its own type only.
* `Answered` says what a method answers from a session, which calls of the `Session` API it makes and
  which error it leaves; `Unserved` says what it answers without one. `hash_reflected` makes the calls
  of the schema and of the records that the walk plans, until one fails.
* `godot_serves`: **in every run of the object its session is the one that the last successful
  `configure` built, after the calls of the methods since**, and every method answers from it.
-/

import Foldback.Godot.Walk

namespace Foldback.Godot

open GuardedWalk

variable {ω : Type}

/-! ### The object -/

inductive Status
  | ok
  | notConfigured
  | io
  deriving DecidableEq, Repr

structure FoldbackSession where
  inner : Option Session := none
  lastError : String := ""

/-- A `Dictionary` with strings as its keys. -/
abbrev Config (ω : Type) := String → Option (Variant ω)

def dictGetI64 (dict : Config ω) (key : String) : Option Int64 :=
  match dict key with
  | some (.int value) => some (.ofBitVec value)
  | _ => none

def dictGetString (dict : Config ω) (key : String) : Option String :=
  match dict key with
  | some (.string value) => some value
  | _ => none

def notConfigured : String := "session not configured — call configure() first"

/-- The builder that `configure` fills in; `create` is `File::create`. -/
def builderOf (create : String → Except IoError (List Bool)) (config : Config ω)
    (tickRateHz peerCount : Int64) : SessionBuilder where
  tickRateHz := tickRateHz.toUInt64.toUInt32
  peerCount := peerCount.toUInt64.toUInt32
  localPeerId := ((dictGetI64 config "local_peer_id").getD 0).toUInt64.toUInt16
  retention :=
    match dictGetI64 config "retention" with
    | some retention => if 0 < retention then retention.toUInt64.toNat else 600
    | none => 600
  recordTo :=
    match dictGetString config "record_to_path" with
    | some path => if path.isEmpty then none else some (create path)
    | none => none

section Methods

variable (hashBytes : Bytes → UInt64) (ioText : IoError → String) (this : FoldbackSession)

def configure (create : String → Except IoError (List Bool)) (config : Config ω) :
    Bool × FoldbackSession :=
  match dictGetI64 config "tick_rate_hz" with
  | none => (false, { this with lastError := "config missing required key 'tick_rate_hz'" })
  | some tickRateHz =>
    match dictGetI64 config "peer_count" with
    | none => (false, { this with lastError := "config missing required key 'peer_count'" })
    | some peerCount =>
      match (builderOf create config tickRateHz peerCount).build with
      | .ok session => (true, { inner := some session, lastError := "" })
      | .error error =>
        (false, { this with lastError := "could not build session: " ++ error.display ioText })

def withSession (f : Described Session Unit) : Status × FoldbackSession :=
  match this.inner with
  | none => (.notConfigured, { this with lastError := notConfigured })
  | some session =>
    match f session with
    | .ok _ after => (.ok, { inner := some after, lastError := "" })
    | .error text after => (.io, { inner := some after, lastError := text })

/-- `.map_err(|e| format!("{name} failed: {e}"))`. -/
def failing (name : String) (attempt : Attempt Session Unit) : Described Session Unit :=
  mapErr (fun error => name ++ " failed: " ++ error.display ioText) attempt

def hashTick (tick : Int64) (state : Bytes) : Status × FoldbackSession :=
  withSession this (failing ioText "hash_tick" (Session.hashTick hashBytes tick.toUInt64 state))

def recordPeerHash (tick peerId hash : Int64) : Status × FoldbackSession :=
  withSession this (failing ioText "record_peer_hash"
    (Session.recordPeerHash tick.toUInt64 peerId.toUInt64.toUInt16 hash.toUInt64))

def hashEntity (tick entityId : Int64) (state : Bytes) : Status × FoldbackSession :=
  withSession this (failing ioText "hash_entity"
    (Session.hashEntity hashBytes tick.toUInt64 entityId.toUInt64 state))

def recordPeerEntityHash (tick peerId entityId hash : Int64) : Status × FoldbackSession :=
  withSession this (failing ioText "record_peer_entity_hash"
    (Session.recordPeerEntityHash tick.toUInt64 peerId.toUInt64.toUInt16 entityId.toUInt64
      hash.toUInt64))

def hashField (tick entityId : Int64) (fieldName : String) (value : Bytes) :
    Status × FoldbackSession :=
  withSession this (failing ioText "hash_field"
    (Session.hashField hashBytes tick.toUInt64 entityId.toUInt64 fieldName value))

def recordPeerFieldHash (tick peerId entityId : Int64) (fieldName : String) (hash : Int64)
    (value : Bytes) : Status × FoldbackSession :=
  withSession this (failing ioText "record_peer_field_hash"
    (Session.recordPeerFieldHash tick.toUInt64 peerId.toUInt64.toUInt16 entityId.toUInt64 fieldName
      hash.toUInt64 value))

def finishRecording : Status × FoldbackSession :=
  withSession this (failing ioText "finish_recording" Session.finishRecording)

/-- A method that reads the session, or returns 0. -/
def reading (read : Session → Int64) : Int64 :=
  match this.inner with
  | some session => read session
  | none => 0

def pendingHashCount : Int64 :=
  reading this fun session => (UInt64.ofNat session.pendingHashCount).toInt64

def finish : Int64 := reading this fun session => session.finish.toInt64

def tickRateHz : Int64 := reading this fun session => session.tickRateHz.toUInt64.toInt64

def peerCount : Int64 := reading this fun session => session.peerCount.toUInt64.toInt64

/-- The dictionaries `{"tick": int, "hash": int}`. -/
def takePendingHashes (max : Int64) : List (Int64 × Int64) × FoldbackSession :=
  match this.inner with
  | none => ([], this)
  | some session =>
    let drained := session.takePendingHashesUpTo max.toInt.toNat
    (drained.1.map fun entry => (entry.tick.toInt64, entry.hash.toInt64),
      { this with inner := some drained.2 })

/-- The dictionary `{"found": bool, "tick": int}`. -/
def checkDivergence : (Bool × Int64) × FoldbackSession :=
  match this.inner with
  | none => ((false, 0), this)
  | some session =>
    match session.checkDivergence with
    | (some found, after) => ((true, found.tick.toInt64), { this with inner := some after })
    | (none, after) => ((false, 0), { this with inner := some after })

/-- The dictionaries `{"path": String, "hash": int}`. -/
def hashReflectedInto (stringify : Variant ω → String) (heap : Heap ω) (tick entityId : Int64)
    (fieldNamePrefix : String) (target : Gd heap) : List (String × Int64) × FoldbackSession :=
  match this.inner with
  | none => ([], { this with lastError := notConfigured })
  | some session =>
    match hashReflected hashBytes ioText stringify heap tick.toUInt64 entityId.toUInt64
        fieldNamePrefix target session with
    | .ok preview after =>
      (preview.map fun entry => (entry.1, entry.2.toInt64), { inner := some after, lastError := "" })
    | .error text after => ([], { inner := some after, lastError := text })

end Methods

/-! ### Runs -/

/-- A call from a script. -/
inductive Method (ω : Type)
  | configure (create : String → Except IoError (List Bool)) (config : Config ω)
  | getLastError
  | hashTick (tick : Int64) (state : Bytes)
  | recordPeerHash (tick peerId hash : Int64)
  | hashEntity (tick entityId : Int64) (state : Bytes)
  | recordPeerEntityHash (tick peerId entityId hash : Int64)
  | hashField (tick entityId : Int64) (fieldName : String) (value : Bytes)
  | recordPeerFieldHash (tick peerId entityId : Int64) (fieldName : String) (hash : Int64)
      (value : Bytes)
  | pendingHashCount
  | takePendingHashes (max : Int64)
  | checkDivergence
  | finish
  | finishRecording
  | hashReflected (heap : Heap ω) (tick entityId : Int64) (fieldNamePrefix : String)
      (target : Gd heap)
  | listTracked (target : Object ω)
  | tickRateHz
  | peerCount

inductive Returned
  | bool (value : Bool)
  | text (text : String)
  | status (status : Status)
  | int (value : Int64)
  | hashes (entries : List (Int64 × Int64))
  | divergence (found : Bool) (tick : Int64)
  | preview (entries : List (String × Int64))
  | names (tracked untracked : List String)
  deriving DecidableEq

section Runs

variable (hashBytes : Bytes → UInt64) (ioText : IoError → String) (stringify : Variant ω → String)

def invoke (this : FoldbackSession) : Method ω → Returned × FoldbackSession
  | .configure create config => (configure ioText this create config).map .bool id
  | .getLastError => (.text this.lastError, this)
  | .hashTick tick state => (hashTick hashBytes ioText this tick state).map .status id
  | .recordPeerHash tick peerId hash => (recordPeerHash ioText this tick peerId hash).map .status id
  | .hashEntity tick entityId state =>
    (hashEntity hashBytes ioText this tick entityId state).map .status id
  | .recordPeerEntityHash tick peerId entityId hash =>
    (recordPeerEntityHash ioText this tick peerId entityId hash).map .status id
  | .hashField tick entityId fieldName value =>
    (hashField hashBytes ioText this tick entityId fieldName value).map .status id
  | .recordPeerFieldHash tick peerId entityId fieldName hash value =>
    (recordPeerFieldHash ioText this tick peerId entityId fieldName hash value).map .status id
  | .pendingHashCount => (.int (pendingHashCount this), this)
  | .takePendingHashes max => (takePendingHashes this max).map .hashes id
  | .checkDivergence => (checkDivergence this).map (fun found => .divergence found.1 found.2) id
  | .finish => (.int (finish this), this)
  | .finishRecording => (finishRecording ioText this).map .status id
  | .hashReflected heap tick entityId fieldNamePrefix target =>
    (hashReflectedInto hashBytes ioText this stringify heap tick entityId fieldNamePrefix target).map
      .preview id
  | .listTracked target => (.names (listTracked target).1 (listTracked target).2, this)
  | .tickRateHz => (.int (tickRateHz this), this)
  | .peerCount => (.int (peerCount this), this)

/-- The run of a new object. -/
def scriptRun (methods : List (Method ω)) : List (Method ω × Returned) × FoldbackSession :=
  Machine.run (invoke hashBytes ioText stringify) {} methods

end Runs

/-! ### What a method answers -/

/-- The name and the call of a method that returns a status. -/
def Method.statusCall : Method ω → Option (String × Call)
  | .hashTick tick state => some ("hash_tick", .hashTick tick.toUInt64 state)
  | .recordPeerHash tick peerId hash =>
    some ("record_peer_hash",
      .recordPeerHash tick.toUInt64 peerId.toUInt64.toUInt16 hash.toUInt64)
  | .hashEntity tick entityId state =>
    some ("hash_entity", .hashEntity tick.toUInt64 entityId.toUInt64 state)
  | .recordPeerEntityHash tick peerId entityId hash =>
    some ("record_peer_entity_hash", .recordPeerEntityHash tick.toUInt64
      peerId.toUInt64.toUInt16 entityId.toUInt64 hash.toUInt64)
  | .hashField tick entityId fieldName value =>
    some ("hash_field", .hashField tick.toUInt64 entityId.toUInt64 fieldName value)
  | .recordPeerFieldHash tick peerId entityId fieldName hash value =>
    some ("record_peer_field_hash", .recordPeerFieldHash tick.toUInt64 peerId.toUInt64.toUInt16
      entityId.toUInt64 fieldName hash.toUInt64 value)
  | .finishRecording => some ("finish_recording", .finishRecording)
  | _ => none

/-- What a method that only looks at the session sees. -/
def Method.look : Method ω → Option (Session → Int64)
  | .pendingHashCount => some fun session => (UInt64.ofNat session.pendingHashCount).toInt64
  | .finish => some fun session => session.finish.toInt64
  | .tickRateHz => some fun session => session.tickRateHz.toUInt64.toInt64
  | .peerCount => some fun session => session.peerCount.toUInt64.toInt64
  | _ => none

def statusOf : Except Error Unit → Status
  | .ok _ => .ok
  | .error _ => .io

/-- The error that a method leaves. -/
def errorLeft {α : Type} : Except String α → String
  | .ok _ => ""
  | .error text => text

/-- The session that `configure` builds, or the reason why it does not. -/
def sessionOf (ioText : IoError → String) (create : String → Except IoError (List Bool))
    (config : Config ω) : Except String Session :=
  match dictGetI64 config "tick_rate_hz", dictGetI64 config "peer_count" with
  | none, _ => .error "config missing required key 'tick_rate_hz'"
  | some _, none => .error "config missing required key 'peer_count'"
  | some tickRateHz, some peerCount =>
    (builderOf create config tickRateHz peerCount).build.mapError fun error =>
      "could not build session: " ++ error.display ioText

/-- **What a method answers without a session**, by the last error, and the error it leaves. -/
inductive Unserved (ioText : IoError → String) (text : String) :
    Method ω → Returned → String → Prop
  | refused (create : String → Except IoError (List Bool)) (config : Config ω) (reason : String)
      (refuses : sessionOf ioText create config = .error reason) :
      Unserved ioText text (.configure create config) (.bool false) reason
  | lastError : Unserved ioText text .getLastError (.text text) text
  | status (method : Method ω) (named : method.statusCall ≠ none) :
      Unserved ioText text method (.status .notConfigured) notConfigured
  | look (method : Method ω) (looks : method.look ≠ none) :
      Unserved ioText text method (.int 0) text
  | drained (max : Int64) : Unserved ioText text (.takePendingHashes max) (.hashes []) text
  | checked : Unserved ioText text .checkDivergence (.divergence false 0) text
  | reflected (heap : Heap ω) (tick entityId : Int64) (fieldNamePrefix : String)
      (target : Gd heap) :
      Unserved ioText text (.hashReflected heap tick entityId fieldNamePrefix target) (.preview [])
        notConfigured
  | listed (target : Object ω) :
      Unserved ioText text (.listTracked target)
        (.names (listTracked target).1 (listTracked target).2) text

/-- The text of a call of the walker that failed. -/
def failureText (ioText : IoError → String) : Call × Response → Option String
  | (.recordSchema _ _, .returned (.error error)) =>
    some ("record_schema failed: " ++ error.display ioText)
  | (.hashField _ _ path _, .returned (.error error)) =>
    some ("hash_field failed for '" ++ path ++ "': " ++ error.display ioText)
  | _ => none

section Answers

variable (hashBytes : Bytes → UInt64) (ioText : IoError → String) (stringify : Variant ω → String)

/-- Calls are made one after another until one fails. -/
def untilFailure (session : Session) : List Call → List (Call × Response) × Session
  | [] => ([], session)
  | call :: calls =>
    let answer := step hashBytes session call
    if answer.1.isOk then
      let rest := untilFailure answer.2 calls
      ((call, answer.1) :: rest.1, rest.2)
    else ([(call, answer.1)], answer.2)

/-- The preview of what was recorded, if no call failed and no guard stopped the walk. -/
def reflectedResult (planned : List (String × Bytes) × Option (GuardedWalk.Stop String))
    (made : List (Call × Response)) : Except String (List (String × UInt64)) :=
  match made.findSome? (failureText ioText), planned.2 with
  | some text, _ => .error text
  | none, some stop => .error (stopText stop)
  | none, none => .ok (previewOf hashBytes planned.1)

/-- The dictionaries of a preview, or none. -/
def previewed : Except String (List (String × UInt64)) → List (String × Int64)
  | .ok preview => preview.map fun entry => (entry.1, entry.2.toInt64)
  | .error _ => []

/-- **What a method answers from a session**, by the last error: the error it leaves, and the calls it
makes with their responses. -/
inductive Answered (session : Session) (text : String) :
    Method ω → Returned → String → List (Call × Response) → Prop
  | refused (create : String → Except IoError (List Bool)) (config : Config ω) (reason : String)
      (refuses : sessionOf ioText create config = .error reason) :
      Answered session text (.configure create config) (.bool false) reason []
  | lastError : Answered session text .getLastError (.text text) text []
  | status (method : Method ω) (name : String) (call : Call)
      (named : method.statusCall = some (name, call)) (result : Except Error Unit) :
      Answered session text method (.status (statusOf result))
        (errorLeft (result.mapError fun error => name ++ " failed: " ++ error.display ioText))
        [(call, .returned result)]
  | look (method : Method ω) (sees : Session → Int64) (looks : method.look = some sees) :
      Answered session text method (.int (sees session)) text []
  | drained (max : Int64) (hashes : List PendingHash) :
      Answered session text (.takePendingHashes max)
        (.hashes (hashes.map fun entry => (entry.tick.toInt64, entry.hash.toInt64))) text
        [(.takePendingHashesUpTo max.toInt.toNat, .drained hashes)]
  | checked (found : Option DivergenceTick) :
      Answered session text .checkDivergence
        (.divergence found.isSome ((found.map fun found => found.tick.toInt64).getD 0)) text
        [(.checkDivergence, .divergence found)]
  | reflected (heap : Heap ω) (tick entityId : Int64) (fieldNamePrefix : String) (target : Gd heap)
      (planned : List (String × Bytes) × Option (GuardedWalk.Stop String))
      (plans : planned = walkPlan stringify heap (defaultMaxDepth + 1) [] fieldNamePrefix
        (.object target.id)) (made : List (Call × Response))
      (calls : made = (untilFailure hashBytes session (walkerCalls tick.toUInt64 entityId.toUInt64
        (schemaTypeName target.object) (listTracked target.object).1 planned.1)).1) :
      Answered session text (.hashReflected heap tick entityId fieldNamePrefix target)
        (.preview (previewed (reflectedResult hashBytes ioText planned made)))
        (errorLeft (reflectedResult hashBytes ioText planned made)) made
  | listed (target : Object ω) :
      Answered session text (.listTracked target)
        (.names (listTracked target).1 (listTracked target).2) text []

/-- Methods before any `configure` has succeeded, and the error they leave. -/
inductive Idle : List (Method ω × Returned) → String → Prop
  | start : Idle [] ""
  | next {trace : List (Method ω × Returned)} {text text' : String} {method : Method ω}
      {returned : Returned} (earlier : Idle trace text)
      (unserved : Unserved ioText text method returned text') :
      Idle (trace ++ [(method, returned)]) text'

/-- **Methods answered one after another** from a session: the calls that each made, the session and the
error that they leave. The calls of each are answered by the session that those before have left. -/
inductive Conversation (start : Session) :
    List (Method ω × Returned) → List (List (Call × Response)) → Session → String → Prop
  | start : Conversation start [] [] start ""
  | next {since : List (Method ω × Returned)} {segments : List (List (Call × Response))}
      {session after : Session} {text text' : String} {method : Method ω} {returned : Returned}
      {segment : List (Call × Response)}
      (earlier : Conversation start since segments session text)
      (answered : Answered hashBytes ioText stringify session text method returned text' segment)
      (ran : run hashBytes session (segment.map Prod.fst) = (segment, after)) :
      Conversation start (since ++ [(method, returned)]) (segments ++ [segment]) after text'

end Answers

/-- A `configure` that returned true. -/
def isConfigured : Method ω × Returned → Bool
  | (.configure .., .bool true) => true
  | _ => false

/-- The ticks that `check_divergence` returned. -/
def foundIn (trace : List (Method ω × Returned)) : List UInt64 :=
  trace.flatMap fun
    | (.checkDivergence, .divergence true tick) => [tick.toUInt64]
    | _ => []

/-- The session was built by the last `configure` that succeeded, and has answered since. -/
structure Serves (hashBytes : Bytes → UInt64) (ioText : IoError → String)
    (stringify : Variant ω → String) (trace : List (Method ω × Returned)) (session : Session)
    (text : String) (create : String → Except IoError (List Bool)) (config : Config ω)
    (start : Session) (since : List (Method ω × Returned))
    (segments : List (List (Call × Response))) : Prop where
  built : sessionOf ioText create config = .ok start
  last : ∃ before, trace = before ++ (.configure create config, .bool true) :: since ∧
    ∀ entry ∈ since, isConfigured entry = false
  answered : Conversation hashBytes ioText stringify start since segments session text

/-! ### Calls until one fails -/

section Reflected

variable {hashBytes : Bytes → UInt64} {ioText : IoError → String} {stringify : Variant ω → String}
  {heap : Heap ω} {tick entityId : UInt64}

variable (hashBytes) in
/-- They are answered as in a run. -/
theorem run_untilFailure (session : Session) (calls : List Call) :
    run hashBytes session ((untilFailure hashBytes session calls).1.map Prod.fst) =
      untilFailure hashBytes session calls := by
  induction calls generalizing session with
  | nil => rfl
  | cons call calls ih =>
    rw [untilFailure]
    dsimp only
    split
    · rw [List.map_cons, run, Machine.run, ← run, ih]
    · rfl

variable (hashBytes) in
/-- They are an initial part. -/
theorem untilFailure_initial (session : Session) (calls : List Call) :
    (untilFailure hashBytes session calls).1.map Prod.fst <+: calls := by
  induction calls generalizing session with
  | nil => exact List.prefix_rfl
  | cons call calls ih =>
    rw [untilFailure]
    dsimp only
    split
    · exact List.cons_prefix_cons.mpr ⟨rfl, ih _⟩
    · exact List.cons_prefix_cons.mpr ⟨rfl, List.nil_prefix⟩

/-- A call that returns a result, with the text of its error. -/
theorem mapErr_cases {session : Session} {call : Call} {attempt : Attempt Session Unit}
    (same : step hashBytes session call = outcome attempt session) (describe : Error → String) :
    ((step hashBytes session call).1 = .returned (.ok ()) ∧
        mapErr describe attempt session = .ok () (step hashBytes session call).2) ∨
      ∃ error, (step hashBytes session call).1 = .returned (.error error) ∧
        mapErr describe attempt session = .error (describe error) (step hashBytes session call).2 := by
  rw [same]
  unfold mapErr outcome
  rcases attempt session with ⟨_, after⟩ | ⟨error, after⟩
  · exact .inl ⟨rfl, rfl⟩
  · exact .inr ⟨error, rfl, rfl⟩

theorem untilFailure_ok {session : Session} {call : Call}
    (ok : (step hashBytes session call).1 = .returned (.ok ())) (calls : List Call) :
    untilFailure hashBytes session (call :: calls) =
      ((call, .returned (.ok ())) ::
          (untilFailure hashBytes (step hashBytes session call).2 calls).1,
        (untilFailure hashBytes (step hashBytes session call).2 calls).2) := by
  rw [untilFailure]
  dsimp only
  rw [ok]
  exact if_pos rfl

theorem untilFailure_error {session : Session} {call : Call} {error : Error}
    (failed : (step hashBytes session call).1 = .returned (.error error)) (calls : List Call) :
    untilFailure hashBytes session (call :: calls) =
      ([(call, .returned (.error error))], (step hashBytes session call).2) := by
  rw [untilFailure]
  dsimp only
  rw [failed]
  exact if_neg Bool.false_ne_true

variable (hashBytes ioText tick entityId) in
/-- **Records are made one after another** until one fails. -/
theorem forM_emitRecord_cases (recorded : List (String × Bytes)) (recording : Recording) :
    let made := untilFailure hashBytes recording.session (fieldCalls tick entityId recorded)
    let emitted := forM recorded (emitRecord hashBytes ioText tick entityId) recording
    (made.1.findSome? (failureText ioText) = none ∧ emitted = .ok () {
        session := made.2, preview := recording.preview ++ previewOf hashBytes recorded }) ∨
      ∃ text preview, made.1.findSome? (failureText ioText) = some text ∧
        emitted = .error text { session := made.2, preview } := by
  induction recorded generalizing recording with
  | nil =>
    refine .inl ⟨rfl, ?_⟩
    rw [previewOf, List.map_nil, List.append_nil]
    rfl
  | cons field recorded ih =>
    intro made emitted
    have one : step hashBytes recording.session (.hashField tick entityId field.1 field.2) =
        outcome (Session.hashField hashBytes tick entityId field.1 field.2) recording.session := rfl
    have split : emitted = (emitRecord hashBytes ioText tick entityId field >>= fun _ =>
        forM recorded (emitRecord hashBytes ioText tick entityId)) recording := by
      rw [← List.forM_cons]
    simp only [bind, EStateM.bind, emitRecord, record] at split
    rcases mapErr_cases one fun error => "hash_field failed for '" ++ field.1 ++ "': " ++
      error.display ioText with ⟨ok, described⟩ | ⟨error, failed, described⟩
    · have whole : made = _ := untilFailure_ok ok (fieldCalls tick entityId recorded)
      rw [described] at split
      rw [split, whole]
      rcases ih ⟨(step hashBytes recording.session (.hashField tick entityId field.1 field.2)).2,
          recording.preview ++ [(field.1, hashBytes field.2)]⟩ with
        ⟨none, rest⟩ | ⟨text, preview, some, rest⟩
      · refine .inl ⟨none, rest.trans ?_⟩
        rw [List.append_assoc]
        rfl
      · exact .inr ⟨text, preview, some, rest⟩
    · have whole : made = _ := untilFailure_error failed (fieldCalls tick entityId recorded)
      rw [described] at split
      rw [split, whole]
      exact .inr ⟨_, recording.preview, rfl, rfl⟩

/-- A result with the state that is left. -/
def resultAt {ε σ α : Type} (result : Except ε α) (after : σ) : EStateM.Result ε σ α :=
  match result with
  | .ok value => .ok value after
  | .error error => .error error after

variable (hashBytes ioText stringify tick entityId) in
/-- **The walk makes the calls of its plan until one fails.** -/
theorem withPreview_walk (fieldNamePrefix : String) (target : Gd heap) (session : Session) :
    let planned := walkPlan stringify heap (defaultMaxDepth + 1) [] fieldNamePrefix
      (.object target.id)
    let made := untilFailure hashBytes session (fieldCalls tick entityId planned.1)
    withPreview (walk hashBytes ioText stringify heap tick entityId fieldNamePrefix
        (.object target.id) 0) session =
      resultAt (reflectedResult hashBytes ioText planned made.1) made.2 := by
  intro planned made
  have levels : defaultMaxDepth + 1 + 0 = defaultMaxDepth + 1 := rfl
  have walked := walk_eq hashBytes ioText stringify heap tick entityId levels [] fieldNamePrefix
    (.object target.id) ⟨session, []⟩
  have above : objectsOf heap [] = ∅ := rfl
  rw [above] at walked
  rcases forM_emitRecord_cases hashBytes ioText tick entityId planned.1 ⟨session, []⟩ with
    ⟨none, emitted⟩ | ⟨text, preview, some, emitted⟩
  · rcases stops : planned.2 with _ | stop
    · have done : reflectedResult hashBytes ioText planned made.1 =
          .ok (previewOf hashBytes planned.1) := by rw [reflectedResult, none, stops]
      have returns : Godot.planned hashBytes ioText stringify heap tick entityId (defaultMaxDepth + 1)
          [] fieldNamePrefix (.object target.id) ⟨session, []⟩ =
            .ok () ⟨made.2, previewOf hashBytes planned.1⟩ := by
        rw [Godot.planned, perform_none stops]
        exact emitted
      rw [done]
      exact withPreview_ok walked returns
    · have stopped : reflectedResult hashBytes ioText planned made.1 = .error (stopText stop) := by
        rw [reflectedResult, none, stops]
      have fails : Godot.planned hashBytes ioText stringify heap tick entityId (defaultMaxDepth + 1)
          [] fieldNamePrefix (.object target.id) ⟨session, []⟩ =
            .error (stopText stop) ⟨made.2, previewOf hashBytes planned.1⟩ := by
        rw [Godot.planned, perform_some stops]
        simp only [bind, EStateM.bind, emitted]
        rfl
      rw [stopped]
      exact withPreview_error walked fails
  · have failed : reflectedResult hashBytes ioText planned made.1 = .error text := by
      rw [reflectedResult, some]
    have fails : Godot.planned hashBytes ioText stringify heap tick entityId (defaultMaxDepth + 1)
        [] fieldNamePrefix (.object target.id) ⟨session, []⟩ = .error text ⟨made.2, preview⟩ := by
      rcases stops : planned.2 with _ | stop
      · rw [Godot.planned, perform_none stops]
        exact emitted
      · rw [Godot.planned, perform_some stops]
        simp only [bind, EStateM.bind, emitted]
        rfl
    rw [failed]
    exact withPreview_error walked fails

variable (hashBytes ioText stringify tick entityId) in
/-- **`hash_reflected` makes the calls of the schema and of the walk's records until one fails**, and
then fails itself, or where a guard stops the walk. -/
theorem hashReflected_eq (fieldNamePrefix : String) (target : Gd heap) (session : Session) :
    let planned := walkPlan stringify heap (defaultMaxDepth + 1) [] fieldNamePrefix
      (.object target.id)
    let made := untilFailure hashBytes session (walkerCalls tick entityId
      (schemaTypeName target.object) (listTracked target.object).1 planned.1)
    hashReflected hashBytes ioText stringify heap tick entityId fieldNamePrefix target session =
      resultAt (reflectedResult hashBytes ioText planned made.1) made.2 := by
  intro planned made
  have schema : step hashBytes session (.recordSchema (schemaTypeName target.object)
      (listTracked target.object).1) = outcome (Session.recordSchema (schemaTypeName target.object)
        (listTracked target.object).1) session := rfl
  simp only [hashReflected, bind, EStateM.bind]
  rcases mapErr_cases schema fun error => "record_schema failed: " ++ error.display ioText with
    ⟨ok, described⟩ | ⟨error, failed, described⟩
  · have whole : made = _ := untilFailure_ok ok (fieldCalls tick entityId planned.1)
    rw [described, whole]
    exact withPreview_walk hashBytes ioText stringify tick entityId fieldNamePrefix target _
  · have whole : made = _ := untilFailure_error failed (fieldCalls tick entityId planned.1)
    rw [described, whole]
    rfl

end Reflected

/-! ### Every method -/

section Methods

variable {hashBytes : Bytes → UInt64} {ioText : IoError → String} {stringify : Variant ω → String}
  {this : FoldbackSession} {session : Session} {text : String}

/-- A method's answer and what it leaves, as calls of the `Session` API. -/
def Answers (hashBytes : Bytes → UInt64) (ioText : IoError → String) (stringify : Variant ω → String)
    (session : Session) (text : String) (method : Method ω) (answer : Returned × FoldbackSession) :
    Prop :=
  ∃ segment after, answer.2.inner = some after ∧
    Answered hashBytes ioText stringify session text method answer.1 answer.2.lastError segment ∧
    run hashBytes session (segment.map Prod.fst) = (segment, after)

theorem answers_status (configured : this.inner = some session) (name : String)
    {attempt : Attempt Session Unit} {call : Call} {method : Method ω}
    (named : method.statusCall = some (name, call))
    (same : step hashBytes session call = outcome attempt session) :
    Answers hashBytes ioText stringify session text method
      ((withSession this (failing ioText name attempt)).map .status id) := by
  unfold withSession failing
  rw [configured]
  dsimp only
  have one : ∀ response, (step hashBytes session call).1 = response →
      run hashBytes session [call] = ([(call, response)], (step hashBytes session call).2) := by
    rintro _ rfl
    rfl
  rcases mapErr_cases same fun error => name ++ " failed: " ++ error.display ioText with
    ⟨ok, described⟩ | ⟨error, failed, described⟩
  · rw [described]
    exact ⟨_, _, rfl, .status method name call named (.ok ()), one _ ok⟩
  · rw [described]
    exact ⟨_, _, rfl, .status method name call named (.error error), one _ failed⟩

/-- A method that makes no calls. -/
theorem answers_quiet (configured : this.inner = some session) {method : Method ω}
    {returned : Returned} {left : String}
    (answered : Answered hashBytes ioText stringify session text method returned left []) :
    Answers hashBytes ioText stringify session text method (returned, ⟨this.inner, left⟩) :=
  ⟨[], session, configured, answered, rfl⟩

/-- A method that only looks at the session. -/
theorem answers_look (configured : this.inner = some session) {method : Method ω}
    {sees : Session → Int64} (looks : method.look = some sees) :
    Answers hashBytes ioText stringify session this.lastError method
      (.int (reading this sees), this) := by
  have seen : reading this sees = sees session := by rw [reading, configured]
  rw [seen]
  exact answers_quiet configured (.look method sees looks)

variable (ioText this) in
/-- **A `configure` builds a session, or keeps the one that is there.** -/
theorem configure_cases (create : String → Except IoError (List Bool)) (config : Config ω) :
    (∃ start, sessionOf ioText create config = .ok start ∧
      configure ioText this create config = (true, { inner := some start, lastError := "" })) ∨
    ∃ reason, sessionOf ioText create config = .error reason ∧
      configure ioText this create config = (false, { this with lastError := reason }) := by
  unfold configure sessionOf
  rcases dictGetI64 config "tick_rate_hz" with _ | tickRateHz
  · exact .inr ⟨_, rfl, rfl⟩
  · rcases dictGetI64 config "peer_count" with _ | peerCount
    · exact .inr ⟨_, rfl, rfl⟩
    · dsimp only
      rcases (builderOf create config tickRateHz peerCount).build with error | start
      · exact .inr ⟨_, rfl, rfl⟩
      · exact .inl ⟨start, rfl, rfl⟩

/-- **Every method makes its calls**, or is a `configure` that succeeds. -/
theorem invoke_answers (configured : this.inner = some session) (method : Method ω)
    (other : isConfigured (method, (invoke hashBytes ioText stringify this method).1) = false) :
    Answers hashBytes ioText stringify session this.lastError method
      (invoke hashBytes ioText stringify this method) := by
  cases method with
  | configure create config =>
    rcases configure_cases ioText this create config with
      ⟨_, _, made⟩ | ⟨reason, refuses, failed⟩
    · rw [invoke, made] at other
      cases other
    · rw [invoke, failed]
      exact answers_quiet configured (.refused create config reason refuses)
  | getLastError => exact answers_quiet configured .lastError
  | hashTick tick state => exact answers_status configured "hash_tick" rfl rfl
  | recordPeerHash tick peerId hash => exact answers_status configured "record_peer_hash" rfl rfl
  | hashEntity tick entityId state => exact answers_status configured "hash_entity" rfl rfl
  | recordPeerEntityHash tick peerId entityId hash =>
    exact answers_status configured "record_peer_entity_hash" rfl rfl
  | hashField tick entityId fieldName value => exact answers_status configured "hash_field" rfl rfl
  | recordPeerFieldHash tick peerId entityId fieldName hash value =>
    exact answers_status configured "record_peer_field_hash" rfl rfl
  | pendingHashCount => exact answers_look configured rfl
  | takePendingHashes max =>
    simp only [invoke, takePendingHashes, configured]
    exact ⟨_, _, rfl, .drained max (session.takePendingHashesUpTo max.toInt.toNat).1, rfl⟩
  | checkDivergence =>
    have run : run hashBytes session [.checkDivergence] =
      ([(.checkDivergence, .divergence session.checkDivergence.1)], session.checkDivergence.2) := rfl
    simp only [invoke, checkDivergence, configured]
    rcases checked : session.checkDivergence with ⟨_ | found, after⟩
    · rw [checked] at run
      exact ⟨_, after, rfl, .checked none, run⟩
    · rw [checked] at run
      exact ⟨_, after, rfl, .checked (some found), run⟩
  | finish => exact answers_look configured rfl
  | finishRecording => exact answers_status configured "finish_recording" rfl rfl
  | hashReflected heap tick entityId fieldNamePrefix target =>
    have made := hashReflected_eq hashBytes ioText stringify tick.toUInt64 entityId.toUInt64
      fieldNamePrefix target session
    have ran := run_untilFailure hashBytes session (walkerCalls tick.toUInt64
      entityId.toUInt64 (schemaTypeName target.object) (listTracked target.object).1
      (walkPlan stringify heap (defaultMaxDepth + 1) [] fieldNamePrefix (.object target.id)).1)
    have answered : Answered hashBytes ioText stringify session this.lastError
        (.hashReflected heap tick entityId fieldNamePrefix target) _ _ _ :=
      .reflected heap tick entityId fieldNamePrefix target _ rfl _ rfl
    simp only [invoke, hashReflectedInto, configured, made]
    rcases result : reflectedResult hashBytes ioText _ _ with reason | preview
    · rw [result] at answered
      exact ⟨_, _, rfl, answered, ran⟩
    · rw [result] at answered
      exact ⟨_, _, rfl, answered, ran⟩
  | listTracked target => exact answers_quiet configured (.listed target)
  | tickRateHz => exact answers_look configured rfl
  | peerCount => exact answers_look configured rfl

/-- A `configure` that succeeds replaces the session. -/
theorem isConfigured_invoke {method : Method ω}
    (succeeded : isConfigured (method, (invoke hashBytes ioText stringify this method).1) = true) :
    ∃ create config start, method = .configure create config ∧
      sessionOf ioText create config = .ok start ∧
      invoke hashBytes ioText stringify this method =
        (.bool true, { inner := some start, lastError := "" }) := by
  cases method with
  | configure create config =>
    rcases configure_cases ioText this create config with
      ⟨start, built, made⟩ | ⟨reason, -, failed⟩
    · exact ⟨create, config, start, rfl, built, by rw [invoke, made]; rfl⟩
    · rw [invoke, failed] at succeeded
      cases succeeded
  | _ => cases succeeded

/-- **Without a session**, no method but `configure` makes one. -/
theorem invoke_unserved (unconfigured : this.inner = none) (method : Method ω)
    (other : isConfigured (method, (invoke hashBytes ioText stringify this method).1) = false) :
    (invoke hashBytes ioText stringify this method).2.inner = none ∧
      Unserved ioText this.lastError method (invoke hashBytes ioText stringify this method).1
        (invoke hashBytes ioText stringify this method).2.lastError := by
  have status : ∀ (method : Method ω) (f : Described Session Unit), method.statusCall ≠ none →
      ((withSession this f).map Returned.status id).2.inner = none ∧
        Unserved ioText this.lastError method ((withSession this f).map Returned.status id).1
          ((withSession this f).map Returned.status id).2.lastError := by
    intro method f named
    unfold withSession
    rw [unconfigured]
    exact ⟨rfl, .status method named⟩
  have look : ∀ (method : Method ω) (sees : Session → Int64), method.look ≠ none →
      this.inner = none ∧
        Unserved ioText this.lastError method (.int (reading this sees)) this.lastError := by
    intro method sees looks
    have default : reading this sees = 0 := by rw [reading, unconfigured]
    rw [default]
    exact ⟨unconfigured, .look method looks⟩
  cases method with
  | configure create config =>
    rcases configure_cases ioText this create config with
      ⟨_, _, made⟩ | ⟨reason, refuses, failed⟩
    · rw [invoke, made] at other
      cases other
    · rw [invoke, failed]
      exact ⟨unconfigured, .refused create config reason refuses⟩
  | getLastError => exact ⟨unconfigured, .lastError⟩
  | takePendingHashes max =>
    rw [invoke, takePendingHashes, unconfigured]
    exact ⟨unconfigured, .drained max⟩
  | checkDivergence =>
    rw [invoke, checkDivergence, unconfigured]
    exact ⟨unconfigured, .checked⟩
  | hashReflected heap tick entityId fieldNamePrefix target =>
    rw [invoke, hashReflectedInto, unconfigured]
    exact ⟨rfl, .reflected heap tick entityId fieldNamePrefix target⟩
  | listTracked target => exact ⟨unconfigured, .listed target⟩
  | pendingHashCount | finish | tickRateHz | peerCount =>
    exact look _ _ (Option.some_ne_none _)
  | _ => exact status _ _ (Option.some_ne_none _)

end Methods

/-! ### Whole runs -/

section Runs

variable {hashBytes : Bytes → UInt64} {ioText : IoError → String} {stringify : Variant ω → String}
  {trace since : List (Method ω × Returned)} {this : FoldbackSession} {start session : Session}
  {text : String} {segments : List (List (Call × Response))}
  {create : String → Except IoError (List Bool)} {config : Config ω}

/-- The session is what the calls have made of it. -/
theorem Conversation.run_eq
    (answered : Conversation hashBytes ioText stringify start since segments session text) :
    run hashBytes start (segments.flatten.map Prod.fst) = (segments.flatten, session) := by
  induction answered with
  | start => rfl
  | next _ _ ran ih =>
    rw [run] at ih ran ⊢
    rw [List.flatten_append, List.map_append, Machine.run_append, ih, List.flatten_singleton, ran]

/-- A method answered later. -/
theorem Serves.extend {after : Session} {text' : String}
    (serves : Serves hashBytes ioText stringify trace session text create config start since segments)
    {method : Method ω} {returned : Returned} {segment : List (Call × Response)}
    (other : isConfigured (method, returned) = false)
    (answered : Answered hashBytes ioText stringify session text method returned text' segment)
    (ran : run hashBytes session (segment.map Prod.fst) = (segment, after)) :
    Serves hashBytes ioText stringify (trace ++ [(method, returned)]) after text' create config start
      (since ++ [(method, returned)]) (segments ++ [segment]) where
  built := serves.built
  last := by
    obtain ⟨before, split, none⟩ := serves.last
    refine ⟨before, by rw [split, List.append_assoc, List.cons_append], fun entry member => ?_⟩
    rcases List.mem_append.mp member with earlier | last
    · exact none entry earlier
    · rw [List.mem_singleton.mp last]
      exact other
  answered := serves.answered.next answered ran

/-- The session of an object, by its trace. -/
structure Tracked (hashBytes : Bytes → UInt64) (ioText : IoError → String)
    (stringify : Variant ω → String) (trace : List (Method ω × Returned)) (this : FoldbackSession) :
    Prop where
  unconfigured : this.inner = none ↔ ∀ entry ∈ trace, isConfigured entry = false
  idle : this.inner = none → Idle ioText trace this.lastError
  serves : ∀ session, this.inner = some session → ∃ create config start since segments,
    Serves hashBytes ioText stringify trace session this.lastError create config start since segments

theorem Tracked.step (tracked : Tracked hashBytes ioText stringify trace this) (method : Method ω) :
    Tracked hashBytes ioText stringify
      (trace ++ [(method, (invoke hashBytes ioText stringify this method).1)])
      (invoke hashBytes ioText stringify this method).2 := by
  rcases succeeded : isConfigured (method, (invoke hashBytes ioText stringify this method).1) with _ | _
  · have none_iff : (∀ entry ∈ trace ++ [(method, (invoke hashBytes ioText stringify this method).1)],
        isConfigured entry = false) ↔ ∀ entry ∈ trace, isConfigured entry = false := by
      simp [or_imp, forall_and, succeeded]
    rcases inner : this.inner with _ | session
    · obtain ⟨still, unserved⟩ := invoke_unserved inner method succeeded
      refine ⟨?_, fun _ => (tracked.idle inner).next unserved, fun session configured => ?_⟩
      · rw [none_iff, ← tracked.unconfigured, inner, still]
      · rw [still] at configured
        cases configured
    · obtain ⟨segment, after, left, answered, ran⟩ := invoke_answers inner method succeeded
      refine ⟨?_, fun absent => ?_, fun now configured => ?_⟩
      · rw [none_iff, ← tracked.unconfigured, inner, left]
        simp
      · rw [left] at absent
        cases absent
      · rw [left] at configured
        cases configured
        obtain ⟨create, config, start, since, segments, serves⟩ := tracked.serves session inner
        exact ⟨create, config, start, _, segments ++ [segment],
          serves.extend succeeded answered ran⟩
  · obtain ⟨create, config, start, rfl, built, made⟩ := isConfigured_invoke succeeded
    rw [made]
    refine ⟨?_, fun absent => (by cases absent), fun session configured => ?_⟩
    · refine iff_of_false (by simp) fun none => ?_
      have last := none _ (List.mem_append_right _ List.mem_cons_self)
      cases last
    · cases configured
      exact ⟨create, config, start, [], [], built,
        ⟨trace, rfl, fun entry member => absurd member List.not_mem_nil⟩, .start⟩

/-- The session was built by a builder of the configuration. -/
theorem sessionOf_ok (built : sessionOf ioText create config = .ok start) :
    ∃ tickRateHz peerCount, dictGetI64 config "tick_rate_hz" = some tickRateHz ∧
      dictGetI64 config "peer_count" = some peerCount ∧
      (builderOf create config tickRateHz peerCount).build = .ok start := by
  revert built
  unfold sessionOf
  rcases dictGetI64 config "tick_rate_hz" with _ | tickRateHz
  · exact fun built => by cases built
  · rcases dictGetI64 config "peer_count" with _ | peerCount
    · exact fun built => by cases built
    · dsimp only
      intro built
      rcases made : (builderOf create config tickRateHz peerCount).build with error | session
      · rw [made] at built
        cases built
      · rw [made] at built
        cases built
        exact ⟨tickRateHz, peerCount, rfl, rfl, made⟩

/-- Only a check returns a tick. -/
theorem ticks_of_run {calls : List Call} {entry : Call × Response}
    (member : entry ∈ (run hashBytes start calls).1) (other : entry.1 ≠ .checkDivergence) :
    entry.2.ticks = [] := by
  obtain ⟨before, after, split⟩ := List.append_of_mem member
  have answer := (Machine.run_split (step hashBytes) split).2
  rw [List.eq_nil_iff_forall_not_mem]
  intro tick returned
  rw [← answer] at returned
  exact other (mem_ticks_step returned).1

/-- The walker checks nothing. -/
theorem walkerCalls_quiet {tick entityId : UInt64} {typeName : String} {trackedFields : List String}
    {made : List (String × Bytes)} {call : Call}
    (member : call ∈ walkerCalls tick entityId typeName trackedFields made) :
    call ≠ .checkDivergence := by
  rintro rfl
  rcases List.mem_cons.mp member with first | field
  · cases first
  · obtain ⟨_, _, same⟩ := List.mem_map.mp field
    cases same

theorem foundIn_status {method : Method ω} (named : method.statusCall ≠ none) (returned : Returned) :
    foundIn [(method, returned)] = [] := by
  cases method with
  | checkDivergence => exact absurd rfl named
  | _ => rfl

theorem foundIn_look {method : Method ω} (looks : method.look ≠ none) (returned : Returned) :
    foundIn [(method, returned)] = [] := by
  cases method with
  | checkDivergence => exact absurd rfl looks
  | _ => rfl

/-- The ticks that a method returned are those of its calls. -/
theorem foundIn_answered {method : Method ω} {returned : Returned} {text' : String}
    {segment : List (Call × Response)} {after : Session}
    (answered : Answered hashBytes ioText stringify session text method returned text' segment)
    (ran : run hashBytes session (segment.map Prod.fst) = (segment, after)) :
    foundIn [(method, returned)] = returnedIn segment := by
  cases answered with
  | status _ name call named result => exact foundIn_status (named ▸ Option.some_ne_none _) _
  | look _ sees looks => exact foundIn_look (looks ▸ Option.some_ne_none _) _
  | checked found =>
    rcases found with _ | found
    · rfl
    · rfl
  | reflected heap tick entityId fieldNamePrefix target planned plans _ calls =>
    refine (List.flatMap_eq_nil_iff.mpr fun entry member => ?_).symm
    have made : (run hashBytes session (segment.map Prod.fst)).1 = segment := congrArg Prod.fst ran
    have initial := untilFailure_initial hashBytes session (walkerCalls tick.toUInt64
      entityId.toUInt64 (schemaTypeName target.object) (listTracked target.object).1 planned.1)
    rw [← calls] at initial
    rw [← made] at member
    refine ticks_of_run member (walkerCalls_quiet (initial.subset ?_))
    rw [made] at member
    exact List.mem_map_of_mem member
  | _ => rfl

theorem Conversation.foundIn_eq
    (answered : Conversation hashBytes ioText stringify start since segments session text) :
    foundIn since = returnedIn segments.flatten := by
  induction answered with
  | start => rfl
  | next _ answered ran ih =>
    rw [foundIn, List.flatMap_append, ← foundIn, ih, ← foundIn, foundIn_answered answered ran,
      List.flatten_append, List.flatten_singleton, returnedIn, returnedIn, returnedIn,
      List.flatMap_append]

end Runs

/-- **An object of the extension is a session of the API.** In every run it has a session exactly if
some `configure` succeeded. Before that, every method has answered as `Unserved` says. The session is
then the one that the last of these built, after the calls of the methods since, each of which answered
from the session that those before it left; a `configure` that fails changes the error only. Every tick
that `check_divergence` has returned since is returned once, and was reported with two hashes. -/
theorem godot_serves (hashBytes : Bytes → UInt64) (ioText : IoError → String)
    (stringify : Variant ω → String) (methods : List (Method ω)) :
    let trace := (scriptRun hashBytes ioText stringify methods).1
    let this := (scriptRun hashBytes ioText stringify methods).2
    (this.inner = none ↔ ∀ entry ∈ trace, isConfigured entry = false) ∧
      (this.inner = none → Idle ioText trace this.lastError) ∧
      ∀ session, this.inner = some session → ∃ create config start since segments,
        Serves hashBytes ioText stringify trace session this.lastError create config start since
            segments ∧
          run hashBytes start (segments.flatten.map Prod.fst) = (segments.flatten, session) ∧
          (foundIn since).Nodup ∧
          ∀ tick ∈ foundIn since,
            Contradicted (reportsIn hashBytes start.localPeerId segments.flatten) tick := by
  intro trace this
  have tracked : Tracked hashBytes ioText stringify trace this :=
    Machine.history_rule (invoke hashBytes ioText stringify) (Tracked hashBytes ioText stringify)
      ⟨iff_of_true rfl fun entry member => absurd member List.not_mem_nil, fun _ => .start,
        fun session configured => by cases configured⟩
      (fun trace this method tracked => tracked.step method) methods
  refine ⟨tracked.unconfigured, tracked.idle, fun session configured => ?_⟩
  obtain ⟨create, config, start, since, segments, serves⟩ := tracked.serves session configured
  obtain ⟨tickRateHz, peerCount, -, -, built⟩ := sessionOf_ok serves.built
  have ran := serves.answered.run_eq
  have live := Live.run hashBytes built (segments.flatten.map Prod.fst)
  rw [ran] at live
  have first := Live.run hashBytes built []
  have peer : start.localPeerId = (builderOf create config tickRateHz peerCount).localPeerId :=
    first.peer
  refine ⟨create, config, start, since, segments, serves, ran, ?_, ?_⟩
  · rw [serves.answered.foundIn_eq]
    exact live.nodup
  · rw [serves.answered.foundIn_eq, peer]
    exact live.sound

end Foldback.Godot
