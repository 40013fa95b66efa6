/-
**The stream, from `send_frame` in the game to the page.**

* `Change`: what a move of the app does to one connection.
* `Conveys`: what a connection has emitted and what is still to be read from its wire is what was
  written to it. `Conveyed.step`: every move keeps it.
* `frames_reach_one_connection`: **no frame reaches two connections**, and none out of order.
* `live_stream_conserved`: **the page shows the first of the frames that were sent since its hello**,
  and those that it does not show yet are all under way.
-/

import Foldback.Ui.Broadcast

namespace Foldback

open LiveServer (Streaming Queued Thread Event sentIn deliveredIn connected)

namespace Broadcast

/-! ### The wires and the connections -/

/-- What a move of the app does to one connection. -/
inductive Change (id : ℕ) (move : App.Move) (before after : App.Connection) : Prop
  | same (same : after = before)
  | run (outcome : App.Outcome) (is : move = .run id outcome) (invoked : before.command = .invoked)
      (same : after = before.run outcome)
  | settle (answered : before.command ≠ .invoked) (same : after = { before with command := .settled })
  | frame (frame : Frame) (is : move = .frame id frame) (running : before.running = true)
      (same : after = { before with emitted := before.emitted ++ [frameToLiveEvent frame] })
  | hangUp (reason : String) (running : before.running = true)
      (same : after = { before with
        running := false
        emitted := before.emitted ++ [.disconnected reason] })
  | hear (same : after = { before with delivered := before.delivered + 1 })

/-- Another connection is set, or this one. -/
theorem change_of_set {app : App} {id other : ℕ} {move : App.Move}
    {connection found after : App.Connection} (here : app.connections[id]? = some connection)
    (found' : app.connections[other]? = some found)
    (change : other = id → Change other move connection after) :
    ∃ changed, (app.connections.set id after)[other]? = some changed ∧
      Change other move found changed := by
  by_cases same : other = id
  · subst same
    obtain rfl := Option.some_inj.mp (here.symm.trans found')
    obtain ⟨inside, -⟩ := List.getElem?_eq_some_iff.mp here
    exact ⟨after, List.getElem?_set_self inside, change rfl⟩
  · refine ⟨found, ?_, .same rfl⟩
    rw [List.getElem?_set_ne fun same' => same same'.symm, found']

theorem change_of_step {before after : App} {move : App.Move} (moved : before.step move = some after)
    {id : ℕ} {connection : App.Connection} (found : before.connections[id]? = some connection) :
    ∃ changed, after.connections[id]? = some changed ∧ Change id move connection changed := by
  cases move with
  | openFile =>
    cases moved
    exact ⟨connection, found, .same rfl⟩
  | loaded result =>
    rw [App.step] at moved
    split at moved
    · cases moved
    · cases result with
      | error | ok =>
        cases moved
        exact ⟨connection, found, .same rfl⟩
  | connect url =>
    rw [App.step] at moved
    split at moved
    · cases moved
      exact ⟨connection, found, .same rfl⟩
    · cases moved
      obtain ⟨inside, -⟩ := List.getElem?_eq_some_iff.mp found
      refine ⟨connection, ?_, .same rfl⟩
      rw [← found]
      exact List.getElem?_append_left inside
  | disconnect =>
    cases moved
    exact ⟨connection, found, .same rfl⟩
  | run other outcome =>
    rw [App.step] at moved
    split at moved
    · rename_i target here
      split at moved
      · rename_i invoked
        have change : id = other → Change id (.run other outcome) target (target.run outcome) :=
          fun same => .run outcome (by rw [same]) invoked rfl
        cases outcome with
        | refused | unheld | connected =>
          cases moved
          exact change_of_set here found change
      · cases moved
    · cases moved
  | resolve other =>
    rw [App.step] at moved
    split at moved
    · rename_i target here
      split at moved
      · rename_i ok answered
        have change : id = other →
            Change id (.resolve other) target { target with command := .settled } :=
          fun _ => .settle (by rw [answered]; simp) rfl
        cases ok with
        | true | false =>
          cases moved
          exact change_of_set here found change
      · cases moved
    · cases moved
  | frame other frame =>
    rw [App.step] at moved
    split at moved
    · rename_i target here
      split at moved
      · rename_i running
        cases moved
        exact change_of_set here found fun same => .frame frame (by rw [same]) running rfl
      · cases moved
    · cases moved
  | hangUp other reason =>
    rw [App.step] at moved
    split at moved
    · rename_i target here
      split at moved
      · rename_i running
        cases moved
        exact change_of_set here found fun _ => .hangUp reason running rfl
      · cases moved
    · cases moved
  | deliver other =>
    rw [App.step] at moved
    split at moved
    · rename_i target here
      split at moved
      · cases moved
        exact change_of_set here found fun _ => .hear rfl
      · cases moved
    · cases moved

/-- A connection that is new was made by a connect. -/
theorem new_of_step {before after : App} {move : App.Move} (moved : before.step move = some after)
    {id : ℕ} {connection : App.Connection} (found : after.connections[id]? = some connection)
    (new : before.connections.length ≤ id) : ∃ url, connection = { url } := by
  obtain ⟨inside, -⟩ := List.getElem?_eq_some_iff.mp found
  cases App.effect_of_step moved with
  | idle quiet page shown loading connections =>
    rw [connections] at inside
    omega
  | openFile is same =>
    rw [same] at inside
    exact absurd inside (Nat.not_lt.mpr new)
  | loaded result is pending page shown connections =>
    rw [connections] at inside
    omega
  | connect url is same live =>
    subst same
    rw [List.length_append, List.length_singleton] at inside
    obtain rfl : id = before.connections.length := by omega
    rw [List.getElem?_concat_length] at found
    exact ⟨url, (Option.some_inj.mp found).symm⟩
  | touch other target touched here touches shown loading connections =>
    rw [connections, List.length_set] at inside
    omega

/-- A connection that has not run has emitted nothing. -/
def Unrun (connection : App.Connection) : Prop :=
  connection.command = .invoked → connection.running = false ∧ connection.emitted = []

theorem Unrun.change {connection changed : App.Connection} (unrun : Unrun connection) {id : ℕ}
    {move : App.Move} (change : Change id move connection changed) : Unrun changed := by
  intro invoked
  cases change with
  | same same =>
    rw [same] at invoked ⊢
    exact unrun invoked
  | run outcome is _ same =>
    rw [same] at invoked
    cases outcome with
    | refused | unheld | connected => cases invoked
  | settle answered same =>
    rw [same] at invoked
    cases invoked
  | frame frame is running same =>
    rw [same] at invoked
    exact absurd ((unrun invoked).1.symm.trans running) Bool.false_ne_true
  | hangUp reason running same =>
    rw [same] at invoked
    exact absurd ((unrun invoked).1.symm.trans running) Bool.false_ne_true
  | hear same =>
    rw [same] at invoked ⊢
    exact unrun invoked

theorem unrun_of_step {before after : App} {move : App.Move} (moved : before.step move = some after)
    (unrun : ∀ (id : ℕ) connection, before.connections[id]? = some connection → Unrun connection)
    (id : ℕ) (connection : App.Connection) (found : after.connections[id]? = some connection) :
    Unrun connection := by
  rcases Nat.lt_or_ge id before.connections.length with old | new
  · obtain ⟨changed, at', change⟩ := change_of_step moved (List.getElem?_eq_getElem old)
    obtain rfl := Option.some_inj.mp (at'.symm.trans found)
    exact (unrun id _ (List.getElem?_eq_getElem old)).change change
  · obtain ⟨url, rfl⟩ := new_of_step moved found new
    exact fun _ => ⟨rfl, rfl⟩

/-- **What a connection has made of its wire**: nothing yet; nothing ever; or its hello, the first
frames that were written to it, and its end, and the rest is still to be read. -/
inductive Conveys (header : Header) (wire : Wire) (connection : App.Connection) : Prop
  | unread (invoked : connection.command = .invoked) (running : connection.running = false)
      (emitted : connection.emitted = [])
      (messages : wire.messages =
        sendHello header :: wire.written.map fun queued => sendFrame queued.frame)
  | refused (answered : connection.command ≠ .invoked) (running : connection.running = false)
      (emitted : connection.emitted = [])
  | heard (frames unread : List Queued) (ending : List (LiveEvent UInt64))
      (answered : connection.command ≠ .invoked) (written : wire.written = frames ++ unread)
      (messages : wire.messages = unread.map fun queued => sendFrame queued.frame)
      (emitted : connection.emitted =
        hello header :: frames.map (fun queued => frameToLiveEvent queued.frame) ++ ending)
      (ends : ending = [] ∨
        connection.running = false ∧ ∃ reason, ending = [.disconnected reason])

section Conveys

variable {header : Header} {wire : Wire} {connection : App.Connection}

theorem Conveys.write (conveys : Conveys header wire connection) (queued : Queued) :
    Conveys header (wire.write queued) connection := by
  cases conveys with
  | unread invoked running emitted messages =>
    refine .unread invoked running emitted ?_
    rw [Wire.write, messages, List.map_append]
    rfl
  | refused answered running emitted => exact .refused answered running emitted
  | heard frames unread ending answered written messages emitted ends =>
    refine .heard frames (unread ++ [queued]) ending answered ?_ ?_ emitted ends
    · rw [Wire.write, written, List.append_assoc]
    · rw [Wire.write, messages, List.map_append]
      rfl

/-- What another part of the system does: the connection may fail, be answered, hang up or be heard. -/
theorem Conveys.change (conveys : Conveys header wire connection) {id : ℕ} {move : App.Move}
    {changed : App.Connection} (change : Change id move connection changed)
    (runs : ∀ outcome, move = .run id outcome → outcome = .refused)
    (frames : ∀ frame, move ≠ .frame id frame) : Conveys header wire changed := by
  cases change with
  | same same =>
    rw [same]
    exact conveys
  | run outcome is invoked same =>
    obtain rfl := runs outcome is
    subst same
    cases conveys with
    | unread invoked' running emitted messages =>
      exact .refused (by simp [App.Connection.run]) running emitted
    | refused answered | heard frames unread ending answered => exact absurd invoked answered
  | settle answered same =>
    subst same
    cases conveys with
    | unread invoked => exact absurd invoked answered
    | refused answered' running emitted => exact .refused (by simp) running emitted
    | heard frames unread ending answered' written messages emitted ends =>
      exact .heard frames unread ending (by simp) written messages emitted ends
  | frame frame is => exact absurd is (frames frame)
  | hangUp reason running same =>
    subst same
    cases conveys with
    | unread invoked stopped | refused answered stopped =>
      exact absurd (stopped.symm.trans running) Bool.false_ne_true
    | heard frames unread ending answered written messages emitted ends =>
      rcases ends with rfl | ⟨stopped, -⟩
      · refine .heard frames unread [.disconnected reason] answered written messages ?_
          (.inr ⟨rfl, reason, rfl⟩)
        rw [emitted, List.append_nil]
      · exact absurd (stopped.symm.trans running) Bool.false_ne_true
  | hear same =>
    subst same
    cases conveys with
    | unread invoked running emitted messages => exact .unread invoked running emitted messages
    | refused answered running emitted => exact .refused answered running emitted
    | heard frames unread ending answered written messages emitted ends =>
      exact .heard frames unread ending answered written messages emitted ends

/-- `connect_live` reads its hello. -/
theorem Conveys.answer (conveys : Conveys header wire connection) {greeting : Hello}
    {messages : List Message} (first : wire.messages = .text greeting :: messages)
    (invoked : connection.command = .invoked) (held : Bool) :
    Conveys header { wire with messages } (connection.run (outcome greeting held)) := by
  cases conveys with
  | unread _ running emitted all =>
    obtain ⟨greeted, rest⟩ := List.cons_eq_cons.mp (first.symm.trans all)
    obtain rfl := Message.text.inj greeted
    cases held with
    | false =>
      refine .heard [] wire.written [] (by simp [outcome, App.Connection.run]) rfl rest ?_ (.inl rfl)
      show connection.emitted ++ _ = _
      rw [emitted]
      rfl
    | true =>
      refine .heard [] wire.written [] (by simp [outcome, App.Connection.run]) rfl rest ?_ (.inl rfl)
      show connection.emitted ++ _ = _
      rw [emitted]
      rfl
  | refused answered | heard frames unread ending answered => exact absurd invoked answered

/-- A frame is read back from its message. -/
theorem heard_sendFrame (ioText : IoError → String) (id : ℕ) {frame : Frame} (fits : frame.Fits) :
    (sendFrame frame).heard ioText id = some (.frame id frame) := by
  have front : ChunkStream.next 4 frame.encode = some (frame.chunk, []) := by
    have whole : ChunkStream.Fits 4 frame.chunk := fits
    have alone := ChunkStream.next_encode_append whole []
    rwa [List.append_nil] at alone
  have read : FrameReader.nextFrameUnbounded frame.encode = .ok (some frame) [] := by
    rw [FrameReader.nextFrameUnbounded_of_some front, Frame.readChunk_chunk fits]
  rw [sendFrame, Message.heard, read]

/-- `stream_frames` reads a message. -/
theorem Conveys.read (conveys : Conveys header wire connection) {message : Message}
    {messages : List Message} (first : wire.messages = message :: messages)
    (running : connection.running = true) (fits : ∀ queued ∈ wire.written, queued.frame.Fits) :
    ∃ frame : Frame, frame.Fits ∧ message = sendFrame frame ∧
      Conveys header { wire with messages }
        { connection with emitted := connection.emitted ++ [frameToLiveEvent frame] } := by
  cases conveys with
  | unread invoked stopped | refused answered stopped =>
    exact absurd (stopped.symm.trans running) Bool.false_ne_true
  | heard frames unread ending answered written all emitted ends =>
    have going : ending = [] := by
      rcases ends with none | ⟨stopped, -⟩
      · exact none
      · exact absurd (stopped.symm.trans running) Bool.false_ne_true
    subst going
    rw [all] at first
    obtain ⟨queued, rest, rfl, rfl, rfl⟩ := List.map_eq_cons_iff.mp first
    refine ⟨queued.frame, fits queued ?_, rfl, ?_⟩
    · rw [written]
      exact List.mem_append_right _ List.mem_cons_self
    · refine .heard (frames ++ [queued]) rest [] answered ?_ rfl ?_ (.inl rfl)
      · rw [written, List.append_assoc, List.singleton_append]
      · show connection.emitted ++ _ = _
        rw [emitted, List.map_append]
        simp

end Conveys

theorem run_of_step {before after : App} {id : ℕ} {outcome : App.Outcome}
    (moved : before.step (.run id outcome) = some after) :
    ∃ connection, before.connections[id]? = some connection ∧ connection.command = .invoked ∧
      after.connections = before.connections.set id (connection.run outcome) := by
  rw [App.step] at moved
  split at moved
  · rename_i connection found
    split at moved
    · rename_i invoked
      refine ⟨connection, found, invoked, ?_⟩
      cases outcome with
      | refused | unheld | connected =>
        cases moved
        rfl
    · cases moved
  · cases moved

theorem frame_of_step {before after : App} {id : ℕ} {frame : Frame}
    (moved : before.step (.frame id frame) = some after) :
    ∃ connection, before.connections[id]? = some connection ∧ after.connections =
      before.connections.set id { connection with
        emitted := connection.emitted ++ [frameToLiveEvent frame] } := by
  rw [App.step] at moved
  split at moved
  · rename_i connection found
    split at moved
    · cases moved
      exact ⟨connection, found, rfl⟩
    · cases moved
  · cases moved

/-- Every wire and its connection. -/
structure Conveyed (header : Header) (cast : Broadcast) : Prop where
  unrun : ∀ (id : ℕ) connection, cast.app.connections[id]? = some connection → Unrun connection
  conveys : ∀ id wire, cast.wires id = some wire →
    ∃ connection, cast.app.connections[id]? = some connection ∧ Conveys header wire connection

section Conveyed

variable {header : Header} {ioText : IoError → String} {before after : Broadcast} {move : Move}

theorem Conveyed.start : Conveyed header {} where
  unrun := fun id connection found => by cases found
  conveys := fun id wire wired => by cases wired

/-- A step of the app that leaves the wires alone. -/
theorem Conveyed.other (conveyed : Conveyed header before) {move' : App.Move} {app : App}
    (stepped : before.app.step move' = some app) {id : ℕ} {wire : Wire}
    (wired : before.wires id = some wire)
    (runs : ∀ outcome, move' = .run id outcome → outcome = .refused)
    (frames : ∀ frame, move' ≠ .frame id frame) :
    ∃ connection, app.connections[id]? = some connection ∧ Conveys header wire connection := by
  obtain ⟨connection, found, conveys⟩ := conveyed.conveys id wire wired
  obtain ⟨changed, found', change⟩ := change_of_step stepped found
  exact ⟨changed, found', conveys.change change runs frames⟩

theorem Conveyed.unrun_step (conveyed : Conveyed header before)
    (effect : Effect header ioText before move after) (id : ℕ) (connection : App.Connection)
    (found : after.app.connections[id]? = some connection) : Unrun connection := by
  rcases effect.app with same | ⟨move', stepped, -⟩
  · rw [same] at found
    exact conveyed.unrun id connection found
  · exact unrun_of_step stepped conveyed.unrun id connection found

theorem Conveyed.step (conveyed : Conveyed header before)
    (effect : Effect header ioText before move after)
    (fits : ∀ id wire, before.wires id = some wire → ∀ queued ∈ wire.written, queued.frame.Fits) :
    Conveyed header after := by
  refine ⟨conveyed.unrun_step effect, fun other found wired => ?_⟩
  cases effect with
  | game | stranger | lose =>
    rename_i same
    subst same
    exact conveyed.conveys other found wired
  | greet id server is dials stepped same =>
    subst same
    rcases setWire_cases wired with ⟨rfl, rfl⟩ | ⟨-, kept⟩
    · obtain ⟨connection, here, invoked⟩ := Option.map_eq_some_iff.mp dials.1
      obtain ⟨running, emitted⟩ := conveyed.unrun other connection here invoked
      exact ⟨connection, here, .unread invoked running emitted rfl⟩
    · exact conveyed.conveys other found kept
  | write queued server held stepped thread channel history same =>
    subst same
    have unchanged : (before.put queued).app.connections[other]? = before.app.connections[other]? := by
      rw [put_app]
    rcases put_cases wired with ⟨-, wire, kept, rfl⟩ | ⟨-, kept⟩
    · obtain ⟨connection, here, conveys⟩ := conveyed.conveys other wire kept
      exact ⟨connection, unchanged.trans here, conveys.write queued⟩
    · obtain ⟨connection, here, conveys⟩ := conveyed.conveys other found kept
      exact ⟨connection, unchanged.trans here, conveys⟩
  | ui move' app is foreign stepped same =>
    subst same
    have theirs : (before.wires other).isNone ≠ true := by
      change before.wires other = some found at wired
      rw [wired]
      exact Bool.false_ne_true
    refine conveyed.other stepped wired (fun outcome runs => ?_) fun frame frames => ?_
    · subst runs
      cases outcome with
      | refused => rfl
      | unheld | connected => exact absurd foreign theirs
    · subst frames
      exact absurd foreign theirs
  | answer id wire greeting messages held app wired' first stepped same =>
    subst same
    rcases setWire_cases wired with ⟨rfl, rfl⟩ | ⟨differs, kept⟩
    · obtain ⟨connection, here, conveys⟩ := conveyed.conveys other wire wired'
      obtain ⟨target, here', invoked, changed⟩ := run_of_step stepped
      obtain rfl := Option.some_inj.mp (here.symm.trans here')
      obtain ⟨inside, -⟩ := List.getElem?_eq_some_iff.mp here
      refine ⟨connection.run (outcome greeting held), ?_, conveys.answer first invoked held⟩
      show app.connections[other]? = _
      rw [changed, List.getElem?_set_self inside]
    · refine conveyed.other stepped kept (fun outcome runs => ?_) fun frame frames => by cases frames
      exact absurd (App.Move.run.inj runs).1.symm differs
  | read id wire message messages connection wired' first here running app heard same =>
    subst same
    obtain ⟨target, here', conveys⟩ := conveyed.conveys id wire wired'
    obtain rfl := Option.some_inj.mp (here.symm.trans here')
    obtain ⟨frame, fits', rfl, read⟩ := conveys.read first running (fits id wire wired')
    rw [heard_sendFrame ioText id fits'] at heard
    rcases heard with ⟨none, -⟩ | ⟨move', some, stepped⟩
    · cases none
    · obtain rfl := Option.some_inj.mp some
      rcases setWire_cases wired with ⟨rfl, rfl⟩ | ⟨differs, kept⟩
      · obtain ⟨again, here', changed⟩ := frame_of_step stepped
        obtain rfl := Option.some_inj.mp (here.symm.trans here')
        obtain ⟨inside, -⟩ := List.getElem?_eq_some_iff.mp here
        refine ⟨_, ?_, read⟩
        show app.connections[other]? = _
        rw [changed, List.getElem?_set_self inside]
      · refine conveyed.other stepped kept (fun outcome runs => by cases runs) fun frame' frames => ?_
        exact differs (App.Move.frame.inj frames).1.symm

end Conveyed

/-! ### Over whole runs -/

section Runs

variable {header : Header} {ioText : IoError → String}

/-- Every frame that was sent fits. -/
def Fits (cast : Broadcast) : Prop := ∀ queued ∈ sentIn cast.server.history, queued.frame.Fits

theorem Fits.before {before after : Broadcast} {move : Move} (fits : after.Fits)
    (supplied : Supplied before) (effect : Effect header ioText before move after) : before.Fits := by
  rcases effect.server with same | ⟨move', stepped⟩
  · rwa [Fits, ← same]
  · obtain ⟨changed, -⟩ := LiveServer.effect_of_step supplied.exits stepped
    exact fun queued member => fits queued ((sentIn_isPrefix changed).subset member)

theorem Supplied.fits {cast : Broadcast} (supplied : Supplied cast) (fits : cast.Fits) (id : ℕ)
    (wire : Wire) (wired : cast.wires id = some wire) : ∀ queued ∈ wire.written, queued.frame.Fits := by
  intro queued member
  refine fits queued (supplied.accounted.delivered_sublist.subset ?_)
  exact (supplied.delivered id wire wired).subset member

theorem Reachable.holds {cast : Broadcast} (reachable : cast.Reachable header ioText) :
    Supplied cast ∧ (cast.Fits → Conveyed header cast) := by
  induction reachable with
  | refl => exact ⟨Supplied.start, fun _ => Conveyed.start⟩
  | tail _ moved ih =>
    obtain ⟨move, moved⟩ := moved
    obtain ⟨supplied, conveyed⟩ := ih
    have effect := effect_of_step moved
    refine ⟨supplied.step effect, fun fits => ?_⟩
    have earlier := fits.before supplied effect
    exact (conveyed earlier).step effect (supplied.fits earlier)

theorem PromptlyReachable.reachable {cast : Broadcast}
    (reachable : cast.PromptlyReachable header ioText) : cast.Reachable header ioText := by
  have sub : PromptStep header ioText ≤ Step header ioText := by
    rintro before after ⟨move, -, -, moved⟩
    exact ⟨move, moved⟩
  exact Relation.ReflTransGen.mono sub _ _ reachable

/-- The app is sound since every connect is orderly. -/
theorem PromptlyReachable.sound {cast : Broadcast} (reachable : cast.PromptlyReachable header ioText) :
    cast.app.Sound := by
  induction reachable with
  | refl => exact App.Sound.start
  | tail _ moved ih =>
    obtain ⟨move, orderly, -, moved⟩ := moved
    rcases (effect_of_step moved).app with same | ⟨move', stepped, orderly'⟩
    · rwa [same]
    · exact ih.step (orderly' orderly) stepped

theorem PromptlyReachable.timely {cast : Broadcast} (reachable : cast.PromptlyReachable header ioText) :
    Timely cast := by
  have both : Supplied cast ∧ Timely cast := by
    induction reachable with
    | refl => exact ⟨Supplied.start, Timely.start⟩
    | tail _ moved ih =>
      obtain ⟨move, orderly, prompt, moved⟩ := moved
      have effect := effect_of_step moved
      exact ⟨ih.1.step effect, ih.2.step ih.1 effect prompt⟩
  exact both.2

end Runs

/-- **Every frame reaches at most one connection**, whatever the moves: a connect may find files loading
and other connections open. A connection emits its hello,
the first frames that were written to its socket, in the order of their calls, and its end; what it has
not emitted yet it has still to read. -/
theorem frames_reach_one_connection (header : Header) (ioText : IoError → String) (cast : Broadcast)
    (reachable : cast.Reachable header ioText) (fits : cast.Fits) :
    (∀ id wire, cast.wires id = some wire →
      wire.written.Sublist (sentIn cast.server.history) ∧ wire.written.Nodup ∧
        ∃ connection, cast.app.connections[id]? = some connection ∧ Conveys header wire connection) ∧
      ∀ id other wire wire', id ≠ other → cast.wires id = some wire → cast.wires other = some wire' →
        wire.written.Disjoint wire'.written := by
  obtain ⟨supplied, conveyed⟩ := reachable.holds
  refine ⟨fun id wire wired => ?_, supplied.apart⟩
  have sent : wire.written.Sublist (sentIn cast.server.history) :=
    (supplied.delivered id wire wired).trans supplied.accounted.delivered_sublist
  exact ⟨sent, sent.nodup supplied.accounted.nodup, (conveyed fits).conveys id wire wired⟩

/-! ### The page -/

theorem stream_concat (url : String) (events : List (LiveEvent UInt64)) (event : LiveEvent UInt64)
    (page : Page) : page.stream url (events ++ [event]) =
      (page.stream url events).applyLiveEvent (event.map jsNumber) := by
  rw [Page.stream, List.map_append, List.foldl_append]
  rfl

/-- The end of a connection changes nothing but `isLive`. -/
theorem ended_eq (page : Page) (reason : String) (isLive : Bool) :
    { page.applyLiveEvent (.disconnected reason) with isLive } = { page with isLive } := by
  unfold Page.applyLiveEvent
  split
  all_goals rfl

/-- The frames that were sent since the hello of a connection. -/
def sentSince (cast : Broadcast) (wire : Wire) : List Frame :=
  ((sentIn cast.server.history).drop wire.since).map Queued.frame

/-- The page that shows the frames of a connection, or nothing of it yet; `before` is the page that the
connect found. -/
def ShowsFrames (header : Header) (url : String) (before page : Page) (frames : List Frame) : Prop :=
  page = { before.stream url (hello header :: frames.map frameToLiveEvent) with isLive := page.isLive } ∨
    frames = [] ∧ page = { before.connectLive url with isLive := page.isLive }

/-- The first events of a connection, as frames. -/
theorem showsFrames_of_take {header : Header} {url : String} {before page : Page} {frames : List Frame}
    {ending : List (LiveEvent UInt64)} (ends : ending = [] ∨ ∃ reason, ending = [.disconnected reason])
    {count : ℕ} (same : page =
      { before.stream url ((hello header :: frames.map frameToLiveEvent ++ ending).take count) with
        isLive := page.isLive }) :
    ShowsFrames header url before page (frames.take (count - 1)) := by
  cases count with
  | zero => exact .inr ⟨rfl, same⟩
  | succ count =>
    refine .inl ?_
    rw [List.cons_append, List.take_succ_cons] at same
    rw [Nat.add_sub_cancel]
    by_cases inside : count ≤ frames.length
    · rw [List.take_append_of_le_length (by rwa [List.length_map]), ← List.map_take] at same
      exact same
    · have whole : frames.take count = frames := List.take_of_length_le (by omega)
      rw [whole]
      rcases ends with rfl | ⟨reason, rfl⟩
      · rw [List.append_nil, ← List.map_take, whole] at same
        exact same
      · have all : (frames.map frameToLiveEvent ++ [LiveEvent.disconnected reason]).take count =
            frames.map frameToLiveEvent ++ [LiveEvent.disconnected reason] := by
          refine List.take_of_length_le ?_
          rw [List.length_append, List.length_map, List.length_singleton]
          omega
        rw [all, ← List.cons_append, stream_concat] at same
        rw [← ended_eq _ reason]
        exact same

/-- **The page of a connection, under every order of moves.** If the page's connects are orderly and the
channel is empty whenever a UI is greeted, the page shows the first of the frames that were sent since the
hello of its connection. While the connection runs and the server streams to it, the others are, in this
order, emitted, written and not read, held by the thread, and in the channel; a live page shows all that
it has heard. -/
theorem live_stream_conserved (header : Header) (ioText : IoError → String) (cast : Broadcast)
    (reachable : cast.PromptlyReachable header ioText) (fits : cast.Fits) (id : ℕ) (wire : Wire)
    (wired : cast.wires id = some wire) (shown : cast.app.shown = some id) :
    ∃ connection before frames later, cast.app.connections[id]? = some connection ∧
      cast.sentSince wire = frames ++ later ∧
      ShowsFrames header connection.url before cast.app.page frames ∧
      (connection.running = true → ∃ unheard unread,
        connection.emitted = hello header :: (frames ++ unheard).map frameToLiveEvent ∧
        wire.messages = unread.map sendFrame ∧
        (cast.app.page.isLive = true → frames.length = connection.delivered - 1) ∧
        (cast.current = some id → cast.server.thread.streams = true →
          later = unheard ++ unread ++
            (cast.server.thread.held ++ cast.server.channel).map Queued.frame)) := by
  obtain ⟨supplied, conveyed⟩ := reachable.reachable.holds
  have sound := reachable.sound
  have timely := reachable.timely
  obtain ⟨connection, found, conveys⟩ := (conveyed fits).conveys id wire wired
  obtain ⟨before, count, -, made, same, live⟩ := sound.shows id connection shown found
  obtain ⟨later, split⟩ := timely.fresh id wire wired
  cases conveys with
  | unread invoked stopped emitted | refused answered stopped emitted =>
    refine ⟨connection, before, [], cast.sentSince wire, found, rfl, .inr ⟨rfl, ?_⟩, fun running => ?_⟩
    · rw [emitted, List.take_nil] at same
      exact same
    · exact absurd (stopped.symm.trans running) Bool.false_ne_true
  | heard frames unread ending answered written messages emitted ends =>
    have events : connection.emitted =
        hello header :: (frames.map Queued.frame).map frameToLiveEvent ++ ending := by
      rw [emitted, List.map_map]
      rfl
    have sent : cast.sentSince wire =
        (frames.map Queued.frame).take (count - 1) ++
          ((frames.map Queued.frame).drop (count - 1) ++ (unread ++ later).map Queued.frame) := by
      rw [← List.append_assoc, List.take_append_drop, sentSince, ← split, written]
      simp
    refine ⟨connection, before, _, _, found, sent, ?_, fun running => ?_⟩
    · rw [events] at same
      exact showsFrames_of_take (ends.imp_right And.right) same
    · have going : ending = [] := by
        rcases ends with none | ⟨stopped, -⟩
        · exact none
        · exact absurd (stopped.symm.trans running) Bool.false_ne_true
      rw [going, List.append_nil] at events
      refine ⟨(frames.map Queued.frame).drop (count - 1), unread.map Queued.frame, ?_, ?_, ?_, ?_⟩
      · rw [events, List.take_append_drop]
      · rw [messages, List.map_map]
        rfl
      · intro isLive
        rw [events, List.length_cons, List.length_map] at made
        rw [List.length_take, ← (live isLive).1]
        omega
      · intro is streams
        have rest : later = cast.server.thread.held ++ cast.server.channel := by
          have now := timely.current id wire is wired streams
          rw [← split, List.append_assoc] at now
          exact (List.append_cancel_left now).symm
        rw [rest, List.map_append, List.append_assoc]

/-! ### A run -/

/-- One frame is written before a second is sent. -/
def tuning : List Move :=
  [.ui (.connect "ws://a"), .game (.accept true), .game (.handshake true), .greet (some 0),
    .answer 0 true, .ui (.resolve 0), .ui (.deliver 0), .game (.sendFrame (.tickHash 1 0 7)),
    .game .recv, .write, .game (.sendFrame (.tickHash 2 0 8))]

def sampleHeader : Header := .new 60 2 (Vector.replicate 16 7)

def tuned : Option Broadcast :=
  tuning.foldlM (fun cast move =>
    if Orderly cast move ∧ Prompt cast move then step sampleHeader (fun _ => "") cast move else none) {}

theorem promptlyReachable_tuned {cast : Broadcast} (ran : tuned = some cast) :
    cast.PromptlyReachable sampleHeader fun _ => "" := by
  refine Machine.reflTransGen_of_foldlM (fun before move after moved => ?_) ran
  split at moved
  · rename_i allowed
    exact ⟨move, allowed.1, allowed.2, moved⟩
  · cases moved

theorem sentIn_tuned {cast : Broadcast} (ran : tuned = some cast) :
    sentIn cast.server.history = [⟨0, .tickHash 1 0 7⟩, ⟨1, .tickHash 2 0 8⟩] := by
  have sent : tuned.map (fun cast => sentIn cast.server.history) =
      some [⟨0, .tickHash 1 0 7⟩, ⟨1, .tickHash 2 0 8⟩] := by decide
  rwa [ran, Option.map_some, Option.some_inj] at sent

theorem wires_tuned {cast : Broadcast} (ran : tuned = some cast) :
    cast.wires 0 = some ⟨[sendFrame (.tickHash 1 0 7)], 0, [⟨0, .tickHash 1 0 7⟩]⟩ := by
  have wired : tuned.map (fun cast => cast.wires 0) =
      some (some ⟨[sendFrame (.tickHash 1 0 7)], 0, [⟨0, .tickHash 1 0 7⟩]⟩) := by decide
  rwa [ran, Option.map_some, Option.some_inj] at wired

theorem fits_tuned {cast : Broadcast} (ran : tuned = some cast) : cast.Fits := by
  rw [Fits, sentIn_tuned ran]
  decide

/-- The page connects again while the first connection is open; the socket of the first is lost with the
second frame, and the third is written to the second connection. -/
def switching : List Move :=
  tuning ++ [.ui (.connect "ws://a"), .game .disconnect, .game .recv, .write,
    .game (.sendFrame (.tickHash 3 0 9)), .game (.accept true), .game (.handshake true),
    .greet (some 1), .game .recv, .write]

def switched : Option Broadcast := switching.foldlM (step sampleHeader fun _ => "") {}

/-- Both connections are open, and each has still to read what was written to it. -/
theorem frames_reach_one_connection_switched :
    ∃ (cast : Broadcast) (first second : App.Connection), switched = some cast ∧
      cast.app.connections[0]? = some first ∧ cast.app.connections[1]? = some second ∧
      first.running = true ∧ second.command = .invoked ∧
      Conveys sampleHeader ⟨[sendFrame (.tickHash 1 0 7)], 0, [⟨0, .tickHash 1 0 7⟩]⟩ first ∧
      Conveys sampleHeader
        ⟨[sendHello sampleHeader, sendFrame (.tickHash 3 0 9)], 3, [⟨2, .tickHash 3 0 9⟩]⟩ second := by
  have possible : switched.isSome := by decide
  have sent : switched.map (fun cast => sentIn cast.server.history) =
      some [⟨0, .tickHash 1 0 7⟩, ⟨1, .tickHash 2 0 8⟩, ⟨2, .tickHash 3 0 9⟩] := by decide
  have wired : switched.map (fun cast => (cast.wires 0, cast.wires 1)) =
      some (some ⟨[sendFrame (.tickHash 1 0 7)], 0, [⟨0, .tickHash 1 0 7⟩]⟩,
        some ⟨[sendHello sampleHeader, sendFrame (.tickHash 3 0 9)], 3, [⟨2, .tickHash 3 0 9⟩]⟩) := by
    decide
  have runs : switched.bind (fun cast => cast.app.connections[0]?.map App.Connection.running) =
      some true := by decide
  have dials : switched.bind (fun cast => cast.app.connections[1]?.map App.Connection.command) =
      some .invoked := by decide
  obtain ⟨cast, ran⟩ := Option.isSome_iff_exists.mp possible
  have reachable : cast.Reachable sampleHeader fun _ => "" :=
    Machine.reflTransGen_of_foldlM (fun before move after moved => ⟨move, moved⟩) ran
  rw [ran, Option.map_some, Option.some_inj] at sent wired
  obtain ⟨wired, wired'⟩ := Prod.mk.injEq .. |>.mp wired
  rw [ran] at runs dials
  obtain ⟨first, found, running⟩ := Option.map_eq_some_iff.mp runs
  obtain ⟨second, found', invoked⟩ := Option.map_eq_some_iff.mp dials
  have fits : cast.Fits := by
    rw [Fits, sent]
    decide
  obtain ⟨each, -⟩ :=
    frames_reach_one_connection sampleHeader (fun _ => "") cast reachable fits
  obtain ⟨-, -, _, is, conveys⟩ := each 0 _ wired
  obtain ⟨-, -, _, is', conveys'⟩ := each 1 _ wired'
  rw [found, Option.some_inj] at is
  rw [found', Option.some_inj] at is'
  subst is is'
  exact ⟨cast, first, second, ran, found, found', running, invoked, conveys, conveys'⟩

/-- A message that is a frame can be read. -/
theorem step_read {header : Header} {ioText : IoError → String} {cast : Broadcast} {id since : ℕ}
    {frame : Frame} {messages : List Message} {written : List Queued} {connection : App.Connection}
    {app : App} (wired : cast.wires id = some ⟨sendFrame frame :: messages, since, written⟩)
    (found : cast.app.connections[id]? = some connection) (running : connection.running = true)
    (fits : frame.Fits) (framed : cast.app.step (.frame id frame) = some app) :
    step header ioText cast (.read id) =
      some { cast.setWire id ⟨messages, since, written⟩ with app } := by
  rw [step, wired, found]
  simp only [running, heard_sendFrame ioText id fits, setWire_app, framed]
  rfl

/-- The first frame is shown, the second is in the channel. -/
theorem live_stream_conserved_tuned :
    ∃ (cast : Broadcast) (connection : App.Connection) (before : Page),
    cast.PromptlyReachable sampleHeader (fun _ => "") ∧ cast.app.connections[0]? = some connection ∧
      ShowsFrames sampleHeader connection.url before cast.app.page [.tickHash 1 0 7] ∧
      (sentIn cast.server.history).map Queued.frame = [.tickHash 1 0 7, .tickHash 2 0 8] := by
  have connected : tuned.bind (fun cast => cast.app.connections[0]?.map App.Connection.running) =
      some true := by decide
  -- The message is read and its event is heard.
  have hears : (tuned.bind fun cast => (cast.app.step (.frame 0 (.tickHash 1 0 7))).bind
      (·.step (.deliver 0))).map (fun app => (app.shown, app.page.isLive,
        app.connections[0]?.map fun connection => (connection.running, connection.delivered))) =
      some (some 0, true, some (true, 2)) := by decide
  obtain ⟨heard, ran, now⟩ := Option.map_eq_some_iff.mp hears
  obtain ⟨first, ran, rest⟩ := Option.bind_eq_some_iff.mp ran
  obtain ⟨emitted, framed, delivered⟩ := Option.bind_eq_some_iff.mp rest
  have wired := wires_tuned ran
  have sent := sentIn_tuned ran
  rw [ran] at connected
  obtain ⟨earlier, found, running⟩ := Option.map_eq_some_iff.mp connected
  simp only [Prod.mk.injEq] at now
  obtain ⟨shown, isLive, last⟩ := now
  obtain ⟨connection, found', last⟩ := Option.map_eq_some_iff.mp last
  rw [Prod.mk.injEq] at last
  let second : Broadcast := { first.setWire 0 ⟨[], 0, [⟨0, .tickHash 1 0 7⟩]⟩ with app := emitted }
  let third : Broadcast := { second with app := heard }
  have reading : PromptStep sampleHeader (fun _ => "") first second :=
    ⟨.read 0, trivial, trivial, step_read wired found running (by decide) framed⟩
  have hearing : PromptStep sampleHeader (fun _ => "") second third := by
    have allowed : second.foreign (.deliver 0) = true := rfl
    refine ⟨.ui (.deliver 0), trivial, trivial, ?_⟩
    rw [step, if_pos allowed]
    show (emitted.step (.deliver 0)).map _ = _
    rw [delivered]
    rfl
  have reachable : third.PromptlyReachable sampleHeader fun _ => "" :=
    .tail (.tail (promptlyReachable_tuned ran) reading) hearing
  have fit : first.Fits := fits_tuned ran
  have fits : third.Fits := fit
  have kept : third.wires 0 = some ⟨[], 0, [⟨0, .tickHash 1 0 7⟩]⟩ := by
    show (first.setWire 0 _).wires 0 = _
    exact setWire_self
  obtain ⟨connection', before, frames, later, found'', split, shows, conserved⟩ :=
    live_stream_conserved sampleHeader (fun _ => "") third reachable fits 0 _ kept shown
  obtain rfl := Option.some_inj.mp (found'.symm.trans found'')
  obtain ⟨unheard, unread, -, -, all, -⟩ := conserved last.1
  have one : frames.length = 1 := by rw [all isLive, last.2]
  have two : [Frame.tickHash 1 0 7, .tickHash 2 0 8] = frames ++ later := by
    rw [← split]
    show _ = ((sentIn first.server.history).drop 0).map Queued.frame
    rw [sent]
    rfl
  obtain ⟨frame, rfl⟩ := List.length_eq_one_iff.mp one
  obtain ⟨rfl, -⟩ := List.cons_eq_cons.mp two
  refine ⟨third, connection, before, reachable, found', shows, ?_⟩
  show (sentIn first.server.history).map Queued.frame = _
  rw [sent]
  rfl

end Broadcast

end Foldback
