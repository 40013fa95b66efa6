/-
**A game that broadcasts to the UI: the server, the sockets and the app.**

* `Broadcast`: the server with its thread, the app, and a `Wire` for every connection of the UI that
  the server has greeted: the messages that were written to its socket and not yet read.
* `Move`: the game and the thread, the two socket sends, the page and the connections to other servers,
  `connect_live` reading its hello, `stream_frames` reading a message; they interleave in any order.
* `Effect`: what one move changes.
* `Supplied`: **what the wires carry is what the server delivers**, each frame to one of them.
* `Timely`: if every UI is greeted on an empty channel, **a wire carries what was sent since its
  hello**.
-/

import Foldback.Core.LiveServer
import Foldback.Core.Reader
import Foldback.Ui.Connections

namespace Foldback

open LiveServer (Streaming Queued Thread Event sentIn deliveredIn connected)

/-! ### The messages -/

namespace Broadcast

/-- What `send_hello` sends. `connect_live` reads the last three fields. -/
structure Hello where
  kind : String
  protocolVersion : UInt16
  tickRateHz : UInt32
  peerCount : UInt32
  buildId : String
  deriving DecidableEq, Repr

inductive Message
  | text (hello : Hello)
  | binary (bytes : Bytes)
  deriving DecidableEq, Repr

/-- The fields of `header` are what `bind` was given. -/
def sendHello (header : Header) : Message :=
  .text {
    kind := "hello"
    protocolVersion := currentVersion
    tickRateHz := header.tickRateHz
    peerCount := header.peerCount
    buildId := hexBytes header.buildId.toList }

/-- A frame is one message, with the bytes that `write_to` appends to an empty buffer. -/
def sendFrame (frame : Frame) : Message := .binary frame.encode

/-- What `stream_frames` does with a message: nothing, emit an event, or report an error and return. -/
def Message.heard (ioText : IoError → String) (id : ℕ) : Message → Option App.Move
  | .text _ => none
  | .binary bytes =>
    match FrameReader.nextFrameUnbounded bytes with
    | .ok (some frame) _ => some (.frame id frame)
    | .ok none _ => none
    | .error error _ => some (.hangUp id ("malformed frame: " ++ error.display ioText))

/-- The socket of a connection that was greeted: what is not yet read, the number of frames that were
sent before its hello, and the frames that were written to it. -/
structure Wire where
  messages : List Message
  since : ℕ
  written : List Queued := []
  deriving DecidableEq, Repr

def Wire.write (wire : Wire) (queued : Queued) : Wire :=
  { wire with
    messages := wire.messages ++ [sendFrame queued.frame]
    written := wire.written ++ [queued] }

end Broadcast

/-! ### The game, the sockets and the UI -/

/-- `current` is the connection that was greeted last, unless another program was. -/
structure Broadcast where
  server : Streaming := LiveServer.start
  app : App := {}
  wires : ℕ → Option Broadcast.Wire := fun _ => none
  current : Option ℕ := none

namespace Broadcast

/-- What can happen next. -/
inductive Move
  | game (move : LiveServer.Move)
  | greet (client : Option ℕ)
  | write
  | ui (move : App.Move)
  | answer (id : ℕ) (held : Bool)
  | read (id : ℕ)

/-- The connection is in `tungstenite::connect`, or past it and in the backlog of the listener. -/
def Dials (cast : Broadcast) (id : ℕ) : Prop :=
  (cast.app.connections[id]?.map App.Connection.command) = some .invoked ∧
    (cast.wires id).isNone = true

instance (cast : Broadcast) (id : ℕ) : Decidable (cast.Dials id) := inferInstanceAs (Decidable (_ ∧ _))

/-- What a connection to this server reads comes from its wire; it may fail at any time. -/
def foreign (cast : Broadcast) : App.Move → Bool
  | .run id (.unheld ..) => (cast.wires id).isNone
  | .run id (.connected ..) => (cast.wires id).isNone
  | .frame id _ => (cast.wires id).isNone
  | _ => true

def setWire (cast : Broadcast) (id : ℕ) (wire : Wire) : Broadcast :=
  { cast with wires := Function.update cast.wires id (some wire) }

/-- The frame is written to the connection that was greeted last. -/
def put (cast : Broadcast) (queued : Queued) : Broadcast :=
  match cast.current with
  | some id =>
    match cast.wires id with
    | some wire => cast.setWire id (wire.write queued)
    | none => cast
  | none => cast

/-- What `connect_live` has done when it has read its hello; `held` says that the socket was cloned. -/
def outcome (hello : Hello) (held : Bool) : App.Outcome :=
  if held then .connected hello.tickRateHz hello.peerCount hello.buildId
  else .unheld hello.tickRateHz hello.peerCount hello.buildId

section Step

variable (header : Header) (ioText : IoError → String)

/-- One move, if it can happen. -/
def step (cast : Broadcast) : Move → Option Broadcast
  | .game move =>
    if move = .hello true ∨ move = .write then none
    else (LiveServer.step cast.server move).map fun server => { cast with server }
  | .greet none =>
    (LiveServer.step cast.server (.hello true)).map fun server => { cast with server, current := none }
  | .greet (some id) =>
    if cast.Dials id then
      (LiveServer.step cast.server (.hello true)).map fun server =>
        let wire : Wire :=
          { messages := [sendHello header], since := (sentIn cast.server.history).length }
        { cast.setWire id wire with server, current := some id }
    else none
  | .write =>
    (LiveServer.step cast.server .write).map fun server =>
      match cast.server.thread with
      | .writing queued =>
        if connected cast.server.history then { cast.put queued with server }
        else { cast with server }
      | _ => { cast with server }
  | .ui move =>
    if cast.foreign move then (cast.app.step move).map fun app => { cast with app } else none
  | .answer id held =>
    match cast.wires id with
    | some wire =>
      match wire.messages with
      | .text hello :: messages =>
        (cast.app.step (.run id (outcome hello held))).map fun app =>
          { cast.setWire id { wire with messages } with app }
      | _ => none
    | none => none
  | .read id =>
    match cast.wires id, cast.app.connections[id]? with
    | some wire, some connection =>
      match wire.messages, connection.running with
      | message :: messages, true =>
        let cast := cast.setWire id { wire with messages }
        match message.heard ioText id with
        | some move => (cast.app.step move).map fun app => { cast with app }
        | none => some cast
      | _, _ => none
    | _, _ => none

/-- The page's connects are orderly. -/
def Orderly (cast : Broadcast) : Move → Prop
  | .ui move => App.Orderly cast.app move
  | _ => True

instance (cast : Broadcast) (move : Move) : Decidable (Orderly cast move) := by
  unfold Orderly
  cases move
  all_goals exact inferInstance

/-- A UI is greeted only if the channel is empty. -/
def Prompt (cast : Broadcast) : Move → Prop
  | .greet _ => cast.server.channel = []
  | _ => True

instance (cast : Broadcast) (move : Move) : Decidable (Prompt cast move) := by
  unfold Prompt
  cases move
  all_goals exact inferInstance

/-- Any move, whatever connections are open. -/
def Step (before after : Broadcast) : Prop := ∃ move, step header ioText before move = some after

def PromptStep (before after : Broadcast) : Prop :=
  ∃ move, Orderly before move ∧ Prompt before move ∧ step header ioText before move = some after

def Reachable (cast : Broadcast) : Prop := Relation.ReflTransGen (Step header ioText) {} cast

def PromptlyReachable (cast : Broadcast) : Prop :=
  Relation.ReflTransGen (PromptStep header ioText) {} cast

end Step

/-! ### What one move changes -/

section Wires

variable {cast : Broadcast} {id other : ℕ} {wire found : Wire} {queued : Queued}

@[simp] theorem setWire_app : (cast.setWire id wire).app = cast.app := rfl

theorem setWire_self : (cast.setWire id wire).wires id = some wire := Function.update_self id _ _

theorem setWire_of_ne (differs : other ≠ id) : (cast.setWire id wire).wires other = cast.wires other :=
  Function.update_of_ne differs _ _

theorem setWire_cases (at' : (cast.setWire id wire).wires other = some found) :
    other = id ∧ found = wire ∨ other ≠ id ∧ cast.wires other = some found := by
  by_cases same : other = id
  · subst same
    rw [setWire_self, Option.some_inj] at at'
    exact .inl ⟨rfl, at'.symm⟩
  · rw [setWire_of_ne same] at at'
    exact .inr ⟨same, at'⟩

variable (cast) (queued) in
/-- A frame that is written changes the wires only. -/
theorem put_eq : ∃ wires, cast.put queued = { cast with wires } := by
  unfold put
  split
  · split
    · exact ⟨_, rfl⟩
    · exact ⟨_, rfl⟩
  · exact ⟨_, rfl⟩

@[simp] theorem put_app : (cast.put queued).app = cast.app := by
  obtain ⟨wires, same⟩ := put_eq cast queued
  rw [same]

@[simp] theorem put_current : (cast.put queued).current = cast.current := by
  obtain ⟨wires, same⟩ := put_eq cast queued
  rw [same]

theorem put_cases (at' : (cast.put queued).wires id = some found) :
    (cast.current = some id ∧ ∃ wire, cast.wires id = some wire ∧ found = wire.write queued) ∨
      cast.current ≠ some id ∧ cast.wires id = some found := by
  unfold put at at'
  split at at'
  · rename_i current greeted
    split at at'
    · rename_i wire wired
      rcases setWire_cases at' with ⟨rfl, rfl⟩ | ⟨differs, kept⟩
      · exact .inl ⟨greeted, wire, wired, rfl⟩
      · refine .inr ⟨fun same => differs ?_, kept⟩
        exact Option.some_inj.mp (same.symm.trans greeted)
    · rename_i none
      refine .inr ⟨fun same => ?_, at'⟩
      rw [greeted, Option.some_inj] at same
      rw [same, at'] at none
      cases none
  · rename_i nobody
    refine .inr ⟨fun same => ?_, at'⟩
    rw [nobody] at same
    cases same

end Wires

/-- **What one move changes.** -/
inductive Effect (header : Header) (ioText : IoError → String) (before : Broadcast) (move : Move)
    (after : Broadcast) : Prop
  | game (server : Streaming) (move' : LiveServer.Move) (greets : move' ≠ .hello true)
      (writes : move' ≠ .write) (stepped : LiveServer.step before.server move' = some server)
      (same : after = { before with server })
  | stranger (server : Streaming) (is : move = .greet none)
      (stepped : LiveServer.step before.server (.hello true) = some server)
      (same : after = { before with server, current := none })
  | greet (id : ℕ) (server : Streaming) (is : move = .greet (some id)) (dials : before.Dials id)
      (stepped : LiveServer.step before.server (.hello true) = some server)
      (same : after =
        { before.setWire id ⟨[sendHello header], (sentIn before.server.history).length, []⟩ with
          server, current := some id })
  | write (queued : Queued) (server : Streaming) (held : before.server.thread = .writing queued)
      (stepped : LiveServer.step before.server .write = some server)
      (thread : server.thread = .receiving) (channel : server.channel = before.server.channel)
      (history : server.history = before.server.history ++ [.delivered queued])
      (same : after = { before.put queued with server })
  | lose (queued : Queued) (server : Streaming)
      (stepped : LiveServer.step before.server .write = some server)
      (thread : server.thread = .accepting)
      (history : server.history = before.server.history ++ [.lost queued])
      (same : after = { before with server })
  | ui (move' : App.Move) (app : App) (is : move = .ui move') (foreign : before.foreign move' = true)
      (stepped : before.app.step move' = some app) (same : after = { before with app })
  | answer (id : ℕ) (wire : Wire) (hello : Hello) (messages : List Message) (held : Bool) (app : App)
      (wired : before.wires id = some wire) (first : wire.messages = .text hello :: messages)
      (stepped : before.app.step (.run id (outcome hello held)) = some app)
      (same : after = { before.setWire id { wire with messages } with app })
  | read (id : ℕ) (wire : Wire) (message : Message) (messages : List Message)
      (connection : App.Connection) (wired : before.wires id = some wire)
      (first : wire.messages = message :: messages)
      (found : before.app.connections[id]? = some connection) (running : connection.running = true)
      (app : App) (heard : message.heard ioText id = none ∧ app = before.app ∨
        ∃ move, message.heard ioText id = some move ∧ before.app.step move = some app)
      (same : after = { before.setWire id { wire with messages } with app })

/-- A socket send delivers the frame, or loses it. -/
theorem write_cases {before after : Streaming} (moved : LiveServer.step before .write = some after) :
    (∃ queued, before.thread = .writing queued ∧ connected before.history = true ∧
      after = { before with
        thread := .receiving
        history := before.history ++ [.delivered queued] }) ∨
    ∃ queued, before.thread = .writing queued ∧ ¬ connected before.history = true ∧
      after = { before with
        thread := .accepting
        history := before.history ++ [.lost queued] } := by
  rw [LiveServer.step] at moved
  split at moved
  · rename_i queued held
    split at moved
    · rename_i live
      cases moved
      exact .inl ⟨queued, held, live, rfl⟩
    · rename_i dead
      cases moved
      exact .inr ⟨queued, held, dead, rfl⟩
  · cases moved

section Effect

variable {header : Header} {ioText : IoError → String} {before after : Broadcast} {move : Move}

theorem effect_of_step (moved : step header ioText before move = some after) :
    Effect header ioText before move after := by
  cases move with
  | game move =>
    rw [step] at moved
    split at moved
    · cases moved
    · rename_i allowed
      obtain ⟨server, stepped, rfl⟩ := Option.map_eq_some_iff.mp moved
      exact .game server move (fun is => allowed (.inl is)) (fun is => allowed (.inr is)) stepped rfl
  | greet client =>
    cases client with
    | none =>
      rw [step] at moved
      obtain ⟨server, stepped, rfl⟩ := Option.map_eq_some_iff.mp moved
      exact .stranger server rfl stepped rfl
    | some id =>
      rw [step] at moved
      split at moved
      · rename_i dials
        obtain ⟨server, stepped, rfl⟩ := Option.map_eq_some_iff.mp moved
        exact .greet id server rfl dials stepped rfl
      · cases moved
  | write =>
    rw [step] at moved
    obtain ⟨server, stepped, rfl⟩ := Option.map_eq_some_iff.mp moved
    rcases write_cases stepped with ⟨queued, held, live, rfl⟩ | ⟨queued, held, dead, rfl⟩
    · refine .write queued _ held stepped rfl rfl rfl ?_
      simp only [held, if_pos live]
    · refine .lose queued _ stepped rfl rfl ?_
      simp only [held, if_neg dead]
  | ui move =>
    rw [step] at moved
    split at moved
    · rename_i foreign
      obtain ⟨app, stepped, rfl⟩ := Option.map_eq_some_iff.mp moved
      exact .ui move app rfl foreign stepped rfl
    · cases moved
  | answer id held =>
    rw [step] at moved
    split at moved
    · rename_i wire wired
      split at moved
      · rename_i hello messages first
        obtain ⟨app, stepped, rfl⟩ := Option.map_eq_some_iff.mp moved
        exact .answer id wire hello messages held app wired first stepped rfl
      · cases moved
    · cases moved
  | read id =>
    rw [step] at moved
    split at moved
    · rename_i wire connection wired found
      split at moved
      · rename_i message messages first running
        dsimp only at moved
        split at moved
        · rename_i heard
          obtain ⟨app, stepped, rfl⟩ := Option.map_eq_some_iff.mp moved
          exact .read id wire message messages connection wired first found running app
            (.inr ⟨_, heard, stepped⟩) rfl
        · rename_i skipped
          cases moved
          exact .read id wire message messages connection wired first found running before.app
            (.inl ⟨skipped, rfl⟩) rfl
      · cases moved
    · cases moved

/-- The server takes a step of its own or stays. -/
theorem Effect.server (effect : Effect header ioText before move after) :
    after.server = before.server ∨ LiveServer.Step before.server after.server := by
  cases effect with
  | game server move' greets writes stepped same =>
    subst same
    exact .inr ⟨move', stepped⟩
  | stranger server is stepped same =>
    subst same
    exact .inr ⟨_, stepped⟩
  | greet id server is dials stepped same =>
    subst same
    exact .inr ⟨_, stepped⟩
  | write queued server held stepped thread channel history same =>
    subst same
    exact .inr ⟨_, stepped⟩
  | lose queued server stepped thread history same =>
    subst same
    exact .inr ⟨_, stepped⟩
  | ui | answer | read =>
    rename_i same
    subst same
    exact .inl rfl

/-- The app takes a step of its own, which is orderly if the move is, or stays. -/
theorem Effect.app (effect : Effect header ioText before move after) :
    after.app = before.app ∨ ∃ move', before.app.step move' = some after.app ∧
      (Orderly before move → App.Orderly before.app move') := by
  cases effect with
  | game | stranger | lose =>
    rename_i same
    subst same
    exact .inl rfl
  | greet id server is dials stepped same =>
    subst same
    exact .inl rfl
  | write queued server held stepped thread channel history same =>
    subst same
    exact .inl put_app
  | ui move' app is foreign stepped same =>
    subst is same
    exact .inr ⟨move', stepped, id⟩
  | answer id wire hello messages held app wired first stepped same =>
    subst same
    exact .inr ⟨.run id (outcome hello held), stepped, fun _ => trivial⟩
  | read id wire message messages connection wired first found running app heard same =>
    subst same
    rcases heard with ⟨-, kept⟩ | ⟨move', heard, stepped⟩
    · exact .inl kept
    · refine .inr ⟨move', stepped, fun _ => ?_⟩
      cases message with
      | text hello => cases heard
      | binary bytes =>
        rw [Message.heard] at heard
        split at heard
        all_goals cases heard
        all_goals trivial

end Effect

/-! ### The server and the wires -/

/-- Only a socket send delivers. -/
theorem deliveredIn_of_step {before after : Streaming} {move : LiveServer.Move} (writes : move ≠ .write)
    (moved : LiveServer.step before move = some after) :
    deliveredIn after.history = deliveredIn before.history := by
  cases move with
  | write => exact absurd rfl writes
  | _ =>
    simp only [LiveServer.step] at moved
    repeat' split at moved
    all_goals cases moved
    all_goals simp [deliveredIn]

/-- A greeting. -/
theorem eq_of_hello {before after : Streaming}
    (moved : LiveServer.step before (.hello true) = some after) :
    after = { before with thread := .receiving, history := before.history ++ [.hello] } := by
  rw [LiveServer.step] at moved
  split at moved
  · cases moved
    rfl
  · cases moved

/-- What was sent stays sent. -/
theorem sentIn_isPrefix {before after : Streaming} {move : LiveServer.Move}
    (effect : LiveServer.Effect before after move) :
    sentIn before.history <+: sentIn after.history := by
  rcases effect.history with same | ⟨event, grown, -⟩
  · rw [same]
  · rw [grown, LiveServer.sentIn_append]
    exact List.prefix_append _ _

/-- Every wire was there before, with the same frames written. -/
def Kept (before after : Broadcast) : Prop :=
  ∀ id wire, after.wires id = some wire → ∃ earlier, before.wires id = some earlier ∧
    wire.written = earlier.written ∧ wire.since = earlier.since

theorem Kept.of_eq {before after : Broadcast} (same : after.wires = before.wires) :
    Kept before after := by
  intro id wire wired
  rw [same] at wired
  exact ⟨wire, wired, rfl, rfl⟩

/-- A message is read. -/
theorem Kept.setWire {cast : Broadcast} {id : ℕ} {wire : Wire} (wired : cast.wires id = some wire)
    (messages : List Message) : Kept cast (cast.setWire id { wire with messages }) := by
  intro other found at'
  rcases setWire_cases at' with ⟨rfl, rfl⟩ | ⟨-, kept⟩
  · exact ⟨wire, wired, rfl, rfl⟩
  · exact ⟨found, kept, rfl, rfl⟩

/-- **What the wires carry is what the server delivers**, each frame to one of them. -/
structure Supplied (cast : Broadcast) : Prop where
  accounted : LiveServer.Accounted cast.server
  exits : LiveServer.Exits cast.server
  delivered : ∀ id wire, cast.wires id = some wire →
    wire.written.Sublist (deliveredIn cast.server.history)
  apart : ∀ id other wire wire', id ≠ other → cast.wires id = some wire →
    cast.wires other = some wire' → wire.written.Disjoint wire'.written

section Supplied

variable {header : Header} {ioText : IoError → String} {before after : Broadcast} {move : Move}

theorem Supplied.start : Supplied {} where
  accounted := LiveServer.Accounted.start
  exits := fun gone => by cases gone
  delivered := fun id wire wired => by cases wired
  apart := fun id other wire wire' differs wired => by cases wired

theorem Supplied.kept (supplied : Supplied before) (kept : Kept before after)
    (accounted : LiveServer.Accounted after.server) (exits : LiveServer.Exits after.server)
    (more : (deliveredIn before.server.history).Sublist (deliveredIn after.server.history)) :
    Supplied after := by
  refine ⟨accounted, exits, fun id wire wired => ?_, fun id other wire wire' differs wired wired' => ?_⟩
  · obtain ⟨earlier, found, written, -⟩ := kept id wire wired
    rw [written]
    exact (supplied.delivered id earlier found).trans more
  · obtain ⟨earlier, found, written, -⟩ := kept id wire wired
    obtain ⟨earlier', found', written', -⟩ := kept other wire' wired'
    rw [written, written']
    exact supplied.apart id other earlier earlier' differs found found'

/-- A frame is written that no wire has carried. -/
theorem Supplied.put (supplied : Supplied before) {queued : Queued} {server : Streaming}
    (accounted : LiveServer.Accounted server) (exits : LiveServer.Exits server)
    (history : server.history = before.server.history ++ [.delivered queued]) :
    Supplied { before.put queued with server } := by
  have grown : deliveredIn server.history = deliveredIn before.server.history ++ [queued] := by
    rw [history, LiveServer.deliveredIn_append]
    rfl
  have nodup : (deliveredIn server.history).Nodup := accounted.delivered_sublist.nodup accounted.nodup
  have fresh : ∀ id wire, before.wires id = some wire → queued ∉ wire.written := by
    intro id wire wired member
    rw [grown] at nodup
    have earlier := (supplied.delivered id wire wired).subset member
    exact (List.nodup_append'.mp nodup).2.2 earlier (List.mem_singleton_self queued)
  refine ⟨accounted, exits, fun id wire wired => ?_, fun id other wire wire' differs wired wired' => ?_⟩
  · show wire.written.Sublist (deliveredIn server.history)
    rw [grown]
    rcases put_cases wired with ⟨-, earlier, found, rfl⟩ | ⟨-, found⟩
    · exact (supplied.delivered id earlier found).append (List.Sublist.refl _)
    · exact (supplied.delivered id wire found).trans (List.sublist_append_left _ _)
  · rcases put_cases wired with ⟨here, earlier, found, rfl⟩ | ⟨-, found⟩
    · rcases put_cases wired' with ⟨here', -⟩ | ⟨-, found'⟩
      · exact absurd (Option.some_inj.mp (here.symm.trans here')) differs
      · refine List.disjoint_append_left.mpr ⟨?_, ?_⟩
        · exact supplied.apart id other earlier wire' differs found found'
        · exact List.singleton_disjoint.mpr (fresh other wire' found')
    · rcases put_cases wired' with ⟨-, earlier', found', rfl⟩ | ⟨-, found'⟩
      · refine List.disjoint_append_right.mpr ⟨?_, ?_⟩
        · exact supplied.apart id other wire earlier' differs found found'
        · exact List.disjoint_singleton.mpr (fresh id wire found)
      · exact supplied.apart id other wire wire' differs found found'

theorem Supplied.step (supplied : Supplied before) (effect : Effect header ioText before move after) :
    Supplied after := by
  have served : LiveServer.Accounted after.server ∧ LiveServer.Exits after.server := by
    rcases effect.server with same | ⟨move', stepped⟩
    · rw [same]
      exact ⟨supplied.accounted, supplied.exits⟩
    · obtain ⟨changed, exits⟩ := LiveServer.effect_of_step supplied.exits stepped
      exact ⟨supplied.accounted.step changed, exits⟩
  cases effect with
  | game server move' greets writes stepped same =>
    subst same
    refine supplied.kept (Kept.of_eq rfl) served.1 served.2 ?_
    rw [← deliveredIn_of_step writes stepped]
  | stranger server is stepped same =>
    subst same
    refine supplied.kept (Kept.of_eq rfl) served.1 served.2 ?_
    rw [← deliveredIn_of_step (by simp) stepped]
  | greet id server is dials stepped same =>
    subst same
    have more : deliveredIn server.history = deliveredIn before.server.history :=
      deliveredIn_of_step (by simp) stepped
    refine ⟨served.1, served.2, fun other wire wired => ?_,
      fun one other wire wire' differs wired wired' => ?_⟩
    · show wire.written.Sublist (deliveredIn server.history)
      rw [more]
      rcases setWire_cases wired with ⟨-, rfl⟩ | ⟨-, found⟩
      · exact List.nil_sublist _
      · exact supplied.delivered other wire found
    · rcases setWire_cases wired with ⟨-, rfl⟩ | ⟨-, found⟩
      · exact List.disjoint_nil_left _
      · rcases setWire_cases wired' with ⟨-, rfl⟩ | ⟨-, found'⟩
        · exact List.disjoint_nil_right _
        · exact supplied.apart one other wire wire' differs found found'
  | write queued server held stepped thread channel history same =>
    subst same
    exact supplied.put served.1 served.2 history
  | lose queued server stepped thread history same =>
    subst same
    refine supplied.kept (Kept.of_eq rfl) served.1 served.2 ?_
    show (deliveredIn before.server.history).Sublist (deliveredIn server.history)
    rw [history, LiveServer.deliveredIn_append]
    exact List.sublist_append_left _ _
  | ui move' app is foreign stepped same =>
    subst same
    exact supplied.kept (Kept.of_eq rfl) served.1 served.2 (List.Sublist.refl _)
  | answer id wire hello messages held app wired first stepped same =>
    subst same
    exact supplied.kept (Kept.setWire wired messages) served.1 served.2 (List.Sublist.refl _)
  | read id wire message messages connection wired first found running app heard same =>
    subst same
    exact supplied.kept (Kept.setWire wired messages) served.1 served.2 (List.Sublist.refl _)

end Supplied

/-- **If every greeting is prompt, a wire carries what was sent since its hello**; while the server
streams to it, what it does not carry yet is held by the thread or in the channel. -/
structure Timely (cast : Broadcast) : Prop where
  early : ∀ id wire, cast.wires id = some wire → wire.since ≤ (sentIn cast.server.history).length
  fresh : ∀ id wire, cast.wires id = some wire →
    wire.written <+: (sentIn cast.server.history).drop wire.since
  current : ∀ id wire, cast.current = some id → cast.wires id = some wire →
    cast.server.thread.streams = true →
    wire.written ++ cast.server.thread.held ++ cast.server.channel =
      (sentIn cast.server.history).drop wire.since

section Timely

variable {header : Header} {ioText : IoError → String} {before after : Broadcast} {move : Move}

theorem Timely.start : Timely {} where
  early := fun id wire wired => by cases wired
  fresh := fun id wire wired => by cases wired
  current := fun id wire is => by cases is

/-- The game and the thread go on, without a greeting or a socket send. -/
theorem Timely.kept (timely : Timely before) (kept : Kept before after)
    (sent : sentIn before.server.history <+: sentIn after.server.history)
    (current : ∀ id wire, after.current = some id → before.wires id = some wire →
      after.server.thread.streams = true →
      wire.written ++ after.server.thread.held ++ after.server.channel =
        (sentIn after.server.history).drop wire.since) : Timely after := by
  refine ⟨fun id wire wired => ?_, fun id wire wired => ?_, fun id wire is wired streams => ?_⟩
  all_goals obtain ⟨earlier, found, written, since⟩ := kept id wire wired
  · rw [since]
    exact (timely.early id earlier found).trans sent.length_le
  · rw [written, since]
    exact (timely.fresh id earlier found).trans (sent.drop _)
  · rw [written, since]
    exact current id earlier is found streams

theorem Timely.game (timely : Timely before) {server : Streaming} {move' : LiveServer.Move}
    (effect : LiveServer.Effect before.server server move') (greets : move' ≠ .hello true)
    (delivered : deliveredIn server.history = deliveredIn before.server.history) :
    Timely { before with server } := by
  refine timely.kept (Kept.of_eq rfl) (sentIn_isPrefix effect) fun id wire is wired streams => ?_
  have now := timely.current id wire is wired
  show wire.written ++ server.thread.held ++ server.channel = (sentIn server.history).drop wire.since
  change server.thread.streams = true at streams
  cases effect with
  | send queued number thread channel history =>
    rw [thread] at streams
    rw [thread, channel, history, LiveServer.sentIn_append,
      List.drop_append_of_le_length (timely.early id wire wired), ← now streams]
    exact (List.append_assoc _ _ _).symm
  | quiet held streams' channel history => rw [held, channel, history, now (streams' streams)]
  | greet is => exact absurd is greets
  | take queued streams' held thread channel history =>
    rw [thread, history, ← now streams', held, channel]
    simp [Thread.held]
  | deliver queued live held thread channel history =>
    rw [history, LiveServer.deliveredIn_append] at delivered
    exact absurd delivered (by simp [deliveredIn])
  | lose queued held thread channel history =>
    rw [thread] at streams
    cases streams
  | leave thread channel history =>
    rw [thread] at streams
    rw [thread, channel, history, LiveServer.sentIn_append, now streams]
    simp [sentIn]

theorem Timely.put (timely : Timely before) {queued : Queued} {server : Streaming}
    (held : before.server.thread = .writing queued) (thread : server.thread = .receiving)
    (channel : server.channel = before.server.channel)
    (history : server.history = before.server.history ++ [.delivered queued]) :
    Timely { before.put queued with server } := by
  have sent : sentIn server.history = sentIn before.server.history := by
    rw [history, LiveServer.sentIn_append]
    exact List.append_nil _
  have streams : before.server.thread.streams = true := by rw [held]; rfl
  -- The frame that is written is the next one of the connection.
  have next : ∀ id wire, before.current = some id → before.wires id = some wire →
      wire.written ++ [queued] ++ before.server.channel =
        (sentIn before.server.history).drop wire.since := by
    intro id wire is wired
    have now := timely.current id wire is wired streams
    rwa [held] at now
  refine ⟨fun id wire wired => ?_, fun id wire wired => ?_, fun id wire is wired _ => ?_⟩
  · show wire.since ≤ (sentIn server.history).length
    rw [sent]
    rcases put_cases wired with ⟨-, earlier, found, rfl⟩ | ⟨-, found⟩
    · exact timely.early id earlier found
    · exact timely.early id wire found
  · show wire.written <+: (sentIn server.history).drop wire.since
    rw [sent]
    rcases put_cases wired with ⟨is, earlier, found, rfl⟩ | ⟨-, found⟩
    · exact ⟨_, next id earlier is found⟩
    · exact timely.fresh id wire found
  · show wire.written ++ server.thread.held ++ server.channel = (sentIn server.history).drop wire.since
    have is' : before.current = some id := put_current.symm.trans is
    rcases put_cases wired with ⟨-, earlier, found, rfl⟩ | ⟨elsewhere, -⟩
    · rw [sent, thread, channel]
      show earlier.written ++ [queued] ++ [] ++ _ = _
      rw [List.append_nil]
      exact next id earlier is' found
    · exact absurd is' elsewhere

theorem Timely.step (timely : Timely before) (supplied : Supplied before)
    (effect : Effect header ioText before move after) (prompt : Prompt before move) : Timely after := by
  cases effect with
  | game server move' greets writes stepped same =>
    subst same
    obtain ⟨changed, -⟩ := LiveServer.effect_of_step supplied.exits stepped
    exact timely.game changed greets (deliveredIn_of_step writes stepped)
  | stranger server is stepped same =>
    subst same
    obtain ⟨changed, -⟩ := LiveServer.effect_of_step supplied.exits stepped
    exact timely.kept (Kept.of_eq rfl) (sentIn_isPrefix changed) fun id wire is => by cases is
  | greet id server is dials stepped same =>
    subst same is
    have empty : before.server.channel = [] := prompt
    obtain rfl := eq_of_hello stepped
    have sent : sentIn (before.server.history ++ [.hello]) = sentIn before.server.history := by
      rw [LiveServer.sentIn_append]
      exact List.append_nil _
    refine ⟨fun other wire wired => ?_, fun other wire wired => ?_, fun other wire is wired _ => ?_⟩
    · show wire.since ≤ (sentIn (before.server.history ++ [.hello])).length
      rw [sent]
      rcases setWire_cases wired with ⟨-, rfl⟩ | ⟨-, found⟩
      · exact Nat.le_refl _
      · exact timely.early other wire found
    · show wire.written <+: (sentIn (before.server.history ++ [.hello])).drop wire.since
      rw [sent]
      rcases setWire_cases wired with ⟨-, rfl⟩ | ⟨-, found⟩
      · exact List.nil_prefix
      · exact timely.fresh other wire found
    · show wire.written ++ [] ++ before.server.channel =
        (sentIn (before.server.history ++ [.hello])).drop wire.since
      obtain rfl := Option.some_inj.mp is
      rcases setWire_cases wired with ⟨-, rfl⟩ | ⟨elsewhere, -⟩
      · rw [sent, empty, List.drop_length]
        rfl
      · exact absurd rfl elsewhere
  | write queued server held stepped thread channel history same =>
    subst same
    exact timely.put held thread channel history
  | lose queued server stepped thread history same =>
    subst same
    obtain ⟨changed, -⟩ := LiveServer.effect_of_step supplied.exits stepped
    refine timely.kept (Kept.of_eq rfl) (sentIn_isPrefix changed) fun id wire is wired streams => ?_
    change server.thread.streams = true at streams
    rw [thread] at streams
    cases streams
  | ui move' app is foreign stepped same =>
    subst same
    exact timely.kept (Kept.of_eq rfl) (List.prefix_refl _) timely.current
  | answer id wire hello messages held app wired first stepped same =>
    subst same
    exact timely.kept (Kept.setWire wired messages) (List.prefix_refl _) timely.current
  | read id wire message messages connection wired first found running app heard same =>
    subst same
    exact timely.kept (Kept.setWire wired messages) (List.prefix_refl _) timely.current

end Timely

end Broadcast

end Foldback
