/-
**Streaming to a UI, as `live.rs` does it.**

* `Streaming`: the unbounded channel from the game to the background thread, and where `run` stands in
  its two loops. `history` is what happened, the oldest first.
* `Move`: the game calls `send_frame` or drops the `LiveServer`, the thread takes its next step, or the
  UI leaves; they interleave in any order. Every frame that is sent has the number of its call.
* `Effect`: what one move changes. `Accounted`: **what was sent is what was handled, what is being
  written and what is queued, in this order**, whatever the moves.
* `live_frames_of_prompt`: **nothing sent before a hello is delivered after it, if the channel is empty
  whenever a UI is greeted.** Otherwise the next frame delivered is one that was sent before.
-/

import Foldback.Core.Format
import Foldback.Lib.Machine

namespace Foldback.LiveServer

open Machine

/-! ### The server and its background thread -/

/-- A frame in the channel, with the number of the call that sent it. -/
structure Queued where
  number : ℕ
  frame : Frame
  deriving DecidableEq, Repr

/-- Where `run` stands: in `accept`, before the handshake, before the hello, in `recv`, before the
socket send of a frame, or after its `return`. -/
inductive Thread
  | accepting
  | handshaking
  | greeting
  | receiving
  | writing (queued : Queued)
  | exited
  deriving DecidableEq, Repr

inductive Event
  | sent (queued : Queued)
  | hello
  | delivered (queued : Queued)
  | lost (queued : Queued)
  | disconnected
  deriving DecidableEq, Repr

structure Streaming where
  thread : Thread
  channel : List Queued
  dropped : Bool
  history : List Event
  deriving DecidableEq, Repr

def start : Streaming := ⟨.accepting, [], false, []⟩

/-- A UI was greeted and has not disconnected since. -/
def connected (history : List Event) : Bool :=
  history.foldl (fun now event =>
    match event with
    | .hello => true
    | .disconnected => false
    | _ => now) false

def sentIn (history : List Event) : List Queued :=
  history.filterMap fun
    | .sent queued => some queued
    | _ => none

def deliveredIn (history : List Event) : List Queued :=
  history.filterMap fun
    | .delivered queued => some queued
    | _ => none

/-- The frames that were handed to the socket. -/
def handledIn (history : List Event) : List Queued :=
  history.filterMap fun
    | .delivered queued | .lost queued => some queued
    | _ => none

/-- What can happen next; `ok` is the outcome of a call of the thread. -/
inductive Move
  | sendFrame (frame : Frame)
  | drop
  | accept (ok : Bool)
  | handshake (ok : Bool)
  | hello (ok : Bool)
  | recv
  | write
  | disconnect
  deriving DecidableEq, Repr

/-- One move, if it can happen. -/
def step (server : Streaming) : Move → Option Streaming
  | .sendFrame frame =>
    if server.dropped then none
    else
      let queued : Queued := ⟨(sentIn server.history).length, frame⟩
      some { server with
        -- `tx.send` fails when the thread is gone, and its error is ignored.
        channel := if server.thread = .exited then server.channel else server.channel ++ [queued]
        history := server.history ++ [.sent queued] }
  | .drop => if server.dropped then none else some { server with dropped := true }
  | .accept ok =>
    match server.thread with
    | .accepting => some { server with thread := if ok then .handshaking else .accepting }
    | _ => none
  | .handshake ok =>
    match server.thread with
    | .handshaking => some { server with thread := if ok then .greeting else .accepting }
    | _ => none
  | .hello ok =>
    match server.thread with
    | .greeting =>
      if ok then some { server with thread := .receiving, history := server.history ++ [.hello] }
      else some { server with thread := .accepting }
    | _ => none
  | .recv =>
    match server.thread, server.channel with
    | .receiving, queued :: channel => some { server with thread := .writing queued, channel }
    | .receiving, [] => if server.dropped then some { server with thread := .exited } else none
    | _, _ => none
  | .write =>
    match server.thread with
    | .writing queued =>
      -- The socket send fails once the UI has disconnected.
      if connected server.history then
        some { server with
          thread := .receiving, history := server.history ++ [.delivered queued] }
      else some { server with thread := .accepting, history := server.history ++ [.lost queued] }
    | _ => none
  | .disconnect =>
    if connected server.history then
      some { server with history := server.history ++ [.disconnected] }
    else none

def Step (before after : Streaming) : Prop := ∃ move, step before move = some after

/-- A step that greets a UI only if the channel is empty. -/
def PromptStep (before after : Streaming) : Prop :=
  ∃ move, (move = .hello true → before.channel = []) ∧ step before move = some after

def Reachable (server : Streaming) : Prop := Relation.ReflTransGen Step start server

/-- Reached by steps that greet a UI only if the channel is empty. -/
def PromptlyReachable (server : Streaming) : Prop := Relation.ReflTransGen PromptStep start server

/-! ### What a UI may count on -/

/-- The events up to the next hello. -/
def connection (history : List Event) : List Event := history.takeWhile fun event => event ≠ .hello

/-- What one connection delivers was sent after its hello, in this order. -/
def SinceHello (history : List Event) : Prop :=
  ∀ before after, history = before ++ .hello :: after →
    (deliveredIn (connection after)).Sublist (sentIn after)

/-- What was sent while no UI was connected is not delivered. -/
def DropsUnconnected (history : List Event) : Prop :=
  ∀ before after queued, history = before ++ .sent queued :: after → connected before = false →
    queued ∉ deliveredIn history

/-- **Only frames sent while the UI is connected are delivered**, and none twice. -/
structure DeliversLive (history : List Event) : Prop where
  sinceHello : SinceHello history
  dropped : DropsUnconnected history
  once : (deliveredIn history).Nodup

/-! ### What one move changes -/

/-- The frame that was received and is not yet written. -/
def Thread.held : Thread → List Queued
  | .writing queued => [queued]
  | _ => []

/-- In the inner loop of `run`. -/
def Thread.streams : Thread → Bool
  | .receiving | .writing _ => true
  | _ => false

/-- **What one move changes** of the thread, the channel and the history. -/
inductive Effect (before after : Streaming) (move : Move) : Prop
  | send (queued : Queued) (number : queued.number = (sentIn before.history).length)
      (thread : after.thread = before.thread) (channel : after.channel = before.channel ++ [queued])
      (history : after.history = before.history ++ [.sent queued])
  | quiet (held : after.thread.held = before.thread.held)
      (streams : after.thread.streams = true → before.thread.streams = true)
      (channel : after.channel = before.channel) (history : after.history = before.history)
  | greet (greets : move = .hello true) (held : before.thread.held = [])
      (thread : after.thread = .receiving) (channel : after.channel = before.channel)
      (history : after.history = before.history ++ [.hello])
  | take (queued : Queued) (streams : before.thread.streams = true) (held : before.thread.held = [])
      (thread : after.thread = .writing queued) (channel : before.channel = queued :: after.channel)
      (history : after.history = before.history)
  | deliver (queued : Queued) (live : connected before.history = true)
      (held : before.thread = .writing queued) (thread : after.thread = .receiving)
      (channel : after.channel = before.channel)
      (history : after.history = before.history ++ [.delivered queued])
  | lose (queued : Queued) (held : before.thread = .writing queued)
      (thread : after.thread = .accepting) (channel : after.channel = before.channel)
      (history : after.history = before.history ++ [.lost queued])
  | leave (thread : after.thread = before.thread) (channel : after.channel = before.channel)
      (history : after.history = before.history ++ [.disconnected])

/-- The thread returns only after the `LiveServer` is dropped. -/
def Exits (server : Streaming) : Prop := server.thread = .exited → server.dropped = true

/-- Outside of the inner loop, a step of the thread that leaves it there changes nothing else. -/
theorem quiet_step {before : Streaming} {thread : Thread} {move : Move}
    (idle : before.thread.held = []) (held : thread.held = []) (outside : thread.streams = false)
    (stays : thread ≠ .exited) :
    Effect before { before with thread } move ∧ Exits { before with thread } := by
  refine ⟨.quiet (held.trans idle.symm) (fun streams => ?_) rfl rfl, fun gone => absurd gone stays⟩
  exact absurd (outside.symm.trans streams) Bool.false_ne_true

theorem effect_of_step {before after : Streaming} {move : Move} (exits : Exits before)
    (moved : step before move = some after) :
    Effect before after move ∧ Exits after := by
  cases move with
  | sendFrame frame =>
    rw [step] at moved
    split at moved
    · cases moved
    · rename_i present
      have running : before.thread ≠ .exited := fun gone => present (exits gone)
      cases moved
      rw [if_neg running]
      exact ⟨.send _ rfl rfl rfl rfl, fun gone => absurd gone running⟩
  | drop =>
    rw [step] at moved
    split at moved
    · cases moved
    · cases moved
      exact ⟨.quiet rfl id rfl rfl, fun _ => rfl⟩
  | accept ok =>
    rw [step] at moved
    split at moved
    · rename_i thread
      cases moved
      cases ok
      all_goals exact quiet_step (by rw [thread]; rfl) rfl rfl (by decide)
    · cases moved
  | handshake ok =>
    rw [step] at moved
    split at moved
    · rename_i thread
      cases moved
      cases ok
      all_goals exact quiet_step (by rw [thread]; rfl) rfl rfl (by decide)
    · cases moved
  | hello ok =>
    rw [step] at moved
    split at moved
    · rename_i thread
      split at moved
      · rename_i ok
        cases moved
        exact ⟨.greet (by rw [ok]) (by rw [thread]; rfl) rfl rfl rfl, fun gone => by cases gone⟩
      · cases moved
        exact quiet_step (by rw [thread]; rfl) rfl rfl (by decide)
    · cases moved
  | recv =>
    rw [step] at moved
    split at moved
    · rename_i queued channel thread queue
      cases moved
      exact ⟨.take queued (by rw [thread]; rfl) (by rw [thread]; rfl) rfl queue rfl,
        fun gone => by cases gone⟩
    · rename_i thread queue
      split at moved
      · rename_i dropped
        cases moved
        exact ⟨.quiet (by rw [thread]; rfl) (fun streams => by cases streams) rfl rfl,
          fun _ => dropped⟩
      · cases moved
    · cases moved
  | write =>
    rw [step] at moved
    split at moved
    · rename_i queued thread
      split at moved
      · rename_i live
        cases moved
        exact ⟨.deliver queued live thread rfl rfl rfl, fun gone => by cases gone⟩
      · cases moved
        exact ⟨.lose queued thread rfl rfl rfl, fun gone => by cases gone⟩
    · cases moved
  | disconnect =>
    rw [step] at moved
    split at moved
    · cases moved
      exact ⟨.leave rfl rfl rfl, exits⟩
    · cases moved

/-- At most one event happens; a frame is delivered to a UI that is connected. -/
theorem Effect.history {before after : Streaming} {move : Move} (effect : Effect before after move) :
    after.history = before.history ∨ ∃ event, after.history = before.history ++ [event] ∧
      ∀ queued, event = .delivered queued →
        connected before.history = true ∧ before.thread = .writing queued := by
  cases effect with
  | quiet held streams channel history => exact .inl history
  | take queued streams held thread channel history => exact .inl history
  | deliver queued live held thread channel history =>
    refine .inr ⟨_, history, fun other is => ?_⟩
    obtain rfl := Event.delivered.inj is
    exact ⟨live, held⟩
  | send | greet | lose | leave =>
    rename_i history
    exact .inr ⟨_, history, fun _ is => by cases is⟩

/-! ### Nothing is lost between the calls and the socket -/

section Histories

variable (history : List Event) (event : Event)

theorem sentIn_append (more : List Event) :
    sentIn (history ++ more) = sentIn history ++ sentIn more :=
  List.filterMap_append

theorem deliveredIn_append (more : List Event) :
    deliveredIn (history ++ more) = deliveredIn history ++ deliveredIn more :=
  List.filterMap_append

theorem handledIn_append (more : List Event) :
    handledIn (history ++ more) = handledIn history ++ handledIn more :=
  List.filterMap_append

/-- What is delivered was handled. -/
theorem deliveredIn_sublist : (deliveredIn history).Sublist (handledIn history) := by
  induction history with
  | nil => exact List.Sublist.refl _
  | cons event history ih =>
    cases event with
    | delivered queued => exact ih.cons_cons queued
    | lost queued => exact ih.cons queued
    | _ => exact ih

end Histories

/-- **What was sent is what was handled, what is being written and what is queued**, and the calls are
numbered. -/
structure Accounted (server : Streaming) : Prop where
  conserved : handledIn server.history ++ server.thread.held ++ server.channel = sentIn server.history
  numbered : (sentIn server.history).map Queued.number = List.range (sentIn server.history).length

theorem Accounted.start : Accounted start := ⟨rfl, rfl⟩

theorem Accounted.step {before after : Streaming} {move : Move} (accounted : Accounted before)
    (effect : Effect before after move) : Accounted after := by
  obtain ⟨conserved, numbered⟩ := accounted
  cases effect with
  | send queued number thread channel history =>
    refine ⟨?_, ?_⟩
    · rw [history, thread, channel, handledIn_append, sentIn_append, ← conserved]
      simp [handledIn, sentIn]
    · rw [history, sentIn_append, List.map_append, numbered, List.length_append]
      show _ ++ [queued.number] = List.range (_ + 1)
      rw [number, List.range_succ]
  | quiet held streams channel history =>
    refine ⟨?_, ?_⟩
    · rw [history, held, channel, conserved]
    · rw [history, numbered]
  | greet greets held thread channel history =>
    refine ⟨?_, ?_⟩
    · rw [history, thread, channel, handledIn_append, sentIn_append, ← conserved, held]
      simp [handledIn, sentIn, Thread.held]
    · rw [history, sentIn_append]
      simpa [sentIn] using numbered
  | take queued streams held thread channel history =>
    refine ⟨?_, ?_⟩
    · rw [history, thread, ← conserved, held, channel]
      simp [Thread.held]
    · rw [history, numbered]
  | deliver queued live held thread channel history =>
    refine ⟨?_, ?_⟩
    · rw [history, thread, channel, handledIn_append, sentIn_append, ← conserved, held]
      simp [handledIn, sentIn, Thread.held]
    · rw [history, sentIn_append]
      simpa [sentIn] using numbered
  | lose queued held thread channel history =>
    refine ⟨?_, ?_⟩
    · rw [history, thread, channel, handledIn_append, sentIn_append, ← conserved, held]
      simp [handledIn, sentIn, Thread.held]
    · rw [history, sentIn_append]
      simpa [sentIn] using numbered
  | leave thread channel history =>
    refine ⟨?_, ?_⟩
    · rw [history, thread, channel, handledIn_append, sentIn_append, ← conserved]
      simp [handledIn, sentIn]
    · rw [history, sentIn_append]
      simpa [sentIn] using numbered

theorem Accounted.nodup {server : Streaming} (accounted : Accounted server) :
    (sentIn server.history).Nodup := by
  refine List.Nodup.of_map Queued.number ?_
  rw [accounted.numbered]
  exact List.nodup_range

/-- What is delivered was sent, in this order. -/
theorem Accounted.delivered_sublist {server : Streaming} (accounted : Accounted server) :
    (deliveredIn server.history).Sublist (sentIn server.history) := by
  rw [← accounted.conserved, List.append_assoc]
  exact (deliveredIn_sublist _).trans (List.sublist_append_left _ _)

/-! ### Since the last hello -/

def sinceHello (history : List Event) : List Event :=
  history.foldl (fun since event => if event = .hello then [] else since ++ [event]) []

theorem sinceHello_hello (history : List Event) : sinceHello (history ++ [.hello]) = [] := by
  rw [sinceHello, List.foldl_append]
  rfl

theorem sinceHello_append {event : Event} (later : event ≠ .hello) (history : List Event) :
    sinceHello (history ++ [event]) = sinceHello history ++ [event] := by
  rw [sinceHello, List.foldl_append]
  exact if_neg later

theorem sinceHello_split {after : List Event} (last : .hello ∉ after) (before : List Event) :
    sinceHello (before ++ .hello :: after) = after := by
  induction after using List.reverseRecOn with
  | nil => exact sinceHello_hello before
  | append_singleton after event ih =>
    rw [List.mem_append, not_or] at last
    have later : event ≠ .hello := fun is => last.2 (is ▸ List.mem_singleton_self _)
    rw [← List.cons_append, ← List.append_assoc, sinceHello_append later, ih last.1]

/-- A UI that is connected now was connected as long as there was no hello. -/
theorem connected_before {before after : List Event} (last : .hello ∉ after)
    (live : connected (before ++ after) = true) : connected before = true := by
  induction after using List.reverseRecOn with
  | nil => rwa [List.append_nil] at live
  | append_singleton after event ih =>
    rw [List.mem_append, not_or] at last
    refine ih last.1 ?_
    rw [← List.append_assoc, connected, List.foldl_append] at live
    cases event with
    | hello => exact absurd (List.mem_singleton_self _) last.2
    | disconnected => cases live
    | _ => exact live

theorem exists_last_hello {history : List Event} (greeted : .hello ∈ history) :
    ∃ before after, history = before ++ .hello :: after ∧ .hello ∉ after := by
  obtain ⟨after, before, split, last⟩ := List.eq_append_cons_of_mem (List.mem_reverse.mpr greeted)
  refine ⟨before.reverse, after.reverse, ?_, fun member => last (List.mem_reverse.mp member)⟩
  rw [← List.reverse_reverse history, split]
  simp

theorem connection_split {front : List Event} (none : .hello ∉ front) (rest : List Event) :
    connection (front ++ .hello :: rest) = front := by
  have early : ∀ event ∈ front, decide (event ≠ .hello) = true :=
    fun event member => decide_eq_true fun is => none (is ▸ member)
  rw [connection, List.takeWhile_append_of_pos early, List.takeWhile_cons_of_neg (by simp),
    List.append_nil]

theorem connection_self {history : List Event} (none : .hello ∉ history) :
    connection history = history :=
  List.takeWhile_eq_self_iff.mpr fun _ member => decide_eq_true fun is => none (is ▸ member)

/-! ### Greeting a UI on an empty channel -/

theorem SinceHello.append {history : List Event} (faithful : SinceHello history) {event : Event}
    (delivers : ∀ queued, event = .delivered queued →
      (deliveredIn (sinceHello history) ++ [queued]).Sublist (sentIn (sinceHello history))) :
    SinceHello (history ++ [event]) := by
  intro before after split
  rcases List.eq_nil_or_concat after with rfl | ⟨front, last, rfl⟩
  · exact List.nil_sublist _
  · rw [List.concat_eq_append, ← List.cons_append, ← List.append_assoc] at split
    obtain ⟨rfl, same⟩ := List.append_inj' split rfl
    obtain rfl := List.singleton_inj.mp same
    have earlier := faithful before front rfl
    have longer : (sentIn front).Sublist (sentIn (front ++ [event])) := by
      rw [sentIn_append]
      exact List.sublist_append_left _ _
    rw [List.concat_eq_append]
    by_cases greeted : .hello ∈ front
    · obtain ⟨first, rest, rfl, none⟩ := List.eq_append_cons_of_mem greeted
      rw [connection_split none] at earlier
      rw [List.append_assoc, List.cons_append, connection_split none, ← List.cons_append,
        ← List.append_assoc]
      exact earlier.trans longer
    · rw [connection_self greeted] at earlier
      by_cases hello : event = .hello
      · rw [hello, connection_split greeted, ← hello]
        exact earlier.trans longer
      · have none : .hello ∉ front ++ [event] := by
          rw [List.mem_append, not_or]
          exact ⟨greeted, fun member => hello (List.mem_singleton.mp member).symm⟩
        rw [connection_self none, deliveredIn_append]
        cases event with
        | delivered queued =>
          have fits := delivers queued rfl
          rw [sinceHello_split greeted] at fits
          exact fits.trans longer
        | hello => exact absurd rfl hello
        | _ =>
          refine List.Sublist.trans ?_ longer
          show (deliveredIn front ++ []).Sublist _
          rwa [List.append_nil]

theorem DropsUnconnected.append {history : List Event} (drops : DropsUnconnected history)
    {event : Event} (sent : ∀ queued ∈ deliveredIn history, queued ∈ sentIn history)
    (nodup : (sentIn (history ++ [event])).Nodup)
    (delivers : ∀ queued, event = .delivered queued → connected history = true ∧
      queued ∈ sentIn (sinceHello history)) :
    DropsUnconnected (history ++ [event]) := by
  intro before after queued split alone
  rw [deliveredIn_append, List.mem_append, not_or]
  rcases List.eq_nil_or_concat after with rfl | ⟨front, last, rfl⟩
  · obtain ⟨rfl, same⟩ := List.append_inj' split rfl
    obtain rfl := List.singleton_inj.mp same
    rw [sentIn_append] at nodup
    refine ⟨fun member => ?_, List.not_mem_nil⟩
    exact (List.nodup_append'.mp nodup).2.2 (sent queued member) (List.mem_singleton_self queued)
  · rw [List.concat_eq_append, ← List.cons_append, ← List.append_assoc] at split
    obtain ⟨rfl, same⟩ := List.append_inj' split rfl
    obtain rfl := List.singleton_inj.mp same
    refine ⟨drops before front queued rfl alone, fun member => ?_⟩
    cases event with
    | delivered other =>
      obtain rfl := List.mem_singleton.mp member
      obtain ⟨live, current⟩ := delivers queued rfl
      by_cases greeted : .hello ∈ front
      · -- Then the frame was sent twice, before the last hello and after it.
        obtain ⟨first, rest, rfl, last⟩ := exists_last_hello greeted
        have shape : before ++ .sent queued :: (first ++ .hello :: rest) =
            (before ++ .sent queued :: first) ++ .hello :: rest := by simp
        rw [shape, sinceHello_split last] at current
        rw [shape, sentIn_append, sentIn_append] at nodup
        have early : queued ∈ sentIn (before ++ .sent queued :: first) := by
          rw [sentIn_append]
          exact List.mem_append_right _ List.mem_cons_self
        exact (List.nodup_append'.mp (List.nodup_append'.mp nodup).1).2.2 early current
      · have none : .hello ∉ .sent queued :: front := by simpa using greeted
        rw [connected_before none live] at alone
        cases alone
    | _ => cases member

/-- **What holds of a server that greets a UI only on an empty channel.** -/
structure Prompt (server : Streaming) : Prop where
  accounted : Accounted server
  current : server.thread.streams = true →
    handledIn (sinceHello server.history) ++ server.thread.held ++ server.channel =
      sentIn (sinceHello server.history)
  sinceHello : SinceHello server.history
  dropped : DropsUnconnected server.history

/-- The frames of the connection that is streaming are accounted for since its hello. -/
theorem Prompt.current_step {before after : Streaming} {move : Move} (prompt : Prompt before)
    (effect : Effect before after move) (empty : move = .hello true → before.channel = [])
    (streaming : after.thread.streams = true) :
    handledIn (LiveServer.sinceHello after.history) ++ after.thread.held ++ after.channel =
      sentIn (LiveServer.sinceHello after.history) := by
  have current := prompt.current
  cases effect with
  | send queued number thread channel history =>
    rw [thread] at streaming
    rw [history, thread, channel, sinceHello_append (by simp), handledIn_append, sentIn_append,
      ← current streaming]
    simp [handledIn, sentIn]
  | quiet held streams channel history =>
    rw [history, held, channel, current (streams streaming)]
  | greet greets held thread channel history =>
    rw [history, sinceHello_hello, thread, channel, empty greets]
    rfl
  | take queued streams held thread channel history =>
    rw [history, thread, ← current streams, held, channel]
    simp [Thread.held]
  | deliver queued live held thread channel history =>
    have streams : before.thread.streams = true := by rw [held]; rfl
    rw [history, thread, channel, sinceHello_append (by simp), handledIn_append, sentIn_append,
      ← current streams, held]
    simp [handledIn, sentIn, Thread.held]
  | lose queued held thread channel history =>
    rw [thread] at streaming
    cases streaming
  | leave thread channel history =>
    rw [thread] at streaming
    rw [history, thread, channel, sinceHello_append (by simp), handledIn_append, sentIn_append,
      ← current streaming]
    simp [handledIn, sentIn]

theorem Prompt.step {before after : Streaming} {move : Move} (prompt : Prompt before)
    (effect : Effect before after move) (empty : move = .hello true → before.channel = []) :
    Prompt after := by
  have accounted := prompt.accounted.step effect
  -- The frame that is written is among those of the connection.
  have writes : ∀ queued, before.thread = .writing queued →
      handledIn (LiveServer.sinceHello before.history) ++ [queued] ++ before.channel =
        sentIn (LiveServer.sinceHello before.history) := by
    intro queued held
    have streams : before.thread.streams = true := by rw [held]; rfl
    have now := prompt.current streams
    rwa [held] at now
  have faithful : SinceHello after.history ∧ DropsUnconnected after.history := by
    rcases effect.history with same | ⟨event, grown, delivers⟩
    · rw [same]
      exact ⟨prompt.sinceHello, prompt.dropped⟩
    have nodup := accounted.nodup
    rw [grown] at nodup ⊢
    refine ⟨prompt.sinceHello.append fun queued is => ?_, prompt.dropped.append (fun queued member =>
      prompt.accounted.delivered_sublist.subset member) nodup fun queued is => ?_⟩
    · rw [← writes queued (delivers queued is).2]
      refine List.Sublist.trans ?_ (List.sublist_append_left _ _)
      exact (deliveredIn_sublist _).append (List.Sublist.refl _)
    · refine ⟨(delivers queued is).1, ?_⟩
      rw [← writes queued (delivers queued is).2]
      exact List.mem_append_left _ (List.mem_append_right _ (List.mem_singleton_self queued))
  exact ⟨accounted, prompt.current_step effect empty, faithful.1, faithful.2⟩

/-! ### Over whole runs -/

theorem accounted_of_reachable {server : Streaming} (reachable : Reachable server) :
    Accounted server ∧ Exits server := by
  induction reachable with
  | refl => exact ⟨Accounted.start, fun gone => by cases gone⟩
  | tail _ moved ih =>
    obtain ⟨move, moved⟩ := moved
    obtain ⟨effect, exits⟩ := effect_of_step ih.2 moved
    exact ⟨ih.1.step effect, exits⟩

theorem prompt_of_reachable {server : Streaming} (reachable : PromptlyReachable server) :
    Prompt server ∧ Exits server := by
  induction reachable with
  | refl =>
    have noEvent : ∀ (before after : List Event) (event : Event),
        LiveServer.start.history ≠ before ++ event :: after := by
      intro before after event split
      exact absurd (split.symm ▸ List.mem_append_right before List.mem_cons_self) List.not_mem_nil
    refine ⟨⟨Accounted.start, (fun streams => by cases streams), ?_, ?_⟩, fun gone => by cases gone⟩
    · exact fun before after split => absurd split (noEvent before after _)
    · exact fun before after queued split => absurd split (noEvent before after _)
  | tail _ moved ih =>
    obtain ⟨move, empty, moved⟩ := moved
    obtain ⟨effect, exits⟩ := effect_of_step ih.2 moved
    exact ⟨ih.1.step effect empty, exits⟩

/-- **A live stream under every interleaving.** Nothing is delivered twice, and what is delivered was
sent, in this order. If every UI is greeted on an empty channel, then what one connection delivers was
sent after its hello, and what was sent while no UI was connected is not delivered. If the channel is
not empty when a UI is greeted, three moves lead to a frame delivered that was sent before. -/
theorem live_frames_of_prompt (server : Streaming) :
    (Reachable server → (deliveredIn server.history).Nodup ∧
      (deliveredIn server.history).Sublist (sentIn server.history)) ∧
    (PromptlyReachable server → DeliversLive server.history) ∧
    (Reachable server → server.thread = .greeting → server.channel ≠ [] →
      ∃ after, Relation.ReflTransGen Step server after ∧ ¬ DeliversLive after.history) := by
  refine ⟨fun reachable => ?_, fun reachable => ?_, fun reachable => ?_⟩
  · have accounted := (accounted_of_reachable reachable).1
    exact ⟨accounted.delivered_sublist.nodup accounted.nodup, accounted.delivered_sublist⟩
  · have prompt := (prompt_of_reachable reachable).1
    refine ⟨prompt.sinceHello, prompt.dropped, ?_⟩
    exact prompt.accounted.delivered_sublist.nodup prompt.accounted.nodup
  · intro greeting waiting
    obtain ⟨queued, channel, queue⟩ := List.exists_cons_of_ne_nil waiting
    let greeted : Streaming :=
      { server with thread := .receiving, history := server.history ++ [.hello] }
    let taken : Streaming := { greeted with thread := .writing queued, channel }
    let delivered : Streaming :=
      { taken with thread := .receiving, history := taken.history ++ [.delivered queued] }
    have hello : Step server greeted := ⟨.hello true, by rw [step, greeting]; rfl⟩
    have recv : Step greeted taken := ⟨.recv, by simp [step, greeted, taken, queue]⟩
    have live : connected taken.history = true := by
      show connected (server.history ++ [.hello]) = true
      rw [connected, List.foldl_append]
      rfl
    have write : Step taken delivered := ⟨.write, by simp [step, taken, delivered, live]⟩
    refine ⟨delivered, .tail (.tail (.single hello) recv) write, fun faithful => ?_⟩
    have split : delivered.history = server.history ++ .hello :: [.delivered queued] := by
      simp [delivered, taken, greeted]
    have sublist := faithful.sinceHello server.history [.delivered queued] split
    cases sublist

/-- One frame is delivered, one is sent after the UI has left. -/
theorem live_frames_of_prompt_two : DeliversLive [.hello, .sent ⟨0, .tickHash 1 0 7⟩,
    .delivered ⟨0, .tickHash 1 0 7⟩, .disconnected, .sent ⟨1, .endOfStream⟩,
    .lost ⟨1, .endOfStream⟩] := by
  have ran : List.foldlM (fun before move =>
      if move = .hello true ∧ before.channel ≠ [] then none else step before move) start
      [.accept true, .handshake true, .hello true, .sendFrame (.tickHash 1 0 7), .recv, .write,
        .disconnect, .sendFrame .endOfStream, .recv, .write] =
      some ⟨.accepting, [], false, [.hello, .sent ⟨0, .tickHash 1 0 7⟩,
        .delivered ⟨0, .tickHash 1 0 7⟩, .disconnected, .sent ⟨1, .endOfStream⟩,
        .lost ⟨1, .endOfStream⟩]⟩ := by decide
  refine (live_frames_of_prompt _).2.1
    (reflTransGen_of_foldlM (fun before move after moved => ?_) ran)
  split at moved
  · cases moved
  · rename_i prompt
    exact ⟨move, fun greets => by simpa [greets] using prompt, moved⟩

/-- A frame that is sent before a UI connects is delivered to it. -/
theorem live_frames_kept : ∃ server, Reachable server ∧ ¬ DeliversLive server.history := by
  have ran : List.foldlM step start [.sendFrame (.tickHash 1 0 7), .accept true, .handshake true,
      .hello true, .recv, .write] =
      some ⟨.receiving, [], false, [.sent ⟨0, .tickHash 1 0 7⟩, .hello,
        .delivered ⟨0, .tickHash 1 0 7⟩]⟩ := by decide
  refine ⟨_, reflTransGen_of_foldlM (fun before move after moved => ⟨move, moved⟩) ran, fun live => ?_⟩
  exact live.dropped [] [.hello, .delivered ⟨0, .tickHash 1 0 7⟩] ⟨0, .tickHash 1 0 7⟩ rfl rfl
    (by decide)

end Foldback.LiveServer
