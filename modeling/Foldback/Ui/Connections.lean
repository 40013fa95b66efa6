/-
**The page, its loads and its connections, in any order.**

* `App`: the page, and for every `connect_live` that was invoked its answer, its thread and what it
  has emitted. `shown` is the connection whose session the page shows.
* `Move`: the user opens a file, connects or disconnects; an answer or an event reaches the page; the
  backend runs a command, or a thread emits. The threads' events are delivered each in its order.
* `Orderly`: a connect is made only when no load is pending and no earlier connection is heard again.
* `live_view_of_orderly`: **then the session of a connection is made of its own events**, only its own
  end, its failure or a load clears `isLive`, and no event changes a file that is shown.
-/

import Foldback.Lib.Machine
import Foldback.Ui.LiveOffline

namespace Foldback

open Machine

/-! ### A load in two halves -/

namespace Page

/-- `loadPath` up to its `await`. -/
def startLoading (page : Page) : Page := { page with isLive := false }

/-- `loadPath` after its `await`. -/
def finishLoading (loaded : Except LoadError (SessionData UInt64)) (page : Page) : Page :=
  match loaded with
  | .error _ => page
  | .ok data =>
    let data := data.map jsNumber
    { page.index data with
      session := some data
      selectedTick := some (data.divergenceTick.getD data.maxTick) }

theorem loadPath_eq (loaded : Except LoadError (SessionData UInt64)) (page : Page) :
    page.loadPath loaded = page.startLoading.finishLoading loaded := by
  cases loaded
  all_goals rfl

theorem finishLoading_isLive (loaded : Except LoadError (SessionData UInt64)) (page : Page) :
    (page.finishLoading loaded).isLive = page.isLive := by
  cases loaded
  all_goals rfl

/-- The `catch` of `connectLive`. -/
def connectFailed (page : Page) : Page := { page with isLive := false }

theorem applyLiveEvent_of_not_live {page : Page} (event : LiveEvent ℕ) (still : page.isLive = false) :
    page.applyLiveEvent event = page := by
  unfold applyLiveEvent
  rw [still]

/-- Only the end of a connection clears `isLive`. -/
theorem applyLiveEvent_isLive {page : Page} {event : LiveEvent ℕ}
    (goes : ∀ reason, event ≠ .disconnected reason) :
    (page.applyLiveEvent event).isLive = page.isLive := by
  unfold applyLiveEvent
  split
  · rename_i live session
    cases event with
    | disconnected reason => exact absurd rfl (goes reason)
    | tickHash entry => rfl
    | _ => rfl
  · rfl

end Page

/-! ### The page and the backend -/

namespace App

/-- A `connect_live` that was invoked: it has not run, its answer is under way, or the page has it. -/
inductive Command
  | invoked
  | answered (ok : Bool)
  | settled
  deriving DecidableEq, Repr

/-- One connection: `running` says that its `stream_frames` runs, `delivered` how many of the events it
emitted have reached the page. -/
structure Connection where
  url : String
  command : Command := .invoked
  running : Bool := false
  emitted : List (LiveEvent UInt64) := []
  delivered : ℕ := 0
  deriving DecidableEq, Repr

/-- What `connect_live` does: fail before the hello, fail after it was emitted, or succeed. -/
inductive Outcome
  | refused
  | unheld (tickRateHz peerCount : UInt32) (buildId : String)
  | connected (tickRateHz peerCount : UInt32) (buildId : String)
  deriving DecidableEq, Repr

def Connection.run (connection : Connection) : Outcome → Connection
  | .refused => { connection with command := .answered false }
  | .unheld tickRateHz peerCount buildId =>
    { connection with
      command := .answered false
      emitted := connection.emitted ++ [.hello tickRateHz peerCount buildId] }
  | .connected tickRateHz peerCount buildId =>
    { connection with
      command := .answered true
      running := true
      emitted := connection.emitted ++ [.hello tickRateHz peerCount buildId] }

end App

/-- The page, the number of loads that are pending, and the backend with its `LiveConnection`. -/
structure App where
  page : Page := {}
  shown : Option ℕ := none
  loading : ℕ := 0
  connections : List App.Connection := []
  stored : Option ℕ := none
  deriving DecidableEq

namespace App

/-- What can happen next. -/
inductive Move
  | openFile
  | loaded (result : Except LoadError (SessionData UInt64))
  | connect (url : String)
  | disconnect
  | run (id : ℕ) (outcome : Outcome)
  | resolve (id : ℕ)
  | frame (id : ℕ) (frame : Frame)
  | hangUp (id : ℕ) (reason : String)
  | deliver (id : ℕ)

def setConnection (app : App) (id : ℕ) (connection : Connection) : App :=
  { app with connections := app.connections.set id connection }

/-- One move, if it can happen. -/
def step (app : App) : Move → Option App
  | .openFile => some { app with page := app.page.startLoading, loading := app.loading + 1 }
  | .loaded result =>
    if app.loading = 0 then none
    else
      let page := app.page.finishLoading result
      match result with
      | .error _ => some { app with page, loading := app.loading - 1 }
      | .ok _ => some { app with page, loading := app.loading - 1, shown := none }
  | .connect url =>
    -- An empty answer to the prompt invokes nothing.
    if url = "" then some { app with page := app.page.connectLive url }
    else
      some { app with
        page := app.page.connectLive url
        shown := some app.connections.length
        connections := app.connections ++ [{ url }] }
  -- The thread of the stored stream is left to notice.
  | .disconnect => some { app with stored := none }
  | .run id outcome =>
    match app.connections[id]? with
    | some connection =>
      if connection.command = .invoked then
        let app := app.setConnection id (connection.run outcome)
        match outcome with
        | .connected .. => some { app with stored := some id }
        | _ => some app
      else none
    | none => none
  | .resolve id =>
    match app.connections[id]? with
    | some connection =>
      match connection.command with
      | .answered ok =>
        let app := app.setConnection id { connection with command := .settled }
        some (if ok then app else { app with page := app.page.connectFailed })
      | _ => none
    | none => none
  | .frame id frame =>
    match app.connections[id]? with
    | some connection =>
      if connection.running then
        some (app.setConnection id { connection with
          emitted := connection.emitted ++ [frameToLiveEvent frame] })
      else none
    | none => none
  | .hangUp id reason =>
    match app.connections[id]? with
    | some connection =>
      if connection.running then
        some (app.setConnection id { connection with
          running := false
          emitted := connection.emitted ++ [.disconnected reason] })
      else none
    | none => none
  | .deliver id =>
    match app.connections[id]? with
    | some connection =>
      match connection.emitted[connection.delivered]? with
      | some event =>
        let app := app.setConnection id { connection with delivered := connection.delivered + 1 }
        some { app with page := app.page.applyLiveEvent (event.map jsNumber) }
      | none => none
    | none => none

def Step (before after : App) : Prop := ∃ move, step before move = some after

/-- Nothing of the connection reaches the page again, unless its answer is a success. -/
def Connection.Over (connection : Connection) : Prop :=
  connection.command ∈ [.answered true, .settled] ∧ connection.running = false ∧
    connection.emitted.length ≤ connection.delivered

instance (connection : Connection) : Decidable connection.Over := by
  unfold Connection.Over
  exact inferInstance

/-- A connect is made only when no load is pending and every earlier connection is over. -/
def Orderly (app : App) : Move → Prop
  | .connect _ => app.loading = 0 ∧ ∀ connection ∈ app.connections, connection.Over
  | _ => True

instance (app : App) (move : Move) : Decidable (Orderly app move) := by
  unfold Orderly
  cases move
  all_goals exact inferInstance

def OrderlyStep (before after : App) : Prop :=
  ∃ move, Orderly before move ∧ step before move = some after

/-! ### What the user may count on -/

/-- **The session that a connect made is made of that connection's events**, a first part of them in
their order; only `isLive` may have been cleared since. -/
def FromOneConnection (app : App) : Prop :=
  ∀ id, app.shown = some id → ∃ connection page events, app.connections[id]? = some connection ∧
    events <+: connection.emitted ∧
    app.page = { Page.stream connection.url events page with isLive := app.page.isLive }

/-- The next event of a connection. -/
def nextEvent (app : App) (id : ℕ) : Option (LiveEvent UInt64) :=
  app.connections[id]?.bind fun connection => connection.emitted[connection.delivered]?

/-- What a move does to the page: `isLive` is cleared only by the end or the failure of the connection
that is shown, or by a load, and no event changes what another source shows. -/
structure KeepsApart (before : App) (move : Move) (after : App) : Prop where
  cleared : before.page.isLive = true → after.page.isLive = false →
    move = .openFile ∨ ∃ id, before.shown = some id ∧
      (move = .resolve id ∨ ∃ reason, move = .deliver id ∧
        before.nextEvent id = some (.disconnected reason))
  foreign : ∀ id, move = .deliver id → before.shown ≠ some id → after.page = before.page

/-! ### One connection and the page that shows it -/

/-- The page is that of the connection's first events, of all that reached it as long as it is live. -/
def Shows (page : Page) (connection : Connection) : Prop :=
  ∃ before count, count ≤ connection.delivered ∧ count ≤ connection.emitted.length ∧
    page = { Page.stream connection.url (connection.emitted.take count) before with
      isLive := page.isLive } ∧
    (page.isLive = true → count = connection.delivered ∧
      page = Page.stream connection.url (connection.emitted.take count) before)

theorem Shows.fresh (url : String) (page : Page) : Shows (page.connectLive url) { url } :=
  ⟨page, 0, Nat.le_refl 0, Nat.le_refl 0, rfl, fun _ => ⟨rfl, rfl⟩⟩

theorem Shows.clear {page : Page} {connection : Connection} (shows : Shows page connection) :
    Shows { page with isLive := false } connection := by
  obtain ⟨before, count, reached, made, same, -⟩ := shows
  refine ⟨before, count, reached, made, ?_, fun live => by cases live⟩
  rw [same]

/-- More events, or another answer. -/
theorem Shows.grow {page : Page} {connection after : Connection} (shows : Shows page connection)
    (url : after.url = connection.url) (emitted : connection.emitted <+: after.emitted)
    (delivered : after.delivered = connection.delivered) : Shows page after := by
  obtain ⟨before, count, reached, made, same, live⟩ := shows
  obtain ⟨more, grown⟩ := emitted
  have first : after.emitted.take count = connection.emitted.take count := by
    rw [← grown, List.take_append_of_le_length made]
  refine ⟨before, count, delivered ▸ reached, ?_, ?_, ?_⟩
  · rw [← grown, List.length_append]
    exact made.trans (Nat.le_add_right _ _)
  · rwa [first, url]
  · rwa [first, url, delivered]

/-- The next event reaches the page. -/
theorem Shows.deliver {page : Page} {connection : Connection} {event : LiveEvent UInt64}
    (shows : Shows page connection)
    (next : connection.emitted[connection.delivered]? = some event) :
    Shows (page.applyLiveEvent (event.map jsNumber))
      { connection with delivered := connection.delivered + 1 } := by
  obtain ⟨before, count, reached, made, same, live⟩ := shows
  cases isLive : page.isLive with
  | false =>
    rw [Page.applyLiveEvent_of_not_live _ isLive]
    refine ⟨before, count, reached.trans (Nat.le_succ _), made, same, fun now => ?_⟩
    rw [isLive] at now
    cases now
  | true =>
    obtain ⟨rfl, whole⟩ := live isLive
    obtain ⟨inside, found⟩ := List.getElem?_eq_some_iff.mp next
    have taken : connection.emitted.take (connection.delivered + 1) =
        connection.emitted.take connection.delivered ++ [event] := by
      rw [List.take_succ_eq_append_getElem inside, found]
    have longer : page.applyLiveEvent (event.map jsNumber) =
        Page.stream connection.url (connection.emitted.take (connection.delivered + 1)) before := by
      rw [taken, Page.stream, List.map_append, List.foldl_append, whole]
      rfl
    refine ⟨before, connection.delivered + 1, Nat.le_refl _, inside, ?_, fun _ => ⟨rfl, longer⟩⟩
    rw [← longer]

/-! ### The connections that are over -/

/-- A connection of which something is still to come is the last, if the earlier ones are over. -/
def Settled (app : App) : Prop :=
  ∀ id connection, app.connections[id]? = some connection → id + 1 < app.connections.length →
    connection.Over

/-- **What holds of an application where every connect was orderly.** -/
structure Sound (app : App) : Prop where
  owner : ∀ id, app.shown = some id → id + 1 = app.connections.length
  live : app.page.isLive = true → app.shown ≠ none ∧ app.loading = 0
  settled : app.Settled
  shows : ∀ id connection, app.shown = some id → app.connections[id]? = some connection →
    Shows app.page connection

theorem last_of_not_over {app : App} (settled : app.Settled) {id : ℕ} {connection : Connection}
    (found : app.connections[id]? = some connection) (active : ¬ connection.Over) :
    id + 1 = app.connections.length := by
  obtain ⟨inside, -⟩ := List.getElem?_eq_some_iff.mp found
  have last : ¬ id + 1 < app.connections.length :=
    fun before => active (settled id connection found before)
  omega

/-- A page that is live shows the connection of which something is still to come. -/
theorem Sound.shown_of_active {app : App} (sound : app.Sound) {id : ℕ} {connection : Connection}
    (found : app.connections[id]? = some connection) (active : ¬ connection.Over)
    (live : app.page.isLive = true) : app.shown = some id := by
  obtain ⟨shown, is⟩ := Option.ne_none_iff_exists'.mp (sound.live live).1
  have last := last_of_not_over sound.settled found active
  have owner := sound.owner shown is
  rw [is, show shown = id by omega]

/-- One connection changes, and the page with it only if something of it was still to come. -/
theorem Sound.set {app : App} (sound : app.Sound) {id : ℕ} {connection after : Connection} {page : Page}
    (found : app.connections[id]? = some connection)
    (stays : connection.Over → after.Over ∧ page = app.page)
    (shows : Shows app.page connection → Shows page after)
    (live : page.isLive = true → app.page.isLive = true) :
    Sound { app with page, connections := app.connections.set id after } := by
  obtain ⟨inside, -⟩ := List.getElem?_eq_some_iff.mp found
  constructor
  · intro shown is
    rw [List.length_set]
    exact sound.owner shown is
  · exact fun isLive => sound.live (live isLive)
  · intro other connection' found' before
    rw [List.length_set] at before
    by_cases same : id = other
    · subst same
      rw [List.getElem?_set_self inside] at found'
      obtain rfl := Option.some.inj found'
      exact (stays (sound.settled id connection found before)).1
    · rw [List.getElem?_set_ne same] at found'
      exact sound.settled other connection' found' before
  · intro shown connection' is found'
    by_cases same : id = shown
    · subst same
      rw [List.getElem?_set_self inside] at found'
      obtain rfl := Option.some.inj found'
      exact shows (sound.shows id connection is found)
    · rw [List.getElem?_set_ne same] at found'
      have unchanged : page = app.page := by
        by_cases active : connection.Over
        · exact (stays active).2
        · have last := last_of_not_over sound.settled found active
          have owner := sound.owner shown is
          omega
      rw [unchanged]
      exact sound.shows shown connection' is found'

/-! ### What one move changes -/

/-- A move of one connection: what it does to the connection and to the page. -/
inductive Touch (page : Page) (connection : Connection) (id : ℕ) (move : Move) :
    Connection → Page → Prop
  | run (outcome : Outcome) (is : move = .run id outcome) (invoked : connection.command = .invoked) :
      Touch page connection id move (connection.run outcome) page
  | resolve (is : move = .resolve id) (answered : connection.command = .answered true) :
      Touch page connection id move { connection with command := .settled } page
  | fail (is : move = .resolve id) (answered : connection.command = .answered false) :
      Touch page connection id move { connection with command := .settled } page.connectFailed
  | emit (event : LiveEvent UInt64) (running : connection.running = true) (still : Bool)
      (quiet : ∀ other, move ≠ .deliver other) :
      Touch page connection id move
        { connection with running := still, emitted := connection.emitted ++ [event] } page
  | deliver (event : LiveEvent UInt64) (is : move = .deliver id)
      (next : connection.emitted[connection.delivered]? = some event) :
      Touch page connection id move { connection with delivered := connection.delivered + 1 }
        (page.applyLiveEvent (event.map jsNumber))

/-- **What one move changes.** -/
inductive Effect (before : App) (move : Move) (after : App) : Prop
  | idle (quiet : ∀ other, move ≠ .deliver other) (page : after.page = before.page)
      (shown : after.shown = before.shown) (loading : after.loading = before.loading)
      (connections : after.connections = before.connections)
  | openFile (is : move = .openFile)
      (same : after = { before with page := before.page.startLoading, loading := before.loading + 1 })
  | loaded (result : Except LoadError (SessionData UInt64)) (is : move = .loaded result)
      (pending : before.loading ≠ 0) (page : after.page = before.page.finishLoading result)
      (shown : after.shown = none ∨ after.shown = before.shown ∧ after.page = before.page)
      (connections : after.connections = before.connections)
  | connect (url : String) (is : move = .connect url)
      (same : after = { before with
        page := before.page.connectLive url
        shown := some before.connections.length
        connections := before.connections ++ [{ url }] })
      (live : after.page.isLive = true)
  | touch (id : ℕ) (connection touched : Connection)
      (found : before.connections[id]? = some connection)
      (touches : Touch before.page connection id move touched after.page)
      (shown : after.shown = before.shown) (loading : after.loading = before.loading)
      (connections : after.connections = before.connections.set id touched)

theorem effect_of_step {before after : App} {move : Move} (moved : before.step move = some after) :
    Effect before move after := by
  cases move with
  | openFile =>
    cases moved
    exact .openFile rfl rfl
  | loaded result =>
    rw [step] at moved
    split at moved
    · cases moved
    · rename_i pending
      cases result with
      | error error =>
        cases moved
        exact .loaded _ rfl pending rfl (.inr ⟨rfl, rfl⟩) rfl
      | ok data =>
        cases moved
        exact .loaded _ rfl pending rfl (.inl rfl) rfl
  | connect url =>
    rw [step] at moved
    split at moved
    · rename_i empty
      cases moved
      refine .idle (fun _ is => by cases is) ?_ rfl rfl rfl
      show before.page.connectLive url = before.page
      rw [Page.connectLive, if_pos empty]
    · rename_i named
      cases moved
      refine .connect url rfl rfl ?_
      show (before.page.connectLive url).isLive = true
      rw [Page.connectLive, if_neg named]
  | disconnect =>
    cases moved
    exact .idle (fun _ is => by cases is) rfl rfl rfl rfl
  | run id outcome =>
    rw [step] at moved
    split at moved
    · rename_i connection found
      split at moved
      · rename_i invoked
        cases outcome with
        | refused | unheld | connected =>
          cases moved
          exact .touch id connection _ found (.run _ rfl invoked) rfl rfl rfl
      · cases moved
    · cases moved
  | resolve id =>
    rw [step] at moved
    split at moved
    · rename_i connection found
      split at moved
      · rename_i ok answered
        cases ok with
        | true =>
          cases moved
          exact .touch id connection _ found (.resolve rfl answered) rfl rfl rfl
        | false =>
          cases moved
          exact .touch id connection _ found (.fail rfl answered) rfl rfl rfl
      · cases moved
    · cases moved
  | frame id frame =>
    rw [step] at moved
    split at moved
    · rename_i connection found
      split at moved
      · rename_i running
        cases moved
        exact .touch id connection _ found
          (.emit _ running connection.running (fun _ is => by cases is)) rfl rfl rfl
      · cases moved
    · cases moved
  | hangUp id reason =>
    rw [step] at moved
    split at moved
    · rename_i connection found
      split at moved
      · rename_i running
        cases moved
        exact .touch id connection _ found (.emit _ running false (fun _ is => by cases is)) rfl rfl rfl
      · cases moved
    · cases moved
  | deliver id =>
    rw [step] at moved
    split at moved
    · rename_i connection found
      split at moved
      · rename_i event next
        cases moved
        exact .touch id connection _ found (.deliver event rfl next) rfl rfl rfl
      · cases moved
    · cases moved

section Touch

variable {page page' : Page} {connection touched : Connection} {id : ℕ} {move : Move}

/-- A connection that is over changes nothing any more. -/
theorem Touch.stays (touches : Touch page connection id move touched page')
    (over' : connection.Over) : touched.Over ∧ page' = page := by
  obtain ⟨command, stopped, heard⟩ := over'
  cases touches with
  | run outcome is invoked =>
    rw [invoked] at command
    simp at command
  | resolve is answered => exact ⟨⟨by simp, stopped, heard⟩, rfl⟩
  | fail is answered =>
    rw [answered] at command
    simp at command
  | emit event running =>
    rw [running] at stopped
    cases stopped
  | deliver event is next =>
    obtain ⟨inside, -⟩ := List.getElem?_eq_some_iff.mp next
    omega

theorem Touch.shows (touches : Touch page connection id move touched page')
    (shows : Shows page connection) : Shows page' touched := by
  cases touches with
  | run outcome is invoked =>
    cases outcome with
    | refused => exact shows.grow rfl (List.prefix_refl _) rfl
    | unheld | connected => exact shows.grow rfl (List.prefix_append _ _) rfl
  | resolve is answered => exact shows.grow rfl (List.prefix_refl _) rfl
  | fail is answered => exact shows.clear.grow rfl (List.prefix_refl _) rfl
  | emit event running => exact shows.grow rfl (List.prefix_append _ _) rfl
  | deliver event is next => exact shows.deliver next

/-- Nothing that a connection does makes the page live. -/
theorem Touch.live (touches : Touch page connection id move touched page')
    (live : page'.isLive = true) : page.isLive = true := by
  cases touches with
  | fail is answered => cases live
  | deliver event is next =>
    by_contra still
    rw [Page.applyLiveEvent_of_not_live _ (Bool.not_eq_true _ ▸ still)] at live
    exact still live
  | _ => exact live

/-- Only its end or its failure clears `isLive`. -/
theorem Touch.cleared (touches : Touch page connection id move touched page')
    (live : page.isLive = true) (cleared : page'.isLive = false) :
    move = .resolve id ∨ ∃ reason, move = .deliver id ∧
      connection.emitted[connection.delivered]? = some (.disconnected reason) := by
  cases touches with
  | fail is answered => exact .inl is
  | deliver event is next =>
    by_cases ends : ∃ reason, event = .disconnected reason
    · obtain ⟨reason, rfl⟩ := ends
      exact .inr ⟨reason, is, next⟩
    · have goes : ∀ reason, event.map jsNumber ≠ .disconnected reason := by
        intro reason same
        cases event with
        | disconnected reason' => exact ends ⟨reason', rfl⟩
        | _ => cases same
      rw [Page.applyLiveEvent_isLive goes, live] at cleared
      cases cleared
  | _ =>
    rw [live] at cleared
    cases cleared

/-- A page that is not live takes no event. -/
theorem Touch.deliver_still (touches : Touch page connection id move touched page') {other : ℕ}
    (is : move = .deliver other) : other = id ∧ (page.isLive = false → page' = page) := by
  cases touches with
  | deliver event is' next =>
    refine ⟨Move.deliver.inj (is.symm.trans is'), fun still => ?_⟩
    exact Page.applyLiveEvent_of_not_live _ still
  | emit event running still quiet => exact absurd is (quiet other)
  | run outcome is' => cases is.symm.trans is'
  | resolve is' => cases is.symm.trans is'
  | fail is' => cases is.symm.trans is'

end Touch

/-! ### Over whole runs -/

theorem Sound.start : Sound {} where
  owner := fun id is => by cases is
  live := fun live => by cases live
  settled := fun id connection found => by cases found
  shows := fun id connection is => by cases is

/-- What is sound depends on four fields. -/
theorem Sound.congr {app other : App} (sound : app.Sound) (page : other.page = app.page)
    (shown : other.shown = app.shown) (loading : other.loading = app.loading)
    (connections : other.connections = app.connections) : other.Sound := by
  obtain ⟨owner, live, settled, shows⟩ := sound
  refine ⟨?_, ?_, ?_, ?_⟩
  · rwa [shown, connections]
  · rwa [page, shown, loading]
  · rwa [Settled, connections]
  · rwa [page, shown, connections]

theorem Sound.step {before after : App} {move : Move} (sound : before.Sound)
    (orderly : Orderly before move) (moved : before.step move = some after) : after.Sound := by
  cases effect_of_step moved with
  | idle quiet page shown loading connections => exact sound.congr page shown loading connections
  | openFile is same =>
    subst same
    refine ⟨sound.owner, (fun live => by cases live), sound.settled, fun id connection shown found => ?_⟩
    exact (sound.shows id connection shown found).clear
  | loaded result is pending page shown connections =>
    -- While a load is pending, the page is not live.
    have still : after.page.isLive ≠ true := by
      rw [page, Page.finishLoading_isLive]
      exact fun live => pending (sound.live live).2
    have settled : after.Settled := by
      rw [Settled, connections]
      exact sound.settled
    rcases shown with none | ⟨shown, unchanged⟩
    · refine ⟨fun id is => ?_, fun live => absurd live still, settled, fun id connection is => ?_⟩
      all_goals rw [none] at is
      all_goals cases is
    · refine ⟨?_, fun live => absurd live still, settled, ?_⟩
      · rw [shown, connections]
        exact sound.owner
      · rw [shown, connections, unchanged]
        exact sound.shows
  | connect url is same live =>
    subst is
    obtain ⟨noLoad, earlier⟩ := orderly
    subst same
    refine ⟨fun id is => ?_, fun _ => ⟨by simp, noLoad⟩, fun id connection found inside => ?_,
      fun id connection is found => ?_⟩
    · obtain rfl := Option.some.inj is
      rw [List.length_append]
      rfl
    · rw [List.length_append] at inside
      have old : id < before.connections.length := Nat.lt_of_succ_lt_succ inside
      rw [List.getElem?_append_left old] at found
      exact earlier connection (List.mem_of_getElem? found)
    · obtain rfl := Option.some.inj is
      rw [List.getElem?_concat_length] at found
      obtain rfl := Option.some.inj found
      exact Shows.fresh url before.page
  | touch id connection touched found touches shown loading connections =>
    have sound' := sound.set found touches.stays touches.shows touches.live
    exact sound'.congr rfl shown loading connections

/-- **What a move does to the page of a sound application.** -/
theorem Sound.keepsApart {before after : App} {move : Move} (sound : before.Sound)
    (moved : before.step move = some after) : KeepsApart before move after := by
  cases effect_of_step moved with
  | idle quiet page shown loading connections =>
    refine ⟨fun live cleared => ?_, fun id is => absurd is (quiet id)⟩
    rw [page, live] at cleared
    cases cleared
  | openFile is same =>
    subst is
    exact ⟨fun _ _ => .inl rfl, fun id is => by cases is⟩
  | loaded result is pending page shown connections =>
    subst is
    refine ⟨fun live => absurd (sound.live live).2 pending, fun id is => by cases is⟩
  | connect url is same live =>
    subst is
    refine ⟨fun _ cleared => ?_, fun id is => by cases is⟩
    rw [live] at cleared
    cases cleared
  | touch id connection touched found touches shown loading connections =>
    refine ⟨fun live cleared => .inr ⟨id, ?_, ?_⟩, fun other is foreign => ?_⟩
    · refine sound.shown_of_active found (fun isOver => ?_) live
      rw [(touches.stays isOver).2, live] at cleared
      cases cleared
    · rw [nextEvent, found]
      exact touches.cleared live cleared
    · obtain ⟨rfl, still⟩ := touches.deliver_still is
      by_cases isOver : connection.Over
      · exact (touches.stays isOver).2
      · refine still (Bool.eq_false_iff.mpr fun live => ?_)
        exact foreign (sound.shown_of_active found isOver live)

/-- **A live view under every order of moves.** If a connect is made only when no load is pending and
no earlier connection can reach the page again, then the session of a connection is made of its own
events, `isLive` is cleared only by its own end or failure or by a load, and no event changes what
another source shows. -/
theorem live_view_of_orderly (app : App) (reachable : Relation.ReflTransGen OrderlyStep {} app) :
    FromOneConnection app ∧
      ∀ move after, app.step move = some after → KeepsApart app move after := by
  have sound : app.Sound := by
    induction reachable with
    | refl => exact Sound.start
    | tail _ moved ih =>
      obtain ⟨move, orderly, moved⟩ := moved
      exact ih.step orderly moved
  refine ⟨fun id is => ?_, fun move after moved => sound.keepsApart moved⟩
  have owner := sound.owner id is
  obtain ⟨connection, found⟩ : ∃ connection, app.connections[id]? = some connection :=
    ⟨_, List.getElem?_eq_getElem (by omega)⟩
  obtain ⟨before, count, -, -, same, -⟩ := sound.shows id connection is found
  exact ⟨connection, before, connection.emitted.take count, found, List.take_prefix _ _, same⟩

/-- A connect after a connection that has ended. -/
def reconnecting : List Move :=
  [.connect "ws://a", .run 0 (.connected 60 2 "07"), .deliver 0, .resolve 0, .hangUp 0 "closed",
    .deliver 0, .connect "ws://b", .run 1 (.connected 30 2 "08"), .deliver 1,
    .frame 1 (.snapshot 5 0 []), .deliver 1]

theorem live_view_of_orderly_reconnecting : ∃ app : App, reconnecting.foldlM step {} = some app ∧
    app.shown = some 1 ∧ FromOneConnection app := by
  have possible : (reconnecting.foldlM step {}).isSome := by decide
  obtain ⟨app, ran⟩ := Option.isSome_iff_exists.mp possible
  have ordered : reconnecting.foldlM (fun before move =>
      if Orderly before move then step before move else none) {} = reconnecting.foldlM step {} := by
    decide
  have orderly : Relation.ReflTransGen OrderlyStep {} app := by
    refine reflTransGen_of_foldlM (fun before move after moved => ?_) (ordered.trans ran)
    split at moved
    · rename_i orderly
      exact ⟨move, orderly, moved⟩
    · cases moved
  have shown : (reconnecting.foldlM step {}).map App.shown = some (some 1) := by decide
  rw [ran] at shown
  exact ⟨app, ran, Option.some.inj shown, (live_view_of_orderly app orderly).1⟩

/-- A connect while the first connection still streams. -/
def overlapping : List Move :=
  [.connect "ws://a", .run 0 (.connected 60 2 "07"), .resolve 0, .connect "ws://b",
    .run 1 (.connected 30 2 "08"), .resolve 1, .deliver 0, .frame 0 (.snapshot 5 0 []), .deliver 0]

/-- The second session holds a snapshot of the first connection. -/
theorem live_view_mixed :
    ∃ app : App, Relation.ReflTransGen Step {} app ∧ ¬ FromOneConnection app := by
  have possible : (overlapping.foldlM step {}).isSome := by decide
  obtain ⟨app, ran⟩ := Option.isSome_iff_exists.mp possible
  have shown : (overlapping.foldlM step {}).map App.shown = some (some 1) := by decide
  have second : (overlapping.foldlM step {}).map (fun app => app.connections[1]?) =
      some (some ⟨"ws://b", .settled, true, [.hello 30 2 "08"], 0⟩) := by decide
  have ticks : (overlapping.foldlM step {}).map (fun app => app.page.session.map
      SessionData.snapshotTicks) = some (some [5]) := by decide
  rw [ran, Option.map_some, Option.some.injEq] at shown second ticks
  refine ⟨app, reflTransGen_of_foldlM (fun before move after moved => ⟨move, moved⟩) ran, fun one => ?_⟩
  obtain ⟨connection, page, events, found, front, same⟩ := one 1 shown
  obtain rfl := Option.some.inj (found.symm.trans second)
  -- What the second connection has emitted brings no snapshot.
  have none : (Page.stream "ws://b" events page).session.map SessionData.snapshotTicks = some [] := by
    rcases List.prefix_cons_iff.mp front with rfl | ⟨rest, rfl, left⟩
    · rfl
    · rw [List.prefix_nil.mp left]
      rfl
  rw [same] at ticks
  cases none.symm.trans ticks

end App

end Foldback
