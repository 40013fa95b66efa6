/-
**The page and its screen, over every run.**

* `Viewer`: the app of `Connections` with what is on the screen. A click selects a tick; a load, a
  connect and a click draw everything, an event draws what the script draws for it. A move whose drawing
  never ends is none, and what is thrown while drawing is caught by no one.
* `Page.Consistent`: the selected tick is between the first and the last, the tables are those of the
  lists, and a divergence that is named has two listed hashes. `consistent_of_advance`: every move keeps it.
* `screen_follows`: **the screen is what `render` would draw**, but for the two hints, which may not yet
  know the latest snapshots, entities and fields. Below the list of peers this is so for sessions whose
  snapshots can be spread; a move goes on forever only from `2 ^ 53 - 1` on.
-/

import Foldback.Ui.Connections
import Foldback.Ui.Panels

namespace Foldback

/-! ### The screen -/

/-- The drill-down is drawn if its tick is selected. -/
def Page.redrawDrilldown (page : Page) (tick : ℕ) : Drawing Unit :=
  if page.selectedTick = some tick then page.showDrilldown else return

/-- What `applyLiveEvent` draws, on the page it leaves. -/
def Page.redraw (spread : ℕ) (page : Page) : LiveEvent ℕ → Drawing Unit
  | .hello .. => page.showTopbar
  | .tickHash _ => page.render spread
  | .entityHash entry => page.redrawDrilldown entry.tick
  | .fieldHash entry => page.redrawDrilldown entry.tick
  | .snapshot _ => page.showTimeline
  | .metadata => page.showSessionHint
  | .endOfStream => page.showSessionHint
  | .disconnected _ => return

/-- An event that is dropped draws nothing. -/
def Page.drawEvent (spread : ℕ) (before : Page) (event : LiveEvent ℕ) : Drawing Unit :=
  match before.isLive, before.session with
  | true, some _ => (before.applyLiveEvent event).redraw spread event
  | _, _ => return

structure Viewer where
  app : App := {}
  screen : Screen := {}
  deriving DecidableEq

namespace Viewer

inductive Move
  | app (move : App.Move)
  | select (tick : ℕ)

/-- The app after a move, if it can happen. -/
def advance (viewer : Viewer) : Move → Option App
  | .app move => viewer.app.step move
  | .select tick => some { viewer.app with page := viewer.app.page.selectTick tick }

/-- What a move draws, `after` being the app it leaves. -/
def draw (spread : ℕ) (before after : App) : Move → Drawing Unit
  | .app (.loaded (.ok _)) => after.page.render spread
  | .app (.connect url) => if url = "" then return else after.page.render spread
  | .app (.deliver id) =>
    match before.nextEvent id with
    | some event => before.page.drawEvent spread (event.map jsNumber)
    | none => return
  | .select _ => if before.page.session = none then return else after.page.render spread
  | _ => return

/-- One move, if it can happen and its drawing ends. -/
def step (spread : ℕ) (viewer : Viewer) (move : Move) : Option Viewer := do
  let app ← viewer.advance move
  let screen ← (draw spread viewer.app app move).drawnOn viewer.screen
  return ⟨app, screen⟩

/-- What `load_session` answers is what `load` returns. -/
def Fed : Move → Prop
  | .app (.loaded result) => ∃ path fileName opened, result = load path fileName opened
  | _ => True

def Step (spread : ℕ) (before after : Viewer) : Prop :=
  ∃ move, Fed move ∧ step spread before move = some after

/-- Everything that can happen to a page. -/
def Reachable (spread : ℕ) (viewer : Viewer) : Prop := Relation.ReflTransGen (Step spread) {} viewer

theorem step_eq_some_iff {spread : ℕ} {before after : Viewer} {move : Move} :
    before.step spread move = some after ↔ before.advance move = some after.app ∧
      (draw spread before.app after.app move).drawnOn before.screen = some after.screen := by
  have unfolded : before.step spread move = (before.advance move).bind fun app =>
      ((draw spread before.app app move).drawnOn before.screen).bind fun screen =>
        some ⟨app, screen⟩ := rfl
  rw [unfolded, Option.bind_eq_some_iff]
  constructor
  · rintro ⟨app, advanced, moved⟩
    obtain ⟨screen, drawn, same⟩ := Option.bind_eq_some_iff.mp moved
    cases same
    exact ⟨advanced, drawn⟩
  · rintro ⟨advanced, drawn⟩
    exact ⟨after.app, advanced, Option.bind_eq_some_iff.mpr ⟨after.screen, drawn, rfl⟩⟩

end Viewer

/-! ### The page -/

/-- A session on the page: its tables, its first and its last tick, and its divergence. -/
structure Page.Coherent (page : Page) (session : SessionData ℕ) : Prop where
  indexed : page.Indexed session
  selected : ∃ tick, page.selectedTick = some tick ∧ session.minTick ≤ tick ∧ tick ≤ session.maxTick
  ordered : session.minTick ≤ session.maxTick
  listed : ∀ entry ∈ session.tickHashes,
    session.minTick ≤ entry.tick ∧ entry.tick ≤ session.maxTick
  differs : ∀ tick, session.divergenceTick = some tick → ∃ entry ∈ session.tickHashes,
    ∃ other ∈ session.tickHashes, entry.tick = tick ∧ other.tick = tick ∧ entry.hash ≠ other.hash

/-- **The invariant of the page.** -/
def Page.Consistent (page : Page) : Prop := ∀ session, page.session = some session → page.Coherent session

section Coherent

variable {page : Page} {session : SessionData ℕ}

theorem Page.Coherent.within (coherent : page.Coherent session) {tick : ℕ}
    (named : session.divergenceTick = some tick) : session.minTick ≤ tick ∧ tick ≤ session.maxTick := by
  obtain ⟨entry, member, -, -, rfl, -⟩ := coherent.differs tick named
  exact coherent.listed entry member

/-- Two pages that differ in `isLive` and `followLatest` at most. -/
structure Page.Alike (one other : Page) : Prop where
  session : one.session = other.session
  byTick : one.byTick = other.byTick
  entityByTick : one.entityByTick = other.entityByTick
  fieldByTick : one.fieldByTick = other.fieldByTick
  selectedTick : one.selectedTick = other.selectedTick

theorem Page.Alike.of_eq {one other : Page} (same : one = other) : one.Alike other := by
  subst same
  exact ⟨rfl, rfl, rfl, rfl, rfl⟩

theorem Page.Consistent.alike (consistent : page.Consistent) {other : Page} (alike : other.Alike page) :
    other.Consistent := by
  intro data shown
  rw [alike.session] at shown
  obtain ⟨⟨ticks, entities, fields⟩, within, ordered, listed, differs⟩ := consistent data shown
  rw [← alike.byTick] at ticks
  rw [← alike.entityByTick] at entities
  rw [← alike.fieldByTick] at fields
  rw [← alike.selectedTick] at within
  exact ⟨⟨ticks, entities, fields⟩, within, ordered, listed, differs⟩

/-- A fresh session. -/
theorem Page.Consistent.connectLive (consistent : page.Consistent) (url : String) :
    (page.connectLive url).Consistent := by
  unfold Page.connectLive
  split
  · exact consistent
  · intro session shown
    cases shown
    exact ⟨⟨rfl, rfl, rfl⟩, ⟨0, rfl, le_rfl, le_rfl⟩, le_rfl, fun entry member => (by cases member),
      fun tick named => (by cases named)⟩

/-- A click. -/
theorem Page.Consistent.selectTick (consistent : page.Consistent) (tick : ℕ) :
    (page.selectTick tick).Consistent := by
  intro session shown
  rcases present : page.session with _ | data
  · rw [Page.selectTick, present] at shown
    cases present.symm.trans shown
  · have coherent := consistent data present
    rw [Page.selectTick, present] at shown ⊢
    obtain rfl : data = session := Option.some.inj shown
    exact ⟨⟨coherent.indexed.byTick, coherent.indexed.entityByTick, coherent.indexed.fieldByTick⟩,
      ⟨_, rfl, le_max_left _ _, max_le coherent.ordered (min_le_left _ _)⟩, coherent.ordered,
      coherent.listed, coherent.differs⟩

/-- A report. -/
theorem Page.Coherent.applyTickHash (coherent : page.Coherent session) (entry : TickHashEntry ℕ) :
    (page.applyTickHash session entry).Consistent := by
  intro data shown
  have table : page.byTick.add entry = (session.tickHashes ++ [entry]).foldl TickTable.add .empty := by
    rw [List.foldl_append, List.foldl_cons, List.foldl_nil, ← coherent.indexed.byTick]
  have ordered : min session.minTick entry.tick ≤ max session.maxTick entry.tick :=
    (min_le_right _ _).trans (le_max_right _ _)
  cases shown
  refine ⟨⟨table, coherent.indexed.entityByTick, coherent.indexed.fieldByTick⟩, ?_, ordered,
    fun other member => ?_, fun tick named => ?_⟩
  · show ∃ tick, (if page.followLatest then some (max session.maxTick entry.tick) else
        page.selectedTick) = some tick ∧ _
    split
    · exact ⟨_, rfl, ordered, le_rfl⟩
    · obtain ⟨tick, is, least, most⟩ := coherent.selected
      exact ⟨tick, is, (min_le_left _ _).trans least, most.trans (le_max_left _ _)⟩
  · rcases List.mem_append.mp member with before | last
    · have bounds := coherent.listed other before
      exact ⟨(min_le_left _ _).trans bounds.1, bounds.2.trans (le_max_left _ _)⟩
    · rw [List.mem_singleton.mp last]
      exact ⟨min_le_right _ _, le_max_right _ _⟩
  · dsimp only at named
    split at named
    · rename_i first
      cases named
      have differ := first.2
      rw [table, tickAgrees_eq_false_iff] at differ
      obtain ⟨peerId, hash, peerId', hash', at_, at', differs⟩ := differ
      rw [hashAt_foldl] at at_ at'
      obtain ⟨one, member, atTick, rfl⟩ := mem_of_lastHash at_
      obtain ⟨other, member', atTick', rfl⟩ := mem_of_lastHash at'
      exact ⟨one, member, other, member', atTick, atTick', differs⟩
    · obtain ⟨one, member, other, member', facts⟩ := coherent.differs tick named
      exact ⟨one, List.mem_append_left _ member, other, List.mem_append_left _ member', facts⟩

/-- An event. -/
theorem Page.Consistent.applyLiveEvent (consistent : page.Consistent) (event : LiveEvent ℕ) :
    (page.applyLiveEvent event).Consistent := by
  rcases live : page.isLive with _ | _
  · rw [Page.applyLiveEvent_of_not_live event live]
    exact consistent
  · rcases shown : page.session with _ | session
    · rw [Page.applyLiveEvent, live, shown]
      exact consistent
    · have coherent := consistent session shown
      obtain ⟨⟨ticks, entities, fields⟩, within, ordered, listed, differs⟩ := coherent
      rw [Page.applyLiveEvent, live, shown]
      cases event with
      | tickHash entry => exact (consistent session shown).applyTickHash entry
      | entityHash entry =>
        intro data is
        cases is
        refine ⟨⟨ticks, ?_, fields⟩, within, ordered, listed, differs⟩
        rw [List.foldl_append, ← entities]
        rfl
      | fieldHash entry =>
        intro data is
        cases is
        refine ⟨⟨ticks, entities, ?_⟩, within, ordered, listed, differs⟩
        rw [List.foldl_append, ← fields]
        rfl
      | disconnected reason => exact consistent.alike ⟨shown.symm, rfl, rfl, rfl, rfl⟩
      | _ =>
        intro data is
        cases is
        exact ⟨⟨ticks, entities, fields⟩, within, ordered, listed, differs⟩

end Coherent

/-! ### A file -/

/-- What `load` answers was gathered from frames. -/
theorem exists_frames_of_load {path : String} {fileName : Option String}
    {opened : Except IoError Bytes} {data : SessionData UInt64}
    (loaded : load path fileName opened = .ok data) :
    ∃ header frames, data = (Loading.ofFrames frames).finish (fileName.getD path) header := by
  rw [load] at loaded
  rcases read : loadRecording (LoadError.wrap path) opened with error | ⟨header, frames⟩
  · rw [read] at loaded
    cases loaded
  · rw [read] at loaded
    cases loaded
    exact ⟨header, frames, rfl⟩

/-- A running maximum exceeds its start and what it has met. -/
theorem le_foldl_max (ticks : List UInt64) (start : UInt64) :
    start ≤ ticks.foldl max start ∧ ∀ tick ∈ ticks, tick ≤ ticks.foldl max start := by
  induction ticks generalizing start with
  | nil => exact ⟨UInt64.le_refl start, fun tick member => (by cases member)⟩
  | cons first rest ih =>
    obtain ⟨above, each⟩ := ih (max start first)
    have least : start ≤ max start first ∧ first ≤ max start first := by
      simp only [UInt64.le_iff_toNat_le, toNat_max]
      exact ⟨le_max_left _ _, le_max_right _ _⟩
    refine ⟨UInt64.le_trans least.1 above, fun tick member => ?_⟩
    rcases List.mem_cons.mp member with rfl | later
    · exact UInt64.le_trans least.2 above
    · exact each tick later

/-- The running minimum and maximum of the reports' ticks bound them. -/
theorem tick_within {frames : List Frame} {record : TickHashRecord} (member : record ∈ recordsOf frames) :
    (Loading.ofFrames frames).minTick ≤ record.tick ∧ record.tick ≤ (Loading.ofFrames frames).maxTick := by
  have gathered : Loading.ofFrames frames = _ := foldl_add frames {}
  have inside := List.mem_map_of_mem (f := TickHashRecord.tick) member
  rw [gathered]
  constructor
  · have isMin : ((0xFFFFFFFFFFFFFFFF : UInt64) :: (recordsOf frames).map TickHashRecord.tick).min? =
      some _ := List.min?_cons'
    exact (List.min?_eq_some_iff.mp isMin).2 _ (List.mem_cons_of_mem _ inside)
  · exact (le_foldl_max _ 0).2 _ inside

/-- The first tick of the data. -/
def firstTick (loading : Loading) : UInt64 :=
  if loading.minTick = 0xFFFFFFFFFFFFFFFF then 0 else loading.minTick

theorem firstTick_le (loading : Loading) : firstTick loading ≤ loading.minTick := by
  unfold firstTick
  split
  · exact UInt64.zero_le
  · exact UInt64.le_refl _

/-- **A file loads as a consistent page**, whatever was shown before. -/
theorem Page.Consistent.finishLoading {page : Page} (consistent : page.Consistent) (path : String)
    (fileName : Option String) (opened : Except IoError Bytes) :
    (page.finishLoading (load path fileName opened)).Consistent := by
  rcases loaded : load path fileName opened with error | data
  · exact consistent
  · obtain ⟨header, frames, rfl⟩ := exists_frames_of_load loaded
    obtain ⟨snapshotTicks, -, same⟩ := finish_eq (fileName.getD path) header (Loading.ofFrames frames)
    have records : (Loading.ofFrames frames).tickRecords = recordsOf frames :=
      congrArg Loading.tickRecords (foldl_add frames {})
    have hashes : (Loading.ofFrames frames).tickHashes = (recordsOf frames).map TickHashRecord.toEntry :=
      congrArg Loading.tickHashes (foldl_add frames {})
    have listed : ∀ entry ∈ (recordsOf frames).map TickHashRecord.toEntry,
        jsNumber (firstTick (Loading.ofFrames frames)) ≤ jsNumber entry.tick ∧
          jsNumber entry.tick ≤ jsNumber (Loading.ofFrames frames).maxTick := by
      intro entry member
      obtain ⟨record, inside, rfl⟩ := List.mem_map.mp member
      obtain ⟨least, most⟩ := tick_within inside
      exact ⟨jsNumber_mono (UInt64.le_trans (firstTick_le _) least), jsNumber_mono most⟩
    have contradicted : ∀ tick, findFirstDivergence (recordsOf frames) = some ⟨tick⟩ →
        ∃ entry ∈ (recordsOf frames).map TickHashRecord.toEntry,
          ∃ other ∈ (recordsOf frames).map TickHashRecord.toEntry,
            entry.tick = tick ∧ other.tick = tick ∧ entry.hash ≠ other.hash := by
      intro tick found
      obtain ⟨one, member, other, member', atTick, atTick', differs⟩ :=
        ((findFirstDivergence_eq_some_iff _ tick).mp found).1
      exact ⟨_, List.mem_map_of_mem member, _, List.mem_map_of_mem member', atTick, atTick',
        fun same => differs (hex_injective same)⟩
    have ordered : jsNumber (firstTick (Loading.ofFrames frames)) ≤
        jsNumber (Loading.ofFrames frames).maxTick := by
      rcases none : recordsOf frames with _ | ⟨record, rest⟩
      · have gathered : Loading.ofFrames frames = _ := foldl_add frames {}
        rw [none] at gathered
        rw [gathered]
        show jsNumber (if (0xFFFFFFFFFFFFFFFF : UInt64) = 0xFFFFFFFFFFFFFFFF then 0 else _) ≤ _
        rw [if_pos rfl]
        exact le_rfl
      · obtain ⟨least, most⟩ := tick_within (none ▸ List.mem_cons_self : record ∈ recordsOf frames)
        exact jsNumber_mono (UInt64.le_trans (firstTick_le _) (UInt64.le_trans least most))
    rw [← hashes] at listed contradicted
    rw [← records] at contradicted
    rw [same]
    intro session shown
    cases shown
    have differs : ∀ tick, ((findFirstDivergence (Loading.ofFrames frames).tickRecords).map
        DivergenceTick.tick).map jsNumber = some tick →
        ∃ entry ∈ (Loading.ofFrames frames).tickHashes.map (TickHashEntry.map jsNumber),
          ∃ other ∈ (Loading.ofFrames frames).tickHashes.map (TickHashEntry.map jsNumber),
            entry.tick = tick ∧ other.tick = tick ∧ entry.hash ≠ other.hash := by
      intro tick named
      obtain ⟨number, found, rfl⟩ := Option.map_eq_some_iff.mp named
      obtain ⟨⟨_⟩, first, rfl⟩ := Option.map_eq_some_iff.mp found
      obtain ⟨one, member, other, member', atTick, atTick', apart⟩ := contradicted _ first
      exact ⟨_, List.mem_map_of_mem member, _, List.mem_map_of_mem member', congrArg jsNumber atTick,
        congrArg jsNumber atTick', apart⟩
    have within : ∀ entry ∈ (Loading.ofFrames frames).tickHashes.map (TickHashEntry.map jsNumber),
        jsNumber (firstTick (Loading.ofFrames frames)) ≤ entry.tick ∧
          entry.tick ≤ jsNumber (Loading.ofFrames frames).maxTick := by
      intro entry member
      obtain ⟨loaded, inside, rfl⟩ := List.mem_map.mp member
      exact listed loaded inside
    have chosen : ∀ divergence : Option ℕ, (∀ tick, divergence = some tick →
        jsNumber (firstTick (Loading.ofFrames frames)) ≤ tick ∧
          tick ≤ jsNumber (Loading.ofFrames frames).maxTick) →
        jsNumber (firstTick (Loading.ofFrames frames)) ≤
            divergence.getD (jsNumber (Loading.ofFrames frames).maxTick) ∧
          divergence.getD (jsNumber (Loading.ofFrames frames).maxTick) ≤
            jsNumber (Loading.ofFrames frames).maxTick := by
      rintro (_ | tick) bounds
      · exact ⟨ordered, le_rfl⟩
      · exact bounds tick rfl
    refine ⟨⟨rfl, rfl, rfl⟩, ⟨_, rfl, chosen _ fun tick named => ?_⟩, ordered, within, differs⟩
    obtain ⟨entry, member, -, -, rfl, -⟩ := differs tick named
    exact within entry member

/-! ### What a move does to the page -/

namespace App

/-- The page after a move. -/
def pageAfter (before : App) : Move → Page
  | .openFile => before.page.startLoading
  | .loaded result => before.page.finishLoading result
  | .connect url => before.page.connectLive url
  | .resolve id =>
    if (before.connections[id]?.map Connection.command) = some (.answered false) then
      before.page.connectFailed
    else before.page
  | .deliver id =>
    match before.nextEvent id with
    | some event => before.page.applyLiveEvent (event.map jsNumber)
    | none => before.page
  | _ => before.page

theorem page_of_step {before after : App} {move : Move} (moved : before.step move = some after) :
    after.page = before.pageAfter move := by
  cases move with
  | openFile =>
    cases moved
    rfl
  | loaded result =>
    rw [step] at moved
    split at moved
    · cases moved
    · cases result with
      | error | ok =>
        cases moved
        rfl
  | connect url =>
    rw [step] at moved
    split at moved
    · cases moved
      rfl
    · cases moved
      rfl
  | disconnect =>
    cases moved
    rfl
  | run id outcome =>
    rw [step] at moved
    split at moved
    · split at moved
      · cases outcome with
        | refused | unheld | connected =>
          cases moved
          rfl
      · cases moved
    · cases moved
  | resolve id =>
    rw [step] at moved
    split at moved
    · rename_i connection found
      split at moved
      · rename_i ok answered
        have command : before.connections[id]?.map Connection.command = some (.answered ok) := by
          rw [found, Option.map_some, answered]
        cases ok with
        | true | false =>
          cases moved
          simp [pageAfter, command, setConnection]
      · cases moved
    · cases moved
  | frame id frame =>
    rw [step] at moved
    split at moved
    · split at moved
      · cases moved
        rfl
      · cases moved
    · cases moved
  | hangUp id reason =>
    rw [step] at moved
    split at moved
    · split at moved
      · cases moved
        rfl
      · cases moved
    · cases moved
  | deliver id =>
    rw [step] at moved
    split at moved
    · rename_i connection found
      split at moved
      · rename_i event next
        have named : before.nextEvent id = some event := by rw [nextEvent, found, Option.bind_some, next]
        cases moved
        rw [pageAfter, named]
        rfl
      · cases moved
    · cases moved

end App

/-- The page after a move. -/
def Viewer.pageAfter (viewer : Viewer) : Viewer.Move → Page
  | .app move => viewer.app.pageAfter move
  | .select tick => viewer.app.page.selectTick tick

theorem Viewer.page_of_advance {viewer : Viewer} {move : Viewer.Move} {app : App}
    (moved : viewer.advance move = some app) : app.page = viewer.pageAfter move := by
  cases move with
  | app move => exact App.page_of_step moved
  | select tick =>
    cases moved
    rfl

/-- **Every move keeps the page consistent.** -/
theorem consistent_of_advance {viewer : Viewer} {move : Viewer.Move} {app : App}
    (consistent : viewer.app.page.Consistent) (fed : Viewer.Fed move)
    (moved : viewer.advance move = some app) : app.page.Consistent := by
  rw [Viewer.page_of_advance moved]
  cases move with
  | select tick => exact consistent.selectTick tick
  | app move =>
    rw [Viewer.pageAfter]
    cases move with
    | openFile => exact consistent.alike ⟨rfl, rfl, rfl, rfl, rfl⟩
    | loaded result =>
      obtain ⟨path, fileName, opened, rfl⟩ := fed
      exact consistent.finishLoading path fileName opened
    | connect url => exact consistent.connectLive url
    | resolve id =>
      rw [App.pageAfter]
      split
      · exact consistent.alike ⟨rfl, rfl, rfl, rfl, rfl⟩
      · exact consistent
    | deliver id =>
      rw [App.pageAfter]
      split
      · exact consistent.applyLiveEvent _
      · exact consistent
    | _ => exact consistent

/-! ### What a drawing does -/

namespace Drawing

variable {α β : Type} {first : Drawing α} {next : α → Drawing β} {screen middle : Screen}

theorem run_bind_ok {value : α} (ran : first.run.run screen = some (.ok value, middle)) :
    (first >>= next).run.run screen = (next value).run.run middle := by
  show (first.run.run screen).bind _ = _
  rw [ran]
  rfl

theorem run_bind_error {thrown : Thrown} (ran : first.run.run screen = some (.error thrown, middle)) :
    (first >>= next).run.run screen = some (.error thrown, middle) := by
  show (first.run.run screen).bind _ = _
  rw [ran]
  rfl

theorem run_bind_none (ran : first.run.run screen = none) :
    (first >>= next).run.run screen = none := by
  show (first.run.run screen).bind _ = _
  rw [ran]
  rfl

theorem drawnOn_none {drawing : Drawing Unit} (ran : drawing.run.run screen = none) :
    drawing.drawnOn screen = none := by
  rw [drawnOn, ran]
  rfl

theorem drawnOn_of_run {drawing : Drawing Unit} {result : Except Thrown Unit}
    (ran : drawing.run.run screen = some (result, middle)) : drawing.drawnOn screen = some middle := by
  rw [drawnOn, ran]
  rfl

end Drawing

namespace Page

variable (spread : ℕ) {page : Page} {session : SessionData ℕ} {tick : ℕ}
  (shown : page.session = some session) (selected : page.selectedTick = some tick) (screen : Screen)

section Shown

include shown

theorem run_showTopbar : page.showTopbar.run.run screen =
    some (.ok (), { screen with topbar := some (renderTopbar session) }) := by
  unfold showTopbar
  rw [shown]
  rfl

theorem run_showSessionHint : page.showSessionHint.run.run screen =
    some (.ok (), { screen with sessionHint := some (renderSessionHint session) }) := by
  unfold showSessionHint
  rw [shown]
  rfl

include selected

theorem run_showTimeline : page.showTimeline.run.run screen =
    (renderTimeline session tick).map fun timeline =>
      (.ok (), { screen with timeline := some timeline }) := by
  unfold showTimeline
  rw [shown, selected]
  show (do
    let timeline ← (renderTimeline session tick : Option Timeline)
    modify fun screen => { screen with timeline := some timeline } : Drawing Unit).run.run screen = _
  cases renderTimeline session tick
  all_goals rfl

/-- The list of peers is drawn before the hint can throw. -/
theorem run_showPeers : (page.showPeers spread).run.run screen =
    some ((renderAgreementHint spread session page.byTick).map fun _ => (),
      { screen with
        peers := some (renderPeerRows page.byTick tick)
        hint := (renderAgreementHint spread session page.byTick).toOption.or screen.hint }) := by
  unfold showPeers
  rw [shown, selected]
  show (do
    modify fun screen => { screen with peers := some (renderPeerRows page.byTick tick) }
    let hint ← (renderAgreementHint spread session page.byTick : Except Thrown AgreementHint)
    modify fun screen => { screen with hint := some hint } : Drawing Unit).run.run screen = _
  cases renderAgreementHint spread session page.byTick
  all_goals rfl

end Shown

include selected

theorem renderDrilldown_isSome : ∃ drilldown, page.renderDrilldown = some drilldown := by
  rw [renderDrilldown, selected]
  exact ⟨_, rfl⟩

theorem run_showDrilldown : page.showDrilldown.run.run screen =
    some (.ok (), { screen with drilldown := page.renderDrilldown }) := by
  obtain ⟨drilldown, opened⟩ := renderDrilldown_isSome selected
  unfold showDrilldown
  rw [opened]
  rfl

include shown

/-- **A full `render`** draws everything, or what stands before the hint that throws. -/
theorem run_render {timeline : Timeline} (timed : renderTimeline session tick = some timeline) :
    (∀ hint, renderAgreementHint spread session page.byTick = .ok hint →
      (page.render spread).run.run screen = some (.ok (), {
        topbar := some (renderTopbar session)
        timeline := some timeline
        peers := some (renderPeerRows page.byTick tick)
        hint := some hint
        sessionHint := some (renderSessionHint session)
        drilldown := page.renderDrilldown })) ∧
      ∀ thrown, renderAgreementHint spread session page.byTick = .error thrown →
        (page.render spread).run.run screen = some (.error thrown, { screen with
          topbar := some (renderTopbar session)
          timeline := some timeline
          peers := some (renderPeerRows page.byTick tick) }) := by
  have topbar := run_showTopbar shown screen
  have track := run_showTimeline shown selected
    { screen with topbar := some (renderTopbar session) }
  rw [timed] at track
  have peers := run_showPeers spread shown selected
    { screen with topbar := some (renderTopbar session), timeline := some timeline }
  constructor
  · intro hint told
    rw [told] at peers
    rw [render, Drawing.run_bind_ok topbar, Drawing.run_bind_ok track, Drawing.run_bind_ok peers,
      Drawing.run_bind_ok (run_showSessionHint shown _), run_showDrilldown selected]
    rfl
  · intro thrown told
    rw [told] at peers
    rw [render, Drawing.run_bind_ok topbar, Drawing.run_bind_ok track, Drawing.run_bind_error peers]
    rfl

/-- Otherwise the labels never end. -/
theorem run_render_none (never : renderTimeline session tick = none) :
    (page.render spread).run.run screen = none := by
  have track := run_showTimeline shown selected
    { screen with topbar := some (renderTopbar session) }
  rw [never] at track
  rw [render, Drawing.run_bind_ok (run_showTopbar shown screen), Drawing.run_bind_none track]

end Page

/-! ### What is on the screen -/

/-- What stands below the list of peers: the hint may miss the latest snapshots, and the session hint
the latest snapshots, entity hashes and field hashes. -/
structure FollowsBelow (spread : ℕ) (page : Page) (session : SessionData ℕ) (screen : Screen) :
    Prop where
  drilldown : screen.drilldown = page.renderDrilldown
  hint : ∃ snapshotTicks hint, snapshotTicks <+: session.snapshotTicks ∧ screen.hint = some hint ∧
    renderAgreementHint spread { session with snapshotTicks } page.byTick = .ok hint
  sessionHint : ∃ snapshotTicks entityHashes fieldHashes, snapshotTicks <+: session.snapshotTicks ∧
    entityHashes <+: session.entityHashes ∧ fieldHashes <+: session.fieldHashes ∧
    screen.sessionHint =
      some (renderSessionHint { session with snapshotTicks, entityHashes, fieldHashes })

/-- **The screen follows the page**, below the list of peers if the snapshots can be spread. -/
structure Follows (spread : ℕ) (page : Page) (session : SessionData ℕ) (screen : Screen) : Prop where
  topbar : screen.topbar = some (renderTopbar session)
  timeline : ∀ tick, page.selectedTick = some tick →
    ∃ timeline, renderTimeline session tick = some timeline ∧ screen.timeline = some timeline
  peers : ∀ tick, page.selectedTick = some tick →
    screen.peers = some (renderPeerRows page.byTick tick)
  below : session.snapshotTicks.length ≤ spread → FollowsBelow spread page session screen

section Follows

variable {spread : ℕ} {page : Page} {session : SessionData ℕ} {screen after : Screen}

/-- **A full `render` draws everything**, but for what stands below a hint that throws. -/
theorem Page.Coherent.render (coherent : page.Coherent session) (shown : page.session = some session)
    (drawn : (page.render spread).drawnOn screen = some after) : Follows spread page session after := by
  obtain ⟨tick, selected, -⟩ := coherent.selected
  rcases timed : renderTimeline session tick with _ | timeline
  · have hangs := Page.run_render_none spread shown selected screen timed
    cases drawn.symm.trans (Drawing.drawnOn_none hangs)
  · obtain ⟨whole, partly⟩ := Page.run_render spread shown selected screen timed
    rcases told : renderAgreementHint spread session page.byTick with thrown | hint
    · cases drawn.symm.trans (Drawing.drawnOn_of_run (partly thrown told))
      refine ⟨rfl, fun other is => ?_, fun other is => ?_, fun few => ?_⟩
      · cases selected.symm.trans is
        exact ⟨timeline, timed, rfl⟩
      · cases selected.symm.trans is
        rfl
      · obtain ⟨hint, told'⟩ := renderAgreementHint_isOk few page.byTick
        cases told.symm.trans told'
    · cases drawn.symm.trans (Drawing.drawnOn_of_run (whole hint told))
      refine ⟨rfl, fun other is => ?_, fun other is => ?_, fun few => ⟨rfl,
        ⟨_, hint, List.prefix_rfl, rfl, told⟩,
        ⟨_, _, _, List.prefix_rfl, List.prefix_rfl, List.prefix_rfl, rfl⟩⟩⟩
      · cases selected.symm.trans is
        exact ⟨timeline, timed, rfl⟩
      · cases selected.symm.trans is
        rfl

theorem Follows.alike (follows : Follows spread page session screen) {other : Page}
    (alike : other.Alike page) : Follows spread other session screen := by
  obtain ⟨topbar, timeline, peers, below⟩ := follows
  have same : other.renderDrilldown = page.renderDrilldown := by
    rw [Page.renderDrilldown, Page.renderDrilldown, alike.entityByTick, alike.fieldByTick,
      alike.selectedTick]
  rw [← alike.selectedTick] at timeline peers
  rw [← alike.byTick] at peers
  refine ⟨topbar, timeline, peers, fun few => ?_⟩
  obtain ⟨drilldown, hint, sessionHint⟩ := below few
  rw [← same] at drilldown
  rw [← alike.byTick] at hint
  exact ⟨drilldown, hint, sessionHint⟩

/-- The drill-down of a tick depends on the entries of that tick. -/
theorem renderDrilldown_congr {other : Page} (selected : other.selectedTick = page.selectedTick)
    (entities : ∀ tick, page.selectedTick = some tick →
      other.entityByTick.get? tick = page.entityByTick.get? tick)
    (fields : ∀ tick, page.selectedTick = some tick →
      other.fieldByTick.get? tick = page.fieldByTick.get? tick) :
    other.renderDrilldown = page.renderDrilldown := by
  rw [Page.renderDrilldown, Page.renderDrilldown, selected]
  rcases is : page.selectedTick with _ | tick
  · rfl
  · rw [Option.map_some, Option.map_some, entities tick is, fields tick is]

/-- After it is drawn, or if nothing at its tick has changed, the drill-down is the page's. -/
theorem redrawDrilldown_drawnOn (other : Page) {tick selected : ℕ}
    (is : other.selectedTick = some selected)
    (same : other.selectedTick ≠ some tick → other.renderDrilldown = page.renderDrilldown)
    (drawn : (other.redrawDrilldown tick).drawnOn screen = some after) :
    ∃ drilldown, after = { screen with drilldown } ∧
      (screen.drilldown = page.renderDrilldown → drilldown = other.renderDrilldown) := by
  by_cases here : other.selectedTick = some tick
  · rw [Page.redrawDrilldown, if_pos here,
      Drawing.drawnOn_of_run (Page.run_showDrilldown is screen)] at drawn
    cases drawn
    exact ⟨_, rfl, fun _ => rfl⟩
  · rw [Page.redrawDrilldown, if_neg here] at drawn
    cases drawn
    exact ⟨screen.drilldown, rfl, fun before => before.trans (same here).symm⟩

/-- Entities and fields arrive, and the drill-down is drawn. -/
theorem FollowsBelow.arrive (below : FollowsBelow spread page session screen) {other : Page}
    {drilldown : Option Drilldown} (drawn : drilldown = other.renderDrilldown)
    (table : other.byTick = page.byTick) {entities : List (EntityHashEntry ℕ)}
    {fields : List (FieldHashEntry ℕ)} (moreEntities : session.entityHashes <+: entities)
    (moreFields : session.fieldHashes <+: fields) :
    FollowsBelow spread other { session with entityHashes := entities, fieldHashes := fields }
      { screen with drilldown } := by
  obtain ⟨-, ⟨snaps, hint, early, shows, told⟩, snaps', entities', fields', early', earlyEntities,
    earlyFields, written⟩ := below
  rw [← table] at told
  exact ⟨drawn, ⟨snaps, hint, early, shows, told⟩, snaps', entities', fields', early',
    earlyEntities.trans moreEntities, earlyFields.trans moreFields, written⟩

/-- **After an event the screen follows the page again.** -/
theorem Follows.applyLiveEvent (consistent : page.Consistent) (live : page.isLive = true)
    (shown : page.session = some session) (follows : Follows spread page session screen)
    (event : LiveEvent ℕ)
    (drawn : ((page.applyLiveEvent event).redraw spread event).drawnOn screen = some after) :
    ∃ now, (page.applyLiveEvent event).session = some now ∧
      Follows spread (page.applyLiveEvent event) now after := by
  obtain ⟨topbar, timeline, peers, below⟩ := follows
  have coherent := consistent session shown
  obtain ⟨tick, selected, -⟩ := coherent.selected
  rw [Page.applyLiveEvent, live, shown] at drawn ⊢
  cases event with
  | hello tickRateHz peerCount buildId =>
    have drawn' := drawn.symm.trans (Drawing.drawnOn_of_run (Page.run_showTopbar rfl screen))
    cases drawn'
    refine ⟨_, rfl, rfl, timeline, peers, fun few => ?_⟩
    obtain ⟨drilldown, hint, sessionHint⟩ := below few
    exact ⟨drilldown, hint, sessionHint⟩
  | tickHash entry => exact ⟨_, rfl, (coherent.applyTickHash entry _ rfl).render rfl drawn⟩
  | entityHash entry =>
    let reached : Page :=
      { page with
        isLive := true
        session := some { session with entityHashes := session.entityHashes ++ [entry] }
        entityByTick := page.entityByTick.add entry }
    have elsewhere : reached.selectedTick ≠ some entry.tick →
        reached.renderDrilldown = page.renderDrilldown := fun apart =>
      renderDrilldown_congr rfl (fun other is => InsertionMap.get?_upsert_of_ne _
        (fun same => apart (is.trans (congrArg some same))) _ _) fun other is => rfl
    obtain ⟨drilldown, rfl, renders⟩ := redrawDrilldown_drawnOn reached selected elsewhere drawn
    refine ⟨_, rfl, topbar, timeline, peers, fun few => ?_⟩
    exact (below few).arrive (renders (below few).drilldown) rfl (List.prefix_append _ _)
      List.prefix_rfl
  | fieldHash entry =>
    let reached : Page :=
      { page with
        isLive := true
        session := some { session with fieldHashes := session.fieldHashes ++ [entry] }
        fieldByTick := page.fieldByTick.add entry }
    have elsewhere : reached.selectedTick ≠ some entry.tick →
        reached.renderDrilldown = page.renderDrilldown := fun apart =>
      renderDrilldown_congr rfl (fun other is => rfl) fun other is =>
        InsertionMap.get?_upsert_of_ne _ (fun same => apart (is.trans (congrArg some same))) _ _
    obtain ⟨drilldown, rfl, renders⟩ := redrawDrilldown_drawnOn reached selected elsewhere drawn
    refine ⟨_, rfl, topbar, timeline, peers, fun few => ?_⟩
    exact (below few).arrive (renders (below few).drilldown) rfl List.prefix_rfl
      (List.prefix_append _ _)
  | snapshot other =>
    let now := { session with snapshotTicks := session.snapshotTicks ++ [other] }
    let reached : Page := { page with isLive := true, session := some now }
    have present : reached.session = some now := rfl
    have chosen : reached.selectedTick = some tick := selected
    have track := Page.run_showTimeline present chosen screen
    rcases timed : renderTimeline now tick with _ | drew
    · rw [timed] at track
      cases drawn.symm.trans (Drawing.drawnOn_none track)
    · rw [timed] at track
      cases drawn.symm.trans (Drawing.drawnOn_of_run track)
      refine ⟨now, rfl, topbar, fun tick' is => ?_, peers, fun few => ?_⟩
      · cases selected.symm.trans is
        exact ⟨drew, timed, rfl⟩
      · have fewer : session.snapshotTicks.length ≤ spread := by
          refine le_trans ?_ few
          rw [List.length_append]
          exact Nat.le_add_right _ _
        obtain ⟨opened, ⟨snaps, hint, early, told⟩, snaps', entities, fields, early', rest⟩ :=
          below fewer
        exact ⟨opened, ⟨snaps, hint, early.trans (List.prefix_append _ _), told⟩, snaps', entities,
          fields, early'.trans (List.prefix_append _ _), rest⟩
  | metadata | endOfStream =>
    have drawn' := drawn.symm.trans (Drawing.drawnOn_of_run (Page.run_showSessionHint rfl screen))
    cases drawn'
    refine ⟨_, rfl, topbar, timeline, peers, fun few => ?_⟩
    obtain ⟨drilldown, hint, -⟩ := below few
    exact ⟨drilldown, hint, _, _, _, List.prefix_rfl, List.prefix_rfl, List.prefix_rfl, rfl⟩
  | disconnected reason =>
    cases drawn
    refine ⟨session, rfl, topbar, timeline, peers, fun few => ?_⟩
    obtain ⟨drilldown, hint, sessionHint⟩ := below few
    exact ⟨drilldown, hint, sessionHint⟩

end Follows

/-! ### Every run -/

/-- **The invariant of the page and its screen.** -/
structure Viewer.Inv (spread : ℕ) (viewer : Viewer) : Prop where
  consistent : viewer.app.page.Consistent
  blank : viewer.app.page.session = none → viewer.screen = {}
  follows : ∀ session, viewer.app.page.session = some session →
    Follows spread viewer.app.page session viewer.screen

namespace Viewer.Inv

variable {spread : ℕ} {viewer : Viewer}

theorem start : Viewer.Inv spread {} where
  consistent session shown := by cases shown
  blank _ := rfl
  follows session shown := by cases shown

/-- Everything was drawn. -/
theorem drawn {page : Page} (consistent : page.Consistent) {app : App} (is : app.page = page)
    {session : SessionData ℕ} (shown : page.session = some session) {screen after : Screen}
    (drawn : (app.page.render spread).drawnOn screen = some after) : Viewer.Inv spread ⟨app, after⟩ := by
  subst is
  refine ⟨consistent, fun none => ?_, fun other is => ?_⟩
  · cases none.symm.trans shown
  · exact (consistent other is).render is drawn

/-- Nothing was drawn, and nothing that is drawn has changed. -/
theorem quiet (inv : viewer.Inv spread) {app : App} (alike : app.page.Alike viewer.app.page) :
    Viewer.Inv spread ⟨app, viewer.screen⟩ := by
  refine ⟨inv.consistent.alike alike, fun none => ?_, fun data shown => ?_⟩
  · exact inv.blank (alike.session ▸ none)
  · exact (inv.follows data (alike.session ▸ shown)).alike alike

/-- An event that reached the page was drawn. -/
theorem event (inv : viewer.Inv spread) (event : LiveEvent ℕ) {app : App} {after : Screen}
    (is : app.page = viewer.app.page.applyLiveEvent event)
    (drawn : (viewer.app.page.drawEvent spread event).drawnOn viewer.screen = some after) :
    Viewer.Inv spread ⟨app, after⟩ := by
  unfold Page.drawEvent at drawn
  split at drawn
  · rename_i session live shown
    obtain ⟨now, present, follows⟩ :=
      (inv.follows session shown).applyLiveEvent inv.consistent live shown event drawn
    rw [← is] at present follows
    refine ⟨is ▸ inv.consistent.applyLiveEvent event, fun none => ?_, fun other same => ?_⟩
    · cases none.symm.trans present
    · cases present.symm.trans same
      exact follows
  · rename_i dropped
    have same : viewer.app.page.applyLiveEvent event = viewer.app.page := by
      unfold Page.applyLiveEvent
      split
      · rename_i session live shown
        exact absurd shown (dropped session live)
      · rfl
    cases drawn
    exact inv.quiet (.of_eq (is.trans same))

/-- **Every move keeps the invariant.** -/
theorem step (inv : viewer.Inv spread) {after : Viewer} {move : Viewer.Move} (fed : Viewer.Fed move)
    (moved : viewer.step spread move = some after) : after.Inv spread := by
  obtain ⟨app, screen⟩ := after
  obtain ⟨advanced, drew⟩ := Viewer.step_eq_some_iff.mp moved
  dsimp only at advanced drew
  have consistent := consistent_of_advance inv.consistent fed advanced
  have page := Viewer.page_of_advance advanced
  have unchanged : app.page = viewer.app.page → screen = viewer.screen →
      Viewer.Inv spread ⟨app, screen⟩ := by
    rintro same rfl
    exact inv.quiet (.of_eq same)
  have setLive : ∀ isLive, app.page = { viewer.app.page with isLive } → screen = viewer.screen →
      Viewer.Inv spread ⟨app, screen⟩ := by
    rintro isLive same rfl
    refine inv.quiet ?_
    rw [same]
    exact ⟨rfl, rfl, rfl, rfl, rfl⟩
  have still : ∀ {drawing : Drawing Unit}, drawing = pure () →
      drawing.drawnOn viewer.screen = some screen → screen = viewer.screen := by
    rintro _ rfl kept
    cases kept
    rfl
  cases move with
  | select tick =>
    rw [Viewer.pageAfter] at page
    rcases shown : viewer.app.page.session with _ | session
    · have same : viewer.app.page.selectTick tick = viewer.app.page := by rw [Page.selectTick, shown]
      exact unchanged (page.trans same) (still (if_pos shown) drew)
    · have selected : app.page.session = some session := by
        rw [page, Page.selectTick, shown]
      have whole : (app.page.render spread).drawnOn viewer.screen = some screen := by
        rw [← drew, Viewer.draw, if_neg (by rw [shown]; exact Option.some_ne_none _)]
      exact drawn consistent rfl selected whole
  | app move =>
    rw [Viewer.pageAfter] at page
    cases move with
    | openFile => exact setLive false page (still rfl drew)
    | loaded result =>
      cases result with
      | error error => exact unchanged page (still rfl drew)
      | ok data => exact drawn consistent rfl (congrArg Page.session page) drew
    | connect url =>
      rw [App.pageAfter, Page.connectLive] at page
      rw [Viewer.draw] at drew
      by_cases empty : url = ""
      · rw [if_pos empty] at page
        exact unchanged page (still (if_pos empty) drew)
      · rw [if_neg empty] at page drew
        exact drawn consistent rfl (congrArg Page.session page) drew
    | resolve id =>
      rw [App.pageAfter] at page
      split at page
      · exact setLive false page (still rfl drew)
      · exact unchanged page (still rfl drew)
    | deliver id =>
      rw [App.pageAfter] at page
      rw [Viewer.draw] at drew
      rcases next : viewer.app.nextEvent id with _ | event
      · rw [next] at page drew
        exact unchanged page (still rfl drew)
      · rw [next] at page drew
        exact inv.event _ page drew
    | _ => exact unchanged page (still rfl drew)

theorem reachable {viewer : Viewer} (reachable : viewer.Reachable spread) : viewer.Inv spread := by
  induction reachable with
  | refl => exact start
  | tail _ moved ih =>
    obtain ⟨move, fed, moved⟩ := moved
    exact ih.step fed moved

end Viewer.Inv

/-! ### Drawings that end -/

section Ends

variable (spread : ℕ) {page : Page} {session : SessionData ℕ}

theorem Page.Coherent.renderTimeline_isSome (coherent : page.Coherent session)
    (small : session.maxTick + 1 < 2 ^ 53) (tick : ℕ) :
    ∃ timeline, renderTimeline session tick = some timeline := by
  obtain ⟨labels, ends⟩ := drawTimeline_isSome coherent.ordered small
  exact ⟨_, by rw [renderTimeline, ends]; rfl⟩

theorem Page.Coherent.render_ends (coherent : page.Coherent session)
    (shown : page.session = some session) (small : session.maxTick + 1 < 2 ^ 53) (screen : Screen) :
    ∃ result after, (page.render spread).run.run screen = some (result, after) ∧
      (session.snapshotTicks.length ≤ spread → result = .ok ()) := by
  obtain ⟨tick, selected, -⟩ := coherent.selected
  obtain ⟨timeline, timed⟩ := coherent.renderTimeline_isSome small tick
  obtain ⟨whole, partly⟩ := Page.run_render spread shown selected screen timed
  rcases told : renderAgreementHint spread session page.byTick with thrown | hint
  · refine ⟨_, _, partly thrown told, fun few => ?_⟩
    obtain ⟨hint, told'⟩ := renderAgreementHint_isOk few page.byTick
    cases told.symm.trans told'
  · exact ⟨_, _, whole hint told, fun _ => rfl⟩

theorem Page.Coherent.redraw_ends (coherent : page.Coherent session)
    (shown : page.session = some session) (small : session.maxTick + 1 < 2 ^ 53) (event : LiveEvent ℕ)
    (screen : Screen) : ∃ after, (page.redraw spread event).drawnOn screen = some after := by
  obtain ⟨tick, selected, -⟩ := coherent.selected
  have drilldown : ∀ at_, ∃ after, (page.redrawDrilldown at_).drawnOn screen = some after := by
    intro at_
    by_cases here : page.selectedTick = some at_
    · rw [Page.redrawDrilldown, if_pos here]
      exact ⟨_, Drawing.drawnOn_of_run (Page.run_showDrilldown selected screen)⟩
    · rw [Page.redrawDrilldown, if_neg here]
      exact ⟨screen, rfl⟩
  cases event with
  | hello => exact ⟨_, Drawing.drawnOn_of_run (Page.run_showTopbar shown screen)⟩
  | tickHash entry =>
    obtain ⟨result, after, ran, -⟩ := coherent.render_ends spread shown small screen
    exact ⟨after, Drawing.drawnOn_of_run ran⟩
  | entityHash entry => exact drilldown entry.tick
  | fieldHash entry => exact drilldown entry.tick
  | snapshot other =>
    obtain ⟨timeline, timed⟩ := coherent.renderTimeline_isSome small tick
    have track := Page.run_showTimeline shown selected screen
    rw [timed] at track
    exact ⟨_, Drawing.drawnOn_of_run track⟩
  | metadata | endOfStream =>
    exact ⟨_, Drawing.drawnOn_of_run (Page.run_showSessionHint shown screen)⟩
  | disconnected reason => exact ⟨screen, rfl⟩

/-- A session that is shown stays. -/
theorem Page.applyLiveEvent_session (live : page.isLive = true) (shown : page.session = some session)
    (event : LiveEvent ℕ) : ∃ now, (page.applyLiveEvent event).session = some now := by
  rw [Page.applyLiveEvent, live, shown]
  cases event with
  | disconnected reason => exact ⟨session, rfl⟩
  | _ => exact ⟨_, rfl⟩

/-- An event is drawn to the end, or dropped. -/
theorem Page.Consistent.drawEvent_ends (event : LiveEvent ℕ)
    (consistent : (page.applyLiveEvent event).Consistent)
    (small : ∀ session, (page.applyLiveEvent event).session = some session →
      session.maxTick + 1 < 2 ^ 53) (screen : Screen) :
    ∃ after, (page.drawEvent spread event).drawnOn screen = some after := by
  rw [Page.drawEvent]
  rcases live : page.isLive with _ | _
  · exact ⟨screen, rfl⟩
  · rcases shown : page.session with _ | session
    · exact ⟨screen, rfl⟩
    · obtain ⟨now, present⟩ := Page.applyLiveEvent_session live shown event
      exact (consistent now present).redraw_ends spread present (small now present) event screen

variable {spread} in
/-- **A move that is possible ends**, if the ticks that it leaves are below `2 ^ 53 - 1`. -/
theorem Viewer.Inv.ends {viewer : Viewer} (inv : viewer.Inv spread) {move : Viewer.Move} {app : App}
    (fed : Viewer.Fed move) (advanced : viewer.advance move = some app)
    (small : ∀ session, app.page.session = some session → session.maxTick + 1 < 2 ^ 53) :
    ∃ screen, viewer.step spread move = some ⟨app, screen⟩ := by
  have consistent := consistent_of_advance inv.consistent fed advanced
  have page := Viewer.page_of_advance advanced
  have drawn : ∀ screen, (Viewer.draw spread viewer.app app move).drawnOn viewer.screen = some screen →
      ∃ screen, viewer.step spread move = some ⟨app, screen⟩ := fun screen drew =>
    ⟨screen, Viewer.step_eq_some_iff.mpr ⟨advanced, drew⟩⟩
  have still : Viewer.draw spread viewer.app app move = pure () →
      ∃ screen, viewer.step spread move = some ⟨app, screen⟩ := by
    intro nothing
    refine drawn viewer.screen ?_
    rw [nothing]
    rfl
  have whole : Viewer.draw spread viewer.app app move = app.page.render spread →
      ∀ session, app.page.session = some session →
        ∃ screen, viewer.step spread move = some ⟨app, screen⟩ := by
    intro everything session shown
    obtain ⟨result, after, ran, -⟩ := (consistent session shown).render_ends spread shown
      (small session shown) viewer.screen
    refine drawn after ?_
    rw [everything]
    exact Drawing.drawnOn_of_run ran
  cases move with
  | select tick =>
    rw [Viewer.pageAfter] at page
    rcases shown : viewer.app.page.session with _ | session
    · exact still (if_pos shown)
    · refine whole (if_neg (by rw [shown]; exact Option.some_ne_none _)) session ?_
      rw [page, Page.selectTick, shown]
  | app move =>
    rw [Viewer.pageAfter] at page
    cases move with
    | loaded result =>
      cases result with
      | error error => exact still rfl
      | ok data => exact whole rfl _ (congrArg Page.session page)
    | connect url =>
      by_cases empty : url = ""
      · exact still (if_pos empty)
      · rw [App.pageAfter, Page.connectLive, if_neg empty] at page
        exact whole (if_neg empty) _ (congrArg Page.session page)
    | deliver id =>
      rw [App.pageAfter] at page
      rcases next : viewer.app.nextEvent id with _ | event
      · refine still ?_
        rw [Viewer.draw, next]
      · have applied : app.page = viewer.app.page.applyLiveEvent (event.map jsNumber) := by
          rw [page, next]
        have drew : Viewer.draw spread viewer.app app (.app (.deliver id)) =
            viewer.app.page.drawEvent spread (event.map jsNumber) := by rw [Viewer.draw, next]
        rw [applied] at consistent small
        obtain ⟨after, ends⟩ := consistent.drawEvent_ends spread _ small viewer.screen
        exact drawn after (by rw [drew, ends])
    | _ => exact still rfl

end Ends

/-- **The screen follows the page in every run**, whatever files are opened, connections are made and
lost and ticks are clicked, in any order. Nothing is drawn before there is a session. The selected tick
is between the first and the last, the tables are those of the session's lists, and a divergence that is
named has two listed hashes. The topbar, the timeline and the peers are what `render` would draw now. If
the session's snapshots can be spread over arguments, so is what stands below, but for snapshots,
entities and fields that the hints do not know yet, and no `render` throws. A move ends if the ticks are
below `2 ^ 53 - 1`. -/
theorem screen_follows (spread : ℕ) (viewer : Viewer) (reachable : viewer.Reachable spread) :
    (viewer.app.page.session = none → viewer.screen = {}) ∧
      (∀ session, viewer.app.page.session = some session → viewer.app.page.Coherent session ∧
        Follows spread viewer.app.page session viewer.screen ∧
        (session.snapshotTicks.length ≤ spread → session.maxTick + 1 < 2 ^ 53 →
          ∃ drawn, (viewer.app.page.render spread).run.run viewer.screen = some (.ok (), drawn))) ∧
      ∀ move app, Viewer.Fed move → viewer.advance move = some app →
        (∀ session, app.page.session = some session → session.maxTick + 1 < 2 ^ 53) →
        ∃ screen, viewer.step spread move = some ⟨app, screen⟩ := by
  have inv := Viewer.Inv.reachable reachable
  refine ⟨inv.blank, fun session shown => ⟨inv.consistent session shown, inv.follows session shown,
    fun few small => ?_⟩, fun move app fed advanced small => inv.ends fed advanced small⟩
  obtain ⟨result, drawn, ran, ok⟩ :=
    (inv.consistent session shown).render_ends spread shown small viewer.screen
  rw [ok few] at ran
  exact ⟨drawn, ran⟩

/-! ### A run -/

/-- Two peers report ticks 0 and 3 and differ at tick 3; then comes a snapshot. -/
def watching : List Viewer.Move :=
  [.app (.connect "ws://a"), .app (.run 0 (.connected 60 2 "07")), .app (.deliver 0), .app (.resolve 0),
    .app (.frame 0 (.tickHash 0 0 7)), .app (.deliver 0), .app (.frame 0 (.tickHash 0 1 7)),
    .app (.deliver 0), .app (.frame 0 (.tickHash 3 0 7)), .app (.deliver 0),
    .app (.frame 0 (.tickHash 3 1 8)), .app (.deliver 0), .app (.frame 0 (.snapshot 2 0 [])),
    .app (.deliver 0)]

/-- The snapshot is in the session and on the track; the hint does not know it yet. -/
theorem screen_follows_watching : ∃ viewer session,
    watching.foldlM (Viewer.step 65536) {} = some viewer ∧ viewer.app.page.session = some session ∧
      Follows 65536 viewer.app.page session viewer.screen ∧
      viewer.screen.hint = some (.firstDivergence 3 (some 0) none) ∧
      viewer.screen.timeline.map Timeline.snapshotTicks = some [2] := by
  have possible : (watching.foldlM (Viewer.step 65536) {}).isSome := by decide +kernel
  obtain ⟨viewer, ran⟩ := Option.isSome_iff_exists.mp possible
  have reachable : viewer.Reachable 65536 :=
    Machine.reflTransGen_of_allowed (fun before move after fed moved => ⟨move, fed, moved⟩)
      (by simp [watching, Viewer.Fed]) ran
  have present : ((watching.foldlM (Viewer.step 65536) {}).bind (·.app.page.session)).isSome := by
    decide +kernel
  rw [ran] at present
  obtain ⟨session, shown⟩ := Option.isSome_iff_exists.mp present
  have follows := ((screen_follows 65536 viewer reachable).2.1 session shown).2.1
  have seen : (watching.foldlM (Viewer.step 65536) {}).map (fun viewer =>
      (viewer.screen.hint, viewer.screen.timeline.map Timeline.snapshotTicks)) =
        some (some (.firstDivergence 3 (some 0) none), some [2]) := by decide +kernel
  rw [ran, Option.map_some] at seen
  obtain ⟨hint, track⟩ := Prod.mk.injEq .. |>.mp (Option.some.inj seen)
  exact ⟨viewer, session, ran, shown, follows, hint, track⟩

end Foldback
