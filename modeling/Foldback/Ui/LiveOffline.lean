/-
**Live and offline views of the same frames.**

The page shows a file through `loadPath` and a stream through `applyLiveEvent`, one event at a time.

* `LiveView`: what the page has gathered after a list of frames; `LiveView.apply` is one event,
  `liveView` a whole stream.
* The two views differ in two places. The live `min_tick` starts at 0 and never leaves it; the live
  `divergence_tick` is that of the first arrival after which two peers' latest reports for its tick
  differ, the offline one is the least tick with two different hashes.
* `live_offline_agree_iff`: **the views agree exactly** when tick 0 is reported (or nothing is) and
  that first arrival is at that least tick.
-/

import Foldback.Lib.FirstEvent
import Foldback.Ui.Page

namespace Foldback

/-! ### The latest reports -/

/-- The hash in the peer's latest report for the tick. -/
def latest (reports : List TickHashRecord) (tick : UInt64) (peerId : UInt16) : Option UInt64 :=
  (reports.filter fun report => report.tick = tick ∧ report.peerId = peerId).getLast?.map
    TickHashRecord.hash

/-- The latest reports of two peers for the tick differ. -/
def LatestDiffer (reports : List TickHashRecord) (tick : UInt64) : Prop :=
  ∃ peerId hash peerId' hash', latest reports tick peerId = some hash ∧
    latest reports tick peerId' = some hash' ∧ hash ≠ hash'

/-- On its arrival, the latest reports for a report's tick differ. -/
def DiffersOnArrival (before : List TickHashRecord) (report : TickHashRecord) : Prop :=
  LatestDiffer (before ++ [report]) report.tick

theorem latest_concat (reports : List TickHashRecord) (report : TickHashRecord) (tick : UInt64)
    (peerId : UInt16) : latest (reports ++ [report]) tick peerId =
      if report.tick = tick ∧ report.peerId = peerId then some report.hash
      else latest reports tick peerId := by
  unfold latest
  rw [List.filter_append]
  by_cases here : report.tick = tick ∧ report.peerId = peerId
  · rw [if_pos here, List.filter_cons_of_pos (by simpa using here), List.filter_nil,
      List.getLast?_concat]
    rfl
  · rw [if_neg here, List.filter_cons_of_neg (by simpa using here), List.filter_nil,
      List.append_nil]

theorem mem_of_latest {reports : List TickHashRecord} {tick hash : UInt64} {peerId : UInt16}
    (found : latest reports tick peerId = some hash) :
    ({ tick, peerId, hash } : TickHashRecord) ∈ reports := by
  obtain ⟨report, last, rfl⟩ := Option.map_eq_some_iff.mp found
  have member := List.mem_filter.mp (List.mem_of_getLast? last)
  obtain ⟨rfl, rfl⟩ := of_decide_eq_true member.2
  exact member.1

theorem LatestDiffer.contradicted {reports : List TickHashRecord} {tick : UInt64}
    (differ : LatestDiffer reports tick) : Contradicted reports tick := by
  obtain ⟨peerId, hash, peerId', hash', found, found', differs⟩ := differ
  exact ⟨_, mem_of_latest found, _, mem_of_latest found', rfl, rfl, differs⟩

/-- A report that differs on its arrival leaves its tick contradicted, whatever comes after. -/
theorem DiffersOnArrival.contradicted {before : List TickHashRecord} {report : TickHashRecord}
    (differs : DiffersOnArrival before report) (after : List TickHashRecord) :
    Contradicted (before ++ report :: after) report.tick := by
  rw [List.append_cons before report after]
  exact (LatestDiffer.contradicted differs).mono (List.subset_append_left _ _)

/-! ### Numbers the page holds exactly -/

/-- The ticks and ids of a frame. -/
def Frame.numbers : Frame → List UInt64
  | .tickHash tick .. => [tick]
  | .entityHash tick _ entityId _ => [tick, entityId]
  | .fieldHash tick _ entityId .. => [tick, entityId]
  | .snapshot tick .. => [tick]
  | .metadata .. => []
  | .endOfStream => []

/-- The frame's ticks and ids are below `2 ^ 53`. -/
def Frame.Exact (frame : Frame) : Prop := ∀ number ∈ frame.numbers, number.toNat < 2 ^ 53

theorem jsNumber_inj {first second : UInt64} (small : first.toNat < 2 ^ 53)
    (small' : second.toNat < 2 ^ 53) : jsNumber first = jsNumber second ↔ first = second := by
  rw [jsNumber_of_lt small, jsNumber_of_lt small', UInt64.toNat_inj]

/-- The page's entry for a report. -/
def TickHashRecord.shown (report : TickHashRecord) : TickHashEntry ℕ :=
  report.toEntry.map jsNumber

/-- The page's table of a list of reports. -/
def tickTable (reports : List TickHashRecord) : TickTable :=
  (reports.map TickHashRecord.shown).foldl TickTable.add .empty

theorem tickTable_concat (reports : List TickHashRecord) (report : TickHashRecord) :
    tickTable (reports ++ [report]) = (tickTable reports).add report.shown := by
  rw [tickTable, List.map_append, List.foldl_append]
  rfl

/-- **The page's table holds the latest reports.** -/
theorem hashAt_tickTable {reports : List TickHashRecord}
    (small : ∀ report ∈ reports, report.tick.toNat < 2 ^ 53) {tick : UInt64}
    (smallTick : tick.toNat < 2 ^ 53) (peerId : UInt16) :
    hashAt (tickTable reports) (jsNumber tick) peerId = (latest reports tick peerId).map hex := by
  induction reports using List.reverseRecOn with
  | nil => rfl
  | append_singleton reports report ih =>
    have smallReport := small report (List.mem_append_right _ List.mem_cons_self)
    have same : report.shown.tick = jsNumber tick ↔ report.tick = tick :=
      jsNumber_inj smallReport smallTick
    have earlier := ih fun other member => small other (List.mem_append_left _ member)
    rw [tickTable_concat, hashAt_add, latest_concat, earlier]
    by_cases here : report.tick = tick ∧ report.peerId = peerId
    · rw [if_pos here, if_pos ⟨same.mpr here.1, here.2⟩]
      rfl
    · rw [if_neg here, if_neg fun shown => here ⟨same.mp shown.1, shown.2⟩]

/-- **The page's test at a tick** looks at the latest reports. -/
theorem tickAgrees_tickTable {reports : List TickHashRecord}
    (small : ∀ report ∈ reports, report.tick.toNat < 2 ^ 53) {tick : UInt64}
    (smallTick : tick.toNat < 2 ^ 53) :
    tickAgrees (tickTable reports) (jsNumber tick) = some false ↔ LatestDiffer reports tick := by
  rw [tickAgrees_eq_false_iff]
  simp only [hashAt_tickTable small smallTick, Option.map_eq_some_iff]
  constructor
  · rintro ⟨peerId, _, peerId', _, ⟨hash, found, rfl⟩, ⟨hash', found', rfl⟩, differs⟩
    exact ⟨peerId, hash, peerId', hash', found, found', fun same => differs (congrArg hex same)⟩
  · rintro ⟨peerId, hash, peerId', hash', found, found', differs⟩
    exact ⟨peerId, _, peerId', _, ⟨hash, found, rfl⟩, ⟨hash', found', rfl⟩,
      fun same => differs (hex_injective same)⟩

/-! ### The live view -/

/-- What the page shows of the reports. -/
structure TicksShown (reports : List TickHashRecord) (tickHashes : List (TickHashEntry ℕ))
    (minTick maxTick : ℕ) (divergenceTick : Option ℕ) (byTick : TickTable) : Prop where
  entries : tickHashes = reports.map TickHashRecord.shown
  least : minTick = 0
  greatest : maxTick = (reports.map fun report => jsNumber report.tick).foldl max 0
  divergence : ∀ tick, divergenceTick = some tick ↔
    ∃ first, FirstEvent DiffersOnArrival reports first ∧ jsNumber first.tick = tick
  table : byTick = tickTable reports

/-- What the page shows after the frames, `session` being its session. -/
structure LiveView (frames : List Frame) (page : Page) (session : SessionData ℕ) : Prop where
  isLive : page.isLive = true
  shown : page.session = some session
  ticks : TicksShown (recordsOf frames) session.tickHashes session.minTick session.maxTick
    session.divergenceTick page.byTick
  endedCleanly : session.endedCleanly = frames.any Frame.isEndOfStream
  metadataCount : session.metadataCount = frames.countP Frame.isMetadata
  entityHashes : session.entityHashes = (entityEntriesOf frames).map (EntityHashEntry.map jsNumber)
  fieldHashes : session.fieldHashes = (fieldEntriesOf frames).map (FieldHashEntry.map jsNumber)
  snapshotTicks : session.snapshotTicks = (snapshotTicksOf frames).map jsNumber
  entityByTick : page.entityByTick = session.entityHashes.foldl EntityTable.add .empty
  fieldByTick : page.fieldByTick = session.fieldHashes.foldl FieldTable.add .empty

theorem recordsOf_append (first second : List Frame) :
    recordsOf (first ++ second) = recordsOf first ++ recordsOf second := List.filterMap_append

theorem small_of_exact {frames : List Frame} (exact : ∀ frame ∈ frames, frame.Exact) :
    ∀ report ∈ recordsOf frames, report.tick.toNat < 2 ^ 53 := by
  intro report member
  obtain ⟨frame, inside, found⟩ := List.mem_filterMap.mp member
  cases frame with
  | tickHash tick peerId hash =>
    cases found
    exact exact _ inside tick List.mem_cons_self
  | _ => cases found

/-- The live divergence after one more report. -/
theorem divergence_step {reports : List TickHashRecord} {report : TickHashRecord}
    (small : ∀ other ∈ reports ++ [report], other.tick.toNat < 2 ^ 53) {divergence : Option ℕ}
    (before : ∀ tick, divergence = some tick ↔
      ∃ first, FirstEvent DiffersOnArrival reports first ∧ jsNumber first.tick = tick) (tick : ℕ) :
    (if divergence = none ∧
        tickAgrees ((tickTable reports).add report.shown) report.shown.tick = some false then
      some report.shown.tick else divergence) = some tick ↔
      ∃ first, FirstEvent DiffersOnArrival (reports ++ [report]) first ∧
        jsNumber first.tick = tick := by
  have smallReport := small report (List.mem_append_right _ List.mem_cons_self)
  have arrives : tickAgrees ((tickTable reports).add report.shown) report.shown.tick = some false ↔
      DiffersOnArrival reports report := by
    rw [← tickTable_concat]
    exact tickAgrees_tickTable small smallReport
  have nothing : divergence = none ↔ ∀ first, ¬ FirstEvent DiffersOnArrival reports first := by
    rw [Option.eq_none_iff_forall_ne_some]
    constructor
    · intro none first found
      exact none _ ((before _).mpr ⟨first, found, rfl⟩)
    · intro none tick found
      obtain ⟨first, event, -⟩ := (before tick).mp found
      exact none first event
  simp only [FirstEvent.concat_iff]
  by_cases now : divergence = none ∧
      tickAgrees ((tickTable reports).add report.shown) report.shown.tick = some false
  · rw [if_pos now, Option.some_inj]
    constructor
    · intro same
      exact ⟨report, Or.inr ⟨nothing.mp now.1, arrives.mp now.2, rfl⟩, same⟩
    · rintro ⟨first, earlier | ⟨-, -, rfl⟩, same⟩
      · exact absurd earlier (nothing.mp now.1 first)
      · exact same
  · rw [if_neg now, before]
    refine exists_congr fun first => and_congr_left fun _ => ⟨Or.inl, ?_⟩
    rintro (earlier | ⟨none, here, -⟩)
    · exact earlier
    · exact absurd ⟨nothing.mpr none, arrives.mpr here⟩ now

/-- **One more report.** -/
theorem TicksShown.add {reports : List TickHashRecord} {tickHashes : List (TickHashEntry ℕ)}
    {minTick maxTick : ℕ} {divergenceTick : Option ℕ} {byTick : TickTable}
    (shown : TicksShown reports tickHashes minTick maxTick divergenceTick byTick)
    {report : TickHashRecord}
    (small : ∀ other ∈ reports ++ [report], other.tick.toNat < 2 ^ 53) :
    TicksShown (reports ++ [report]) (tickHashes ++ [report.shown]) (min minTick report.shown.tick)
      (max maxTick report.shown.tick)
      (if divergenceTick = none ∧
          tickAgrees (byTick.add report.shown) report.shown.tick = some false then
        some report.shown.tick else divergenceTick) (byTick.add report.shown) where
  entries := by
    rw [List.map_append, shown.entries]
    rfl
  least := by rw [shown.least, Nat.zero_min]
  greatest := by
    rw [List.map_append, List.foldl_append, shown.greatest]
    rfl
  divergence := by
    rw [shown.table]
    exact divergence_step small shown.divergence
  table := by rw [tickTable_concat, shown.table]

/-- **One more event.** -/
theorem LiveView.apply {frames : List Frame} {page : Page} {session : SessionData ℕ}
    (view : LiveView frames page session) {frame : Frame}
    (exact : ∀ other ∈ frames ++ [frame], other.Exact) :
    ∃ session', LiveView (frames ++ [frame])
      (page.applyLiveEvent ((frameToLiveEvent frame).map jsNumber)) session' := by
  have small := small_of_exact exact
  rw [recordsOf_append] at small
  unfold Page.applyLiveEvent
  rw [view.isLive, view.shown]
  cases frame with
  | tickHash tick peerId hash =>
    refine ⟨_, view.isLive, rfl, ?_, ?_, ?_, ?_, ?_, ?_, ?_, ?_⟩
    · rw [recordsOf_append]
      exact view.ticks.add small
    · simp [view.endedCleanly, Frame.isEndOfStream]
    · simp [view.metadataCount, Frame.isMetadata]
    · simp [view.entityHashes, entityEntriesOf]
    · simp [view.fieldHashes, fieldEntriesOf]
    · simp [view.snapshotTicks, snapshotTicksOf]
    · exact view.entityByTick
    · exact view.fieldByTick
  | _ =>
    simp only [frameToLiveEvent, LiveEvent.map]
    refine ⟨_, rfl, rfl, ?_, ?_, ?_, ?_, ?_, ?_, ?_, ?_⟩
    · rw [recordsOf_append]
      exact (List.append_nil _).symm ▸ view.ticks
    · simp [view.endedCleanly, Frame.isEndOfStream]
    · simp [view.metadataCount, Frame.isMetadata]
    · simp [view.entityHashes, entityEntriesOf, EntityHashEntry.map]
    · simp [view.fieldHashes, fieldEntriesOf]
    · simp [view.snapshotTicks, snapshotTicksOf]
    · simp [view.entityByTick]
    · simp [view.fieldByTick]

/-- The hello a live server sends for a header. -/
def hello (header : Header) : LiveEvent UInt64 :=
  .hello header.tickRateHz header.peerCount (hexBytes header.buildId.toList)

/-- The page after connecting to `url` and receiving the events in order. -/
def Page.stream (url : String) (events : List (LiveEvent UInt64)) (page : Page) : Page :=
  (events.map (LiveEvent.map jsNumber)).foldl Page.applyLiveEvent (page.connectLive url)

/-- **A whole stream.** -/
theorem liveView {url : String} (named : url ≠ "") (header : Header) {frames : List Frame}
    (exact : ∀ frame ∈ frames, frame.Exact) (page : Page) :
    ∃ session, LiveView frames (page.stream url (hello header :: frames.map frameToLiveEvent))
      session := by
  induction frames using List.reverseRecOn with
  | nil =>
    unfold Page.stream Page.connectLive
    rw [if_neg named]
    refine ⟨_, rfl, rfl, ⟨rfl, rfl, rfl, fun tick => ?_, rfl⟩, rfl, rfl, rfl, rfl, rfl, rfl, rfl⟩
    refine iff_of_false nofun ?_
    rintro ⟨first, event, -⟩
    exact FirstEvent.not_nil event
  | append_singleton frames frame ih =>
    obtain ⟨session, view⟩ := ih fun other member => exact other (List.mem_append_left _ member)
    obtain ⟨session', next⟩ := view.apply exact
    refine ⟨session', ?_⟩
    have step : page.stream url (hello header :: (frames ++ [frame]).map frameToLiveEvent) =
        (page.stream url (hello header :: frames.map frameToLiveEvent)).applyLiveEvent
          ((frameToLiveEvent frame).map jsNumber) := by
      unfold Page.stream
      rw [List.map_append, ← List.cons_append, List.map_append, List.foldl_append]
      rfl
    rw [step]
    exact next

/-! ### The two views -/

/-- Tick 0 is reported, or nothing is. -/
def StartsAtZero (reports : List TickHashRecord) : Prop :=
  reports = [] ∨ ∃ report ∈ reports, report.tick = 0

/-- If any tick has two different hashes, the first report on whose arrival two peers' latest reports
for its tick differ is at the least such tick. -/
def LeastFirst (reports : List TickHashRecord) : Prop :=
  (∃ tick, Contradicted reports tick) → ∃ first, FirstEvent DiffersOnArrival reports first ∧
    IsLeast {tick | Contradicted reports tick} first.tick

/-- The running minimum that starts at `u64::MAX`, with 0 for no tick at all. -/
theorem minTick_eq_zero_iff {reports : List TickHashRecord}
    (small : ∀ report ∈ reports, report.tick.toNat < 2 ^ 53) :
    let least := (reports.map TickHashRecord.tick).foldl min 0xFFFFFFFFFFFFFFFF
    (if least = 0xFFFFFFFFFFFFFFFF then 0 else least) = 0 ↔ StartsAtZero reports := by
  intro least
  have isMin : ((0xFFFFFFFFFFFFFFFF : UInt64) :: reports.map TickHashRecord.tick).min? =
      some least := List.min?_cons'
  obtain ⟨attained, lower⟩ := List.min?_eq_some_iff.mp isMin
  rcases List.mem_cons.mp attained with atMax | inside
  · rw [if_pos atMax]
    refine iff_of_true rfl (Or.inl ?_)
    by_contra some
    obtain ⟨report, member⟩ := List.exists_mem_of_ne_nil _ some
    have below := lower _ (List.mem_cons_of_mem _ (List.mem_map_of_mem member))
    have bound := small report member
    rw [atMax, UInt64.le_iff_toNat_le] at below
    exact absurd (below.trans_lt bound) (by decide)
  · obtain ⟨report, member, atLeast⟩ := List.mem_map.mp inside
    have notMax : least ≠ 0xFFFFFFFFFFFFFFFF := by
      intro atMax
      have bound := small report member
      rw [atLeast, atMax] at bound
      exact absurd bound (by decide)
    rw [if_neg notMax]
    constructor
    · intro zero
      exact Or.inr ⟨report, member, atLeast.trans zero⟩
    · rintro (none | ⟨other, member', zero⟩)
      · rw [none] at member
        cases member
      · have below := lower _ (List.mem_cons_of_mem _ (List.mem_map_of_mem member'))
        rw [zero] at below
        exact UInt64.le_zero_iff.mp below

theorem toNat_max (first second : UInt64) :
    (max first second).toNat = max first.toNat second.toNat := by
  have isMax : max first second = if first ≤ second then second else first := rfl
  rw [isMax]
  by_cases ordered : first ≤ second
  · rw [if_pos ordered, max_eq_right (UInt64.le_iff_toNat_le.mp ordered)]
  · rw [if_neg ordered, max_eq_left (not_le.mp fun below => ordered
      (UInt64.le_iff_toNat_le.mpr below)).le]

/-- The running maximum commutes with the conversion of exact numbers. -/
theorem jsNumber_foldl_max {reports : List TickHashRecord}
    (small : ∀ report ∈ reports, report.tick.toNat < 2 ^ 53) {start : UInt64}
    (smallStart : start.toNat < 2 ^ 53) :
    jsNumber ((reports.map TickHashRecord.tick).foldl max start) =
      (reports.map fun report => jsNumber report.tick).foldl max (jsNumber start) := by
  induction reports generalizing start with
  | nil => rfl
  | cons report reports ih =>
    have smallReport := small report List.mem_cons_self
    have smallMax : (max start report.tick).toNat < 2 ^ 53 := by
      rw [toNat_max]
      exact max_lt smallStart smallReport
    rw [List.map_cons, List.map_cons, List.foldl_cons, List.foldl_cons,
      ih (fun other member => small other (List.mem_cons_of_mem _ member)) smallMax,
      jsNumber_of_lt smallMax, jsNumber_of_lt smallStart, jsNumber_of_lt smallReport, toNat_max]

theorem contradicted_of_firstEvent {reports : List TickHashRecord} {first : TickHashRecord}
    (event : FirstEvent DiffersOnArrival reports first) : Contradicted reports first.tick := by
  obtain ⟨before, after, rfl, here, -⟩ := event
  exact here.contradicted after

/-- **When the two divergences agree**, `live` being that of the first arrival. -/
theorem divergence_agrees_iff {reports : List TickHashRecord}
    (small : ∀ report ∈ reports, report.tick.toNat < 2 ^ 53) {live : Option ℕ}
    (arrival : ∀ tick, live = some tick ↔
      ∃ first, FirstEvent DiffersOnArrival reports first ∧ jsNumber first.tick = tick) :
    ((findFirstDivergence reports).map DivergenceTick.tick).map jsNumber = live ↔
      LeastFirst reports := by
  have smallAt : ∀ {tick}, Contradicted reports tick → tick.toNat < 2 ^ 53 := by
    rintro tick ⟨one, member, -, -, rfl, -⟩
    exact small one member
  rcases found : findFirstDivergence reports with _ | ⟨⟨least⟩⟩
  · have none := (findFirstDivergence_eq_none_iff reports).mp found
    refine iff_of_true ?_ fun some => absurd some.choose_spec (none _)
    refine (Option.eq_none_iff_forall_ne_some.mpr fun tick isSome => ?_).symm
    obtain ⟨first, event, -⟩ := (arrival tick).mp isSome
    exact none _ (contradicted_of_firstEvent event)
  · have isLeast := (findFirstDivergence_eq_some_iff reports least).mp found
    show some (jsNumber least) = live ↔ _
    rw [eq_comm, arrival]
    constructor
    · rintro ⟨first, event, same⟩ -
      have atLeast := (jsNumber_inj (smallAt (contradicted_of_firstEvent event))
        (smallAt isLeast.1)).mp same
      exact ⟨first, event, atLeast ▸ isLeast⟩
    · intro leastFirst
      obtain ⟨first, event, isLeast'⟩ := leastFirst ⟨least, isLeast.1⟩
      have same := UInt64.le_antisymm (isLeast'.2 isLeast.1) (isLeast.2 isLeast'.1)
      exact ⟨first, event, congrArg jsNumber same⟩

/-! ### The offline view -/

/-- What the page shows of a file with the frames, `session` being its session. -/
structure OfflineView (frames : List Frame) (page : Page) (session : SessionData ℕ) : Prop where
  shown : page.session = some session
  minTick : session.minTick = 0 ↔ StartsAtZero (recordsOf frames)
  maxTick : session.maxTick =
    ((recordsOf frames).map fun report => jsNumber report.tick).foldl max 0
  divergence : session.divergenceTick =
    ((findFirstDivergence (recordsOf frames)).map DivergenceTick.tick).map jsNumber
  endedCleanly : session.endedCleanly = frames.any Frame.isEndOfStream
  metadataCount : session.metadataCount = frames.countP Frame.isMetadata
  tickHashes : session.tickHashes = (recordsOf frames).map TickHashRecord.shown
  entityHashes : session.entityHashes = (entityEntriesOf frames).map (EntityHashEntry.map jsNumber)
  fieldHashes : session.fieldHashes = (fieldEntriesOf frames).map (FieldHashEntry.map jsNumber)
  snapshotTicks : ∀ tick,
    tick ∈ session.snapshotTicks ↔ tick ∈ (snapshotTicksOf frames).map jsNumber
  byTick : page.byTick = tickTable (recordsOf frames)
  entityByTick : page.entityByTick = session.entityHashes.foldl EntityTable.add .empty
  fieldByTick : page.fieldByTick = session.fieldHashes.foldl FieldTable.add .empty

/-- **A whole file.** -/
theorem offlineView {header : Header} {frames : List Frame}
    (exact : ∀ frame ∈ frames, frame.Exact) {file : Bytes} (holds : Holds file header frames)
    (path : String) (fileName : Option String) (page : Page) :
    ∃ session, OfflineView frames (page.loadPath (load path fileName (.ok file))) session := by
  have small := small_of_exact exact
  have gathered : Loading.ofFrames frames = _ := foldl_add frames {}
  obtain ⟨snapshotTicks, sameTicks, data⟩ :=
    finish_eq (fileName.getD path) header (Loading.ofFrames frames)
  have entries : ((recordsOf frames).map TickHashRecord.toEntry).map (TickHashEntry.map jsNumber) =
      (recordsOf frames).map TickHashRecord.shown := List.map_map ..
  rw [load_holds path fileName holds, data, gathered]
  rw [gathered] at sameTicks
  refine ⟨_, rfl, ?_, ?_, rfl, rfl, ?_, entries, rfl, rfl, ?_, ?_, rfl, rfl⟩
  · exact jsNumber_eq_zero_iff.trans (minTick_eq_zero_iff small)
  · exact jsNumber_foldl_max small (by decide)
  · exact Nat.zero_add _
  · intro tick
    show tick ∈ snapshotTicks.map jsNumber ↔ _
    rw [List.mem_map, List.mem_map]
    exact exists_congr fun number => and_congr_left fun _ => sameTicks number
  · exact congrArg (List.foldl TickTable.add .empty) entries

/-! ### When they agree -/

/-- Two pages show the same of a recording. -/
structure PagesAgree (off live : Page) : Prop where
  minTick : off.session.map SessionData.minTick = live.session.map SessionData.minTick
  maxTick : off.session.map SessionData.maxTick = live.session.map SessionData.maxTick
  divergenceTick : off.session.map SessionData.divergenceTick =
    live.session.map SessionData.divergenceTick
  endedCleanly : off.session.map SessionData.endedCleanly =
    live.session.map SessionData.endedCleanly
  metadataCount : off.session.map SessionData.metadataCount =
    live.session.map SessionData.metadataCount
  tickHashes : off.session.map SessionData.tickHashes = live.session.map SessionData.tickHashes
  entityHashes : off.session.map SessionData.entityHashes =
    live.session.map SessionData.entityHashes
  fieldHashes : off.session.map SessionData.fieldHashes = live.session.map SessionData.fieldHashes
  snapshotTicks : off.session.map (fun session => {tick | tick ∈ session.snapshotTicks}) =
    live.session.map fun session => {tick | tick ∈ session.snapshotTicks}
  byTick : off.byTick = live.byTick
  entityByTick : off.entityByTick = live.entityByTick
  fieldByTick : off.fieldByTick = live.fieldByTick

/-- **Live and offline views of the same frames agree exactly when** tick 0 is reported or nothing
is, and the first arrival that makes a tick disagree is at the least contradicted tick. -/
theorem live_offline_agree_iff (header : Header) (frames : List Frame)
    (exact : ∀ frame ∈ frames, frame.Exact) (file : Bytes) (holds : Holds file header frames)
    (path : String) (fileName : Option String) (url : String) (named : url ≠ "")
    (before before' : Page) :
    PagesAgree (before.loadPath (load path fileName (.ok file)))
        (before'.stream url (hello header :: frames.map frameToLiveEvent)) ↔
      StartsAtZero (recordsOf frames) ∧ LeastFirst (recordsOf frames) := by
  obtain ⟨live, view⟩ := liveView named header exact before'
  obtain ⟨off, offView⟩ := offlineView exact holds path fileName before
  have divergence := divergence_agrees_iff (small_of_exact exact) view.ticks.divergence
  rw [← offView.divergence] at divergence
  rw [← divergence, ← offView.minTick, ← view.ticks.least]
  constructor
  · intro agree
    have sameMin := agree.minTick
    have sameDivergence := agree.divergenceTick
    rw [offView.shown, view.shown] at sameMin sameDivergence
    exact ⟨Option.some.inj sameMin, Option.some.inj sameDivergence⟩
  · rintro ⟨sameMin, sameDivergence⟩
    have ticks : {tick | tick ∈ off.snapshotTicks} = {tick | tick ∈ live.snapshotTicks} := by
      ext tick
      rw [Set.mem_ofPred_eq, Set.mem_ofPred_eq, offView.snapshotTicks, view.snapshotTicks]
    have entities := offView.entityHashes.trans view.entityHashes.symm
    have fields := offView.fieldHashes.trans view.fieldHashes.symm
    constructor <;> try rw [offView.shown, view.shown]
    · exact congrArg some sameMin
    · exact congrArg some (offView.maxTick.trans view.ticks.greatest.symm)
    · exact congrArg some sameDivergence
    · exact congrArg some (offView.endedCleanly.trans view.endedCleanly.symm)
    · exact congrArg some (offView.metadataCount.trans view.metadataCount.symm)
    · exact congrArg some (offView.tickHashes.trans view.ticks.entries.symm)
    · exact congrArg some entities
    · exact congrArg some fields
    · exact congrArg some ticks
    · rw [offView.byTick, view.ticks.table]
    · rw [offView.entityByTick, view.entityByTick, entities]
    · rw [offView.fieldByTick, view.fieldByTick, fields]

/-- Two peers report ticks 0 and 1 in turn and differ at tick 1. -/
theorem live_offline_agree_sample :
    let header := Header.new 60 2 (Vector.replicate 16 7)
    let frames : List Frame := [.tickHash 0 0 1, .tickHash 1 0 2, .tickHash 0 1 1, .tickHash 1 1 3]
    PagesAgree
      (({} : Page).loadPath (load "session.foldback" none
        (.ok (header.encode ++ encodeFrames frames))))
      (({} : Page).stream "ws://127.0.0.1:9871" (hello header :: frames.map frameToLiveEvent)) := by
  intro header frames
  have exact : ∀ frame ∈ frames, frame.Exact := by simp [frames, Frame.Exact, Frame.numbers]
  have fits : ∀ frame ∈ frames, frame.Fits := by decide
  refine (live_offline_agree_iff header frames exact _ (holds_encode header fits) _ _ _
    (by decide) _ _).mpr ⟨Or.inr ⟨⟨0, 0, 1⟩, by decide, rfl⟩, fun _ => ?_⟩
  refine ⟨⟨1, 1, 3⟩, ⟨[⟨0, 0, 1⟩, ⟨1, 0, 2⟩, ⟨0, 1, 1⟩], [], rfl, ?_, ?_⟩, ?_, ?_⟩
  · exact ⟨0, 2, 1, 3, rfl, rfl, by decide⟩
  · rintro earlier other later split differ
    obtain ⟨one, member, two, member', atOne, atTwo, differs⟩ := differ.contradicted later
    rw [← split] at member member'
    have agree : ∀ one ∈ [(⟨0, 0, 1⟩ : TickHashRecord), ⟨1, 0, 2⟩, ⟨0, 1, 1⟩],
        ∀ two ∈ [(⟨0, 0, 1⟩ : TickHashRecord), ⟨1, 0, 2⟩, ⟨0, 1, 1⟩],
        one.tick = two.tick → one.hash = two.hash := by decide
    exact differs (agree one member two member' (atOne.trans atTwo.symm))
  · exact ⟨⟨1, 0, 2⟩, by decide, ⟨1, 1, 3⟩, by decide, rfl, rfl, by decide⟩
  · rintro tick ⟨one, member, two, member', rfl, sameTick, differs⟩
    have late : ∀ one ∈ recordsOf frames, ∀ two ∈ recordsOf frames, two.tick = one.tick →
        one.hash ≠ two.hash → (1 : UInt64) ≤ one.tick := by decide
    exact late one member two member' sameTick differs

/-- **A live session whose frames start at tick 5** shows 0 as its first tick. -/
theorem live_minTick_flagged :
    let header := Header.new 60 2 (Vector.replicate 16 7)
    let frames : List Frame := [.tickHash 5 0 1]
    (∀ frame ∈ frames, frame.Exact) ∧ Holds (header.encode ++ encodeFrames frames) header frames ∧
      ¬ PagesAgree
        (({} : Page).loadPath (load "session.foldback" none
          (.ok (header.encode ++ encodeFrames frames))))
        (({} : Page).stream "ws://127.0.0.1:9871" (hello header :: frames.map frameToLiveEvent)) := by
  intro header frames
  have exact : ∀ frame ∈ frames, frame.Exact := by simp [frames, Frame.Exact, Frame.numbers]
  have fits : ∀ frame ∈ frames, frame.Fits := by decide
  have holds := holds_encode header fits
  refine ⟨exact, holds, fun agree => ?_⟩
  obtain ⟨off, offView⟩ := offlineView exact holds "session.foldback" none {}
  obtain ⟨live, view⟩ := liveView (by decide : "ws://127.0.0.1:9871" ≠ "") header exact {}
  have same := agree.minTick
  rw [offView.shown, view.shown, Option.map_some, Option.map_some, Option.some_inj,
    view.ticks.least, offView.minTick] at same
  rcases same with none | ⟨report, member, zero⟩
  · cases none
  · have only : report = ⟨5, 0, 1⟩ := List.mem_singleton.mp member
    rw [only] at zero
    cases zero

/-- After a divergence at tick 9, late reports for tick 3 differ: the live view keeps 9. -/
example :
    let frames : List Frame := [.tickHash 9 0 1, .tickHash 9 1 2, .tickHash 3 0 1, .tickHash 3 1 2]
    findFirstDivergence (recordsOf frames) = some ⟨3⟩ ∧
      (({} : Page).stream "ws://127.0.0.1:9871" (frames.map frameToLiveEvent)).session.bind
        SessionData.divergenceTick = some 9 := by
  decide

end Foldback
