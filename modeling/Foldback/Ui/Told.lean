/-
**What the panels tell of the reports, in every run.**

* `peers_panel_exact`: **the peers panel has a row for every peer that reported the selected tick**,
  with the hash it reported last; the odd rows are those against the most frequent hash, and a hash that
  more than half of the peers share is never odd.
* `Page.Quiet`: no tick disagrees while no divergence is named. `quiet_of_advance`: every move keeps it, if
  the files that are opened have exact ticks.
* `hint_truthful`: **the hint says that all is well only if it is**, and the ticks that it names are what
  it calls them, while the session's snapshots can be spread over arguments.
-/

import Foldback.Ui.Viewer

namespace Foldback

open Plurality (mostCommon_eq_some_iff mostCommon_of_majority)

/-! ### The peers -/

theorem mem_votes {entries : List (TickHashEntry ℕ)} {tick : ℕ} {hash : String} :
    hash ∈ votes entries tick ↔ ∃ peerId, lastHash entries tick peerId = some hash := by
  rw [votes, List.mem_filterMap]
  constructor
  · rintro ⟨peerId, -, last⟩
    exact ⟨peerId, last⟩
  · rintro ⟨peerId, last⟩
    exact ⟨peerId, mem_reporters.mpr (by rw [last]; rfl), last⟩

/-- **The peers panel is exact in every run.** In a mismatch some row is odd and some row is not. -/
theorem peers_panel_exact (spread : ℕ) (viewer : Viewer) (reachable : viewer.Reachable spread)
    (session : SessionData ℕ) (shown : viewer.app.page.session = some session) (tick : ℕ)
    (selected : viewer.app.page.selectedTick = some tick) :
    ∃ peers, viewer.screen.peers = some peers ∧ peers.tick = tick ∧
      PeersShown session.tickHashes tick peers ∧
      ∀ rows, peers.rows = .rows rows →
        (∀ row ∈ rows, ∀ hash, lastHash session.tickHashes tick row.peerId = some hash →
          (votes session.tickHashes tick).length < 2 * (votes session.tickHashes tick).count hash →
          row.odd = false) ∧
        (peers.badge = "mismatch" →
          (∃ row ∈ rows, row.odd = true) ∧ ∃ row ∈ rows, row.odd = false) := by
  have inv := Viewer.Inv.reachable reachable
  have drawn := (inv.follows session shown).peers tick selected
  rw [(inv.consistent session shown).indexed.byTick] at drawn
  have exact := renderPeers_votes session.tickHashes tick
  refine ⟨_, drawn, rfl, exact, fun rows listed => ?_⟩
  obtain ⟨plurality, most, each⟩ := exact.rows rows listed
  refine ⟨fun row member hash last majority => ?_, fun mismatch => ?_⟩
  · have same : plurality = hash := by
      rw [← Option.some_inj, ← mostCommon_of_majority majority]
      exact ((mostCommon_eq_some_iff _ _).mpr most).symm
    obtain ⟨hash', last', -, odd⟩ := (each row).mp member
    rw [last, Option.some_inj] at last'
    rw [← Bool.not_eq_true, odd, ← last', same]
    exact fun both => both.2 rfl
  · obtain ⟨one, voted, other, voted', differs⟩ := exact.mismatch.mp mismatch
    obtain ⟨against, votedAgainst, apart⟩ : ∃ hash ∈ votes session.tickHashes tick, hash ≠ plurality := by
      by_cases same : one = plurality
      · exact ⟨other, voted', fun same' => differs (same.trans same'.symm)⟩
      · exact ⟨one, voted, same⟩
    obtain ⟨peer, last⟩ := mem_votes.mp votedAgainst
    obtain ⟨peer', last'⟩ := mem_votes.mp most.1
    refine ⟨⟨⟨peer, hexShort against, true⟩, (each _).mpr ⟨against, last, rfl, ?_⟩, rfl⟩,
      ⟨⟨peer', hexShort plurality, false⟩, (each _).mpr ⟨plurality, last', rfl, ?_⟩, rfl⟩⟩
    · exact iff_of_true rfl ⟨mismatch, apart⟩
    · exact iff_of_false Bool.false_ne_true fun both => both.2 rfl

/-- Two of three peers agree on tick 5, the second reports last; the third is odd. -/
def polling : List Viewer.Move :=
  [.app (.connect "ws://a"), .app (.run 0 (.connected 60 3 "07")), .app (.deliver 0),
    .app (.frame 0 (.tickHash 5 2 9)), .app (.deliver 0), .app (.frame 0 (.tickHash 5 0 7)),
    .app (.deliver 0), .app (.frame 0 (.tickHash 5 1 7)), .app (.deliver 0)]

theorem peers_panel_exact_polling : ∃ viewer session peers,
    polling.foldlM (Viewer.step 65536) {} = some viewer ∧ viewer.app.page.session = some session ∧
      viewer.screen.peers = some peers ∧ PeersShown session.tickHashes 5 peers ∧
      peers.rows = .rows [⟨0, "000000…0007", false⟩, ⟨1, "000000…0007", false⟩,
        ⟨2, "000000…0009", true⟩] := by
  have possible : (polling.foldlM (Viewer.step 65536) {}).isSome := by decide +kernel
  obtain ⟨viewer, ran⟩ := Option.isSome_iff_exists.mp possible
  have reachable : viewer.Reachable 65536 :=
    Machine.reflTransGen_of_allowed (fun before move after fed moved => ⟨move, fed, moved⟩)
      (by simp [polling, Viewer.Fed]) ran
  have present : ((polling.foldlM (Viewer.step 65536) {}).bind (·.app.page.session)).isSome := by
    decide +kernel
  have chosen : (polling.foldlM (Viewer.step 65536) {}).bind (·.app.page.selectedTick) = some 5 := by
    decide +kernel
  have seen : ((polling.foldlM (Viewer.step 65536) {}).bind (·.screen.peers)).map PeersPanel.rows =
      some (.rows [⟨0, "000000…0007", false⟩, ⟨1, "000000…0007", false⟩,
        ⟨2, "000000…0009", true⟩]) := by decide +kernel
  rw [ran, Option.bind_some] at present chosen seen
  obtain ⟨session, shown⟩ := Option.isSome_iff_exists.mp present
  obtain ⟨peers, drawn, -, exact, -⟩ :=
    peers_panel_exact 65536 viewer reachable session shown 5 chosen
  rw [drawn, Option.map_some, Option.some_inj] at seen
  exact ⟨viewer, session, peers, ran, shown, drawn, exact, seen⟩

/-! ### The hint -/

/-- While no divergence is named, no tick disagrees. -/
def Page.Quiet (page : Page) : Prop :=
  ∀ session, page.session = some session → session.divergenceTick = none →
    ∀ tick, tickAgrees page.byTick tick ≠ some false

namespace Viewer

/-- The ticks of a file that is opened are below `2 ^ 53`. -/
def FedExactly : Move → Prop
  | .app (.loaded result) => (∃ path fileName opened, result = load path fileName opened) ∧
    ∀ data, result = .ok data → ∀ entry ∈ data.tickHashes, entry.tick.toNat < 2 ^ 53
  | _ => True

theorem FedExactly.fed {move : Move} (exact : FedExactly move) : Fed move := by
  unfold FedExactly at exact
  split at exact
  · exact exact.1
  · rename_i other
    unfold Fed
    split
    · rename_i result
      exact absurd rfl (other result)
    · trivial

def ExactStep (spread : ℕ) (before after : Viewer) : Prop :=
  ∃ move, FedExactly move ∧ step spread before move = some after

def ReachableExactly (spread : ℕ) (viewer : Viewer) : Prop :=
  Relation.ReflTransGen (ExactStep spread) {} viewer

theorem ReachableExactly.reachable {spread : ℕ} {viewer : Viewer}
    (reachable : viewer.ReachableExactly spread) : viewer.Reachable spread := by
  have sub : ExactStep spread ≤ Step spread := by
    rintro before after ⟨move, exact, moved⟩
    exact ⟨move, exact.fed, moved⟩
  exact Relation.ReflTransGen.mono sub _ _ reachable

end Viewer

section Quiet

variable {page : Page}

theorem Page.Quiet.alike (quiet : page.Quiet) {other : Page} (alike : other.Alike page) : other.Quiet := by
  intro session shown unnamed
  rw [alike.byTick]
  exact quiet session (alike.session ▸ shown) unnamed

/-- A file with exact ticks in which no divergence is found. -/
theorem Page.Quiet.finishLoading (quiet : page.Quiet) {path : String} {fileName : Option String}
    {opened : Except IoError Bytes}
    (exact : ∀ data, load path fileName opened = .ok data →
      ∀ entry ∈ data.tickHashes, entry.tick.toNat < 2 ^ 53) :
    (page.finishLoading (load path fileName opened)).Quiet := by
  rcases loaded : load path fileName opened with error | data
  · exact quiet
  · have small := exact data loaded
    obtain ⟨header, frames, rfl⟩ := exists_frames_of_load loaded
    obtain ⟨snapshotTicks, -, same⟩ := finish_eq (fileName.getD path) header (Loading.ofFrames frames)
    have records : (Loading.ofFrames frames).tickRecords = recordsOf frames :=
      congrArg Loading.tickRecords (foldl_add frames {})
    have hashes : (Loading.ofFrames frames).tickHashes = (recordsOf frames).map TickHashRecord.toEntry :=
      congrArg Loading.tickHashes (foldl_add frames {})
    rw [same] at small ⊢
    intro session shown unnamed tick disagree
    cases shown
    have none : findFirstDivergence (recordsOf frames) = none := by
      rw [← records]
      exact Option.map_eq_none_iff.mp (Option.map_eq_none_iff.mp unnamed)
    obtain ⟨peerId, hash, peerId', hash', last, last', differs⟩ := (tickAgrees_eq_false_iff _ _).mp disagree
    have listed : ∀ peerId hash, hashAt ((((Loading.ofFrames frames).tickHashes).map
        (TickHashEntry.map jsNumber)).foldl TickTable.add .empty) tick peerId = some hash →
        ∃ record ∈ recordsOf frames, jsNumber record.tick = tick ∧ hex record.hash = hash ∧
          record.tick.toNat < 2 ^ 53 := by
      intro peerId hash found
      rw [hashAt_foldl] at found
      obtain ⟨entry, member, atTick, hashed⟩ := mem_of_lastHash found
      obtain ⟨loaded, inside, rfl⟩ := List.mem_map.mp member
      have bound := small loaded inside
      rw [hashes] at inside
      obtain ⟨record, present, rfl⟩ := List.mem_map.mp inside
      exact ⟨record, present, atTick, hashed, bound⟩
    obtain ⟨one, member, atTick, rfl, bound⟩ := listed peerId hash last
    obtain ⟨other, member', atTick', rfl, bound'⟩ := listed peerId' hash' last'
    have sameTick : other.tick = one.tick := (jsNumber_inj bound' bound).mp (atTick'.trans atTick.symm)
    exact (findFirstDivergence_eq_none_iff _).mp none one.tick
      ⟨one, member, other, member', rfl, sameTick, fun equal => differs (congrArg hex equal)⟩

/-- A report that does not name a divergence. -/
theorem Page.Quiet.applyTickHash {session : SessionData ℕ} (quiet : page.Quiet)
    (shown : page.session = some session) (entry : TickHashEntry ℕ) :
    (page.applyTickHash session entry).Quiet := by
  intro data is unnamed tick disagree
  cases is
  dsimp only at unnamed
  split at unnamed
  · cases unnamed
  · rename_i agrees
    by_cases here : tick = entry.tick
    · subst here
      exact agrees ⟨unnamed, disagree⟩
    · refine quiet session shown unnamed tick ?_
      rw [← disagree]
      show _ = tickAgrees (page.byTick.add entry) tick
      rw [tickAgrees, tickAgrees, TickTable.add, InsertionMap.get?_upsert_of_ne _ here]

theorem Page.Quiet.applyLiveEvent (quiet : page.Quiet) (event : LiveEvent ℕ) :
    (page.applyLiveEvent event).Quiet := by
  rcases live : page.isLive with _ | _
  · rw [Page.applyLiveEvent_of_not_live event live]
    exact quiet
  · rcases shown : page.session with _ | session
    · rw [Page.applyLiveEvent, live, shown]
      exact quiet
    · rw [Page.applyLiveEvent, live, shown]
      cases event with
      | tickHash entry => exact quiet.applyTickHash shown entry
      | _ =>
        intro data is
        cases is
        exact quiet session shown

/-- **Every move keeps the page quiet**, if the files that are opened have exact ticks. -/
theorem quiet_of_advance {viewer : Viewer} {move : Viewer.Move} {app : App}
    (quiet : viewer.app.page.Quiet) (exact : Viewer.FedExactly move)
    (moved : viewer.advance move = some app) : app.page.Quiet := by
  rw [Viewer.page_of_advance moved]
  cases move with
  | select tick =>
    intro session shown
    rw [Viewer.pageAfter] at shown ⊢
    rcases present : viewer.app.page.session with _ | data
    · rw [Page.selectTick, present] at shown
      cases present.symm.trans shown
    · rw [Page.selectTick, present] at shown ⊢
      exact quiet session (present.trans shown)
  | app move =>
    rw [Viewer.pageAfter]
    cases move with
    | openFile => exact quiet.alike ⟨rfl, rfl, rfl, rfl, rfl⟩
    | loaded result =>
      obtain ⟨⟨path, fileName, opened, rfl⟩, small⟩ := exact
      exact quiet.finishLoading small
    | connect url =>
      rw [App.pageAfter, Page.connectLive]
      split
      · exact quiet
      · intro session shown _ tick
        cases shown
        exact fun disagree => by cases disagree
    | resolve id =>
      rw [App.pageAfter]
      split
      · exact quiet.alike ⟨rfl, rfl, rfl, rfl, rfl⟩
      · exact quiet
    | deliver id =>
      rw [App.pageAfter]
      split
      · exact quiet.applyLiveEvent _
      · exact quiet
    | _ => exact quiet

end Quiet

theorem Viewer.ReachableExactly.quiet {spread : ℕ} {viewer : Viewer}
    (reachable : viewer.ReachableExactly spread) : viewer.app.page.Quiet := by
  induction reachable with
  | refl => exact fun session shown => by cases shown
  | tail _ moved ih =>
    obtain ⟨move, exact, moved⟩ := moved
    exact quiet_of_advance ih exact (Viewer.step_eq_some_iff.mp moved).1

/-- **The hint is truthful in every run** in which the files that are opened have exact ticks, while the
session's snapshots can be spread over arguments. If it says that no divergence was found, all peers that
reported a tick agree on it. If it names a tick, two listed hashes of the tick differ; the last agreement
is the greatest tick below on which at least two peers agree; the nearest snapshot is the greatest one
that is not above, of those that had arrived when the hint was drawn. -/
theorem hint_truthful (spread : ℕ) (viewer : Viewer) (reachable : viewer.ReachableExactly spread)
    (session : SessionData ℕ) (shown : viewer.app.page.session = some session)
    (few : session.snapshotTicks.length ≤ spread) :
    ∃ hint, viewer.screen.hint = some hint ∧
      (hint = .noDivergence → ∀ tick, ∀ hash ∈ votes session.tickHashes tick,
        ∀ other ∈ votes session.tickHashes tick, hash = other) ∧
      ∀ tick lastGood nearestSnap, hint = .firstDivergence tick lastGood nearestSnap →
        (∃ entry ∈ session.tickHashes, ∃ other ∈ session.tickHashes,
          entry.tick = tick ∧ other.tick = tick ∧ entry.hash ≠ other.hash) ∧
        (∀ found, lastGood = some found ↔ IsGreatest {earlier | earlier < tick ∧
          2 ≤ (votes session.tickHashes earlier).length ∧ ∀ hash ∈ votes session.tickHashes earlier,
            ∀ other ∈ votes session.tickHashes earlier, hash = other} found) ∧
        ∃ snapshotTicks, snapshotTicks <+: session.snapshotTicks ∧ ∀ found, nearestSnap = some found ↔
          IsGreatest {snapshot | snapshot ∈ snapshotTicks ∧ snapshot ≤ tick} found := by
  have inv := Viewer.Inv.reachable reachable.reachable
  have coherent := inv.consistent session shown
  obtain ⟨snapshotTicks, hint, early, drawn, told⟩ := ((inv.follows session shown).below few).hint
  have table := coherent.indexed.byTick
  rcases renderAgreementHint_cases told with ⟨unnamed, rfl⟩ | ⟨first, nearest, named, found, rfl⟩
  · refine ⟨_, drawn, fun _ tick hash voted other voted' => ?_, fun _ _ _ shows => (by cases shows)⟩
    by_contra differs
    refine reachable.quiet session shown unnamed tick ?_
    rw [table, tickAgrees_eq_false_iff_votes]
    exact ⟨hash, voted, other, voted', differs⟩
  · refine ⟨_, drawn, fun silent => (by cases silent), fun tick lastGood nearestSnap shows => ?_⟩
    obtain ⟨rfl, rfl, rfl⟩ := AgreementHint.firstDivergence.injEq .. |>.mp shows
    refine ⟨coherent.differs first named, fun earlier => ?_, snapshotTicks, early, fun snapshot => ?_⟩
    · rw [lastAgreeingTickBefore_eq_some_iff]
      simp only [table, tickAgrees_eq_true_iff_votes]
    · exact nearestSnapshotAtOrBefore_eq_some_iff found snapshot

theorem hint_truthful_watching : ∃ viewer session,
    watching.foldlM (Viewer.step 65536) {} = some viewer ∧ viewer.app.page.session = some session ∧
      viewer.screen.hint = some (.firstDivergence 3 (some 0) none) ∧
      ∃ entry ∈ session.tickHashes, ∃ other ∈ session.tickHashes,
        entry.tick = 3 ∧ other.tick = 3 ∧ entry.hash ≠ other.hash := by
  have possible : (watching.foldlM (Viewer.step 65536) {}).isSome := by decide +kernel
  obtain ⟨viewer, ran⟩ := Option.isSome_iff_exists.mp possible
  have reachable : viewer.ReachableExactly 65536 :=
    Machine.reflTransGen_of_allowed (fun before move after fed moved => ⟨move, fed, moved⟩)
      (by simp [watching, Viewer.FedExactly]) ran
  have present : ((watching.foldlM (Viewer.step 65536) {}).bind (·.app.page.session)).isSome := by
    decide +kernel
  have few : (watching.foldlM (Viewer.step 65536) {}).bind (fun viewer =>
      viewer.app.page.session.map (·.snapshotTicks.length)) = some 1 := by decide +kernel
  have seen : (watching.foldlM (Viewer.step 65536) {}).bind (·.screen.hint) =
      some (.firstDivergence 3 (some 0) none) := by decide +kernel
  rw [ran, Option.bind_some] at present few seen
  obtain ⟨session, shown⟩ := Option.isSome_iff_exists.mp present
  rw [shown, Option.map_some, Option.some_inj] at few
  obtain ⟨hint, drawn, -, names⟩ :=
    hint_truthful 65536 viewer reachable session shown (by rw [few]; decide)
  rw [drawn, Option.some_inj] at seen
  exact ⟨viewer, session, ran, shown, drawn.trans (congrArg some seen), (names _ _ _ seen).1⟩

end Foldback
