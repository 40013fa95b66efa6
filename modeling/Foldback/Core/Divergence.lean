/-
**Which ticks a session reports as divergent.**

* `Tracks session reports returned`: the per-tick table holds exactly `reports`, and the ticks
  already reported are `returned`. Every call extends the two lists by its own reports and its
  response's ticks (`Tracks.step`).
* `checkDivergence_eq_some_iff` / `checkDivergence_eq_none_iff`: on a session that tracks them,
  `check_divergence` returns the least contradicted tick not yet returned.
* `first_divergence_exact_iff`: the two scans find the first cross-peer divergence exactly when no
  peer contradicts itself alone before it.
* `live_divergence_exact`: with one report per tick and peer, a run of `check_divergence` calls
  returns every divergent tick once.
-/

import Foldback.Core.SessionStep

namespace Foldback

open Grouping

/-! ### The session's knowledge -/

/-- The session knows exactly these reports, and has returned exactly these ticks. -/
structure Tracks (session : Session) (reports : List TickHashRecord) (returned : List UInt64) :
    Prop where
  tabulates : Tabulates session.hashesByTick reports
  checked : session.checkedTicks = returned.toFinset

theorem SessionBuilder.build_eq {builder : SessionBuilder} {session : Session}
    (built : builder.build = .ok session) : ∃ writer, session = builder.session writer := by
  unfold SessionBuilder.build at built
  split at built
  · exact ⟨_, (Except.ok.inj built).symm⟩
  · cases built
  · split at built
    · exact ⟨_, (Except.ok.inj built).symm⟩
    · cases built

theorem Tracks.built {builder : SessionBuilder} {session : Session}
    (built : builder.build = .ok session) : Tracks session [] [] := by
  obtain ⟨writer, rfl⟩ := SessionBuilder.build_eq built
  exact ⟨tabulates_empty, rfl⟩

/-- **A call adds its reports and its response's ticks.** -/
theorem Tracks.effect {hashBytes : Bytes → UInt64} {session after : Session} {call : Call}
    {response : Response} {reports : List TickHashRecord} {returned : List UInt64}
    (tracks : Tracks session reports returned)
    (effect : Effect hashBytes session call response after) :
    Tracks after (reports ++ call.reports hashBytes session.localPeerId)
      (returned ++ response.ticks) where
  tabulates := by
    rw [effect.hashesByTick]
    exact tracks.tabulates.pushAll _
  checked := by rw [effect.checkedTicks, tracks.checked, List.toFinset_append]

section Check

variable {session : Session} {reports : List TickHashRecord} {returned : List UInt64}

theorem Tracks.passes_iff (tracks : Tracks session reports returned) (tick : UInt64) :
    Passes (fun tick peerHashes => !decide (tick ∈ session.checkedTicks) && disagree peerHashes)
      session.hashesByTick tick ↔ Contradicted reports tick ∧ tick ∉ returned := by
  rw [Grouping.passes_iff (fun _ => by simp [disagree]), tracks.checked]
  simp only [Bool.and_eq_true, Bool.not_eq_true', decide_eq_false_iff_not, List.mem_toFinset]
  rw [disagree_groupOf_iff tracks.tabulates, and_comm]

/-- **`check_divergence` returns the least contradicted tick not yet returned.** -/
theorem checkDivergence_eq_some_iff (tracks : Tracks session reports returned) (tick : UInt64) :
    session.checkDivergence.1 = some ⟨tick⟩ ↔
      IsLeast {tick | Contradicted reports tick ∧ tick ∉ returned} tick := by
  have same : {tick | Contradicted reports tick ∧ tick ∉ returned} = {tick | Passes
      (fun tick peerHashes => !decide (tick ∈ session.checkedTicks) && disagree peerHashes)
      session.hashesByTick tick} := Set.ext fun tick => (tracks.passes_iff tick).symm
  rw [same, ← firstKey_eq_some_iff, Session.checkDivergence]
  split <;> rename_i found <;> rw [found] <;> simp

theorem checkDivergence_eq_none_iff (tracks : Tracks session reports returned) :
    session.checkDivergence.1 = none ↔ ∀ tick, Contradicted reports tick → tick ∈ returned := by
  have none_iff : session.checkDivergence.1 = none ↔ firstKey
      (fun tick peerHashes => !decide (tick ∈ session.checkedTicks) && disagree peerHashes)
      session.hashesByTick = none := by
    rw [Session.checkDivergence]
    split <;> rename_i found <;> rw [found] <;> simp
  rw [none_iff, firstKey_eq_none_iff]
  refine forall_congr' fun tick => ?_
  rw [tracks.passes_iff, not_and, not_not]

end Check

/-! ### The first divergence -/

/-- The specification of a search for the first divergence between two peers. -/
def FindsFirst (records : List TickHashRecord) (result : Option DivergenceTick) : Prop :=
  (∀ tick, result = some ⟨tick⟩ ↔ IsLeast {tick | CrossDivergent records tick} tick) ∧
    (result = none ↔ ∀ tick, ¬ CrossDivergent records tick)

/-- Every tick that one peer contradicts alone comes after a divergence between two peers. -/
def SelfContradictionsLate (records : List TickHashRecord) : Prop :=
  ∀ tick, SelfContradicted records tick → ∃ earlier, CrossDivergent records earlier ∧ earlier < tick

/-- **Finding the first contradicted tick is finding the first divergence, exactly when no peer
contradicts itself alone before it.** -/
theorem findsFirst_iff {records : List TickHashRecord} {result : Option DivergenceTick}
    (some_iff : ∀ tick, result = some ⟨tick⟩ ↔ IsLeast {tick | Contradicted records tick} tick)
    (none_iff : result = none ↔ ∀ tick, ¬ Contradicted records tick) :
    FindsFirst records result ↔ SelfContradictionsLate records := by
  constructor
  · rintro ⟨finds, _⟩ tick self
    rcases found : result with _ | ⟨⟨first⟩⟩
    · exact absurd self.1 (none_iff.mp found tick)
    · have cross := ((finds first).mp found).1
      have le := ((some_iff first).mp found).2 self.1
      refine ⟨first, cross, UInt64.lt_of_le_of_ne le fun same => ?_⟩
      exact self.not_crossDivergent (same ▸ cross)
  · intro late
    have cross_of_first : ∀ tick, IsLeast {tick | Contradicted records tick} tick →
        CrossDivergent records tick := by
      intro tick least
      rcases crossDivergent_or_selfContradicted least.1 with cross | self
      · exact cross
      · obtain ⟨earlier, cross, before⟩ := late tick self
        exact absurd (least.2 cross.contradicted) (UInt64.not_le.mpr before)
    refine ⟨fun tick => (some_iff tick).trans ⟨fun least => ?_, fun least => ?_⟩,
      none_iff.trans ⟨fun none tick cross => none tick cross.contradicted, fun none tick both => ?_⟩⟩
    · exact ⟨cross_of_first tick least, fun other cross => least.2 cross.contradicted⟩
    · refine ⟨least.1.contradicted, fun other both => ?_⟩
      rcases crossDivergent_or_selfContradicted both with cross | self
      · exact least.2 cross
      · obtain ⟨earlier, cross, before⟩ := late other self
        exact UInt64.le_trans (least.2 cross) (UInt64.le_of_lt before)
    · rcases crossDivergent_or_selfContradicted both with cross | self
      · exact none tick cross
      · obtain ⟨earlier, cross, _⟩ := late tick self
        exact none earlier cross

/-- The records as calls of `record_peer_hash`. -/
def feed (records : List TickHashRecord) : List Call :=
  records.map fun record => .recordPeerHash record.tick record.peerId record.hash

theorem Tracks.feed {hashBytes : Bytes → UInt64} {session : Session}
    {reports : List TickHashRecord} {returned : List UInt64}
    (tracks : Tracks session reports returned) (records : List TickHashRecord) :
    Tracks (run hashBytes session (feed records)).2 (reports ++ records) returned := by
  induction records generalizing session reports with
  | nil => simpa [Foldback.feed, run, Machine.run] using tracks
  | cons record records ih =>
    let call := Call.recordPeerHash record.tick record.peerId record.hash
    have next := tracks.effect (step_effect hashBytes session call)
    have silent : (step hashBytes session call).1.ticks = [] := by
      rw [step_recordPeerHash]
      rfl
    rw [silent, List.append_nil] at next
    have rest := ih next
    rw [List.append_assoc] at rest
    exact rest

/-- **Both scans find the first divergence between two peers exactly when no peer contradicts itself
alone before it**: `find_first_divergence` on the records, and the first `check_divergence` of a
session fed with them. -/
theorem first_divergence_exact_iff (hashBytes : Bytes → UInt64) (builder : SessionBuilder)
    (session : Session) (built : builder.build = .ok session) (records : List TickHashRecord) :
    (FindsFirst records (findFirstDivergence records) ↔ SelfContradictionsLate records) ∧
      (FindsFirst records (run hashBytes session (feed records)).2.checkDivergence.1 ↔
        SelfContradictionsLate records) := by
  have tracks : Tracks (run hashBytes session (feed records)).2 ([] ++ records) [] :=
    (Tracks.built built).feed records
  rw [List.nil_append] at tracks
  refine ⟨findsFirst_iff (findFirstDivergence_eq_some_iff records)
    (findFirstDivergence_eq_none_iff records), findsFirst_iff (fun tick => ?_) ?_⟩
  · rw [checkDivergence_eq_some_iff tracks]
    simp
  · rw [checkDivergence_eq_none_iff tracks]
    simp

/-- One peer contradicts itself alone at tick 3, after two peers diverge at tick 1. -/
def contradictedLate : List TickHashRecord := [⟨3, 0, 1⟩, ⟨3, 0, 2⟩, ⟨1, 0, 5⟩, ⟨1, 1, 6⟩]

theorem first_divergence_exact_iff_sample :
    FindsFirst contradictedLate (findFirstDivergence contradictedLate) ∧
      FindsFirst contradictedLate (run (fun _ => 0) (({} : SessionBuilder).session none)
        (feed contradictedLate)).2.checkDivergence.1 := by
  have exact := first_divergence_exact_iff (fun _ => 0) {} (({} : SessionBuilder).session none) rfl
    contradictedLate
  have late : SelfContradictionsLate contradictedLate := by
    rintro tick ⟨⟨one, memberOne, other, memberOther, rfl, sameTick, differs⟩, alone⟩
    refine ⟨1, ⟨⟨1, 0, 5⟩, by decide, ⟨1, 1, 6⟩, by decide, rfl, rfl, by decide, by decide⟩, ?_⟩
    simp only [contradictedLate, List.mem_cons, List.not_mem_nil, or_false] at memberOne
    rcases memberOne with rfl | rfl | rfl | rfl
    · decide
    · decide
    · exact absurd (alone ⟨1, 0, 5⟩ (by decide) ⟨1, 1, 6⟩ (by decide) rfl rfl) (by decide)
    · exact absurd (alone ⟨1, 0, 5⟩ (by decide) ⟨1, 1, 6⟩ (by decide) rfl rfl) (by decide)
  exact ⟨exact.1.mpr late, exact.2.mpr late⟩

/-- One peer reports two hashes for the only tick. -/
def reportedTwice : List TickHashRecord := [⟨0, 0, 1⟩, ⟨0, 0, 2⟩]

/-- **Both scans flag a tick that only one peer has reported.** -/
theorem reportedTwice_flagged :
    findFirstDivergence reportedTwice = some ⟨0⟩ ∧
      (run (fun _ => 0) (({} : SessionBuilder).session none)
        (feed reportedTwice)).2.checkDivergence.1 = some ⟨0⟩ ∧
      (∀ tick, ¬ CrossDivergent reportedTwice tick) ∧
      ¬ FindsFirst reportedTwice (findFirstDivergence reportedTwice) := by
  have noPeers : ∀ tick, ¬ CrossDivergent reportedTwice tick := by
    rintro tick ⟨one, memberOne, other, memberOther, _, _, peers, _⟩
    simp only [reportedTwice, List.mem_cons, List.not_mem_nil, or_false] at memberOne memberOther
    rcases memberOne with rfl | rfl <;> rcases memberOther with rfl | rfl <;> exact peers rfl
  have flagged : findFirstDivergence reportedTwice = some ⟨0⟩ := by decide
  refine ⟨flagged, by decide, noPeers, fun finds => ?_⟩
  exact noPeers 0 ((finds.1 0).mp flagged).1

/-! ### Live reporting -/

/-- The reports made by the calls of a trace. -/
def reportsIn (hashBytes : Bytes → UInt64) (localPeerId : UInt16) (trace : List (Call × Response)) :
    List TickHashRecord :=
  trace.flatMap fun entry => entry.1.reports hashBytes localPeerId

/-- The ticks hashed in a trace, with their hashes. -/
def hashedIn (hashBytes : Bytes → UInt64) (trace : List (Call × Response)) : List (UInt64 × UInt64) :=
  trace.flatMap fun entry => chained hashBytes entry.1 entry.2

/-- The ticks returned by the calls of a trace, in order. -/
def returnedIn (trace : List (Call × Response)) : List UInt64 :=
  trace.flatMap fun entry => entry.2.ticks

/-- The specification of the next live answer: the least divergent tick not yet returned. -/
def FindsNext (reports : List TickHashRecord) (returned : List UInt64)
    (found : Option DivergenceTick) : Prop :=
  (∀ tick, found = some ⟨tick⟩ ↔
      IsLeast {tick | CrossDivergent reports tick ∧ tick ∉ returned} tick) ∧
    (found = none ↔ ∀ tick, CrossDivergent reports tick → tick ∈ returned)

/-- At most one report for each tick and peer. -/
def ReportedOnce (reports : List TickHashRecord) : Prop :=
  (reports.map fun report => (report.tick, report.peerId)).Nodup

theorem ReportedOnce.cross_iff {reports : List TickHashRecord} (once : ReportedOnce reports)
    (tick : UInt64) : Contradicted reports tick ↔ CrossDivergent reports tick := by
  refine ⟨?_, CrossDivergent.contradicted⟩
  rintro ⟨one, memberOne, other, memberOther, atOne, atOther, differs⟩
  refine ⟨one, memberOne, other, memberOther, atOne, atOther, fun samePeer => differs ?_, differs⟩
  have same := List.inj_on_of_nodup_map once memberOne memberOther
    (by rw [atOne, atOther, samePeer])
  rw [same]

theorem ReportedOnce.of_append {reports more : List TickHashRecord} (once : ReportedOnce (reports ++ more)) :
    ReportedOnce reports := by
  rw [ReportedOnce, List.map_append] at once
  exact once.of_append_left

/-- **The invariant of a live run**: the session tracks what the trace shows, and each returned tick
was returned once and is contradicted. -/
structure Live (hashBytes : Bytes → UInt64) (localPeerId : UInt16) (trace : List (Call × Response))
    (session : Session) : Prop where
  peer : session.localPeerId = localPeerId
  tracks : Tracks session (reportsIn hashBytes localPeerId trace) (returnedIn trace)
  nodup : (returnedIn trace).Nodup
  sound : ∀ tick ∈ returnedIn trace, Contradicted (reportsIn hashBytes localPeerId trace) tick

/-- A call that returns a tick is a `check_divergence` that found it. -/
theorem mem_ticks_step {hashBytes : Bytes → UInt64} {session : Session} {call : Call} {tick : UInt64}
    (member : tick ∈ (step hashBytes session call).1.ticks) :
    call = .checkDivergence ∧ session.checkDivergence.1 = some ⟨tick⟩ ∧
      (step hashBytes session call).1.ticks = [tick] := by
  have quiet : ∀ attempt : Attempt Session Unit, (outcome attempt session).1.ticks = [] := by
    intro attempt
    rw [outcome]
    split <;> rfl
  cases call with
  | checkDivergence =>
    rcases found : session.checkDivergence.1 with _ | ⟨⟨first⟩⟩
    · simp [step, found, Response.ticks] at member
    · simp only [step, found, Response.ticks, List.mem_singleton] at member ⊢
      subst member
      exact ⟨trivial, rfl, rfl⟩
  | takePendingHashes => cases member
  | takePendingHashesUpTo max => cases member
  | _ =>
    rw [step, quiet] at member
    cases member

theorem Live.step {hashBytes : Bytes → UInt64} {localPeerId : UInt16}
    {trace : List (Call × Response)} {session : Session}
    (live : Live hashBytes localPeerId trace session) (call : Call) :
    Live hashBytes localPeerId (trace ++ [(call, (step hashBytes session call).1)])
      (step hashBytes session call).2 := by
  have effect := step_effect hashBytes session call
  have reports : reportsIn hashBytes localPeerId
      (trace ++ [(call, (Foldback.step hashBytes session call).1)]) =
      reportsIn hashBytes localPeerId trace ++ call.reports hashBytes session.localPeerId := by
    simp [reportsIn, live.peer]
  have returned : returnedIn (trace ++ [(call, (Foldback.step hashBytes session call).1)]) =
      returnedIn trace ++ (Foldback.step hashBytes session call).1.ticks := by
    simp [returnedIn]
  refine ⟨effect.localPeerId.trans live.peer, ?_, ?_, ?_⟩
  · rw [reports, returned]
    exact live.tracks.effect effect
  · rw [returned]
    refine List.nodup_append'.mpr ⟨live.nodup, ?_, ?_⟩
    · rcases none : (Foldback.step hashBytes session call).1.ticks with _ | ⟨tick, rest⟩
      · exact List.nodup_nil
      · rw [← none, (mem_ticks_step (none ▸ List.mem_cons_self)).2.2]
        exact List.nodup_singleton tick
    · intro tick before now
      obtain ⟨_, found, _⟩ := mem_ticks_step now
      exact ((checkDivergence_eq_some_iff live.tracks tick).mp found).1.2 before
  · rw [reports, returned]
    intro tick member
    rcases List.mem_append.mp member with before | now
    · exact (live.sound tick before).mono (List.subset_append_left _ _)
    · obtain ⟨_, found, _⟩ := mem_ticks_step now
      exact ((checkDivergence_eq_some_iff live.tracks tick).mp found).1.1.mono
        (List.subset_append_left _ _)

theorem Live.run (hashBytes : Bytes → UInt64) {builder : SessionBuilder} {session : Session}
    (built : builder.build = .ok session) (calls : List Call) :
    Live hashBytes builder.localPeerId (run hashBytes session calls).1
      (run hashBytes session calls).2 := by
  refine Machine.history_rule (Foldback.step hashBytes) (Live hashBytes builder.localPeerId) ?_
    (fun trace state call live => live.step call) calls
  obtain ⟨writer, rfl⟩ := SessionBuilder.build_eq built
  exact ⟨rfl, Tracks.built built, List.nodup_nil, fun tick member => absurd member List.not_mem_nil⟩

theorem reportsIn_run (hashBytes : Bytes → UInt64) (localPeerId : UInt16) (session : Session)
    (calls : List Call) :
    reportsIn hashBytes localPeerId (Foldback.run hashBytes session calls).1 =
      calls.flatMap (Call.reports hashBytes localPeerId) := by
  rw [reportsIn, ← List.flatMap_map Prod.fst, Foldback.run, Machine.map_fst_run]

section Next

variable {session : Session} {reports : List TickHashRecord} {returned : List UInt64}

theorem Tracks.findsNext (tracks : Tracks session reports returned) (once : ReportedOnce reports) :
    FindsNext reports returned session.checkDivergence.1 := by
  refine ⟨fun tick => ?_, ?_⟩
  · rw [checkDivergence_eq_some_iff tracks]
    simp only [once.cross_iff]
  · rw [checkDivergence_eq_none_iff tracks]
    simp only [once.cross_iff]

/-- The reported ticks not yet returned. -/
def unreturned (reports : List TickHashRecord) (session : Session) : Finset UInt64 :=
  (reports.map TickHashRecord.tick).toFinset \ session.checkedTicks

/-- A check that returns a tick leaves fewer to return. -/
theorem card_unreturned_lt (tracks : Tracks session reports returned) {tick : UInt64}
    (found : session.checkDivergence.1 = some ⟨tick⟩) :
    (unreturned reports session.checkDivergence.2).card < (unreturned reports session).card := by
  have least := (checkDivergence_eq_some_iff tracks tick).mp found
  obtain ⟨⟨one, member, _, _, atOne, _⟩, fresh⟩ := least.1
  have effect := (step_effect (fun _ => 0) session .checkDivergence).checkedTicks
  simp only [step, found, Response.ticks] at effect
  refine Finset.card_lt_card (Finset.ssubset_iff_of_subset ?_ |>.mpr ⟨tick, ?_, ?_⟩)
  · rw [unreturned, unreturned, effect]
    exact Finset.sdiff_subset_sdiff (Finset.Subset.refl _) Finset.subset_union_left
  · rw [unreturned, Finset.mem_sdiff, List.mem_toFinset, tracks.checked, List.mem_toFinset]
    exact ⟨List.mem_map.mpr ⟨one, member, atOne⟩, fresh⟩
  · rw [unreturned, effect]
    simp

/-- **Checking until nothing is found comes to an end.** -/
theorem exists_checks (hashBytes : Bytes → UInt64) (tracks : Tracks session reports returned) :
    ∃ count, (run hashBytes session (List.replicate count .checkDivergence)).2.checkDivergence.1 =
      none := by
  obtain ⟨count, stops⟩ := Machine.exists_repeat (step hashBytes) .checkDivergence
    (fun response => response.ticks = []) (fun session => ∃ returned, Tracks session reports returned)
    (fun session => (unreturned reports session).card)
    (fun session ⟨returned, tracks⟩ => ⟨_, by
      simpa [Call.reports] using tracks.effect (step_effect hashBytes session .checkDivergence)⟩)
    (fun session ⟨returned, tracks⟩ more => by
      rcases found : session.checkDivergence.1 with _ | ⟨⟨tick⟩⟩
      · simp [step, found, Response.ticks] at more
      · exact card_unreturned_lt tracks found)
    ⟨returned, tracks⟩
  refine ⟨count, ?_⟩
  rcases found : (run hashBytes session (List.replicate count .checkDivergence)).2.checkDivergence.1
    with _ | ⟨⟨tick⟩⟩
  · rfl
  · rw [run] at found
    simp [step, found, Response.ticks] at stops

end Next

/-- Once nothing more is found, the ticks returned are the divergent ones. -/
theorem Live.settled {hashBytes : Bytes → UInt64} {localPeerId : UInt16}
    {trace : List (Call × Response)} {session : Session}
    (live : Live hashBytes localPeerId trace session)
    (once : ReportedOnce (reportsIn hashBytes localPeerId trace))
    (none : session.checkDivergence.1 = none) (tick : UInt64) :
    tick ∈ returnedIn trace ↔ CrossDivergent (reportsIn hashBytes localPeerId trace) tick :=
  ⟨fun member => (once.cross_iff tick).mp (live.sound tick member),
    (live.tracks.findsNext once).2.mp none tick⟩

/-- A check that finds nothing changes nothing. -/
theorem checkDivergence_idle {session : Session} (none : session.checkDivergence.1 = none) :
    session.checkDivergence.2 = session := by
  unfold Session.checkDivergence at none ⊢
  split at none
  · cases none
  · rfl

/-- After a run that ends in a check that found nothing, a check finds nothing. -/
theorem lastCheck_none {hashBytes : Bytes → UInt64} {session : Session} {calls : List Call}
    (last : (run hashBytes session calls).1.getLast? = some (.checkDivergence, .divergence none)) :
    (run hashBytes session calls).2.checkDivergence.1 = none := by
  obtain ⟨before, split⟩ := List.getLast?_eq_some_iff.mp last
  have inputs : calls = before.map Prod.fst ++ [.checkDivergence] := by
    rw [← Machine.map_fst_run (step hashBytes) session calls, ← run, split, List.map_append]
    rfl
  have answer := (Machine.run_split _ split).2
  have none : (run hashBytes session (before.map Prod.fst)).2.checkDivergence.1 = none :=
    Response.divergence.inj answer
  rw [run, inputs, Machine.run_snoc]
  have same := checkDivergence_idle none
  rw [run] at none same
  simp only [step, same, none]

/-- **Live reporting loses nothing and repeats nothing.** -/
theorem live_divergence_exact (hashBytes : Bytes → UInt64) (builder : SessionBuilder)
    (session : Session) (built : builder.build = .ok session) (calls : List Call)
    (once : ReportedOnce (calls.flatMap (Call.reports hashBytes builder.localPeerId))) :
    let trace := (run hashBytes session calls).1
    let divergent := CrossDivergent (reportsIn hashBytes builder.localPeerId trace)
    (∀ before response after, trace = before ++ (.checkDivergence, response) :: after →
      ∃ found, response = .divergence found ∧
        FindsNext (reportsIn hashBytes builder.localPeerId before) (returnedIn before) found) ∧
    (returnedIn trace).Nodup ∧ (∀ tick ∈ returnedIn trace, divergent tick) ∧
    (∃ count, (run hashBytes session (calls ++ List.replicate (count + 1) .checkDivergence)).1.getLast?
      = some (.checkDivergence, .divergence none)) ∧
    ∀ quiet, (∀ call ∈ quiet, call.reports hashBytes builder.localPeerId = []) →
      (run hashBytes session (calls ++ quiet)).1.getLast? =
        some (.checkDivergence, .divergence none) →
      ∀ tick, tick ∈ returnedIn (run hashBytes session (calls ++ quiet)).1 ↔ divergent tick := by
  intro trace divergent
  have live := Live.run hashBytes built calls
  have onceTrace : ReportedOnce (reportsIn hashBytes builder.localPeerId trace) := by
    rw [reportsIn_run]
    exact once
  refine ⟨fun before response after split => ?_, live.nodup,
    fun tick member => (onceTrace.cross_iff tick).mp (live.sound tick member), ?_,
    fun quiet noReports last tick => ?_⟩
  · obtain ⟨earlier, answer⟩ := Machine.run_split _ split
    have liveBefore := Live.run hashBytes built (before.map Prod.fst)
    rw [run, earlier] at liveBefore
    rw [split, reportsIn, List.flatMap_append] at onceTrace
    exact ⟨_, answer.symm, liveBefore.tracks.findsNext onceTrace.of_append⟩
  · obtain ⟨count, none⟩ := exists_checks hashBytes live.tracks
    refine ⟨count, ?_⟩
    rw [run, List.replicate_succ', ← List.append_assoc, Machine.run_snoc, List.getLast?_concat,
      Machine.run_append]
    exact congrArg (fun found => some (Call.checkDivergence, Response.divergence found)) none
  · have whole := Live.run hashBytes built (calls ++ quiet)
    have sameReports : reportsIn hashBytes builder.localPeerId
        (run hashBytes session (calls ++ quiet)).1
        = reportsIn hashBytes builder.localPeerId trace := by
      rw [reportsIn_run, reportsIn_run, List.flatMap_append, List.flatMap_eq_nil_iff.mpr noReports,
        List.append_nil]
    have idle := lastCheck_none last
    rw [← sameReports] at onceTrace
    rw [whole.settled onceTrace idle, sameReports]

/-- Tick 5 is reported before tick 3 becomes divergent. -/
def lateReports : List Call :=
  [.hashTick 3 [], .recordPeerHash 5 1 8, .hashTick 5 [], .checkDivergence, .recordPeerHash 3 1 9,
    .checkDivergence, .checkDivergence]

theorem live_divergence_exact_sample :
    returnedIn (run (fun _ => 7) (({} : SessionBuilder).session none) lateReports).1 = [5, 3] ∧
      ∀ tick ∈ ([5, 3] : List UInt64), CrossDivergent (reportsIn (fun _ => 7) 0
        (run (fun _ => 7) (({} : SessionBuilder).session none) lateReports).1) tick := by
  have returned : returnedIn (run (fun _ => 7) (({} : SessionBuilder).session none)
      lateReports).1 = [5, 3] := by decide
  have exact := live_divergence_exact (fun _ => 7) {} (({} : SessionBuilder).session none) rfl
    lateReports (by unfold ReportedOnce; decide)
  refine ⟨returned, ?_⟩
  rw [← returned]
  exact exact.2.2.1

end Foldback
