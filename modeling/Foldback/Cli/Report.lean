/-
**The command line's summary of a recording, as `report.rs` computes it.**

* `analyze`: the header, the counts by kind of frame, whether the stream was closed, and the first
  divergence; `extractSchema` is its sibling for schemas.
* `analyze_recording`: **on a recording that was closed once, the summary is what the session did**,
  its divergence what the session's first `check_divergence` returns.
-/

import Foldback.Core.Recording

namespace Foldback

inductive CliError
  | openFailed (path : String) (source : IoError)
  | format (path : String) (source : Error)
  deriving DecidableEq, Repr

structure Report where
  header : Header
  tickHashCount : ℕ
  entityHashCount : ℕ
  fieldHashCount : ℕ
  snapshotCount : ℕ
  metadataCount : ℕ
  endedCleanly : Bool
  divergence : Option DivergenceTick
  deriving DecidableEq, Repr

/-- The variables of the loop over the frames. -/
structure Tally where
  tickRecords : List TickHashRecord := []
  entityHashCount : ℕ := 0
  fieldHashCount : ℕ := 0
  snapshotCount : ℕ := 0
  metadataCount : ℕ := 0
  endedCleanly : Bool := false
  deriving DecidableEq, Repr

def Tally.add (tally : Tally) : Frame → Tally
  | .tickHash tick peerId hash =>
    { tally with tickRecords := tally.tickRecords ++ [{ tick, peerId, hash }] }
  | .entityHash .. => { tally with entityHashCount := tally.entityHashCount + 1 }
  | .fieldHash .. => { tally with fieldHashCount := tally.fieldHashCount + 1 }
  | .snapshot .. => { tally with snapshotCount := tally.snapshotCount + 1 }
  | .metadata .. => { tally with metadataCount := tally.metadataCount + 1 }
  | .endOfStream => { tally with endedCleanly := true }

def CliError.wrap (path : String) : Wrap CliError :=
  { openFailed := .openFailed path, format := .format path }

/-- The report of the header and the frames. -/
def Report.of (header : Header) (frames : List Frame) : Report :=
  let tally := frames.foldl Tally.add {}
  { header
    tickHashCount := tally.tickRecords.length
    entityHashCount := tally.entityHashCount
    fieldHashCount := tally.fieldHashCount
    snapshotCount := tally.snapshotCount
    metadataCount := tally.metadataCount
    endedCleanly := tally.endedCleanly
    divergence := findFirstDivergence tally.tickRecords }

def analyze (path : String) (opened : Except IoError Bytes) : Except CliError Report := do
  let (header, frames) ← loadRecording (CliError.wrap path) opened
  return Report.of header frames

def extractSchema (path : String) (opened : Except IoError Bytes) : Except CliError SchemaMap := do
  let (_, frames) ← loadRecording (CliError.wrap path) opened
  return extractSchemas frames

/-! ### The kinds of calls -/

def Call.isTick : Call → Bool
  | .hashTick .. | .recordPeerHash .. => true
  | _ => false

def Call.isEntity : Call → Bool
  | .hashEntity .. | .recordPeerEntityHash .. => true
  | _ => false

def Call.isField : Call → Bool
  | .hashField .. | .recordPeerFieldHash .. => true
  | _ => false

def Call.isFinish : Call → Bool
  | .finishRecording => true
  | _ => false

/-- What the loop has counted after the frames of a call. -/
theorem foldl_add_frames (hashBytes : Bytes → UInt64) (localPeerId : UInt16)
    (writtenSchemas : Finset String) (call : Call) (tally : Tally) :
    (call.frames hashBytes localPeerId writtenSchemas).foldl Tally.add tally =
      { tickRecords := tally.tickRecords ++ call.reports hashBytes localPeerId
        entityHashCount := tally.entityHashCount + [call].countP Call.isEntity
        fieldHashCount := tally.fieldHashCount + [call].countP Call.isField
        snapshotCount := tally.snapshotCount
        metadataCount := tally.metadataCount + (call.typeNames.toFinset \ writtenSchemas).card
        endedCleanly := tally.endedCleanly || call.isFinish } := by
  cases call with
  | recordSchema typeName trackedFields =>
    have names : (Call.recordSchema typeName trackedFields).typeNames.toFinset = {typeName} := rfl
    rw [names]
    by_cases seen : typeName ∈ writtenSchemas
    · rw [Finset.sdiff_eq_empty_iff_subset.mpr (Finset.singleton_subset_iff.mpr seen)]
      simp [Call.frames, Call.reports, Call.isEntity, Call.isField, Call.isFinish, seen]
    · rw [Finset.sdiff_eq_self_of_disjoint (Finset.disjoint_singleton_left.mpr seen)]
      simp [Call.frames, Call.reports, Call.isEntity, Call.isField, Call.isFinish, seen, Tally.add]
  | _ =>
    simp [Call.frames, Call.reports, Call.typeNames, Call.isEntity, Call.isField, Call.isFinish,
      Tally.add]

/-- **What the loop has counted after the frames of a run.** -/
theorem foldl_add_framesOf (hashBytes : Bytes → UInt64) (localPeerId : UInt16)
    (writtenSchemas : Finset String) (calls : List Call) (tally : Tally) :
    (framesOf hashBytes localPeerId writtenSchemas calls).foldl Tally.add tally =
      { tickRecords := tally.tickRecords ++ calls.flatMap (Call.reports hashBytes localPeerId)
        entityHashCount := tally.entityHashCount + calls.countP Call.isEntity
        fieldHashCount := tally.fieldHashCount + calls.countP Call.isField
        snapshotCount := tally.snapshotCount
        metadataCount := tally.metadataCount + (typeNamesOf calls \ writtenSchemas).card
        endedCleanly := tally.endedCleanly || calls.any Call.isFinish } := by
  induction calls generalizing writtenSchemas tally with
  | nil => simp [framesOf, typeNamesOf]
  | cons call calls ih =>
    have names : (call.typeNames.toFinset \ writtenSchemas).card +
        (typeNamesOf calls \ (writtenSchemas ∪ call.typeNames.toFinset)).card =
          (typeNamesOf (call :: calls) \ writtenSchemas).card := by
      rw [← Finset.card_union_of_disjoint]
      · congr 1
        ext name
        simp only [typeNamesOf, List.flatMap_cons, Finset.mem_union, Finset.mem_sdiff,
          List.mem_toFinset, List.mem_append]
        tauto
      · rw [Finset.disjoint_left]
        intro name here there
        simp only [Finset.mem_sdiff, Finset.mem_union, not_or] at here there
        exact there.2.2 here.1
    rw [framesOf, List.foldl_append, foldl_add_frames, ih]
    simp only [Tally.mk.injEq, List.flatMap_cons, List.append_assoc, List.any_cons, Bool.or_assoc,
      ← names, List.countP_cons, List.countP_nil, true_and, and_true]
    omega

/-! ### The summary of a recording -/

/-- On a session that has returned no tick, both scans find the same. -/
theorem findFirstDivergence_eq_check {session : Session} {reports : List TickHashRecord}
    (tracks : Tracks session reports []) :
    findFirstDivergence reports = session.checkDivergence.1 := by
  refine Option.ext fun found => ?_
  rcases found with ⟨tick⟩
  have offline := findFirstDivergence_eq_some_iff reports tick
  have live := checkDivergence_eq_some_iff tracks tick
  simp only [List.not_mem_nil, not_false_eq_true, and_true] at live
  exact offline.trans live.symm

/-- A run without `check_divergence` returns no tick. -/
theorem returnedIn_run_eq_nil (hashBytes : Bytes → UInt64) (session : Session) {calls : List Call}
    (unchecked : .checkDivergence ∉ calls) : returnedIn (run hashBytes session calls).1 = [] := by
  rw [returnedIn, List.flatMap_eq_nil_iff]
  intro entry member
  rw [← Machine.map_fst_run (step hashBytes) session calls] at unchecked
  obtain ⟨before, after, split⟩ := List.append_of_mem member
  have answer := (Machine.run_split _ split).2
  by_contra some
  obtain ⟨tick, ticks⟩ := List.exists_mem_of_ne_nil _ some
  rw [← answer] at ticks
  exact unchecked ((mem_ticks_step ticks).1 ▸ List.mem_map_of_mem member)

theorem length_reports (hashBytes : Bytes → UInt64) (localPeerId : UInt16) (calls : List Call) :
    (calls.flatMap (Call.reports hashBytes localPeerId)).length = calls.countP Call.isTick := by
  induction calls with
  | nil => rfl
  | cons call calls ih =>
    have here : (call.reports hashBytes localPeerId).length = [call].countP Call.isTick := by
      cases call <;> rfl
    rw [List.flatMap_cons, List.length_append, ih, here, ← List.countP_append]
    rfl

/-- **The summary of a recording that was closed once is what the session did.** -/
theorem analyze_recording (hashBytes : Bytes → UInt64) (builder : SessionBuilder) (session : Session)
    (records : builder.recordTo ≠ none) (built : builder.build = .ok session) (calls : List Call)
    (kinds : ∀ call ∈ calls, call ≠ .checkDivergence ∧ call ≠ .finishRecording)
    (ok : AllOk (run hashBytes session (calls ++ [.finishRecording])).1)
    (fits : ∀ frame ∈ framesOf hashBytes builder.localPeerId ∅ calls, frame.Fits) (path : String) :
    ∃ file, recordedBytes (run hashBytes session (calls ++ [.finishRecording])).2 = some file ∧
      analyze path (.ok file) = .ok {
        header := Header.new builder.tickRateHz builder.peerCount builder.buildId
        tickHashCount := calls.countP Call.isTick
        entityHashCount := calls.countP Call.isEntity
        fieldHashCount := calls.countP Call.isField
        snapshotCount := 0
        metadataCount := (typeNamesOf calls).card
        endedCleanly := true
        divergence :=
          (run hashBytes session (calls ++ [.finishRecording])).2.checkDivergence.1 } := by
  have frames : framesOf hashBytes builder.localPeerId ∅ (calls ++ [.finishRecording]) =
      framesOf hashBytes builder.localPeerId ∅ calls ++ [.endOfStream] := by
    rw [framesOf_append]
    rfl
  have allFit : ∀ frame ∈ framesOf hashBytes builder.localPeerId ∅ (calls ++ [.finishRecording]),
      frame.Fits := by
    rw [frames]
    intro frame member
    rcases List.mem_append.mp member with before | last
    · exact fits frame before
    · rw [List.mem_singleton.mp last]
      decide
  obtain ⟨file, recorded, holds⟩ := recording_reads_back hashBytes records built ok allFit
  have tracks := (Live.run hashBytes built (calls ++ [.finishRecording])).tracks
  have noFinish : calls.any Call.isFinish = false := by
    rw [List.any_eq_false]
    intro call member finish
    cases call with
    | finishRecording => exact (kinds _ member).2 rfl
    | _ => cases finish
  have unchecked : .checkDivergence ∉ calls ++ [.finishRecording] := by
    intro member
    rcases List.mem_append.mp member with before | last
    · exact (kinds _ before).1 rfl
    · exact absurd (List.mem_singleton.mp last) (by decide)
  have reports : reportsIn hashBytes builder.localPeerId
      (run hashBytes session (calls ++ [.finishRecording])).1 =
      calls.flatMap (Call.reports hashBytes builder.localPeerId) := by
    rw [reportsIn_run, List.flatMap_append]
    exact List.append_nil _
  rw [reports, returnedIn_run_eq_nil hashBytes session unchecked] at tracks
  refine ⟨file, recorded, ?_⟩
  rw [analyze, loadRecording_ok _ holds, frames]
  simp only [bind, Except.bind, Report.of, List.foldl_append, foldl_add_framesOf, List.foldl_cons,
    List.foldl_nil, Tally.add, List.nil_append, Finset.sdiff_empty, zero_add, length_reports,
    findFirstDivergence_eq_check tracks]
  rfl

/-- One call of each recording kind, with a divergence between two peers at tick 3. -/
def recordingSample : List Call :=
  [.recordSchema "Ball" ["vel", "pos"], .hashTick 3 [1], .recordPeerHash 3 1 9,
    .hashEntity 3 4 [2], .recordPeerEntityHash 3 1 4 5, .hashField 3 4 "pos" [6],
    .recordPeerFieldHash 3 1 4 "pos" 7 [8], .recordSchema "Ball" ["pos"]]

theorem analyze_recording_sample :
    let builder : SessionBuilder := { recordTo := some (.ok []) }
    ∃ session, builder.build = .ok session ∧ ∃ file,
      recordedBytes (run (fun _ => 0) session (recordingSample ++ [.finishRecording])).2 =
        some file ∧
      (analyze "session.foldback" (.ok file)).toOption.map (fun report =>
        (report.tickHashCount, report.metadataCount, report.endedCleanly, report.divergence)) =
          some (2, 1, true, some ⟨3⟩) := by
  intro builder
  refine ⟨builder.session (some { log := builder.header.encode, faults := [] }), rfl, ?_⟩
  obtain ⟨file, recorded, analyzed⟩ := analyze_recording (fun _ => 0) builder _ (by decide) rfl
    recordingSample (by decide) (by decide) (by decide) "session.foldback"
  refine ⟨file, recorded, ?_⟩
  rw [analyzed]
  decide

end Foldback
