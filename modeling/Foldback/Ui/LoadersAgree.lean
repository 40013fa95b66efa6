/-
**The command line's `analyze` against the UI's `load`.**

Both read a file through `loadRecording`, and fold its frames in loops of their own. `load` lists the
snapshots' ticks; when it finds a divergence it also sorts them and drops repeats.

* `foldl_tally`: what the command line's loop has counted, in the words of the UI's.
* `agree_iff`: on the frames of a file the two agree exactly when no tick with two snapshots meets a
  contradicted tick.
* `loaders_agree_iff`: the same for every file, also one that neither can read.
-/

import Foldback.Cli.Report
import Foldback.Ui.Session

namespace Foldback

/-! ### The command line's loop -/

/-- **What the command line's loop counts** is what the UI's loop lists. -/
theorem foldl_tally (frames : List Frame) (tally : Tally) :
    frames.foldl Tally.add tally =
      { tickRecords := tally.tickRecords ++ recordsOf frames
        entityHashCount := tally.entityHashCount + (entityEntriesOf frames).length
        fieldHashCount := tally.fieldHashCount + (fieldEntriesOf frames).length
        snapshotCount := tally.snapshotCount + (snapshotTicksOf frames).length
        metadataCount := tally.metadataCount + frames.countP Frame.isMetadata
        endedCleanly := tally.endedCleanly || frames.any Frame.isEndOfStream } := by
  induction frames generalizing tally with
  | nil => simp [recordsOf, entityEntriesOf, fieldEntriesOf, snapshotTicksOf]
  | cons frame frames ih =>
    rw [List.foldl_cons, ih]
    cases frame <;>
      simp [Tally.add, recordsOf, entityEntriesOf, fieldEntriesOf, snapshotTicksOf, List.countP_cons,
        Frame.isMetadata, Frame.isEndOfStream, Nat.add_assoc, Nat.add_comm 1]

theorem reportOf_eq (header : Header) (frames : List Frame) :
    Report.of header frames =
      { header
        tickHashCount := (recordsOf frames).length
        entityHashCount := (entityEntriesOf frames).length
        fieldHashCount := (fieldEntriesOf frames).length
        snapshotCount := (snapshotTicksOf frames).length
        metadataCount := frames.countP Frame.isMetadata
        endedCleanly := frames.any Frame.isEndOfStream
        divergence := findFirstDivergence (recordsOf frames) } := by
  simp [Report.of, foldl_tally]

/-! ### The two summaries -/

/-- The two loaders tell the same of a file. The UI has the build id as text. -/
structure Agree (report : Report) (data : SessionData UInt64) : Prop where
  tickRateHz : data.tickRateHz = report.header.tickRateHz
  peerCount : data.peerCount = report.header.peerCount
  buildId : data.buildId = hexBytes report.header.buildId.toList
  tickHashes : data.tickHashes.length = report.tickHashCount
  entityHashes : data.entityHashes.length = report.entityHashCount
  fieldHashes : data.fieldHashes.length = report.fieldHashCount
  snapshots : data.snapshotTicks.length = report.snapshotCount
  metadata : data.metadataCount = report.metadataCount
  endedCleanly : data.endedCleanly = report.endedCleanly
  divergence : data.divergenceTick = report.divergence.map DivergenceTick.tick

/-- Sorting and dropping repeats keeps the length exactly of a list without repeats. -/
theorem length_destutter_insertionSort (ticks : List UInt64) :
    ((ticks.insertionSort (· ≤ ·)).destutter (· ≠ ·)).length = ticks.length ↔ ticks.Nodup := by
  rw [(List.pairwise_insertionSort (· ≤ ·) ticks).destutter_eq_dedup,
    ← List.length_insertionSort (· ≤ ·) ticks, ← (List.perm_insertionSort (· ≤ ·) ticks).nodup_iff]
  constructor
  · intro same
    rw [← List.dedup_eq_self]
    exact (List.dedup_sublist _).eq_of_length same
  · intro nodup
    rw [nodup.dedup]

/-- **On the frames of a file the loaders agree exactly when a contradicted tick comes with no
repeated snapshot.** -/
theorem agree_iff (fileName : String) (header : Header) (frames : List Frame) :
    Agree (Report.of header frames) ((Loading.ofFrames frames).finish fileName header) ↔
      ((∃ tick, Contradicted (recordsOf frames) tick) → (snapshotTicksOf frames).Nodup) := by
  have gathered := foldl_add frames {}
  simp only [List.nil_append, Nat.zero_add, Bool.false_or] at gathered
  rw [reportOf_eq, Loading.ofFrames, gathered]
  unfold Loading.finish
  rcases found : findFirstDivergence (recordsOf frames) with _ | divergence
  · -- the early exit leaves the list as it is
    have none := (findFirstDivergence_eq_none_iff _).mp found
    refine ⟨fun _ ⟨tick, contradicted⟩ => absurd contradicted (none tick), fun _ => ?_⟩
    exact ⟨rfl, rfl, rfl, List.length_map _, rfl, rfl, rfl, rfl, rfl, rfl⟩
  · have contradicted := ((findFirstDivergence_eq_some_iff _ divergence.tick).mp found).1
    constructor
    · intro agree _
      exact (length_destutter_insertionSort _).mp agree.snapshots
    · intro condition
      have nodup := condition ⟨divergence.tick, contradicted⟩
      exact ⟨rfl, rfl, rfl, List.length_map _, rfl, rfl,
        (length_destutter_insertionSort _).mpr nodup, rfl, rfl, rfl⟩

/-! ### Every file -/

/-- Both loaders fail, or both succeed and agree. -/
def LoadersAgree (path : String) (fileName : Option String) (opened : Except IoError Bytes) : Prop :=
  (∃ cli ui, analyze path opened = .error cli ∧ load path fileName opened = .error ui) ∨
    ∃ report data, analyze path opened = .ok report ∧ load path fileName opened = .ok data ∧
      Agree report data

theorem analyze_holds (path : String) {file : Bytes} {header : Header} {frames : List Frame}
    (holds : Holds file header frames) : analyze path (.ok file) = .ok (Report.of header frames) := by
  rw [analyze, loadRecording_ok _ holds]
  rfl

/-- **The loaders agree on a file exactly when it does not hold a contradicted tick together with
two snapshots of one tick.** -/
theorem loaders_agree_iff (path : String) (fileName : Option String)
    (opened : Except IoError Bytes) :
    LoadersAgree path fileName opened ↔
      ∀ file header frames, opened = .ok file → Holds file header frames →
        (∃ tick, Contradicted (recordsOf frames) tick) → (snapshotTicksOf frames).Nodup := by
  rcases loadRecording_cases opened with ⟨file, header, frames, rfl, holds⟩ | fails
  · have cli := analyze_holds path holds
    have ui := load_holds path fileName holds
    have agree := agree_iff (fileName.getD path) header frames
    constructor
    · intro loaders file' header' frames' same holds'
      cases same
      have one := loadRecording_ok (CliError.wrap path) holds
      rw [loadRecording_ok _ holds'] at one
      cases one
      refine agree.mp ?_
      rcases loaders with ⟨_, _, failed, _⟩ | ⟨report, data, analyzed, loaded, agrees⟩
      · rw [cli] at failed
        cases failed
      · rw [cli] at analyzed
        rw [ui] at loaded
        cases analyzed
        cases loaded
        exact agrees
    · intro condition
      exact Or.inr ⟨_, _, cli, ui, agree.mpr (condition file header frames rfl holds)⟩
  · constructor
    · intro _ file header frames opened holds
      obtain ⟨error, failed⟩ := fails (CliError.wrap path)
      rw [opened, loadRecording_ok _ holds] at failed
      cases failed
    · intro _
      obtain ⟨cli, cliFails⟩ := fails (CliError.wrap path)
      obtain ⟨ui, uiFails⟩ := fails (LoadError.wrap path)
      refine Or.inl ⟨cli, ui, ?_, ?_⟩
      · rw [analyze, cliFails]
        rfl
      · rw [load, uiFails]
        rfl

/-- Two peers disagree on tick 0, and tick 0 has two snapshots. -/
def twoSnapshots : List Frame :=
  [.tickHash 0 0 7, .tickHash 0 1 8, .snapshot 0 0 [], .snapshot 0 1 [], .endOfStream]

def twoSnapshotsFile : Bytes := (({} : SessionBuilder).header).encode ++ encodeFrames twoSnapshots

/-- **The command line counts two snapshots and the UI one.** -/
theorem loaders_differ :
    ∃ report data, analyze "a" (.ok twoSnapshotsFile) = .ok report ∧
      load "a" none (.ok twoSnapshotsFile) = .ok data ∧
      report.snapshotCount = 2 ∧ data.snapshotTicks = [0] ∧
      ¬ LoadersAgree "a" none (.ok twoSnapshotsFile) := by
  have fits : ∀ frame ∈ twoSnapshots, frame.Fits := by decide
  have holds : Holds twoSnapshotsFile ({} : SessionBuilder).header twoSnapshots :=
    holds_encode _ fits
  have cli := analyze_holds "a" holds
  have ui := load_holds "a" none holds
  refine ⟨_, _, cli, ui, by decide, by decide, fun loaders => ?_⟩
  rcases loaders with ⟨_, _, failed, _⟩ | ⟨report, data, analyzed, loaded, agrees⟩
  · rw [cli] at failed
    cases failed
  · rw [cli] at analyzed
    rw [ui] at loaded
    cases analyzed
    cases loaded
    exact absurd agrees.snapshots (by decide)

end Foldback
