/-
**The commands of `main.rs`, and what they tell of a recording that a crash has cut off.**

* `Output`: what a command prints, and its exit code; `runAnalyze`, `runCiCheck`, `runSchemaDiff`.
* `framesWithin_framesOf`: the first frames of a recording are those of the first calls.
* `cut_is_earlier`: **a recording that was cut behind its header is read as that of the first calls**,
  by every command and by the UI.
* `cut_verdicts`: **a cut hides, and never makes, a divergence or a drift**: the exit codes grow with
  what is kept.
-/

import Foldback.Cli.Mesh
import Foldback.Cli.SchemaDiff
import Foldback.Ui.EndedCleanly

namespace Foldback

/-! ### The commands -/

/-- The printed lines and the exit code. -/
structure Output where
  stdout : List String := []
  stderr : List String := []
  exitCode : ℕ := 0
  deriving DecidableEq, Repr

section Commands

variable (ioText : IoError → String)

def CliError.display : CliError → String
  | .openFailed path source => "could not open '" ++ path ++ "': " ++ ioText source
  | .format path source => "failed reading '" ++ path ++ "': " ++ source.display ioText

/-- What every command does with an error. -/
def CliError.exit (error : CliError) : Output :=
  { stderr := ["error: " ++ error.display ioText], exitCode := 2 }

/-- `hex` of `main.rs`. -/
def hexText (bytes : Bytes) : String := String.join (bytes.map hexByte)

def printReport (report : Report) : List String :=
  ["format_version : " ++ toString report.header.formatVersion,
    "tick_rate_hz   : " ++ toString report.header.tickRateHz,
    "peer_count     : " ++ toString report.header.peerCount,
    "build_id       : " ++ hexText report.header.buildId.toList,
    "ended cleanly  : " ++ toString report.endedCleanly,
    "",
    "tick hashes    : " ++ toString report.tickHashCount,
    "entity hashes  : " ++ toString report.entityHashCount,
    "field hashes   : " ++ toString report.fieldHashCount,
    "snapshots      : " ++ toString report.snapshotCount,
    "metadata       : " ++ toString report.metadataCount,
    "",
    match report.divergence with
    | some divergence => "divergence     : tick " ++ toString divergence.tick
    | none => "divergence     : none found"]

def printReportToStderr (report : Report) : List String :=
  ["format_version : " ++ toString report.header.formatVersion,
    "tick_rate_hz   : " ++ toString report.header.tickRateHz,
    "peer_count     : " ++ toString report.header.peerCount,
    "tick hashes    : " ++ toString report.tickHashCount]

def runAnalyze (path : String) (opened : Except IoError Bytes) : Output :=
  match analyze path opened with
  | .ok report => { stdout := printReport report }
  | .error error => error.exit ioText

/-- What `run_ci_check` makes of a report. -/
def Report.verdict (report : Report) : Output :=
  match report.divergence with
  | some divergence =>
    { stderr := ("DIVERGENCE DETECTED at tick " ++ toString divergence.tick) :: "" ::
        printReportToStderr report
      exitCode := 1 }
  | none =>
    { stdout :=
        ["clean: no divergence detected across " ++ toString report.tickHashCount ++ " ticks"] }

def runCiCheck (path : String) (opened : Except IoError Bytes) : Output :=
  match analyze path opened with
  | .ok report => report.verdict
  | .error error => error.exit ioText

/-- What `run_schema_diff` makes of two maps. -/
def schemaVerdict (beforeSchema afterSchema : SchemaMap) : Output :=
  let drift := detectDrift beforeSchema afterSchema
  if drift.isEmpty then
    { stdout := ["no schema drift across " ++
        toString (beforeSchema.keys.filter fun typeName => afterSchema.contains typeName).length ++
        " type(s) common to both files"] }
  else
    { stdout := drift.flatMap fun entry =>
        ["SCHEMA DRIFT: " ++ entry.typeName,
          "  before : " ++ entry.before,
          "  after  : " ++ entry.after]
      exitCode := 1 }

def runSchemaDiff (before after : String) (openedBefore openedAfter : Except IoError Bytes) : Output :=
  match extractSchema before openedBefore with
  | .error error => error.exit ioText
  | .ok beforeSchema =>
    match extractSchema after openedAfter with
    | .error error => error.exit ioText
    | .ok afterSchema => schemaVerdict beforeSchema afterSchema

end Commands

/-! ### The front of a recording -/

/-- Cutting twice is cutting at the shorter length. -/
theorem framesWithin_framesWithin {room more : ℕ} (within : room ≤ more) (frames : List Frame) :
    framesWithin room (framesWithin more frames) = framesWithin room frames := by
  induction frames generalizing room more with
  | nil => rfl
  | cons frame frames ih =>
    rw [framesWithin.eq_2 more]
    by_cases whole : frame.encode.length ≤ more
    · rw [if_pos whole, framesWithin, framesWithin]
      by_cases inside : frame.encode.length ≤ room
      · rw [if_pos inside, if_pos inside, ih (Nat.sub_le_sub_right within _)]
      · rw [if_neg inside, if_neg inside]
    · rw [if_neg whole, framesWithin, framesWithin, if_neg (by omega)]

/-- The bytes of the frames that end by a cut are kept by it. -/
theorem encodeFrames_framesWithin (room : ℕ) (frames : List Frame) :
    encodeFrames (framesWithin room frames) <+: (encodeFrames frames).take room := by
  induction frames generalizing room with
  | nil => exact List.nil_prefix
  | cons frame frames ih =>
    rw [framesWithin]
    split
    · rename_i whole
      rw [encodeFrames_cons, encodeFrames_cons, List.take_append, List.take_of_length_le whole]
      exact (List.prefix_append_right_inj _).mpr (ih _)
    · exact List.nil_prefix

section Front

variable (hashBytes : Bytes → UInt64) (localPeerId : UInt16)

/-- **The first frames of a recording are those of the first calls.** -/
theorem framesWithin_framesOf (room : ℕ) (writtenSchemas : Finset String) (calls : List Call) :
    ∃ first, first <+: calls ∧ framesWithin room (framesOf hashBytes localPeerId writtenSchemas calls) =
      framesOf hashBytes localPeerId writtenSchemas first := by
  induction calls generalizing room writtenSchemas with
  | nil => exact ⟨[], List.prefix_refl _, rfl⟩
  | cons call calls ih =>
    rw [framesOf]
    rcases Call.frames_cases hashBytes localPeerId writtenSchemas call with none | ⟨frame, one⟩
    · obtain ⟨first, front, same⟩ := ih room (writtenSchemas ∪ call.typeNames.toFinset)
      refine ⟨call :: first, (List.prefix_cons_inj call).mpr front, ?_⟩
      rw [none, List.nil_append, same, framesOf, none, List.nil_append]
    · rw [one, List.singleton_append, framesWithin]
      by_cases whole : frame.encode.length ≤ room
      · obtain ⟨first, front, same⟩ :=
          ih (room - frame.encode.length) (writtenSchemas ∪ call.typeNames.toFinset)
        refine ⟨call :: first, (List.prefix_cons_inj call).mpr front, ?_⟩
        rw [if_pos whole, same, framesOf, one, List.singleton_append]
      · exact ⟨[], List.nil_prefix, by rw [if_neg whole]; rfl⟩

end Front

/-- The first calls of a run that succeeds succeed. -/
theorem AllOk.first {hashBytes : Bytes → UInt64} {session : Session} {first calls : List Call}
    (ok : AllOk (run hashBytes session calls).1) (front : first <+: calls) :
    AllOk (run hashBytes session first).1 := by
  obtain ⟨later, rfl⟩ := front
  rw [run, Machine.run_append] at ok
  exact fun entry member => ok entry (List.mem_append_left _ member)

theorem framesOf_subset {hashBytes : Bytes → UInt64} {localPeerId : UInt16}
    {writtenSchemas : Finset String} {first calls : List Call} (front : first <+: calls) :
    framesOf hashBytes localPeerId writtenSchemas first ⊆
      framesOf hashBytes localPeerId writtenSchemas calls := by
  obtain ⟨later, rfl⟩ := front
  rw [framesOf_append]
  exact List.subset_append_left _ _

/-! ### A recording that was cut off -/

theorem analyze_reads (path : String) {file : Bytes} {header : Header} {frames : List Frame}
    (holds : Holds file header frames) : analyze path (.ok file) = .ok (Report.of header frames) := by
  rw [analyze, loadRecording_ok _ holds]
  rfl

theorem extractSchema_reads (path : String) {file : Bytes} {header : Header} {frames : List Frame}
    (holds : Holds file header frames) :
    extractSchema path (.ok file) = .ok (extractSchemas frames) := by
  rw [extractSchema, loadRecording_ok _ holds]
  rfl

/-- **Every command, and the UI, reads one file as the other.** -/
structure ReadAlike (ioText : IoError → String) (path : String) (file other : Bytes) : Prop where
  analyzes : runAnalyze ioText path (.ok file) = runAnalyze ioText path (.ok other)
  checks : runCiCheck ioText path (.ok file) = runCiCheck ioText path (.ok other)
  extracts : extractSchema path (.ok file) = extractSchema path (.ok other)
  diffsBefore : ∀ after opened, runSchemaDiff ioText path after (.ok file) opened =
    runSchemaDiff ioText path after (.ok other) opened
  diffsAfter : ∀ before opened, runSchemaDiff ioText before path opened (.ok file) =
    runSchemaDiff ioText before path opened (.ok other)
  loads : ∀ fileName, load path fileName (.ok file) = load path fileName (.ok other)

/-- Two files that hold the same are told apart by no command. -/
theorem ReadAlike.of_holds (ioText : IoError → String) {file other : Bytes} {header : Header}
    {frames : List Frame} (holds : Holds file header frames) (holds' : Holds other header frames)
    (path : String) : ReadAlike ioText path file other := by
  have analyzed := (analyze_reads path holds).trans (analyze_reads path holds').symm
  have extracted := (extractSchema_reads path holds).trans (extractSchema_reads path holds').symm
  refine ⟨?_, ?_, extracted, fun after opened => ?_, fun before opened => ?_, fun fileName => ?_⟩
  · rw [runAnalyze, runAnalyze, analyzed]
  · rw [runCiCheck, runCiCheck, analyzed]
  · rw [runSchemaDiff, runSchemaDiff, extracted]
  · rw [runSchemaDiff, runSchemaDiff, extracted]
  · exact (load_holds path fileName holds).trans (load_holds path fileName holds').symm

/-- **Every command exits with the error, and the UI reports it.** `schema-diff` does so if it can read
the other file, or does not come to it. -/
structure Refused (ioText : IoError → String) (path : String) (file : Bytes) (error : Error) : Prop where
  analyzes : runAnalyze ioText path (.ok file) = CliError.exit ioText (.format path error)
  checks : runCiCheck ioText path (.ok file) = CliError.exit ioText (.format path error)
  extracts : extractSchema path (.ok file) = .error (.format path error)
  diffsBefore : ∀ after opened, runSchemaDiff ioText path after (.ok file) opened =
    CliError.exit ioText (.format path error)
  diffsAfter : ∀ before opened beforeSchema, extractSchema before opened = .ok beforeSchema →
    runSchemaDiff ioText before path opened (.ok file) = CliError.exit ioText (.format path error)
  loads : ∀ fileName, load path fileName (.ok file) = .error (.format path error)

/-- A file that ends in its header is refused. -/
theorem loadRecording_short {ε : Type} (wrap : Wrap ε) {file : Bytes}
    (short : file.length < headerLen) :
    loadRecording wrap (.ok file) = .error (wrap.format .truncatedHeader) := by
  rw [loadRecording, openRecording, Header.readFrom_short short]
  rfl

theorem Refused.of_short (ioText : IoError → String) (path : String) {file : Bytes}
    (short : file.length < headerLen) : Refused ioText path file .truncatedHeader := by
  have extracted : extractSchema path (.ok file) = .error (.format path .truncatedHeader) := by
    rw [extractSchema, loadRecording_short _ short]
    rfl
  refine ⟨?_, ?_, extracted, fun after opened => ?_, fun before opened beforeSchema read => ?_,
    fun fileName => ?_⟩
  · rw [runAnalyze, analyze, loadRecording_short _ short]
    rfl
  · rw [runCiCheck, analyze, loadRecording_short _ short]
    rfl
  · rw [runSchemaDiff, extracted]
  · rw [runSchemaDiff, read]
    dsimp only
    rw [extracted]
  · rw [load, loadRecording_short _ short]
    rfl

section Cut

variable (hashBytes : Bytes → UInt64) {builder : SessionBuilder} {session : Session}

/-- **A recording that was cut off is an earlier one.** A cut in the header is reported as such. Behind
it there are first calls of the run with which the same session records a file that every command, and
the UI, reads as the cut one; its bytes are the front of what was kept. -/
theorem cut_is_earlier (records : builder.recordTo ≠ none) (built : builder.build = .ok session)
    (calls : List Call) (ok : AllOk (run hashBytes session calls).1)
    (fits : ∀ frame ∈ framesOf hashBytes builder.localPeerId ∅ calls, frame.Fits)
    (ioText : IoError → String) (path : String) :
    ∃ file, recordedBytes (run hashBytes session calls).2 = some file ∧ ∀ cut,
      (cut < headerLen → Refused ioText path (file.take cut) .truncatedHeader) ∧
      (headerLen ≤ cut → ∃ first earlier, first <+: calls ∧
        recordedBytes (run hashBytes session first).2 = some earlier ∧ earlier <+: file.take cut ∧
        ReadAlike ioText path (file.take cut) earlier) := by
  refine ⟨_, recordedBytes_run hashBytes records built ok, fun cut => ⟨fun short => ?_, fun past => ?_⟩⟩
  · refine Refused.of_short ioText path ?_
    rw [List.length_take]
    exact lt_of_le_of_lt (min_le_left _ _) short
  · have holds := holds_take builder.header fits past
    obtain ⟨first, front, same⟩ :=
      framesWithin_framesOf hashBytes builder.localPeerId (cut - headerLen) ∅ calls
    have fitsFirst : ∀ frame ∈ framesOf hashBytes builder.localPeerId ∅ first, frame.Fits :=
      fun frame member => fits frame (framesOf_subset front member)
    rw [same] at holds
    refine ⟨first, _, front, recordedBytes_run hashBytes records built (ok.first front), ?_,
      .of_holds ioText holds (holds_encode builder.header fitsFirst) path⟩
    rw [← same, List.take_append, builder.header.length_encode, List.take_of_length_le]
    · exact (List.prefix_append_right_inj _).mpr (encodeFrames_framesWithin _ _)
    · rw [builder.header.length_encode]
      exact past

end Cut

/-! ### What a cut hides -/

/-- Every schema of the first map is in the second. -/
def SubMap (first second : SchemaMap) : Prop :=
  ∀ typeName fingerprint : String,
    first[typeName]? = some fingerprint → second[typeName]? = some fingerprint

theorem SubMap.drift_left {first second : SchemaMap} (sub : SubMap first second) (other : SchemaMap) :
    detectDrift first other ⊆ detectDrift second other := by
  intro drift member
  obtain ⟨before, after, differs⟩ := mem_detectDrift.mp member
  exact mem_detectDrift.mpr ⟨sub _ _ before, after, differs⟩

theorem SubMap.drift_right {first second : SchemaMap} (sub : SubMap first second) (other : SchemaMap) :
    detectDrift other first ⊆ detectDrift other second := by
  intro drift member
  obtain ⟨before, after, differs⟩ := mem_detectDrift.mp member
  exact mem_detectDrift.mpr ⟨before, sub _ _ after, differs⟩

/-- Maps of which one is in the other do not drift. -/
theorem SubMap.no_drift {first second : SchemaMap} (sub : SubMap first second) :
    detectDrift first second = [] ∧ detectDrift second first = [] := by
  constructor
  all_goals
    rw [List.eq_nil_iff_forall_not_mem]
    intro drift member
    obtain ⟨before, after, differs⟩ := mem_detectDrift.mp member
  · exact differs (Option.some_inj.mp (after.symm.trans (sub _ _ before)))
  · exact differs (Option.some_inj.mp ((sub _ _ after).symm.trans before))

theorem schemaVerdict_exitCode (first second : SchemaMap) :
    (schemaVerdict first second).exitCode = if detectDrift first second = [] then 0 else 1 := by
  unfold schemaVerdict
  rcases drift : detectDrift first second with _ | ⟨entry, entries⟩
  all_goals rfl

/-- A list that grows from a drift still has one. -/
theorem exitCode_le_of_subset {first second other other' : SchemaMap}
    (sub : detectDrift first second ⊆ detectDrift other other') :
    (schemaVerdict first second).exitCode ≤ (schemaVerdict other other').exitCode := by
  rw [schemaVerdict_exitCode, schemaVerdict_exitCode]
  by_cases none : detectDrift other other' = []
  · rw [none] at sub
    rw [if_pos (List.subset_nil.mp sub), if_pos none]
  · rw [if_neg none]
    split
    · exact Nat.zero_le 1
    · exact Nat.le_refl 1

theorem firstSchema_append (typeName : String) (first later : List Call) :
    firstSchema typeName (first ++ later) =
      (firstSchema typeName first).or (firstSchema typeName later) := by
  induction first with
  | nil => rfl
  | cons call first ih =>
    cases call with
    | recordSchema name trackedFields =>
      rw [List.cons_append, firstSchema, firstSchema]
      split
      · rfl
      · exact ih
    | _ => exact ih

section Verdicts

variable (hashBytes : Bytes → UInt64)

theorem subMap_of_front (localPeerId : UInt16) {first calls : List Call} (front : first <+: calls) :
    SubMap (extractSchemas (framesOf hashBytes localPeerId ∅ first))
      (extractSchemas (framesOf hashBytes localPeerId ∅ calls)) := by
  obtain ⟨later, rfl⟩ := front
  intro typeName value found
  rw [getElem?_extractSchemas_framesOf] at found ⊢
  obtain ⟨fields, known, rfl⟩ := Option.map_eq_some_iff.mp found
  rw [firstSchema_append, known]
  rfl

/-- What the first calls contradict, all of them do. -/
theorem divergence_of_front (localPeerId : UInt16) {first calls : List Call} (front : first <+: calls)
    (header : Header) (tick : UInt64)
    (named : (Report.of header (framesOf hashBytes localPeerId ∅ first)).divergence = some ⟨tick⟩) :
    ∃ tick' ≤ tick,
      (Report.of header (framesOf hashBytes localPeerId ∅ calls)).divergence = some ⟨tick'⟩ := by
  rw [divergence_of, findFirstDivergence_eq_some_iff] at named
  have sub : first.flatMap (Call.reports hashBytes localPeerId) ⊆
      calls.flatMap (Call.reports hashBytes localPeerId) := by
    obtain ⟨later, rfl⟩ := front
    rw [List.flatMap_append]
    exact List.subset_append_left _ _
  have still : Contradicted (calls.flatMap (Call.reports hashBytes localPeerId)) tick :=
    Contradicted.mono sub named.1
  rw [divergence_of]
  rcases found : findFirstDivergence (calls.flatMap (Call.reports hashBytes localPeerId)) with
    _ | ⟨⟨tick'⟩⟩
  · exact absurd still ((findFirstDivergence_eq_none_iff _).mp found tick)
  · have least := (findFirstDivergence_eq_some_iff _ _).mp found
    exact ⟨tick', least.2 still, rfl⟩

theorem Report.verdict_exitCode (report : Report) :
    report.verdict.exitCode = if report.divergence = none then 0 else 1 := by
  unfold Report.verdict
  rcases report.divergence with _ | divergence
  all_goals rfl

variable {builder : SessionBuilder} {session : Session}

/-- **A cut hides, and never makes, a divergence or a drift.** Of two cuts of a recording behind its
header, both load. A divergence that the shorter one shows is shown by the longer one, at that tick or
an earlier one, and `ci-check` exits accordingly; between them there is no drift; and a drift of the
shorter one from any other file is one of the longer one. -/
theorem cut_verdicts (records : builder.recordTo ≠ none) (built : builder.build = .ok session)
    (calls : List Call) (ok : AllOk (run hashBytes session calls).1)
    (fits : ∀ frame ∈ framesOf hashBytes builder.localPeerId ∅ calls, frame.Fits)
    (ioText : IoError → String) (path : String) :
    ∃ file, recordedBytes (run hashBytes session calls).2 = some file ∧ ∀ cut more,
      headerLen ≤ cut → cut ≤ more →
      (∃ report report', analyze path (.ok (file.take cut)) = .ok report ∧
        analyze path (.ok (file.take more)) = .ok report' ∧
        ∀ tick, report.divergence = some ⟨tick⟩ →
          ∃ tick' ≤ tick, report'.divergence = some ⟨tick'⟩) ∧
      (runCiCheck ioText path (.ok (file.take cut))).exitCode ≤
        (runCiCheck ioText path (.ok (file.take more))).exitCode ∧
      (runSchemaDiff ioText path path (.ok (file.take cut)) (.ok (file.take more))).exitCode = 0 ∧
      (runSchemaDiff ioText path path (.ok (file.take more)) (.ok (file.take cut))).exitCode = 0 ∧
      ∀ other opened,
        (runSchemaDiff ioText path other (.ok (file.take cut)) opened).exitCode ≤
          (runSchemaDiff ioText path other (.ok (file.take more)) opened).exitCode ∧
        (runSchemaDiff ioText other path opened (.ok (file.take cut))).exitCode ≤
          (runSchemaDiff ioText other path opened (.ok (file.take more))).exitCode := by
  refine ⟨_, recordedBytes_run hashBytes records built ok, fun cut more past within => ?_⟩
  have holds := holds_take builder.header fits past
  have holds' := holds_take builder.header fits (past.trans within)
  obtain ⟨all, front, same⟩ :=
    framesWithin_framesOf hashBytes builder.localPeerId (more - headerLen) ∅ calls
  obtain ⟨first, front', same'⟩ :=
    framesWithin_framesOf hashBytes builder.localPeerId (cut - headerLen) ∅ all
  rw [← same, framesWithin_framesWithin (Nat.sub_le_sub_right within _)] at same'
  rw [same'] at holds
  rw [same] at holds'
  have sub := subMap_of_front hashBytes builder.localPeerId front'
  have analyzed := analyze_reads path holds
  have analyzed' := analyze_reads path holds'
  have schemas := extractSchema_reads path holds
  have schemas' := extractSchema_reads path holds'
  have later := divergence_of_front hashBytes builder.localPeerId front' builder.header
  refine ⟨⟨_, _, analyzed, analyzed', later⟩, ?_, ?_, ?_, fun other opened => ⟨?_, ?_⟩⟩
  · rw [runCiCheck, runCiCheck, analyzed, analyzed']
    show (Report.verdict _).exitCode ≤ (Report.verdict _).exitCode
    rw [Report.verdict_exitCode, Report.verdict_exitCode]
    by_cases clean : (Report.of builder.header
        (framesOf hashBytes builder.localPeerId ∅ first)).divergence = none
    · rw [if_pos clean]
      exact Nat.zero_le _
    · obtain ⟨⟨tick⟩, named⟩ := Option.ne_none_iff_exists'.mp clean
      obtain ⟨tick', -, named'⟩ := later tick named
      rw [if_neg clean, named', if_neg (Option.some_ne_none _)]
  · rw [runSchemaDiff, schemas, schemas']
    show (schemaVerdict _ _).exitCode = 0
    rw [schemaVerdict_exitCode, if_pos sub.no_drift.1]
  · rw [runSchemaDiff, schemas, schemas']
    show (schemaVerdict _ _).exitCode = 0
    rw [schemaVerdict_exitCode, if_pos sub.no_drift.2]
  · rw [runSchemaDiff, runSchemaDiff, schemas, schemas']
    rcases extractSchema other opened with error | otherSchema
    · exact Nat.le_refl _
    · exact exitCode_le_of_subset (sub.drift_left otherSchema)
  · rw [runSchemaDiff, runSchemaDiff, schemas, schemas']
    rcases extractSchema other opened with error | otherSchema
    · exact Nat.le_refl _
    · exact exitCode_le_of_subset (sub.drift_right otherSchema)

end Verdicts

/-! ### A recording -/

def crashing : List Call :=
  [.recordSchema "Ball" ["pos"], .hashTick 5 [1], .recordPeerHash 5 1 9, .finishRecording]

/-- A file cut at byte 70, and at byte 20. -/
theorem cut_is_earlier_crashing : ∃ session file first earlier,
    SessionBuilder.build { recordTo := some (.ok []) } = .ok session ∧
      recordedBytes (run (fun _ => 0) session crashing).2 = some file ∧ first <+: crashing ∧
      recordedBytes (run (fun _ => 0) session first).2 = some earlier ∧
      ReadAlike (fun _ => "") "a" (file.take 70) earlier ∧
      Refused (fun _ => "") "a" (file.take 20) .truncatedHeader := by
  let builder : SessionBuilder := { recordTo := some (.ok []) }
  let session := builder.session (some { log := builder.header.encode, faults := [] })
  have built : builder.build = .ok session := rfl
  have ok : AllOk (run (fun _ => 0) session crashing).1 := by decide
  obtain ⟨file, bytes, cuts⟩ := cut_is_earlier (fun _ => 0) (by decide) built crashing ok (by decide)
    (fun _ => "") "a"
  obtain ⟨first, earlier, front, bytes', -, alike⟩ := (cuts 70).2 (by decide)
  exact ⟨session, file, first, earlier, built, bytes, front, bytes', alike, (cuts 20).1 (by decide)⟩

/-- The divergence is behind the first cut and before the second. -/
theorem cut_verdicts_crashing : ∃ session file,
    SessionBuilder.build { recordTo := some (.ok []) } = .ok session ∧
      recordedBytes (run (fun _ => 0) session crashing).2 = some file ∧
      (runCiCheck (fun _ => "") "a" (.ok (file.take 70))).exitCode ≤
        (runCiCheck (fun _ => "") "a" (.ok (file.take 200))).exitCode ∧
      (runSchemaDiff (fun _ => "") "a" "a" (.ok (file.take 70)) (.ok (file.take 200))).exitCode = 0 := by
  let builder : SessionBuilder := { recordTo := some (.ok []) }
  let session := builder.session (some { log := builder.header.encode, faults := [] })
  have built : builder.build = .ok session := rfl
  have ok : AllOk (run (fun _ => 0) session crashing).1 := by decide
  obtain ⟨file, bytes, cuts⟩ := cut_verdicts (fun _ => 0) (by decide) built crashing ok
    (by decide) (fun _ => "") "a"
  obtain ⟨-, code, same, -⟩ := cuts 70 200 (by decide) (by decide)
  exact ⟨session, file, built, bytes, code, same⟩

end Foldback
