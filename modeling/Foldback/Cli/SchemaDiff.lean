/-
**`foldback schema-diff` on two recordings.**

* `schemaDiff`: the drift `run_schema_diff` prints, `extractSchema` on each file and then
  `detectDrift`.
* `RecordedSession`: a session that records to a file, with a run of calls that all succeed.
* `schemaDiff_recordings`: **the drift is exact**: one entry for every type that both sessions
  recorded, first with field sets that differ, and swapping the files swaps every entry.
-/

import Foldback.Cli.Report
import Foldback.Core.SchemaDrift

namespace Foldback

open KeyOrder

/-- `run_schema_diff`, up to what it prints. -/
def schemaDiff (before after : String) (openedBefore openedAfter : Except IoError Bytes) :
    Except CliError (List SchemaDrift) := do
  let beforeSchema ← extractSchema before openedBefore
  let afterSchema ← extractSchema after openedAfter
  return detectDrift beforeSchema afterSchema

/-- A recorded session: calls that all succeed, payloads that fit their length prefix, and the field
lists the derive macro allows. -/
structure RecordedSession (hashBytes : Bytes → UInt64) where
  builder : SessionBuilder
  session : Session
  calls : List Call
  records : builder.recordTo ≠ none
  built : builder.build = .ok session
  allOk : AllOk (run hashBytes session calls).1
  fits : ∀ frame ∈ framesOf hashBytes builder.localPeerId ∅ calls, frame.Fits
  names : ∀ typeName fields, .recordSchema typeName fields ∈ calls → FieldNames fields

/-- The first schema of a type is one that a call has given. -/
theorem mem_of_firstSchema {typeName : String} {calls : List Call} {fields : List String}
    (first : firstSchema typeName calls = some fields) : .recordSchema typeName fields ∈ calls := by
  induction calls with
  | nil => cases first
  | cons call calls ih =>
    cases call with
    | recordSchema name trackedFields =>
      unfold firstSchema at first
      by_cases here : name = typeName
      · rw [if_pos here, Option.some_inj] at first
        rw [here, first]
        exact List.mem_cons_self
      · rw [if_neg here] at first
        exact List.mem_cons_of_mem _ (ih first)
    | _ => exact List.mem_cons_of_mem _ (ih first)

namespace RecordedSession

variable {hashBytes : Bytes → UInt64} (recorded : RecordedSession hashBytes)

/-- The file at the end of the run. -/
def file : Option Bytes := recordedBytes (run hashBytes recorded.session recorded.calls).2

/-- The fields of the type's first `record_schema` call. -/
def fieldsOf (typeName : String) : Option (List String) := firstSchema typeName recorded.calls

/-- The schemas its frames hold. -/
def schemas : SchemaMap :=
  extractSchemas (framesOf hashBytes recorded.builder.localPeerId ∅ recorded.calls)

theorem getElem?_schemas (typeName : String) :
    recorded.schemas[typeName]? = (recorded.fieldsOf typeName).map fingerprint :=
  getElem?_extractSchemas_framesOf hashBytes _ recorded.calls typeName

theorem fieldNames {typeName : String} {fields : List String}
    (first : recorded.fieldsOf typeName = some fields) : FieldNames fields :=
  recorded.names typeName fields (mem_of_firstSchema first)

/-- Its file exists and reads back as its schemas. -/
theorem extractSchema_file (path : String) :
    ∃ file, recorded.file = some file ∧ extractSchema path (.ok file) = .ok recorded.schemas := by
  obtain ⟨file, bytes, holds⟩ :=
    recording_reads_back hashBytes recorded.records recorded.built recorded.allOk recorded.fits
  refine ⟨file, bytes, ?_⟩
  rw [extractSchema, loadRecording_ok _ holds]
  rfl

/-- **Drift of two recordings' schemas, in terms of the calls.** -/
theorem mem_detectDrift_schemas (recorded' : RecordedSession hashBytes) (drift : SchemaDrift) :
    drift ∈ detectDrift recorded.schemas recorded'.schemas ↔
      ∃ fields fields', recorded.fieldsOf drift.typeName = some fields ∧
        recorded'.fieldsOf drift.typeName = some fields' ∧
        drift.before = fingerprint fields ∧ drift.after = fingerprint fields' ∧
        ¬∀ field, field ∈ fields ↔ field ∈ fields' := by
  rw [mem_detectDrift, getElem?_schemas, getElem?_schemas]
  constructor
  · rintro ⟨inBefore, inAfter, differs⟩
    obtain ⟨fields, first, before⟩ := Option.map_eq_some_iff.mp inBefore
    obtain ⟨fields', first', after⟩ := Option.map_eq_some_iff.mp inAfter
    refine ⟨fields, fields', first, first', before.symm, after.symm, fun same => differs ?_⟩
    rw [← before, ← after]
    exact ((fingerprint_eq_iff (recorded.fieldNames first) (recorded'.fieldNames first')).mpr
      same).symm
  · rintro ⟨fields, fields', first, first', before, after, differs⟩
    rw [first, first', before, after]
    refine ⟨rfl, rfl, fun same => differs ?_⟩
    exact (fingerprint_eq_iff (recorded.fieldNames first) (recorded'.fieldNames first')).mp same.symm

end RecordedSession

/-- **Schema drift is exact end to end.** -/
theorem schemaDiff_recordings (hashBytes : Bytes → UInt64)
    (recorded recorded' : RecordedSession hashBytes) (path path' : String) :
    ∃ file file' drifts, recorded.file = some file ∧ recorded'.file = some file' ∧
      schemaDiff path path' (.ok file) (.ok file') = .ok drifts ∧
      (∀ drift, drift ∈ drifts ↔
        ∃ fields fields', recorded.fieldsOf drift.typeName = some fields ∧
          recorded'.fieldsOf drift.typeName = some fields' ∧
          drift.before = fingerprint fields ∧ drift.after = fingerprint fields' ∧
          ¬∀ field, field ∈ fields ↔ field ∈ fields') ∧
      drifts.Pairwise (fun drift later => drift.typeName < later.typeName) ∧
      schemaDiff path' path (.ok file') (.ok file) = .ok (drifts.map SchemaDrift.swap) := by
  obtain ⟨file, bytes, schemas⟩ := recorded.extractSchema_file path
  obtain ⟨file', bytes', schemas'⟩ := recorded'.extractSchema_file path'
  refine ⟨file, file', detectDrift recorded.schemas recorded'.schemas, bytes, bytes', ?_,
    recorded.mem_detectDrift_schemas recorded', ?_, ?_⟩
  · unfold schemaDiff
    rw [schemas, schemas']
    rfl
  · refine (detectDrift_ascending recorded.schemas recorded'.schemas).imp fun {drift later} order => ?_
    exact compare_lt_iff_lt.mp order
  · unfold schemaDiff
    rw [schemas, schemas', ← detectDrift_swap]
    rfl

/-- Two recordings of a type whose fields were reordered and of one that gained a field; the first
calls decide, and a name may itself start with the key prefix. -/
theorem schemaDiff_recordings_sample :
    let builder : SessionBuilder := { recordTo := some (.ok []) }
    let calls : List Call := [.recordSchema "Ball" ["vel", "pos"],
      .recordSchema "foldback.schema.Paddle" ["y"], .recordSchema "Ball" ["pos"]]
    let calls' : List Call := [.recordSchema "foldback.schema.Paddle" ["y", "size"],
      .recordSchema "Ball" ["pos", "vel"]]
    ∃ session, builder.build = .ok session ∧ ∃ file file' drifts,
      recordedBytes (run (fun _ => 0) session calls).2 = some file ∧
      recordedBytes (run (fun _ => 0) session calls').2 = some file' ∧
      schemaDiff "before" "after" (.ok file) (.ok file') = .ok drifts ∧
      ⟨"foldback.schema.Paddle", "y", "size,y"⟩ ∈ drifts := by
  intro builder calls calls'
  have names : ∀ typeName fields, Call.recordSchema typeName fields ∈ calls ++ calls' →
      FieldNames fields := by
    intro typeName fields member
    simp only [calls, calls', List.cons_append, List.nil_append, List.mem_cons, Call.recordSchema.injEq,
      List.not_mem_nil, or_false] at member
    rcases member with ⟨-, rfl⟩ | ⟨-, rfl⟩ | ⟨-, rfl⟩ | ⟨-, rfl⟩ | ⟨-, rfl⟩ <;>
      exact ⟨by decide, by decide, by decide⟩
  let recorded : RecordedSession fun _ => 0 :=
    { builder, session := builder.session (some { log := builder.header.encode, faults := [] }), calls
      records := by decide
      built := rfl
      allOk := by decide
      fits := by decide
      names := fun _ _ member => names _ _ (List.mem_append_left _ member) }
  let recorded' : RecordedSession fun _ => 0 :=
    { builder, session := builder.session (some { log := builder.header.encode, faults := [] })
      calls := calls'
      records := by decide
      built := rfl
      allOk := by decide
      fits := by decide
      names := fun _ _ member => names _ _ (List.mem_append_right _ member) }
  obtain ⟨file, file', drifts, bytes, bytes', drift, exact, -, -⟩ :=
    schemaDiff_recordings (fun _ => 0) recorded recorded' "before" "after"
  refine ⟨_, rfl, file, file', drifts, bytes, bytes', drift, (exact _).mpr ?_⟩
  refine ⟨["y"], ["y", "size"], rfl, rfl, by decide, by decide, fun same => ?_⟩
  exact absurd ((same "size").mpr (by decide)) (by decide)

end Foldback
