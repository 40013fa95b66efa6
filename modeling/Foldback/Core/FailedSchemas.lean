/-
**What a failed schema write leaves behind.**

`record_schema` marks the type as written before it writes the frame, so a type whose first call
fails never reaches the file.

* `schemaCalls trace typeName`: the `record_schema` calls for a type, each with its fields and
  whether it returned `Ok`; `schemaValues frames typeName`: what a file holds under its key.
* `schemaValues_recordedFrames`: a file holds the fingerprint of the type's first call, or nothing
  when that call failed.
* `schema_recorded_iff`: **a schema reported recorded is in the file once, exactly when no type is
  recorded again after its first call has failed**.
-/

import Foldback.Core.SchemaDrift
import Foldback.Core.FailedReports

namespace Foldback

/-! ### Calls and frames of one type -/

/-- A `record_schema` call for the type: its fields, and whether it returned `Ok`. -/
def schemaCall (typeName : String) : Call × Response → Option (List String × Bool)
  | (.recordSchema name trackedFields, response) =>
    if name = typeName then some (trackedFields, response.isOk) else none
  | _ => none

def schemaCalls (trace : List (Call × Response)) (typeName : String) : List (List String × Bool) :=
  trace.filterMap (schemaCall typeName)

/-- What a `Metadata` frame stores under the type's schema key. -/
def schemaValue (typeName : String) : Frame → Option String
  | .metadata key value => if key = schemaMetadataKey typeName then some value else none
  | _ => none

def schemaValues (frames : List Frame) (typeName : String) : List String :=
  frames.filterMap (schemaValue typeName)

theorem schemaMetadataKey_inj {typeName typeName' : String} :
    schemaMetadataKey typeName = schemaMetadataKey typeName' ↔ typeName = typeName' := by
  constructor
  · intro same
    have names := congrArg (stripPrefix schemaKeyPrefix) same
    rw [schemaMetadataKey, schemaMetadataKey, stripPrefix_append, stripPrefix_append] at names
    exact Option.some.inj names
  · rintro rfl
    rfl

/-- A frame write that fails appends nothing. -/
def FailuresAppendNothing (hashBytes : Bytes → UInt64) : Session → List Call → Prop
  | _, [] => True
  | session, call :: calls =>
    (∀ frame ∈ call.frames hashBytes session.localPeerId session.writtenSchemas,
      true ∈ session.coming.take 3 → frame.appended session.coming = []) ∧
      FailuresAppendNothing hashBytes (step hashBytes session call).2 calls

/-- What the first call for a type leaves in the file: its fingerprint, if it returned `Ok`. -/
def firstRecorded : List (List String × Bool) → List String
  | (trackedFields, true) :: _ => [fingerprint trackedFields]
  | _ => []

section Run

variable (hashBytes : Bytes → UInt64)

/-- Under the assumption the file's bytes are those of the frames appended whole. -/
theorem recordedBytes_recordedFrames {session : Session} {sink : Sink} {calls : List Call}
    (present : session.writer = some sink)
    (nothing : FailuresAppendNothing hashBytes session calls) :
    recordedBytes (run hashBytes session calls).2 =
      some (sink.log ++ encodeFrames (recordedFrames hashBytes session calls)) := by
  induction calls generalizing session sink with
  | nil =>
    show session.writer.map Sink.log = _
    rw [present, recordedFrames, encodeFrames]
    simp
  | cons call calls ih =>
    obtain ⟨faults, appended⟩ := step_appends hashBytes call present
    have unbroken : ∀ frame ∈ call.frames hashBytes session.localPeerId session.writtenSchemas,
        frame.appended session.coming = frame.encode ∨ frame.appended session.coming = [] := by
      intro frame member
      by_cases fails : true ∈ session.coming.take 3
      · exact Or.inr (nothing.1 frame member fails)
      · exact Or.inl (frame.appended_of_ok fails)
    rw [appends_eq_encodeFrames hashBytes unbroken] at appended
    rw [recordedFrames, encodeFrames_append, ← List.append_assoc]
    exact ih appended nothing.2

/-! One call, by its type name. -/

theorem schemaCall_other {call : Call} {typeName : String} (other : typeName ∉ call.typeNames)
    (response : Response) : schemaCall typeName (call, response) = none := by
  cases call with
  | recordSchema name trackedFields =>
    have different : name ≠ typeName := fun same => other (by simp [Call.typeNames, same])
    exact if_neg different
  | _ => rfl

theorem schemaValues_other {session : Session} {call : Call} {typeName : String}
    (other : typeName ∉ call.typeNames) :
    schemaValues (session.wholeFrames hashBytes call) typeName = [] := by
  refine List.filterMap_eq_nil_iff.mpr fun frame member => ?_
  have written := (List.mem_filter.mp member).1
  cases call with
  | recordSchema name trackedFields =>
    have different : schemaMetadataKey name ≠ schemaMetadataKey typeName := fun same =>
      other (by simp [Call.typeNames, schemaMetadataKey_inj.mp same])
    rw [Call.frames] at written
    split at written
    · cases written
    · rw [List.mem_singleton.mp written]
      exact if_neg different
  | takePendingHashes => cases written
  | takePendingHashesUpTo max => cases written
  | checkDivergence => cases written
  | _ =>
    rw [List.mem_singleton.mp written]
    rfl

theorem schemaValues_seen {session : Session} {typeName : String}
    (seen : typeName ∈ session.writtenSchemas) (trackedFields : List String) :
    schemaValues (session.wholeFrames hashBytes (.recordSchema typeName trackedFields)) typeName =
      [] := by
  rw [Session.wholeFrames, Call.frames, if_pos seen]
  rfl

/-- A type's first call leaves its fingerprint when it returns `Ok`, and nothing when it fails. -/
theorem schemaValues_new {session : Session} {typeName : String}
    (new : typeName ∉ session.writtenSchemas) (trackedFields : List String)
    (nothing : ∀ frame ∈ (Call.recordSchema typeName trackedFields).frames hashBytes
        session.localPeerId session.writtenSchemas,
      true ∈ session.coming.take 3 → frame.appended session.coming = []) :
    schemaValues (session.wholeFrames hashBytes (.recordSchema typeName trackedFields)) typeName =
      if (step hashBytes session (.recordSchema typeName trackedFields)).1.isOk
      then [fingerprint trackedFields] else [] := by
  have frames : (Call.recordSchema typeName trackedFields).frames hashBytes session.localPeerId
      session.writtenSchemas =
        [.metadata (schemaMetadataKey typeName) (fingerprint trackedFields)] := if_neg new
  have isOk := emit_isOk_iff session
    (.metadata (schemaMetadataKey typeName) (fingerprint trackedFields))
  rw [step_recordSchema_new hashBytes session new, Session.wholeFrames, frames]
  rw [frames] at nothing
  by_cases fails : session.WriteFails
  · have none := nothing _ List.mem_cons_self fails
    have broken : (Frame.metadata (schemaMetadataKey typeName)
        (fingerprint trackedFields)).appended session.coming ≠ (Frame.metadata
          (schemaMetadataKey typeName) (fingerprint trackedFields)).encode := by
      rw [none]
      exact (Frame.encode_ne_nil _).symm
    rw [if_neg fun ok => isOk.mp ok fails, List.filter_cons_of_neg (by simpa using broken)]
    rfl
  · have whole := Frame.appended_of_ok
      (.metadata (schemaMetadataKey typeName) (fingerprint trackedFields)) fails
    rw [if_pos (isOk.mpr fails), List.filter_cons_of_pos (by simpa using whole)]
    simp [schemaValues, schemaValue]

/-! A run. -/

theorem schemaCalls_cons (session : Session) (call : Call) (calls : List Call) (typeName : String) :
    schemaCalls (run hashBytes session (call :: calls)).1 typeName =
      (schemaCall typeName (call, (step hashBytes session call).1)).toList ++
        schemaCalls (run hashBytes (step hashBytes session call).2 calls).1 typeName := by
  show List.filterMap _ (_ :: _) = _
  rcases found : schemaCall typeName (call, (step hashBytes session call).1) with _ | entry
  · rw [List.filterMap_cons_none found]
    rfl
  · rw [List.filterMap_cons_some found]
    rfl

theorem schemaValues_cons (session : Session) (call : Call) (calls : List Call) (typeName : String) :
    schemaValues (recordedFrames hashBytes session (call :: calls)) typeName =
      schemaValues (session.wholeFrames hashBytes call) typeName ++
        schemaValues (recordedFrames hashBytes (step hashBytes session call).2 calls) typeName :=
  List.filterMap_append

/-- A type that is marked as written gets no more frames, and its calls return `Ok`. -/
theorem schemaCalls_of_seen {session : Session} {calls : List Call} {typeName : String}
    (seen : typeName ∈ session.writtenSchemas) :
    schemaValues (recordedFrames hashBytes session calls) typeName = [] ∧
      ∀ entry ∈ schemaCalls (run hashBytes session calls).1 typeName, entry.2 = true := by
  induction calls generalizing session with
  | nil => exact ⟨rfl, nofun⟩
  | cons call calls ih =>
    have still : typeName ∈ (step hashBytes session call).2.writtenSchemas := by
      rw [(step_effect hashBytes session call).writtenSchemas]
      exact Finset.mem_union_left _ seen
    obtain ⟨none, ok⟩ := ih still
    rw [schemaValues_cons, schemaCalls_cons, none, List.append_nil]
    by_cases mine : typeName ∈ call.typeNames
    · cases call with
      | recordSchema name trackedFields =>
        rw [Call.typeNames, List.mem_singleton] at mine
        subst mine
        refine ⟨schemaValues_seen hashBytes seen trackedFields, fun entry member => ?_⟩
        rcases List.mem_append.mp member with here | later
        · rw [schemaCall, if_pos rfl, step_recordSchema_seen hashBytes session seen] at here
          rw [List.mem_singleton.mp here]
          rfl
        · exact ok entry later
      | _ => cases mine
    · rw [schemaCall_other mine]
      exact ⟨schemaValues_other hashBytes mine, ok⟩

/-- **The file holds what a type's first call left**; and all its later calls return `Ok`. -/
theorem schemaValues_recordedFrames {session : Session} {calls : List Call} {typeName : String}
    (new : typeName ∉ session.writtenSchemas)
    (nothing : FailuresAppendNothing hashBytes session calls) :
    schemaValues (recordedFrames hashBytes session calls) typeName =
        firstRecorded (schemaCalls (run hashBytes session calls).1 typeName) ∧
      ∀ entry ∈ (schemaCalls (run hashBytes session calls).1 typeName).tail, entry.2 = true := by
  induction calls generalizing session with
  | nil => exact ⟨rfl, nofun⟩
  | cons call calls ih =>
    have schemas := (step_effect hashBytes session call).writtenSchemas
    rw [schemaValues_cons, schemaCalls_cons]
    by_cases mine : typeName ∈ call.typeNames
    · cases call with
      | recordSchema name trackedFields =>
        rw [Call.typeNames, List.mem_singleton] at mine
        subst mine
        have marked : typeName ∈
            (step hashBytes session (.recordSchema typeName trackedFields)).2.writtenSchemas := by
          rw [schemas]
          exact Finset.mem_union_right _ (by simp [Call.typeNames])
        obtain ⟨none, ok⟩ := @schemaCalls_of_seen hashBytes _ calls _ marked
        rw [schemaValues_new hashBytes new trackedFields nothing.1, none, List.append_nil,
          schemaCall, if_pos rfl]
        refine ⟨?_, ok⟩
        rcases (step hashBytes session (.recordSchema typeName trackedFields)).1.isOk <;> rfl
      | _ => cases mine
    · have still : typeName ∉ (step hashBytes session call).2.writtenSchemas := by
        rw [schemas, Finset.mem_union, List.mem_toFinset]
        exact fun either => either.elim new mine
      rw [schemaCall_other mine, schemaValues_other hashBytes mine]
      exact ih still nothing.2

end Run

/-! ### What a file holds -/

/-- A type for which some call returned `Ok` has one frame in the file, with the fingerprint of the
first such call. -/
def SchemaRecorded (trace : List (Call × Response)) (frames : List Frame) (typeName : String) :
    Prop :=
  ∀ trackedFields, (schemaCalls trace typeName).find? Prod.snd = some (trackedFields, true) →
    schemaValues frames typeName = [fingerprint trackedFields]

/-- No `record_schema` call for a type follows a first one that failed. -/
def NoneAfterFailure (trace : List (Call × Response)) : Prop :=
  ∀ typeName trackedFields later,
    schemaCalls trace typeName = (trackedFields, false) :: later → later = []

/-- **A schema reported recorded is in the file exactly once, if and only if no type is recorded
again after its first call failed.** The file is the header and the frames appended whole, and reads
back as them when they fit. -/
theorem schema_recorded_iff (hashBytes : Bytes → UInt64) (builder : SessionBuilder)
    (session : Session) (calls : List Call) (records : builder.recordTo ≠ none)
    (built : builder.build = .ok session) (nothing : FailuresAppendNothing hashBytes session calls) :
    (∃ file, recordedBytes (run hashBytes session calls).2 = some file ∧
        file = builder.header.encode ++ encodeFrames (recordedFrames hashBytes session calls) ∧
        ((∀ frame ∈ recordedFrames hashBytes session calls, frame.Fits) →
          Holds file builder.header (recordedFrames hashBytes session calls))) ∧
      ((∀ typeName, SchemaRecorded (run hashBytes session calls).1
          (recordedFrames hashBytes session calls) typeName) ↔
        NoneAfterFailure (run hashBytes session calls).1) := by
  obtain ⟨faults, rfl⟩ := build_recording records built
  refine ⟨⟨_, recordedBytes_recordedFrames hashBytes rfl nothing, rfl, holds_encode _⟩, ?_⟩
  have holds := fun typeName =>
    @schemaValues_recordedFrames hashBytes _ calls typeName (Finset.notMem_empty _) nothing
  constructor
  · intro recorded typeName trackedFields later split
    obtain ⟨values, ok⟩ := holds typeName
    have here := recorded typeName
    rw [SchemaRecorded] at here
    rw [split] at values ok here
    rcases later with _ | ⟨⟨again, result⟩, later⟩
    · rfl
    · -- The second call returned `Ok`, but the file holds nothing.
      have done : result = true := ok (again, result) List.mem_cons_self
      subst done
      have one := here again rfl
      rw [values] at one
      cases one
  · intro none typeName trackedFields found
    obtain ⟨values, _⟩ := holds typeName
    rw [values]
    rcases split : schemaCalls _ typeName with _ | ⟨⟨first, result⟩, later⟩
    · rw [split] at found
      cases found
    · rcases result with _ | _
      · rw [split, none typeName first later split] at found
        cases found
      · rw [split] at found
        cases found
        rfl

/-- Behind a full buffer, the first call for a type fails and is not repeated; another type's call
returns `Ok`. -/
theorem schema_recorded_iff_sample :
    schemaCalls (run (fun _ => 0) (faultySession [false, false, false, true])
        [padding 8118, .recordSchema "A" ["x"], .recordSchema "B" ["y"]]).1 "A" =
          [(["x"], false)] ∧
      ∀ typeName, SchemaRecorded
        (run (fun _ => 0) (faultySession [false, false, false, true])
          [padding 8118, .recordSchema "A" ["x"], .recordSchema "B" ["y"]]).1
        (recordedFrames (fun _ => 0) (faultySession [false, false, false, true])
          [padding 8118, .recordSchema "A" ["x"], .recordSchema "B" ["y"]]) typeName := by
  have trace : ∃ first second third, (run (fun _ => 0) (faultySession [false, false, false, true])
      [padding 8118, .recordSchema "A" ["x"], .recordSchema "B" ["y"]]).1 =
        [(padding 8118, first), (.recordSchema "A" ["x"], second), (.recordSchema "B" ["y"], third)] :=
    ⟨_, _, _, rfl⟩
  refine ⟨rfl, (schema_recorded_iff (fun _ => 0) (faultyBuilder [false, false, false, true])
    (faultySession [false, false, false, true])
    [padding 8118, .recordSchema "A" ["x"], .recordSchema "B" ["y"]] (by simp [faultyBuilder]) rfl
    ⟨fun _ _ fails => absurd fails (by decide), fun _ _ _ => rfl,
      fun _ _ fails => absurd fails List.not_mem_nil, trivial⟩).2.mpr ?_⟩
  intro typeName trackedFields later split
  obtain ⟨first, second, third, trace⟩ := trace
  rw [trace] at split
  -- Each type is named by one call at most.
  by_cases isA : "A" = typeName
  · subst isA
    exact (List.cons.inj split).2.symm
  · have quiet : schemaCall typeName (padding 8118, first) = none := rfl
    have other : schemaCall typeName (.recordSchema "A" ["x"], second) = none := if_neg isA
    rw [schemaCalls, List.filterMap_cons_none quiet, List.filterMap_cons_none other] at split
    by_cases isB : "B" = typeName
    · subst isB
      exact (List.cons.inj split).2.symm
    · have last : schemaCall typeName (.recordSchema "B" ["y"], third) = none := if_neg isB
      rw [List.filterMap_cons_none last] at split
      cases split

/-- The buffer is full, the first call fails, the second returns `Ok`, and the file holds no frame of
the type. -/
theorem schema_lost :
    (faultyBuilder [false, false, false, true]).build =
        .ok (faultySession [false, false, false, true]) ∧
      FailuresAppendNothing (fun _ => 0) (faultySession [false, false, false, true])
        [padding 8118, .recordSchema "A" ["x"], .recordSchema "A" ["x"]] ∧
      schemaCalls (run (fun _ => 0) (faultySession [false, false, false, true])
        [padding 8118, .recordSchema "A" ["x"], .recordSchema "A" ["x"]]).1 "A" =
          [(["x"], false), (["x"], true)] ∧
      recordedBytes (run (fun _ => 0) (faultySession [false, false, false, true])
        [padding 8118, .recordSchema "A" ["x"], .recordSchema "A" ["x"]]).2 =
          recordedBytes (paddedSession 8118 [true]) ∧
      ¬ SchemaRecorded (run (fun _ => 0) (faultySession [false, false, false, true])
          [padding 8118, .recordSchema "A" ["x"], .recordSchema "A" ["x"]]).1
        (recordedFrames (fun _ => 0) (faultySession [false, false, false, true])
          [padding 8118, .recordSchema "A" ["x"], .recordSchema "A" ["x"]]) "A" := by
  have calls : schemaCalls (run (fun _ => 0) (faultySession [false, false, false, true])
      [padding 8118, .recordSchema "A" ["x"], .recordSchema "A" ["x"]]).1 "A" =
        [(["x"], false), (["x"], true)] := rfl
  have nothing : FailuresAppendNothing (fun _ => 0) (faultySession [false, false, false, true])
      [padding 8118, .recordSchema "A" ["x"], .recordSchema "A" ["x"]] :=
    ⟨fun _ _ fails => absurd fails (by decide), fun _ _ _ => rfl,
      fun _ _ fails => absurd fails List.not_mem_nil, trivial⟩
  refine ⟨rfl, nothing, calls, rfl, fun recorded => ?_⟩
  have one := recorded ["x"] (by rw [calls]; rfl)
  rw [(schemaValues_recordedFrames _ (Finset.notMem_empty _) nothing).1, calls] at one
  cases one

end Foldback
