/-
**What one walk of C# objects does.**

* `walk_eq`: **walking a value is carrying out its plan**, if the visited objects are those above it.
* `hashReflected_of_fits`: where no chain is longer than 8, `HashReflected` records the leaves of the
  unfolded graph; whenever it returns, no chain is (`fits_of_ok`). `fieldCalls_of_ok` are its calls.
-/

import Foldback.Unity.Reflection

namespace Foldback.Unity

open GuardedWalk KeyOrder

/-! ### The objects above a value -/

section Above

variable {heap : Heap} {id : ObjectId}

theorem mem_of_isRevisit (trail : List Value) (value : Value)
    (revisit : isRevisit heap trail value = true) : value ∈ trail := by
  cases value with
  | none => cases revisit
  | some id =>
    obtain ⟨-, member⟩ := of_decide_eq_true revisit
    obtain ⟨above, onTrail, same⟩ := List.mem_filterMap.mp (List.mem_toFinset.mp member)
    obtain ⟨is, -⟩ := Option.filter_eq_some_iff.mp same
    rwa [← is]

theorem referencesOf_cons (trail : List Value) :
    referencesOf heap (some id :: trail) =
      if (heap id).isValueType then referencesOf heap trail
      else insert id (referencesOf heap trail) := by
  unfold referencesOf
  cases kind : (heap id).isValueType with
  | true => rw [List.filterMap_cons_none (by simp [Option.filter, kind]), if_pos rfl]
  | false =>
    rw [List.filterMap_cons_some (b := id) (by simp [Option.filter, kind]), List.toFinset_cons,
      if_neg Bool.false_ne_true]

end Above

section Plan

variable (native : List Call → Option Text) (toString : Heap → ObjectId → Option Text) (heap : Heap)

def emitRecord (recorded : Text × Bytes) : Throwing Recording Unit :=
  record native recorded.1 recorded.2

/-- The message of a stop. -/
def stopText : GuardedWalk.Stop Text → Text
  | .deep path => depthExceeded path
  | .blocked path => cycleFound path

def haltAt (stop : GuardedWalk.Stop Text) : Throwing Recording Unit := throw (stopText stop)

theorem haltAt_halts : Halts haltAt := fun _ _ => rfl

/-- The plan of a value below others. -/
def walkPlan (left : ℕ) (trail : List Value) (path : Text) (value : Value) :
    List (Text × Bytes) × Option (GuardedWalk.Stop Text) :=
  plan (graph toString heap) (isRevisit heap) left trail path value

/-- The plan carried out. -/
def planned (left : ℕ) (trail : List Value) (path : Text) (value : Value) :
    Throwing Recording Unit :=
  perform (emitRecord native) haltAt (walkPlan toString heap left trail path value)

theorem planned_succ (left : ℕ) (trail : List Value) (path : Text) (value : Value) :
    planned native toString heap (left + 1) trail path value =
      if isRevisit heap trail value then throw (cycleFound path)
      else
        forM (own heap path value) (emitRecord native) >>= fun _ =>
          forM (held toString heap value) fun child =>
            planned native toString heap left (value :: trail) (path ++ child.1.label) child.2 :=
  perform_plan haltAt_halts left trail path value

variable {native toString heap}

/-- A value with nothing below it makes its own record. -/
theorem planned_leaf {left : ℕ} {trail : List Value} {path : Text} {value : Value} {bytes : Bytes}
    (passes : isRevisit heap trail value = false) (records : own heap path value = [(path, bytes)])
    (holds : held toString heap value = []) :
    planned native toString heap (left + 1) trail path value = record native path bytes := by
  rw [planned_succ, passes, if_neg Bool.false_ne_true, records, holds]
  show ((record _ _ _ >>= fun _ => pure ()) >>= fun _ => pure ()) = _
  rw [bind_pure_unit, bind_pure_unit]

/-- A value that makes no record of its own is what it holds. -/
theorem planned_container {left : ℕ} {trail : List Value} {path : Text} {value : Value}
    (passes : isRevisit heap trail value = false) (records : own heap path value = []) :
    planned native toString heap (left + 1) trail path value =
      forM (held toString heap value) fun child =>
        planned native toString heap left (value :: trail) (path ++ child.1.label) child.2 := by
  rw [planned_succ, passes, if_neg Bool.false_ne_true, records]
  show (pure () >>= fun _ => _) = _
  rw [pure_bind]

/-- **Walking a value is carrying out its plan**, if the visited objects are those above it. -/
theorem walk_eq {left depth : ℕ} (levels : left + depth = defaultMaxDepth + 1) (trail : List Value)
    (path : Text) (value : Value) :
    walk native toString heap path value depth (referencesOf heap trail) =
      planned native toString heap left trail path value := by
  induction left generalizing depth trail path value with
  | zero =>
    rw [walk.eq_def, dif_pos (by omega)]
    rfl
  | succ left ih =>
    have deeper : left + (depth + 1) = defaultMaxDepth + 1 := by omega
    rw [walk.eq_def, dif_neg (by omega)]
    cases value with
    | none => exact (planned_leaf rfl rfl rfl).symm
    | some id =>
      by_cases above : (heap id).isValueType = false ∧ id ∈ referencesOf heap trail
      · have refused : isRevisit heap trail (some id) = true := decide_eq_true above
        rw [planned_succ, if_pos refused]
        exact if_pos above
      · have passes : isRevisit heap trail (some id) = false := decide_eq_false above
        simp only [if_neg above, ← referencesOf_cons]
        cases shape : (heap id).shape with
        | leaf leaf =>
          exact (planned_leaf passes (by simp [own, shape]) (by simp [held, shape])).symm
        | _ =>
          rw [planned_container passes (by simp [own, shape]), held]
          simp only [shape, List.forM_map]
          exact congrArg _ (funext fun entry => ih deeper _ _ _)

end Plan

/-! ### A whole call -/

section Root

variable (native : List Call → Option Text) (toString : Heap → ObjectId → Option Text) (heap : Heap)
  (fieldNamePrefix : Text) (root : Root)

/-- The plan of the tracked members. -/
def rootPlan : List (Text × Bytes) × Option (GuardedWalk.Stop Text) :=
  planAll (fun member => walkPlan toString heap defaultMaxDepth []
    (joinPath fieldNamePrefix member.1) member.2) root.members

/-- Every chain below a tracked member ends in time. -/
def RootFits : Prop :=
  ∀ member ∈ root.members, Fits (graph toString heap) defaultMaxDepth member.2

instance : Decidable (RootFits toString heap root) :=
  inferInstanceAs (Decidable (∀ member ∈ root.members, _))

/-- The leaves of the unfolded graph. -/
def recordsOf : List (Text × Bytes) :=
  root.members.flatMap fun member => preorder (graph toString heap) defaultMaxDepth
    (joinPath fieldNamePrefix member.1) member.2

/-- `HashReflected` with the records given. -/
def recordAll (records : List (Text × Bytes)) : Throwing Recording (List (Text × UInt64)) := do
  recordSchemaOnce native root
  modify fun recording => { recording with preview := [] }
  forM records (emitRecord native)
  return (← get).preview

theorem rootPlan_none_iff :
    (rootPlan toString heap fieldNamePrefix root).2 = none ↔ RootFits toString heap root := by
  rw [rootPlan, planAll_none_iff]
  refine forall₂_congr fun member _ => ?_
  exact plan_stop_iff mem_of_isRevisit fun _ inside => absurd inside List.not_mem_nil

theorem rootPlan_records (fits : RootFits toString heap root) :
    (rootPlan toString heap fieldNamePrefix root).1 =
      recordsOf toString heap fieldNamePrefix root := by
  have none := (rootPlan_none_iff toString heap fieldNamePrefix root).mpr fits
  rw [rootPlan, planAll_records none, recordsOf]
  exact List.flatMap_congr fun member inside => plan_records (planAll_none_iff.mp none member inside)

theorem forM_members :
    (forM root.members fun member =>
      walk native toString heap (joinPath fieldNamePrefix member.1) member.2 1 ∅) =
      perform (emitRecord native) haltAt (rootPlan toString heap fieldNamePrefix root) := by
  have levels : defaultMaxDepth + 1 = defaultMaxDepth + 1 := rfl
  rw [rootPlan, perform_planAll haltAt_halts]
  exact congrArg _ (funext fun member => walk_eq levels [] _ _)

/-- **Where no chain is too long, `HashReflected` makes the records of the unfolded graph.** -/
theorem hashReflected_of_fits (fits : RootFits toString heap root) :
    hashReflected native toString heap fieldNamePrefix root =
      recordAll native root (recordsOf toString heap fieldNamePrefix root) := by
  have none := (rootPlan_none_iff toString heap fieldNamePrefix root).mpr fits
  rw [hashReflected, forM_members, perform_none none, rootPlan_records _ _ _ _ fits]
  rfl

variable {native toString heap fieldNamePrefix root}

theorem fits_of_ok {recording after : Recording} {preview : List (Text × UInt64)}
    (ok : hashReflected native toString heap fieldNamePrefix root recording = .ok preview after) :
    RootFits toString heap root := by
  rw [← rootPlan_none_iff toString heap fieldNamePrefix]
  rw [hashReflected, forM_members] at ok
  obtain ⟨_, _, -, ok⟩ := bind_eq_ok.mp ok
  obtain ⟨_, _, -, ok⟩ := bind_eq_ok.mp ok
  obtain ⟨_, _, performed, -⟩ := bind_eq_ok.mp ok
  rcases stops : (rootPlan toString heap fieldNamePrefix root).2 with _ | stop
  · rfl
  · rw [perform_some stops] at performed
    obtain ⟨_, _, -, halted⟩ := bind_eq_ok.mp performed
    cases halted

theorem call_ok {made : Call} {recording after : Recording}
    (ok : call native made recording = .ok () after) :
    after = { recording with calls := recording.calls ++ [made] } := by
  unfold call at ok
  simp only at ok
  split at ok
  · cases ok
    rfl
  · cases ok

/-- The records that are made are the calls. -/
theorem forM_emitRecord_ok {records : List (Text × Bytes)} {recording after : Recording}
    (ok : forM records (emitRecord native) recording = .ok () after) :
    after.calls = recording.calls ++ records.map fun field => .hashField field.1 field.2 := by
  induction records generalizing recording with
  | nil =>
    cases ok
    exact (List.append_nil _).symm
  | cons field records ih =>
    rw [List.forM_cons] at ok
    obtain ⟨_, middle, first, rest⟩ := bind_eq_ok.mp ok
    obtain ⟨_, called, here, pushed⟩ := bind_eq_ok.mp first
    cases pushed
    rw [ih rest, call_ok here, List.map_cons, List.append_assoc]
    rfl

/-- The field hashes among some calls. -/
def fieldCalls (calls : List Call) : List (Text × Bytes) :=
  calls.filterMap fun
    | .hashField path bytes => some (path, bytes)
    | .recordSchema .. => none

theorem fieldCalls_append (calls more : List Call) :
    fieldCalls (calls ++ more) = fieldCalls calls ++ fieldCalls more :=
  List.filterMap_append

/-- The schema is no field hash. -/
theorem fieldCalls_recordSchemaOnce {recording after : Recording}
    (ok : recordSchemaOnce native root recording = .ok () after) :
    fieldCalls after.calls = fieldCalls recording.calls := by
  rw [recordSchemaOnce] at ok
  split at ok
  · cases ok
    rfl
  · rw [call_ok ok, fieldCalls_append]
    exact List.append_nil _

/-- **The calls of `HashField` that one call makes.** -/
theorem fieldCalls_of_ok {records : List (Text × Bytes)} {recording after : Recording}
    {preview : List (Text × UInt64)}
    (ok : recordAll native root records recording = .ok preview after) :
    fieldCalls after.calls = fieldCalls recording.calls ++ records := by
  obtain ⟨_, schema, recorded, ok⟩ := bind_eq_ok.mp ok
  obtain ⟨_, cleared, modified, ok⟩ := bind_eq_ok.mp ok
  obtain ⟨_, made, performed, ok⟩ := bind_eq_ok.mp ok
  obtain ⟨_, read, got, returned⟩ := bind_eq_ok.mp ok
  cases modified
  cases got
  cases returned
  have fields : fieldCalls (records.map fun field => .hashField field.1 field.2) = records := by
    rw [fieldCalls, List.filterMap_map]
    exact List.filterMap_some
  rw [forM_emitRecord_ok performed, fieldCalls_append, fields]
  show fieldCalls schema.calls ++ records = _
  rw [fieldCalls_recordSchemaOnce recorded]

/-- A session that accepts every call has the walk succeed. -/
theorem hashReflected_accepted (recording : Recording) (fieldNamePrefix : Text)
    (fits : RootFits toString heap root) :
    ∃ preview after, hashReflected (fun _ => none) toString heap fieldNamePrefix root recording =
      .ok preview after := by
  have schema : ∃ after, recordSchemaOnce (fun _ => none) root recording = .ok () after := by
    rw [recordSchemaOnce]
    split
    · exact ⟨_, rfl⟩
    · exact ⟨_, rfl⟩
  have fields : ∀ (records : List (Text × Bytes)) (recording : Recording), ∃ after,
      forM records (emitRecord fun _ => none) recording = .ok () after := by
    intro records
    induction records with
    | nil => exact fun recording => ⟨recording, rfl⟩
    | cons field records ih =>
      intro recording
      obtain ⟨after, ok⟩ := ih
        ⟨recording.calls ++ [.hashField field.1 field.2], recording.schemas,
          recording.preview ++ [(field.1, foldbackHashBytes field.2)]⟩
      refine ⟨after, ?_⟩
      rw [List.forM_cons]
      exact bind_eq_ok.mpr ⟨(), _, rfl, ok⟩
  rw [hashReflected_of_fits _ _ _ _ _ fits]
  obtain ⟨scheme, ok⟩ := schema
  obtain ⟨after, made⟩ := fields (recordsOf toString heap fieldNamePrefix root)
    { scheme with preview := [] }
  refine ⟨after.preview, after, bind_eq_ok.mpr ⟨(), scheme, ok, bind_eq_ok.mpr ⟨(), _, rfl, ?_⟩⟩⟩
  exact bind_eq_ok.mpr ⟨(), after, made, rfl⟩

end Root

end Foldback.Unity
