/-
**What one walk of Godot objects does.**

* `onRecording`: a call that leaves the visited objects. `whileVisited_fresh`: the walk of an object
  that was not visited is one.
* `walk_eq`: **walking a value is carrying out its plan**, if the visited objects are those above it.
* `hashReflected_reliable`: on a session whose writes succeed, `hash_reflected` makes the calls of
  its plan, and fails where the plan stops.
* `hashReflected_unfolds`: **it returns `Ok` exactly when no chain is longer than 8**, and then records
  the leaves of the unfolded graph.
-/

import Foldback.Core.FieldRecording
import Foldback.Godot.Reflection

namespace Foldback.Godot

open GuardedWalk

variable {ω : Type}

/-! ### A recording under a set of visited objects -/

theorem onRecording_bind (first second : Described Recording Unit) :
    onRecording (first >>= fun _ => second) =
      (onRecording first >>= fun _ => onRecording second) := by
  funext walking
  simp only [onRecording, bind, EStateM.bind]
  rcases first walking.recording with ⟨_, recording⟩ | ⟨error, recording⟩
  all_goals rfl

/-- A call on the recording leaves the visited objects. -/
theorem onRecording_forM {α : Type} {items : List α} {visited : Finset InstanceId}
    {run : α → Described Walking Unit} {plain : α → Described Recording Unit}
    (same : ∀ item ∈ items, ∀ recording,
      run item { recording, visited } = onRecording (plain item) { recording, visited })
    (recording : Recording) :
    forM items run { recording, visited } =
      onRecording (forM items plain) { recording, visited } := by
  induction items generalizing recording with
  | nil => rfl
  | cons item items ih =>
    have here := same item List.mem_cons_self recording
    have rest := ih fun other member => same other (List.mem_cons_of_mem _ member)
    rw [List.forM_cons, List.forM_cons, onRecording_bind]
    simp only [bind, EStateM.bind, here]
    unfold onRecording
    rcases plain item recording with ⟨_, after⟩ | ⟨error, after⟩
    · exact rest after
    · rfl

section WithPreview

variable {attempt : Described Walking Unit} {plain : Described Recording Unit} {session : Session}
  (same : attempt { recording := { session, preview := [] }, visited := ∅ } =
    onRecording plain { recording := { session, preview := [] }, visited := ∅ })
  {after : Recording}

include same

theorem withPreview_ok (returns : plain { session, preview := [] } = .ok () after) :
    withPreview attempt session = .ok after.preview after.session := by
  rw [withPreview, same, onRecording, returns]

theorem withPreview_error {error : String}
    (fails : plain { session, preview := [] } = .error error after) :
    withPreview attempt session = .error error after.session := by
  rw [withPreview, same, onRecording, fails]

end WithPreview

/-- An object that was not visited is walked, and then is not visited again. -/
theorem whileVisited_fresh {id : InstanceId} {path : String} {visited : Finset InstanceId}
    {attempt : Described Walking Unit} {plain : Described Recording Unit} {recording : Recording}
    (fresh : id ∉ visited)
    (same : attempt { recording, visited := insert id visited } =
      onRecording plain { recording, visited := insert id visited }) :
    whileVisited id path attempt { recording, visited } =
      onRecording plain { recording, visited } := by
  have removed : (insert id visited).erase id = visited := Finset.erase_insert fresh
  rw [whileVisited, if_neg fresh, same]
  unfold onRecording
  rcases plain recording with ⟨_, after⟩ | ⟨error, after⟩
  all_goals simp only [removed]

/-! ### The objects above a value -/

section Above

variable {heap : Heap ω} {value : Variant ω} {id : InstanceId} {object : Object ω}

theorem objectsOf_cons_none (noObject : identity heap value = none) (trail : List (Variant ω)) :
    objectsOf heap (value :: trail) = objectsOf heap trail := by
  rw [objectsOf, List.filterMap_cons_none noObject]
  rfl

theorem identity_live (live : heap.object id = some object) :
    identity heap (.object id) = some id :=
  identity_eq_some.mpr ⟨rfl, live ▸ rfl⟩

theorem objectsOf_cons_live (live : heap.object id = some object) (trail : List (Variant ω)) :
    objectsOf heap (.object id :: trail) = insert id (objectsOf heap trail) := by
  rw [objectsOf, List.filterMap_cons_some (identity_live live), List.toFinset_cons]
  rfl

theorem isRevisit_none (noObject : identity heap value = none) (trail : List (Variant ω)) :
    isRevisit heap trail value = false := by
  rw [isRevisit, noObject]

theorem isRevisit_live (live : heap.object id = some object) (trail : List (Variant ω)) :
    isRevisit heap trail (.object id) = true ↔ id ∈ objectsOf heap trail := by
  rw [isRevisit, identity_live live]
  exact decide_eq_true_iff

end Above

/-! ### The walk carries out a plan -/

section Plan

variable (hashBytes : Bytes → UInt64) (ioText : IoError → String) (stringify : Variant ω → String)
  (heap : Heap ω) (tick entityId : UInt64)

def emitRecord (recorded : String × Bytes) : Described Recording Unit :=
  record hashBytes ioText tick entityId recorded.1 recorded.2

/-- The text of a stop. -/
def stopText : GuardedWalk.Stop String → String
  | .deep path => depthExceeded path
  | .blocked path => cycleFound path

def haltAt (stop : GuardedWalk.Stop String) : Described Recording Unit := throw (stopText stop)

theorem haltAt_halts : Halts haltAt := fun _ _ => rfl

/-- The plan of a value below others. -/
def walkPlan (left : ℕ) (trail : List (Variant ω)) (path : String) (value : Variant ω) :
    List (String × Bytes) × Option (GuardedWalk.Stop String) :=
  plan (graph stringify heap) (isRevisit heap) left trail path value

/-- The plan carried out. -/
def planned (left : ℕ) (trail : List (Variant ω)) (path : String) (value : Variant ω) :
    Described Recording Unit :=
  perform (emitRecord hashBytes ioText tick entityId) haltAt
    (walkPlan stringify heap left trail path value)

theorem planned_succ (left : ℕ) (trail : List (Variant ω)) (path : String) (value : Variant ω) :
    planned hashBytes ioText stringify heap tick entityId (left + 1) trail path value =
      if isRevisit heap trail value then throw (cycleFound path)
      else
        forM (own stringify heap path value) (emitRecord hashBytes ioText tick entityId) >>= fun _ =>
          forM (held stringify heap value) fun child =>
            planned hashBytes ioText stringify heap tick entityId left (value :: trail)
              (child.1.extend path) child.2 :=
  perform_plan haltAt_halts left trail path value

/-- A value with nothing below it makes its own records. -/
theorem planned_leaf {left : ℕ} {trail : List (Variant ω)} {path : String} {value : Variant ω}
    {bytes : Bytes} (noObject : identity heap value = none)
    (records : own stringify heap path value = [(path, bytes)])
    (holds : held stringify heap value = []) :
    planned hashBytes ioText stringify heap tick entityId (left + 1) trail path value =
      record hashBytes ioText tick entityId path bytes := by
  rw [planned_succ, isRevisit_none noObject, if_neg Bool.false_ne_true, records, holds]
  show ((record _ _ _ _ _ _ >>= fun _ => pure ()) >>= fun _ => pure ()) = _
  rw [bind_pure_unit, bind_pure_unit]

/-- A value that makes no record of its own is its parts. -/
theorem planned_container {left : ℕ} {trail : List (Variant ω)} {path : String} {value : Variant ω}
    (passes : isRevisit heap trail value = false)
    (records : own stringify heap path value = []) :
    planned hashBytes ioText stringify heap tick entityId (left + 1) trail path value =
      forM (held stringify heap value) fun child =>
        planned hashBytes ioText stringify heap tick entityId left (value :: trail)
          (child.1.extend path) child.2 := by
  rw [planned_succ, passes, if_neg Bool.false_ne_true, records]
  show (pure () >>= fun _ => _) = _
  rw [pure_bind]

/-- The tracked properties are walked one after another. -/
theorem walkObject_eq {left : ℕ} {trail : List (Variant ω)} {path : String} {id : InstanceId}
    {object : Object ω} {walkValue : String → Variant ω → Described Walking Unit}
    {visited : Finset InstanceId} (live : heap.object id = some object)
    (same : ∀ path value recording, walkValue path value { recording, visited } =
      onRecording (planned hashBytes ioText stringify heap tick entityId left trail path value)
        { recording, visited }) (recording : Recording) :
    walkObject walkValue path object { recording, visited } =
      onRecording (forM (held stringify heap (.object id)) fun child =>
        planned hashBytes ioText stringify heap tick entityId left trail (child.1.extend path) child.2)
        { recording, visited } := by
  have tracked := forM_filter (fun name => decide (IsTracked name)) (propertyNames object)
    fun name => walkValue (path ++ "." ++ name) (object.get name)
  simp only [decide_eq_false_iff_not] at tracked
  rw [walkObject, tracked, held, live, List.forM_map]
  exact onRecording_forM (fun name _ recording => same _ _ recording) recording

/-- **Walking a value is carrying out its plan**, if the visited objects are those above it. -/
theorem walk_eq {left depth : ℕ} (levels : left + depth = defaultMaxDepth + 1)
    (trail : List (Variant ω)) (path : String) (value : Variant ω) (recording : Recording) :
    walk hashBytes ioText stringify heap tick entityId path value depth
        { recording, visited := objectsOf heap trail } =
      onRecording (planned hashBytes ioText stringify heap tick entityId left trail path value)
        { recording, visited := objectsOf heap trail } := by
  induction left generalizing depth trail path value recording with
  | zero =>
    rw [walk.eq_def, dif_pos (by omega)]
    rfl
  | succ left ih =>
    have deeper : left + (depth + 1) = defaultMaxDepth + 1 := by omega
    rw [walk.eq_def, dif_neg (by omega)]
    cases value with
    | array id =>
      have same : objectsOf heap (.array id :: trail) = objectsOf heap trail :=
        objectsOf_cons_none rfl trail
      rw [planned_container _ _ _ _ _ _ (isRevisit_none rfl trail) rfl, held, List.forM_map,
        ← same]
      exact onRecording_forM (fun item _ recording => ih deeper _ _ _ recording) recording
    | dictionary id =>
      have same : objectsOf heap (.dictionary id :: trail) = objectsOf heap trail :=
        objectsOf_cons_none rfl trail
      rw [planned_container _ _ _ _ _ _ (isRevisit_none rfl trail) rfl, held, List.forM_map,
        ← same]
      exact onRecording_forM (fun entry _ recording => ih deeper _ _ _ recording) recording
    | object id =>
      rcases live : heap.object id with _ | object
      · have freed : identity heap (.object id) = none := by simp [identity, live]
        have records : own stringify heap path (.object id) = [(path, [0xFF])] := by
          simp [own, live]
        rw [planned_leaf _ _ _ _ _ _ freed records (by simp [held, live])]
        simp only [live]
      · simp only [live]
        -- While an object is walked, the set holds it and the objects above it.
        by_cases above : id ∈ objectsOf heap trail
        · rw [planned_succ, if_pos ((isRevisit_live live trail).mpr above), whileVisited,
            if_pos above]
          rfl
        · have passes : isRevisit heap trail (.object id) = false := by
            rw [← Bool.not_eq_true, isRevisit_live live]
            exact above
          rw [planned_container _ _ _ _ _ _ passes (by simp [own, live])]
          refine whileVisited_fresh above ?_
          rw [← objectsOf_cons_live live]
          exact walkObject_eq _ _ _ _ _ _ live (fun _ _ _ => ih deeper _ _ _ _) recording
    | _ => exact congrFun (congrArg onRecording (planned_leaf _ _ _ _ _ _ rfl rfl rfl).symm) _

end Plan

/-! ### On a session whose writes succeed -/

section Reliable

variable (hashBytes : Bytes → UInt64) (ioText : IoError → String) (stringify : Variant ω → String)
  (heap : Heap ω) (tick entityId : UInt64)

/-- The preview of records: each path with the hash of its bytes. -/
def previewOf (recorded : List (String × Bytes)) : List (String × UInt64) :=
  recorded.map fun field => (field.1, hashBytes field.2)

theorem mapErr_ok {describe : Error → String} {attempt : Attempt Session Unit}
    {session : Session} (ok : (outcome attempt session).1 = .returned (.ok ())) :
    mapErr describe attempt session = .ok () (outcome attempt session).2 := by
  rw [mapErr, ok_of_outcome ok]

theorem record_reliable {session : Session} (reliable : session.Reliable)
    (preview : List (String × UInt64)) (path : String) (bytes : Bytes) :
    record hashBytes ioText tick entityId path bytes { session, preview } =
      .ok () {
        session := (step hashBytes session (.hashField tick entityId path bytes)).2
        preview := preview ++ [(path, hashBytes bytes)] } := by
  have ok := (step_reliable_hashField hashBytes reliable tick entityId path bytes).1
  simp only [record, mapErr_ok ok]
  rfl

/-- **Carrying out records makes one call for each**, and pushes the same to the preview. -/
theorem forM_emitRecord {session : Session} (reliable : session.Reliable)
    (preview : List (String × UInt64)) (recorded : List (String × Bytes)) :
    forM recorded (emitRecord hashBytes ioText tick entityId) { session, preview } =
      .ok () {
        session := (run hashBytes session (fieldCalls tick entityId recorded)).2
        preview := preview ++ previewOf hashBytes recorded } := by
  induction recorded generalizing session preview with
  | nil =>
    rw [previewOf, List.map_nil, List.append_nil]
    rfl
  | cons field recorded ih =>
    have still := (step_reliable_hashField hashBytes reliable tick entityId field.1 field.2).2
    rw [List.forM_cons, bind_eq_ok]
    refine ⟨(), _, record_reliable hashBytes ioText tick entityId reliable preview _ _, ?_⟩
    rw [ih still, List.append_assoc]
    rfl

/-- Carrying out a plan makes its calls, and fails where the plan stops. -/
theorem perform_reliable {session : Session} (reliable : session.Reliable)
    (plan : List (String × Bytes) × Option (GuardedWalk.Stop String)) :
    let attempt := perform (emitRecord hashBytes ioText tick entityId) haltAt plan
    let after : Recording := {
      session := (run hashBytes session (fieldCalls tick entityId plan.1)).2
      preview := previewOf hashBytes plan.1 }
    (plan.2 = none → attempt { session, preview := [] } = .ok () after) ∧
      ∀ stop, plan.2 = some stop →
        attempt { session, preview := [] } = .error (stopText stop) after := by
  have emitted := forM_emitRecord hashBytes ioText tick entityId reliable [] plan.1
  refine ⟨fun none => ?_, fun stop some => ?_⟩
  · rw [perform_none none]
    exact emitted
  · rw [perform_some some]
    simp only [bind, EStateM.bind, emitted]
    rfl

/-- **On a session whose writes succeed, `hash_reflected` makes the calls of its plan.** -/
theorem hashReflected_reliable {session : Session} (reliable : session.Reliable)
    (fieldNamePrefix : String) (target : Gd heap) :
    let plan := walkPlan stringify heap (defaultMaxDepth + 1) [] fieldNamePrefix (.object target.id)
    let after := (run hashBytes session (walkerCalls tick entityId (schemaTypeName target.object)
      (listTracked target.object).1 plan.1)).2
    let outcome := hashReflected hashBytes ioText stringify heap tick entityId fieldNamePrefix
      target session
    (plan.2 = none → outcome = .ok (previewOf hashBytes plan.1) after) ∧
      ∀ stop, plan.2 = some stop → outcome = .error (stopText stop) after := by
  intro plan after outcome
  obtain ⟨ok, still⟩ := step_reliable_recordSchema hashBytes reliable
    (schemaTypeName target.object) (listTracked target.object).1
  obtain ⟨finishes, stops⟩ := perform_reliable hashBytes ioText tick entityId still plan
  have levels : defaultMaxDepth + 1 + 0 = defaultMaxDepth + 1 := rfl
  have walked := walk_eq hashBytes ioText stringify heap tick entityId levels [] fieldNamePrefix
    (.object target.id) { session := (step hashBytes session (.recordSchema
      (schemaTypeName target.object) (listTracked target.object).1)).2, preview := [] }
  have unfolded : outcome = withPreview (walk hashBytes ioText stringify heap tick entityId
      fieldNamePrefix (.object target.id) 0) (step hashBytes session
        (.recordSchema (schemaTypeName target.object) (listTracked target.object).1)).2 := by
    show hashReflected _ _ _ _ _ _ _ _ session = _
    rw [hashReflected]
    simp only [bind, EStateM.bind, mapErr_ok ok]
    rfl
  rw [unfolded]
  refine ⟨fun none => ?_, fun stop some => ?_⟩
  · exact withPreview_ok walked (finishes none)
  · exact withPreview_error walked (stops stop some)

end Reliable

/-! ### Whenever it succeeds -/

section Succeeds

variable {hashBytes : Bytes → UInt64} {ioText : IoError → String} {stringify : Variant ω → String}
  {heap : Heap ω} {tick entityId : UInt64}

theorem record_ok {path : String} {bytes : Bytes} {recording after : Recording}
    (ok : record hashBytes ioText tick entityId path bytes recording = .ok () after) :
    after.preview = recording.preview ++ [(path, hashBytes bytes)] := by
  unfold record at ok
  simp only at ok
  split at ok
  · cases ok
    rfl
  · cases ok

theorem forM_emitRecord_ok {recorded : List (String × Bytes)} {recording after : Recording}
    (ok : forM recorded (emitRecord hashBytes ioText tick entityId) recording = .ok () after) :
    after.preview = recording.preview ++ previewOf hashBytes recorded := by
  induction recorded generalizing recording with
  | nil =>
    cases ok
    exact (List.append_nil _).symm
  | cons field recorded ih =>
    rw [List.forM_cons] at ok
    obtain ⟨_, middle, first, rest⟩ := bind_eq_ok.mp ok
    rw [ih rest, record_ok first, List.append_assoc]
    rfl

/-- **Whenever `hash_reflected` returns `Ok`, no chain is longer than 8**, and the preview is that of
the leaves of the unfolded graph. -/
theorem hashReflected_ok {fieldNamePrefix : String} {target : Gd heap} {session after : Session}
    {preview : List (String × UInt64)}
    (ok : hashReflected hashBytes ioText stringify heap tick entityId fieldNamePrefix target session =
      .ok preview after) :
    Fits (graph stringify heap) (defaultMaxDepth + 1) (.object target.id) ∧
      preview = previewOf hashBytes
        (preorder (graph stringify heap) (defaultMaxDepth + 1) fieldNamePrefix (.object target.id)) := by
  obtain ⟨_, middle, -, walked⟩ := bind_eq_ok.mp ok
  have levels : defaultMaxDepth + 1 + 0 = defaultMaxDepth + 1 := rfl
  have same := walk_eq hashBytes ioText stringify heap tick entityId levels [] fieldNamePrefix
    (.object target.id) { session := middle, preview := [] }
  have start : objectsOf heap [] = ∅ := rfl
  rw [start] at same
  rcases planned : Godot.planned hashBytes ioText stringify heap tick entityId (defaultMaxDepth + 1) []
    fieldNamePrefix (.object target.id) { session := middle, preview := [] } with
    ⟨_, recording⟩ | ⟨error, recording⟩
  · have result := (withPreview_ok same planned).symm.trans walked
    cases result
    rw [Godot.planned] at planned
    rcases stops : (walkPlan stringify heap (defaultMaxDepth + 1) [] fieldNamePrefix
      (.object target.id)).2 with _ | stop
    · rw [perform_none stops] at planned
      refine ⟨fits_of_plan stops, ?_⟩
      rw [forM_emitRecord_ok planned, walkPlan, plan_records stops]
      rfl
    · rw [perform_some stops] at planned
      obtain ⟨_, _, -, halted⟩ := bind_eq_ok.mp planned
      cases halted
  · have result := (withPreview_error same planned).symm.trans walked
    cases result

end Succeeds

/-! ### The two guards -/

/-- **What the two guards of `hash_reflected` let through.** It returns `Ok` exactly when no chain of
tracked properties, elements and dictionary values from the root is longer than 8, whatever is shared
on the way. The preview and the frames then are the leaves of the unfolded graph in preorder.
Otherwise a guard is the error, the identity guard only if an object that is reached contains itself,
and the frames are a front of the leaves of the unfolding cut at depth 8. -/
theorem hashReflected_unfolds (hashBytes : Bytes → UInt64) (ioText : IoError → String)
    (stringify : Variant ω → String) (heap : Heap ω) (tick entityId : UInt64)
    (fieldNamePrefix : String) (target : Gd heap) (session : Session)
    (reliable : session.Reliable) :
    let outcome := hashReflected hashBytes ioText stringify heap tick entityId fieldNamePrefix
      target session
    let held := graph stringify heap
    let root : Variant ω := .object target.id
    let frames := fun recorded =>
      schemaFrames session.writtenSchemas (schemaTypeName target.object)
          (listTracked target.object).1 ++
        fieldFrames hashBytes tick entityId session.localPeerId recorded
    ((∃ preview after, outcome = .ok preview after) ↔
      ∀ length value, Below held length root value → length ≤ 8) ∧
    (∀ preview after, outcome = .ok preview after → ∀ levels > 8,
      preview = previewOf hashBytes (preorder held levels fieldNamePrefix root) ∧
        Appends session (frames (preorder held levels fieldNamePrefix root)) after) ∧
    (∀ error after, outcome = .error error after →
      ((∃ path, error = depthExceeded path) ∨
        (∃ path, error = cycleFound path) ∧ ∃ object count turn, Below held count root object ∧
          Below held (turn + 1) object object) ∧
      ∃ recorded, recorded <+: preorder held 9 fieldNamePrefix root ∧
        Appends session (frames recorded) after) := by
  intro outcome held root frames
  let plan := walkPlan stringify heap (defaultMaxDepth + 1) [] fieldNamePrefix root
  obtain ⟨ok, stopped⟩ := hashReflected_reliable hashBytes ioText stringify heap tick entityId
    reliable fieldNamePrefix target
  have appends := run_walkerCalls hashBytes tick entityId reliable (schemaTypeName target.object)
    (listTracked target.object).1
  have noneAbove : ∀ ancestor ∈ ([] : List (Variant ω)), ∃ count,
      Below held (count + 1) ancestor root := fun _ member => absurd member List.not_mem_nil
  have none_iff : plan.2 = none ↔ Fits held (defaultMaxDepth + 1) root :=
    plan_stop_iff mem_of_isRevisit noneAbove
  have lengths : Fits held (defaultMaxDepth + 1) root ↔
      ∀ length value, Below held length root value → length ≤ 8 := fits_succ_iff
  refine ⟨?_, fun preview after returned levels deep => ?_, fun error after failed => ?_⟩
  · rw [← lengths, ← none_iff]
    constructor
    · rintro ⟨preview, after, returned⟩
      rcases stops : plan.2 with _ | stop
      · rfl
      · exact absurd ((stopped stop stops).symm.trans returned) (by simp)
    · exact fun none => ⟨_, _, ok none⟩
  · rcases stops : plan.2 with _ | stop
    · have records : plan.1 = preorder held levels fieldNamePrefix root := by
        rw [preorder_eq (none_iff.mp stops) deep]
        exact plan_records stops
      have result := (ok stops).symm.trans returned
      cases result
      rw [← records]
      exact ⟨rfl, appends plan.1⟩
    · exact absurd ((stopped stop stops).symm.trans returned) (by simp)
  · rcases stops : plan.2 with _ | stop
    · exact absurd ((ok stops).symm.trans failed) (by simp)
    · have result := (stopped stop stops).symm.trans failed
      cases result
      refine ⟨?_, plan.1, plan_isPrefix (Nat.le_refl _), appends plan.1⟩
      cases stop with
      | deep path => exact .inl ⟨path, rfl⟩
      | blocked path => exact .inr ⟨⟨path, rfl⟩, cycle_of_blocked mem_of_isRevisit noneAbove stops⟩

/-- Two properties that hold one object, and a number between them. -/
def shared : Heap Unit where
  object id :=
    if id = 1 then some {
      propertyList := [some (.string "foldback_left"), none, some (.string "foldback_lives"),
        some (.string "foldback_right")]
      get := fun name => if name = "foldback_lives" then .int 3 else .object 2
      globalName := some "Pair"
      className := "RefCounted" }
    else if id = 2 then some {
      propertyList := [some (.string "foldback_hp"), some (.string "label")]
      get := fun name => if name = "foldback_hp" then .int 5 else .nil
      globalName := none
      className := "RefCounted" }
    else none
  array _ := []
  dictionary _ := []

theorem hashReflected_unfolds_shared :
    ∃ after, hashReflected sampleHash (fun _ => "") (fun _ => "") shared 0 0 "root"
        ⟨1, _, rfl⟩ (({} : SessionBuilder).session none) =
      .ok [("root.foldback_left.foldback_hp", 5), ("root.foldback_lives", 3),
        ("root.foldback_right.foldback_hp", 5)] after := by
  have exact := hashReflected_unfolds sampleHash (fun _ => "") (fun _ => "") shared 0 0 "root"
    ⟨1, _, rfl⟩ (({} : SessionBuilder).session none) (by decide)
  have fits : Fits (graph (fun _ => "") shared) 9 (.object 1) := by decide
  obtain ⟨preview, after, ok⟩ := exact.1.mpr (fits_succ_iff.mp fits)
  have leaves := (exact.2.1 preview after ok 9 (by decide)).1
  exact ⟨after, ok.trans (congrArg (EStateM.Result.ok · after) (leaves.trans (by decide)))⟩

end Foldback.Godot
