/-
**What one reflective walk of a Bevy value does.**

* `subvalues`: what is directly inside of a value, keys too. It is smaller, so every value fits under
  some limit; `unlimited` is what a walk without a guard records.
* `hashReflected_reliable`: on a session whose writes succeed, `hash_reflected` makes the calls of
  its plan, and fails where the plan stops.
* `hashReflected_exact`: **it returns `Ok` exactly when nothing tracked lies deeper than level 8**;
  the preview is what was recorded; on an error that is a front of the unlimited walk.
-/

import Foldback.Bevy.Reflect
import Foldback.Core.FieldRecording

namespace Foldback.Bevy

open GuardedWalk KeyOrder

variable {ω : Type}

/-! ### Values are finite -/

/-- The values directly inside of a value, keys among them. -/
def subvalues : ReflectRef ω → List (ReflectRef ω)
  | .struct _ fields => fields.map Prod.snd
  | .tupleStruct _ fields | .tuple fields => fields
  | .list items | .array items | .set items => items
  | .map entries => entries.map Prod.fst ++ entries.map Prod.snd
  | .enum _ _ fields => fields.map Prod.snd
  | .leaf _ => []

theorem sizeOf_subvalue {value inside : ReflectRef ω} (member : inside ∈ subvalues value) :
    sizeOf inside < sizeOf value := by
  have second : ∀ {α : Type} [SizeOf α] {entries : List (α × ReflectRef ω)},
      inside ∈ entries.map Prod.snd → sizeOf inside < 1 + sizeOf entries := by
    intro α _ entries isSecond
    obtain ⟨⟨name, held⟩, inEntries, rfl⟩ := List.mem_map.mp isSecond
    have := List.sizeOf_lt_of_mem inEntries
    simp only [Prod.mk.sizeOf_spec] at this ⊢
    omega
  cases value with
  | struct typePath fields =>
    have := second member
    rw [ReflectRef.struct.sizeOf_spec]
    omega
  | map entries =>
    rcases List.mem_append.mp member with isKey | isValue
    · obtain ⟨⟨key, mapped⟩, inEntries, rfl⟩ := List.mem_map.mp isKey
      have := List.sizeOf_lt_of_mem inEntries
      simp only [Prod.mk.sizeOf_spec, ReflectRef.map.sizeOf_spec] at this ⊢
      omega
    · have := second isValue
      rw [ReflectRef.map.sizeOf_spec]
      omega
  | enum typePath variantName fields =>
    have := second member
    rw [ReflectRef.enum.sizeOf_spec]
    omega
  | leaf leaf => cases member
  | tupleStruct typePath items | tuple items | list items | array items | set items =>
    have := List.sizeOf_lt_of_mem (show inside ∈ items from member)
    simp only [ReflectRef.tupleStruct.sizeOf_spec, ReflectRef.tuple.sizeOf_spec,
      ReflectRef.list.sizeOf_spec, ReflectRef.array.sizeOf_spec, ReflectRef.set.sizeOf_spec]
    omega

/-- Induction over what is inside. -/
theorem subvalues_induction {P : ReflectRef ω → Prop}
    (step : ∀ value, (∀ inside ∈ subvalues value, P inside) → P value) (value : ReflectRef ω) :
    P value := by
  induction size : sizeOf value using Nat.strong_induction_on generalizing value with
  | _ size ih =>
    exact step value fun inside member => ih _ (size ▸ sizeOf_subvalue member) inside rfl

theorem part_mem_subvalues {debug : ReflectRef ω → String} {value : ReflectRef ω}
    {part : Step × ReflectRef ω} (inParts : part ∈ parts debug value) :
    part.2 ∈ subvalues value := by
  cases value with
  | struct typePath fields =>
    obtain ⟨field, member, rfl⟩ := List.mem_map.mp inParts
    exact List.mem_map_of_mem member
  | map entries =>
    obtain ⟨entry, sorted, rfl⟩ := List.mem_map.mp inParts
    obtain ⟨entry, member, rfl⟩ := List.mem_map.mp ((mem_sortByKey _ _).mp sorted)
    exact List.mem_append_right _ (List.mem_map_of_mem member)
  | set items =>
    obtain ⟨entry, sorted, rfl⟩ := List.mem_map.mp inParts
    obtain ⟨item, member, rfl⟩ := List.mem_map.mp ((mem_sortByKey _ _).mp sorted)
    exact member
  | enum typePath variantName fields =>
    obtain ⟨field, member, rfl⟩ := List.mem_map.mp inParts
    exact List.mem_map_of_mem (List.fst_mem_of_mem_zipIdx member)
  | leaf leaf => cases inParts
  | _ =>
    obtain ⟨item, member, rfl⟩ := List.mem_map.mp inParts
    exact List.fst_mem_of_mem_zipIdx member

/-- A part is smaller than the whole. -/
theorem sizeOf_part (debug : ReflectRef ω → String) {value : ReflectRef ω}
    {part : Step × ReflectRef ω} (inParts : part ∈ parts debug value) :
    sizeOf part.2 < sizeOf value :=
  sizeOf_subvalue (part_mem_subvalues inParts)

theorem fits_sizeOf (debug : ReflectRef ω → String) (value : ReflectRef ω) :
    Fits (reflection debug) (sizeOf value + 1) value := by
  induction size : sizeOf value using Nat.strong_induction_on generalizing value with
  | _ size ih =>
    intro part member
    have smaller := sizeOf_part debug member
    exact (ih _ (size ▸ smaller) part.2 rfl).mono (by omega)

/-- What a walk without a guard records, each name with its value bytes. -/
noncomputable def unlimited (debug : ReflectRef ω → String) (path : String)
    (value : ReflectRef ω) : List (String × Bytes) :=
  preorder (reflection debug) (sizeOf value + 1) path value

/-- Any limit under which the value fits gives the unlimited records. -/
theorem preorder_unlimited {debug : ReflectRef ω → String} {left : ℕ} {path : String}
    {value : ReflectRef ω} (fits : Fits (reflection debug) left value) :
    preorder (reflection debug) left path value = unlimited debug path value := by
  rw [unlimited, ← preorder_eq fits (Nat.le_max_left left (sizeOf value + 1)),
    ← preorder_eq (fits_sizeOf debug value) (Nat.le_max_right left (sizeOf value + 1))]

/-- **What a value records of its own, then its parts.** -/
theorem unlimited_eq (debug : ReflectRef ω → String) (path : String) (value : ReflectRef ω) :
    unlimited debug path value = own debug path value ++
      (parts debug value).flatMap fun part => unlimited debug (part.1.extend path) part.2 := by
  rw [unlimited, preorder]
  congr 1
  exact List.flatMap_congr fun part member =>
    preorder_unlimited (fits_sizeOf debug value part member)

/-- Induction over the parts. -/
theorem parts_induction (debug : ReflectRef ω → String) {P : ReflectRef ω → Prop}
    (step : ∀ value, (∀ part ∈ parts debug value, P part.2) → P value) (value : ReflectRef ω) :
    P value :=
  subvalues_induction (fun value inside => step value fun part member =>
    inside part.2 (part_mem_subvalues member)) value

/-- What a plan records is a front of the unlimited records. -/
theorem walkPlan_isPrefix (debug : ReflectRef ω → String) (left : ℕ) (path : String)
    (value : ReflectRef ω) : (walkPlan debug left path value).1 <+: unlimited debug path value := by
  have whole := (fits_sizeOf debug value).mono (Nat.le_max_right left (sizeOf value + 1))
  rw [← preorder_unlimited whole]
  exact plan_isPrefix (Nat.le_max_left left (sizeOf value + 1))

/-- A walk stops nowhere exactly when the value fits, and then records everything. -/
theorem walkPlan_none_iff (debug : ReflectRef ω → String) (left : ℕ) (path : String)
    (value : ReflectRef ω) :
    (walkPlan debug left path value).2 = none ↔ Fits (reflection debug) left value :=
  plan_stop_iff (fun _ _ refused => absurd refused Bool.false_ne_true)
    fun _ member => absurd member List.not_mem_nil

theorem walkPlan_records {debug : ReflectRef ω → String} {left : ℕ} {path : String}
    {value : ReflectRef ω} (fits : Fits (reflection debug) left value) :
    walkPlan debug left path value = (unlimited debug path value, none) := by
  have none := (walkPlan_none_iff debug left path value).mpr fits
  rw [← preorder_unlimited fits, ← plan_records none]
  exact Prod.ext rfl none

/-! ### The order of the parts -/

/-- The parts as they are declared, or as the iterator yields them. -/
def unsorted (debug : ReflectRef ω → String) (value : ReflectRef ω) : List (Step × ReflectRef ω) :=
  match value with
  | .map entries => entries.map fun entry => (.key (debug entry.1), entry.2)
  | .set items => items.map fun item => (.element (debug item), item)
  | value => parts debug value

theorem parts_perm (debug : ReflectRef ω → String) (value : ReflectRef ω) :
    (parts debug value).Perm (unsorted debug value) := by
  cases value with
  | map entries =>
    have sorted := (perm_sortByKey compare Prod.fst (entries.map fun entry =>
      (debug entry.1, entry.2))).map fun entry : String × ReflectRef ω => (Step.key entry.1, entry.2)
    rw [List.map_map] at sorted
    exact sorted
  | set items =>
    have sorted := (perm_sortByKey compare Prod.fst (items.map fun item => (debug item, item))).map
      fun entry : String × ReflectRef ω => (Step.element entry.1, entry.2)
    rw [List.map_map] at sorted
    exact sorted
  | _ => exact .refl _

/-- The text that a part of a map or set is sorted by; other parts have none. -/
def Step.text : Step → String
  | .key text | .element text => text
  | _ => ""

/-- The parts in ascending order of their texts, those of one text as they are declared or yielded.
Where no part has a text, this is the order of declaration. -/
structure InOrder (debug : ReflectRef ω → String) (value : ReflectRef ω)
    (ordered : List (Step × ReflectRef ω)) : Prop where
  perm : ordered.Perm (unsorted debug value)
  ascending : ordered.Pairwise fun part part' => (compare part.1.text part'.1.text).isLE = true
  ties : ∀ text, ordered.filter (fun part => part.1.text = text) =
    (unsorted debug value).filter fun part => part.1.text = text

/-- Sorting by the rendered texts puts the parts in order. -/
theorem sorted_inOrder {α : Type} {step : String → Step} (texts : ∀ text, (step text).text = text)
    (debug : ReflectRef ω → String) (entries : List α) (rendering : α → String)
    (walked : α → ReflectRef ω) {value : ReflectRef ω}
    (declared : unsorted debug value =
      entries.map fun entry => (step (rendering entry), walked entry)) :
    InOrder debug value ((sortByText (entries.map fun entry => (rendering entry, walked entry))).map
      fun entry => (step entry.1, entry.2)) := by
  let place (entry : String × ReflectRef ω) : Step × ReflectRef ω := (step entry.1, entry.2)
  have yielded : unsorted debug value =
      (entries.map fun entry => (rendering entry, walked entry)).map place := by
    rw [declared, List.map_map]
    rfl
  have pass : ∀ text list, (List.map place list).filter (fun part => part.1.text = text) =
      (list.filter fun entry => entry.1 = text).map place := by
    intro text list
    rw [List.filter_map]
    refine congrArg _ (List.filter_congr fun entry _ => ?_)
    show decide ((step entry.1).text = text) = decide (entry.1 = text)
    rw [texts]
  refine ⟨?_, List.pairwise_map.mpr ?_, fun text => ?_⟩
  · rw [yielded]
    exact (perm_sortByKey compare Prod.fst _).map place
  · refine (sorted_sortByKey _).imp fun {entry entry'} le => ?_
    rw [texts, texts]
    exact le
  · rw [yielded, pass, sortByText]
    exact (congrArg _ (filter_sortByKey _ text)).trans (pass text _).symm

/-- Parts without texts, in the order in which they are declared. -/
theorem declared_inOrder {debug : ReflectRef ω → String} {value : ReflectRef ω}
    (declared : parts debug value = unsorted debug value)
    (textless : ∀ part ∈ unsorted debug value, part.1.text = "") :
    InOrder debug value (parts debug value) := by
  rw [declared]
  refine ⟨.refl _, List.pairwise_of_forall_mem_list fun part member part' member' => ?_,
    fun _ => rfl⟩
  rw [textless part member, textless part' member']
  decide

/-- **The walk takes the parts in order.** -/
theorem inOrder_parts (debug : ReflectRef ω → String) (value : ReflectRef ω) :
    InOrder debug value (parts debug value) := by
  cases value with
  | map entries =>
    exact sorted_inOrder (fun _ => rfl) debug entries (fun entry => debug entry.1) Prod.snd rfl
  | set items => exact sorted_inOrder (fun _ => rfl) debug items debug id rfl
  | leaf leaf => exact declared_inOrder rfl nofun
  | _ =>
    refine declared_inOrder rfl fun part member => ?_
    obtain ⟨_, _, rfl⟩ := List.mem_map.mp member
    rfl

/-! ### On a session whose writes succeed -/

section Reliable

variable (hashBytes : Bytes → UInt64) (debug : ReflectRef ω → String) (tick entityId : UInt64)

/-- The preview of records: each name with the hash of its bytes. -/
def previewOf (recorded : List (String × Bytes)) : List (String × UInt64) :=
  recorded.map fun field => (field.1, hashBytes field.2)

theorem recordInto_reliable {session : Session} (reliable : session.Reliable)
    (preview : List (String × UInt64)) (path : String) (valueBytes : Bytes) :
    recordInto hashBytes tick entityId path valueBytes { session, preview } =
      .ok () {
        session := (step hashBytes session (.hashField tick entityId path valueBytes)).2
        preview := preview ++ [(path, hashBytes valueBytes)] } := by
  have ok := (step_reliable_hashField hashBytes reliable tick entityId path valueBytes).1
  have called := ok_of_outcome ok
  simp only [recordInto, onSession, record, bind, EStateM.bind, called]
  rfl

/-- **Carrying out records makes one call for each**, and pushes the same to the preview. -/
theorem forM_emitRecord {session : Session} (reliable : session.Reliable)
    (preview : List (String × UInt64)) (recorded : List (String × Bytes)) :
    forM recorded (emitRecord hashBytes tick entityId) { session, preview } =
      .ok () {
        session := (run hashBytes session (fieldCalls tick entityId recorded)).2
        preview := preview ++ previewOf hashBytes recorded } := by
  induction recorded generalizing session preview with
  | nil =>
    rw [previewOf, List.map_nil, List.append_nil]
    rfl
  | cons field recorded ih =>
    have still := (step_reliable_hashField hashBytes reliable tick entityId field.1 field.2).2
    rw [List.forM_cons, bind_eq_ok]
    refine ⟨(), _, recordInto_reliable hashBytes tick entityId reliable preview field.1 field.2, ?_⟩
    rw [ih still, List.append_assoc]
    rfl

/-- **On a session whose writes succeed, `hash_reflected` makes the calls of its plan.** -/
theorem hashReflected_reliable {session : Session} (reliable : session.Reliable) (typeName : String)
    (trackedFields : List String) (fieldNamePrefix typePath : String)
    (fields : List (String × ReflectRef ω)) :
    let planned := walkPlan debug (defaultMaxDepth + 1) fieldNamePrefix
      (tracked trackedFields (.struct typePath fields))
    let after := (run hashBytes session
      (walkerCalls tick entityId typeName trackedFields planned.1)).2
    let outcome := hashReflected hashBytes debug tick entityId typeName trackedFields
      fieldNamePrefix (.struct typePath fields) session
    (planned.2 = none → outcome = .ok (previewOf hashBytes planned.1) after) ∧
      ∀ stop, planned.2 = some stop →
        outcome = .error (.reflectionDepthExceeded stop.path defaultMaxDepth) after := by
  intro planned after outcome
  obtain ⟨ok, still⟩ := step_reliable_recordSchema hashBytes reliable typeName trackedFields
  have called := ok_of_outcome ok
  have run_walk : outcome = withPreview (perform (emitRecord hashBytes tick entityId) haltAt planned)
      (step hashBytes session (.recordSchema typeName trackedFields)).2 := by
    show hashReflected _ _ _ _ _ _ _ _ session = _
    rw [hashReflected_struct, walk_eq]
    simp only [bind, EStateM.bind, called]
    rfl
  have emitted := forM_emitRecord hashBytes tick entityId still [] planned.1
  rw [run_walk, withPreview]
  constructor
  · intro none
    rw [perform_none none, emitted]
    rfl
  · intro stop some
    rw [perform_some some]
    simp only [bind, EStateM.bind, emitted]
    rfl

end Reliable

/-! ### On any session -/

section AnySession

variable (hashBytes : Bytes → UInt64) (debug : ReflectRef ω → String) (tick entityId : UInt64)

/-- The state that an attempt leaves. -/
def leaves {σ α : Type} : EStateM.Result Error σ α → σ
  | .ok _ after | .error _ after => after

/-- The fields that a call records if no write fails: each name with its value bytes. -/
def recordedFields (trackedFields : List String) (fieldNamePrefix : String) (root : ReflectRef ω) :
    List (String × Bytes) :=
  (walkPlan debug (defaultMaxDepth + 1) fieldNamePrefix (tracked trackedFields root)).1

theorem leaves_outcome (attempt : Attempt Session Unit) (session : Session) :
    leaves (attempt session) = (outcome attempt session).2 := by
  rw [outcome]
  rcases attempt session with ⟨_, after⟩ | ⟨error, after⟩
  all_goals rfl

theorem recordInto_leaves (path : String) (valueBytes : Bytes) (walking : Walking) :
    (leaves (recordInto hashBytes tick entityId path valueBytes walking)).session =
      (step hashBytes walking.session (.hashField tick entityId path valueBytes)).2 := by
  rw [step, ← leaves_outcome]
  simp only [recordInto, onSession, record, bind, EStateM.bind]
  rcases Session.hashField hashBytes tick entityId path valueBytes walking.session with
    ⟨_, after⟩ | ⟨error, after⟩
  all_goals rfl

/-- Carrying out records makes the calls of the first of them, or of all if none fails. -/
theorem forM_emitRecord_leaves (recorded : List (String × Bytes)) (walking : Walking) :
    ∃ made, made <+: recorded ∧
      (leaves (forM recorded (emitRecord hashBytes tick entityId) walking)).session =
        (run hashBytes walking.session (fieldCalls tick entityId made)).2 := by
  induction recorded generalizing walking with
  | nil => exact ⟨[], List.prefix_refl [], rfl⟩
  | cons field recorded ih =>
    have here := recordInto_leaves hashBytes tick entityId field.1 field.2 walking
    rw [List.forM_cons]
    simp only [bind, EStateM.bind, emitRecord]
    rcases called : recordInto hashBytes tick entityId field.1 field.2 walking with
      ⟨_, after⟩ | ⟨error, after⟩
    · obtain ⟨made, front, left⟩ := ih after
      rw [called] at here
      refine ⟨field :: made, List.cons_prefix_cons.mpr ⟨rfl, front⟩, left.trans ?_⟩
      rw [← show (leaves (EStateM.Result.ok () after)).session = after.session from rfl, here]
      rfl
    · rw [called] at here
      exact ⟨[field], List.cons_prefix_cons.mpr ⟨rfl, List.nil_prefix⟩, here⟩

theorem withPreview_leaves (attempt : Attempt Walking Unit) (session : Session) :
    leaves (withPreview attempt session) = (leaves (attempt { session, preview := [] })).session := by
  rw [withPreview]
  rcases attempt { session, preview := [] } with ⟨_, after⟩ | ⟨error, after⟩
  all_goals rfl

/-- Stopping records nothing. -/
theorem perform_leaves (planned : List (String × Bytes) × Option (Stop String)) (walking : Walking) :
    leaves (perform (emitRecord hashBytes tick entityId) haltAt planned walking) =
      leaves (forM planned.1 (emitRecord hashBytes tick entityId) walking) := by
  simp only [perform, bind, EStateM.bind]
  generalize (forM planned.1 (emitRecord hashBytes tick entityId) : Attempt Walking PUnit) = attempt
  rcases attempt walking with ⟨_, after⟩ | ⟨error, after⟩
  · rcases planned.2 with _ | stop
    all_goals rfl
  · rfl

/-- **On any session, `hash_reflected` makes the calls of the first fields it records**, up to a
write that fails. -/
theorem hashReflected_leaves (typeName : String) (trackedFields : List String)
    (fieldNamePrefix typePath : String) (fields : List (String × ReflectRef ω)) (session : Session) :
    ∃ made, made <+: recordedFields debug trackedFields fieldNamePrefix (.struct typePath fields) ∧
      leaves (hashReflected hashBytes debug tick entityId typeName trackedFields fieldNamePrefix
        (.struct typePath fields) session) =
          (run hashBytes session (walkerCalls tick entityId typeName trackedFields made)).2 := by
  have schema := leaves_outcome (Session.recordSchema typeName trackedFields) session
  rw [hashReflected_struct, walk_eq]
  simp only [bind, EStateM.bind]
  rcases called : Session.recordSchema typeName trackedFields session with ⟨_, after⟩ | ⟨error, after⟩
  · rw [called] at schema
    obtain ⟨made, front, left⟩ := forM_emitRecord_leaves hashBytes tick entityId
      (recordedFields debug trackedFields fieldNamePrefix (.struct typePath fields))
      { session := after, preview := [] }
    refine ⟨made, front, ?_⟩
    have same : (step hashBytes session (.recordSchema typeName trackedFields)).2 = after :=
      schema.symm
    show leaves (withPreview _ after) = (run hashBytes _ (fieldCalls tick entityId made)).2
    rw [withPreview_leaves, perform_leaves, same]
    exact left
  · rw [called] at schema
    exact ⟨[], List.nil_prefix, schema⟩

/-- **On a session whose writes succeed, a call appends the frames of its fields.** -/
theorem hashReflected_appends {session : Session} (reliable : session.Reliable) (typeName : String)
    (trackedFields : List String) (fieldNamePrefix typePath : String)
    (fields : List (String × ReflectRef ω)) :
    Appends session
      (schemaFrames session.writtenSchemas typeName trackedFields ++
        fieldFrames hashBytes tick entityId session.localPeerId
          (recordedFields debug trackedFields fieldNamePrefix (.struct typePath fields)))
      (leaves (hashReflected hashBytes debug tick entityId typeName trackedFields fieldNamePrefix
        (.struct typePath fields) session)) := by
  obtain ⟨ok, stopped⟩ := hashReflected_reliable hashBytes debug tick entityId reliable typeName
    trackedFields fieldNamePrefix typePath fields
  have left : leaves (hashReflected hashBytes debug tick entityId typeName trackedFields
      fieldNamePrefix (.struct typePath fields) session) = (run hashBytes session (walkerCalls tick
        entityId typeName trackedFields
          (recordedFields debug trackedFields fieldNamePrefix (.struct typePath fields)))).2 := by
    rcases stops : (walkPlan debug (defaultMaxDepth + 1) fieldNamePrefix
        (tracked trackedFields (.struct typePath fields))).2 with _ | stop
    · exact congrArg leaves (ok stops)
    · exact congrArg leaves (stopped stop stops)
  rw [left]
  exact run_walkerCalls hashBytes tick entityId reliable typeName trackedFields _

end AnySession

/-! ### The guard, the preview and the frames -/

/-- **The guard, the preview and the frames of `hash_reflected`.** It returns `Ok` exactly when no
value below a tracked field lies deeper than level 8. The preview then is every record of the walk
and the frames are the same records, after the schema's frame if the type is new. Otherwise the guard
is the error, and the frames are a front of the records of a walk without a guard. Such a walk
records what a value has of its own, then its parts in order, each in full. The fields that are not
tracked have no part in any of this. -/
theorem hashReflected_exact (hashBytes : Bytes → UInt64) (debug : ReflectRef ω → String)
    (tick entityId : UInt64) (typeName : String) (trackedFields : List String)
    (fieldNamePrefix typePath : String) (fields : List (String × ReflectRef ω)) (session : Session)
    (reliable : session.Reliable) :
    let outcome := fun fields => hashReflected hashBytes debug tick entityId typeName trackedFields
      fieldNamePrefix (.struct typePath fields) session
    let root := tracked trackedFields (.struct typePath fields)
    let whole := unlimited debug fieldNamePrefix root
    let frames := fun recorded =>
      schemaFrames session.writtenSchemas typeName trackedFields ++
        fieldFrames hashBytes tick entityId session.localPeerId recorded
    ((∃ preview after, outcome fields = .ok preview after) ↔
      ∀ level value, Below (reflection debug) level root value → level ≤ 8) ∧
    (∀ preview after, outcome fields = .ok preview after →
      preview = previewOf hashBytes whole ∧ Appends session (frames whole) after) ∧
    (∀ error after, outcome fields = .error error after →
      (∃ path, error = .reflectionDepthExceeded path 8) ∧
        ∃ recorded, recorded <+: whole ∧ Appends session (frames recorded) after) ∧
    (∀ path value, ∃ ordered, InOrder debug value ordered ∧
      unlimited debug path value = own debug path value ++
        ordered.flatMap fun part => unlimited debug (part.1.extend path) part.2) ∧
    ∀ others, tracked trackedFields (.struct typePath others) = root → outcome others = outcome fields := by
  intro outcome root whole frames
  obtain ⟨ok, stopped⟩ := hashReflected_reliable hashBytes debug tick entityId reliable typeName
    trackedFields fieldNamePrefix typePath fields
  have appends := run_walkerCalls hashBytes tick entityId reliable typeName trackedFields
  have none_iff := walkPlan_none_iff debug (defaultMaxDepth + 1) fieldNamePrefix root
  have levels : Fits (reflection debug) (defaultMaxDepth + 1) root ↔
      ∀ level value, Below (reflection debug) level root value → level ≤ 8 := fits_succ_iff
  refine ⟨?_, fun preview after returned => ?_, fun error after failed => ?_,
    fun path value => ⟨_, inOrder_parts debug value, unlimited_eq debug path value⟩,
    fun others same => ?_⟩
  · rw [← levels, ← none_iff]
    constructor
    · rintro ⟨preview, after, returned⟩
      rcases stops : (walkPlan debug (defaultMaxDepth + 1) fieldNamePrefix root).2 with _ | stop
      · rfl
      · exact absurd ((stopped stop stops).symm.trans returned) (by simp)
    · exact fun none => ⟨_, _, ok none⟩
  · rcases stops : (walkPlan debug (defaultMaxDepth + 1) fieldNamePrefix root).2 with _ | stop
    · have records : walkPlan debug (defaultMaxDepth + 1) fieldNamePrefix root = (whole, none) :=
        walkPlan_records (none_iff.mp stops)
      have result := (ok stops).symm.trans returned
      rw [records] at result
      cases result
      exact ⟨rfl, appends whole⟩
    · exact absurd ((stopped stop stops).symm.trans returned) (by simp)
  · rcases stops : (walkPlan debug (defaultMaxDepth + 1) fieldNamePrefix root).2 with _ | stop
    · exact absurd ((ok stops).symm.trans failed) (by simp)
    · have result := (stopped stop stops).symm.trans failed
      cases result
      exact ⟨⟨stop.path, rfl⟩, _, walkPlan_isPrefix debug _ _ _, appends _⟩
  · show hashReflected _ _ _ _ _ _ _ _ session = hashReflected _ _ _ _ _ _ _ _ session
    rw [hashReflected_struct, hashReflected_struct, same]

/-- A tracked map, its later key first, and a field that is not tracked. -/
def sampleFields : List (String × ReflectRef Unit) :=
  [("stock", .map [(.leaf (.string "b"), .leaf (.bool true)), (.leaf (.string "a"), .leaf (.bool false))]),
    ("label", .leaf (.bool false))]

/-- A string as `{:?}` renders it, if it has nothing to escape. -/
def sampleDebug : ReflectRef Unit → String
  | .leaf (.string text) => "\"" ++ text ++ "\""
  | _ => ""

theorem hashReflected_exact_sample :
    ∃ after, hashReflected sampleHash sampleDebug 0 0 "Unit" ["stock"] "unit"
        (.struct "Unit" sampleFields) (({} : SessionBuilder).session none) =
          .ok [("unit.stock[\"a\"]", 0), ("unit.stock[\"b\"]", 1)] after ∧
      [("unit.stock[\"a\"]", 0), ("unit.stock[\"b\"]", 1)] = previewOf sampleHash
        (unlimited sampleDebug "unit" (tracked ["stock"] (.struct "Unit" sampleFields))) := by
  obtain ⟨after, ok⟩ : ∃ after, hashReflected sampleHash sampleDebug 0 0 "Unit" ["stock"] "unit"
      (.struct "Unit" sampleFields) (({} : SessionBuilder).session none) =
        .ok [("unit.stock[\"a\"]", 0), ("unit.stock[\"b\"]", 1)] after := ⟨_, rfl⟩
  exact ⟨after, ok, ((hashReflected_exact sampleHash sampleDebug 0 0 "Unit" ["stock"] "unit"
    "Unit" sampleFields (({} : SessionBuilder).session none) (by decide)).2.1 _ _ ok).1⟩

end Foldback.Bevy
