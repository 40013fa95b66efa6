/-
**Reflective hashing and the iteration orders of maps and sets.**

* `SameOutcome`, `OrderIndependent`: two calls fail alike, or return the same preview and leave the
  same session; this is so for every iteration order of a root.
* `order_independent_iff`: **`hash_reflected` does not depend on any iteration order exactly when the
  value is too deep, or its renderings are stable.**
* `iteration_order_shows`: a key that is a set in a tuple struct is not stable.
-/

import Foldback.Bevy.VisibleOrder

namespace Foldback.Bevy

open GuardedWalk KeyOrder

variable {ω : Type}

/-! ### Calls on reordered values -/

/-- Both fail, or both return the same preview and leave the same session. -/
def SameOutcome {α : Type} : EStateM.Result Error Session α → EStateM.Result Error Session α → Prop
  | .ok preview after, .ok preview' after' => preview = preview' ∧ after = after'
  | .error _ _, .error _ _ => True
  | _, _ => False

theorem SameOutcome.refl {α : Type} (result : EStateM.Result Error Session α) :
    SameOutcome result result := by
  cases result with
  | ok preview after => exact ⟨rfl, rfl⟩
  | error error after => trivial

section Calls

variable (hashBytes : Bytes → UInt64) (debug : ReflectRef ω → String) (tick entityId : UInt64)

/-- No iteration order of the root makes a difference to a call on any session. -/
def OrderIndependent (typeName : String) (trackedFields : List String) (fieldNamePrefix : String)
    (root : ReflectRef ω) : Prop :=
  ∀ root', Reordered root root' → ∀ session,
    SameOutcome
      (hashReflected hashBytes debug tick entityId typeName trackedFields fieldNamePrefix root session)
      (hashReflected hashBytes debug tick entityId typeName trackedFields fieldNamePrefix root' session)

/-- A plan that stops fails. -/
theorem perform_stops {planned : List (String × Bytes) × Option (Stop String)}
    {stop : Stop String} (stops : planned.2 = some stop) (walking : Walking) :
    ∃ error after, perform (emitRecord hashBytes tick entityId) haltAt planned walking =
      .error error after := by
  rw [perform_some stops]
  generalize (forM planned.1 (emitRecord hashBytes tick entityId) : Attempt Walking PUnit) = attempt
  simp only [bind, EStateM.bind]
  rcases attempt walking with ⟨_, walked⟩ | ⟨error, walked⟩
  · exact ⟨_, walked, rfl⟩
  · exact ⟨error, walked, rfl⟩

/-- Where something lies too deep, a call fails on every session. -/
theorem hashReflected_stops (typeName : String) (trackedFields : List String)
    (fieldNamePrefix typePath : String) (fields : List (String × ReflectRef ω))
    (deep : ¬ Fits (reflection debug) (defaultMaxDepth + 1)
      (tracked trackedFields (.struct typePath fields))) (session : Session) :
    ∃ error after, hashReflected hashBytes debug tick entityId typeName trackedFields fieldNamePrefix
      (.struct typePath fields) session = .error error after := by
  have stops := fun none => deep ((walkPlan_none_iff debug (defaultMaxDepth + 1) fieldNamePrefix
    (tracked trackedFields (.struct typePath fields))).mp none)
  obtain ⟨stop, stopped⟩ := Option.ne_none_iff_exists'.mp stops
  rw [hashReflected_struct, walk_eq]
  simp only [bind, EStateM.bind]
  rcases Session.recordSchema typeName trackedFields session with ⟨_, after⟩ | ⟨error, after⟩
  · obtain ⟨error, walked, failed⟩ :=
      perform_stops hashBytes tick entityId stopped { session := after, preview := [] }
    simp only [withPreview, failed]
    exact ⟨error, walked.session, rfl⟩
  · exact ⟨error, after, rfl⟩

theorem Reordered.tracked {root root' : ReflectRef ω} (reordered : Reordered root root')
    (trackedFields : List String) :
    Reordered (Bevy.tracked trackedFields root) (Bevy.tracked trackedFields root') := by
  cases reordered with
  | struct names values =>
    exact .of_fields (forall₂_tracked trackedFields (forall₂_components names values))
  | tupleStruct values => exact .tupleStruct values
  | tuple values => exact .tuple values
  | list values => exact .list values
  | array values => exact .array values
  | map perm keys values => exact .map perm keys values
  | set perm values => exact .set perm values
  | enum names values => exact .enum names values
  | leaf leaf => exact .leaf leaf

theorem Reordered.exists_struct {typePath : String} {fields : List (String × ReflectRef ω)}
    {root' : ReflectRef ω} (reordered : Reordered (.struct typePath fields) root') :
    ∃ fields', root' = .struct typePath fields' := by
  cases reordered with
  | struct names values => exact ⟨_, rfl⟩

/-- A tracked field that is not stable shows in some order of the root. -/
theorem exists_visible_root {debug : ReflectRef ω → String} (lengths : KeepsLength debug)
    {trackedFields : List String} {typePath : String} {fields : List (String × ReflectRef ω)}
    (unstable : ¬ Everywhere debug (StableRenderings debug)
      (Bevy.tracked trackedFields (.struct typePath fields))) :
    ∃ others, Reordered (.struct typePath fields) (.struct typePath others) ∧
      ∀ path, ¬ (names debug path (Bevy.tracked trackedFields (.struct typePath fields))).Perm
        (names debug path (Bevy.tracked trackedFields (.struct typePath others))) := by
  have nothing : StableRenderings debug (Bevy.tracked trackedFields (.struct typePath fields)) :=
    fun entry member => absurd member List.not_mem_nil
  rw [everywhere_iff, not_and] at unstable
  have below := unstable nothing
  push Not at below
  obtain ⟨part, inParts, unstable⟩ := below
  obtain ⟨⟨name, field⟩, kept, rfl⟩ := List.mem_map.mp inParts
  obtain ⟨inFields, isTracked⟩ := List.mem_filter.mp kept
  obtain ⟨field', reordered, differ⟩ := exists_visible lengths unstable
  obtain ⟨before, after, rfl⟩ := List.append_of_mem inFields
  have replaced : Reordered (.struct typePath (before ++ (name, field) :: after))
      (.struct typePath (before ++ (name, field') :: after)) := by
    refine .struct ?_ ?_
    · rw [List.map_append, List.map_append, List.map_cons, List.map_cons]
    · rw [List.map_append, List.map_append]
      exact forall₂_replace _ _ reordered
  refine ⟨_, replaced, fun path => ?_⟩
  let keep := fun field : String × ReflectRef ω => decide (field.1 ∈ trackedFields)
  have keeps : ∀ field : ReflectRef ω, (before ++ (name, field) :: after).filter keep =
      before.filter keep ++ (name, field) :: after.filter keep := by
    intro field
    rw [List.filter_append]
    exact congrArg _ (List.filter_cons_of_pos isTracked)
  have part : Replaced debug (Bevy.tracked trackedFields (.struct typePath (before ++ (name, field) :: after)))
      (Bevy.tracked trackedFields (.struct typePath (before ++ (name, field') :: after)))
      (.field name, field) (.field name, field') := by
    let step := fun field : String × ReflectRef ω => (Step.field field.1, field.2)
    refine ⟨replaced.tracked trackedFields, (before.filter keep).map step,
      (after.filter keep).map step, ?_, ?_⟩
    · exact (congrArg (List.map step) (keeps field)).trans List.map_append
    · exact (congrArg (List.map step) (keeps field')).trans List.map_append
  exact part.not_perm (differ _)

/-- **When iteration orders make no difference.** They make none where something lies too deep for
any call to succeed, and none where the renderings are stable; elsewhere some order does, if
reordering keeps the lengths of renderings. -/
theorem order_independent_iff (typeName : String) (trackedFields : List String)
    (fieldNamePrefix typePath : String) (fields : List (String × ReflectRef ω))
    (distinct : Everywhere debug (DistinctRenderings debug)
      (Bevy.tracked trackedFields (.struct typePath fields))) :
    let root := ReflectRef.struct typePath fields
    let independent := OrderIndependent hashBytes debug tick entityId typeName trackedFields
      fieldNamePrefix root
    let stable := Fits (reflection debug) (defaultMaxDepth + 1) (Bevy.tracked trackedFields root) →
      Everywhere debug (StableRenderings debug) (Bevy.tracked trackedFields root)
    (stable → independent) ∧ (KeepsLength debug → independent → stable) := by
  intro root independent stable
  constructor
  · intro stable root' reordered session
    have alike := reordered.tracked trackedFields
    obtain ⟨fields', rfl⟩ := reordered.exists_struct
    by_cases fits : Fits (reflection debug) (defaultMaxDepth + 1) (Bevy.tracked trackedFields root)
    · have same := alike.unlimited_eq distinct (stable fits) fieldNamePrefix
      have equal : hashReflected hashBytes debug tick entityId typeName trackedFields fieldNamePrefix
          root session = hashReflected hashBytes debug tick entityId typeName trackedFields
            fieldNamePrefix (.struct typePath fields') session := by
        rw [hashReflected_struct, hashReflected_struct, walk_eq, walk_eq, walkPlan_records fits,
          walkPlan_records (alike.fits_iff.mp fits), same]
      rw [equal]
      exact .refl _
    · obtain ⟨error, after, failed⟩ := hashReflected_stops hashBytes debug tick entityId typeName
        trackedFields fieldNamePrefix typePath fields fits session
      obtain ⟨error', after', failed'⟩ := hashReflected_stops hashBytes debug tick entityId typeName
        trackedFields fieldNamePrefix typePath fields' (fun fits' => fits (alike.fits_iff.mpr fits')) session
      rw [failed, failed']
      trivial
  · intro lengths independent fits
    by_contra unstable
    obtain ⟨others, reordered, differ⟩ := exists_visible_root lengths unstable
    have fits' := (reordered.tracked trackedFields).fits_iff.mp fits
    have same := independent _ reordered (({} : SessionBuilder).session none)
    have reliable : (({} : SessionBuilder).session none).Reliable := by decide
    rw [(hashReflected_reliable hashBytes debug tick entityId reliable typeName trackedFields
        fieldNamePrefix typePath fields).1 (congrArg Prod.snd (walkPlan_records fits)),
      (hashReflected_reliable hashBytes debug tick entityId reliable typeName trackedFields
        fieldNamePrefix typePath others).1 (congrArg Prod.snd (walkPlan_records fits')),
      walkPlan_records fits, walkPlan_records fits'] at same
    have sameNames := congrArg (List.map Prod.fst) same.1
    rw [previewOf, previewOf, List.map_map, List.map_map] at sameNames
    exact differ fieldNamePrefix (List.Perm.of_eq sameNames)

end Calls

/-! ### A map with one entry -/

/-- What `{:?}` prints for numbers, and for a set of two in a tuple struct. -/
def numbersDebug : ReflectRef Unit → String
  | .leaf (.int _ value) => toString value.toNat
  | .tupleStruct typePath [.set [first, second]] =>
    typePath ++ "(\x7b" ++ numbersDebug first ++ ", " ++ numbersDebug second ++ "\x7d)"
  | _ => ""

/-- A struct whose one field is a map with one entry. -/
def oneEntry (key : ReflectRef Unit) : List (String × ReflectRef Unit) :=
  [("owner", .map [(key, .leaf (.bool true))])]

theorem distinct_oneEntry (key : ReflectRef Unit) :
    Everywhere numbersDebug (DistinctRenderings numbersDebug)
      (tracked ["owner"] (.struct "World" (oneEntry key))) := by
  have leaf : Everywhere numbersDebug (DistinctRenderings numbersDebug) (.leaf (.bool true)) :=
    everywhere_iff.mpr ⟨List.nodup_nil, List.forall_mem_nil _⟩
  have map : Everywhere numbersDebug (DistinctRenderings numbersDebug)
      (.map [(key, .leaf (.bool true))]) :=
    everywhere_iff.mpr ⟨List.nodup_singleton _, List.forall_mem_singleton.mpr leaf⟩
  exact everywhere_iff.mpr ⟨List.nodup_nil, List.forall_mem_singleton.mpr map⟩

/-- The number 1, of type `u8`. -/
def one : ReflectRef Unit := .leaf (.int .u8 1)

def two : ReflectRef Unit := .leaf (.int .u8 2)

theorem order_independent_number :
    OrderIndependent (fun _ => 7) numbersDebug 0 0 "World" ["owner"] ""
      (.struct "World" (oneEntry one)) := by
  refine (order_independent_iff (fun _ => 7) numbersDebug 0 0 "World" ["owner"] "" "World"
    (oneEntry one) (distinct_oneEntry one)).1 fun _ => ?_
  have leaf : Everywhere numbersDebug (StableRenderings numbersDebug) (.leaf (.bool true)) :=
    everywhere_iff.mpr ⟨List.forall_mem_nil _, List.forall_mem_nil _⟩
  have map : Everywhere numbersDebug (StableRenderings numbersDebug)
      (.map [(one, .leaf (.bool true))]) := by
    refine everywhere_iff.mpr ⟨List.forall_mem_singleton.mpr fun _ key reordered => ?_,
      List.forall_mem_singleton.mpr leaf⟩
    cases reordered
    rfl
  exact everywhere_iff.mpr ⟨List.forall_mem_nil _, List.forall_mem_singleton.mpr map⟩

/-- A key that is a set of two numbers, which the set yields in one order or the other. -/
def pair (first second : ReflectRef Unit) : ReflectRef Unit :=
  .tupleStruct "Pair" [.set [first, second]]

theorem iteration_order_shows :
    let call := fun root => hashReflected (fun _ => 7) numbersDebug 0 0 "World" ["owner"] ""
      (.struct "World" (oneEntry root)) (({} : SessionBuilder).session none)
    Reordered (.struct "World" (oneEntry (pair one two))) (.struct "World" (oneEntry (pair two one))) ∧
      (∀ key, Everywhere numbersDebug (DistinctRenderings numbersDebug)
        (tracked ["owner"] (.struct "World" (oneEntry key)))) ∧
      (∃ after, call (pair one two) = .ok [("owner[Pair(\x7b1, 2\x7d)]", 7)] after) ∧
      (∃ after, call (pair two one) = .ok [("owner[Pair(\x7b2, 1\x7d)]", 7)] after) ∧
      ¬ SameOutcome (call (pair one two)) (call (pair two one)) := by
  intro call
  have first : ∃ after, call (pair one two) = .ok [("owner[Pair(\x7b1, 2\x7d)]", 7)] after := ⟨_, rfl⟩
  have second : ∃ after, call (pair two one) = .ok [("owner[Pair(\x7b2, 1\x7d)]", 7)] after := ⟨_, rfl⟩
  have keys : Reordered (pair one two) (pair two one) :=
    .tupleStruct (.cons (.set (.swap _ _ _) (List.forall₂_same.mpr fun item _ => .refl item)) .nil)
  refine ⟨.struct rfl (.cons (.map (.refl _) (.cons keys .nil) (.cons (.refl _) .nil)) .nil),
    distinct_oneEntry, first, second, fun same => ?_⟩
  obtain ⟨after, first⟩ := first
  obtain ⟨after', second⟩ := second
  rw [first, second] at same
  exact absurd same.1 (by decide)

end Foldback.Bevy
