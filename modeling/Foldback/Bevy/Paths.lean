/-
**Field paths identify fields.**

* `RendersScalars`, `ScalarKeys`: integers, bools and strings render as `Scalar.text` says; the keys of
  a map, or the elements of a set, are different scalars of one type.
* `field_paths_distinct`: **one call to `hash_reflected` records no name twice.**
-/

import Foldback.Bevy.ScalarText

namespace Foldback.Bevy

open GuardedWalk PrefixCode

variable {ω : Type}

def RendersScalars (plain : Char → Bool) (debug : ReflectRef ω → String) : Prop :=
  ∀ scalar : Scalar, debug scalar.leaf = scalar.text plain

/-- The keys of a map or the elements of a set. -/
def ScalarKeys (value : ReflectRef ω) : Prop :=
  ∃ scalars : List Scalar, (rendered value).map Prod.fst = scalars.map Scalar.leaf ∧
    scalars.Nodup ∧ ∃ ty, ∀ scalar ∈ scalars, scalar.ty = ty

theorem closing_mem (value : ReflectRef ω) : closing value ∈ [']', '}'] := by
  cases value <;> simp [closing]

theorem wellNamed_of_scalarKeys {plain : Char → Bool} {debug : ReflectRef ω → String}
    (renders : RendersScalars plain debug) {value : ReflectRef ω} (names : NamesOk value)
    (keys : ScalarKeys value) : WellNamed debug value := by
  refine ⟨names, ?_⟩
  obtain ⟨scalars, same, nodup, ty, types⟩ := keys
  have apart : ((rendered value).map Prod.fst).Pairwise fun key key' =>
      ClosedApart (closing value) (debug key) (debug key') := by
    rw [same, List.pairwise_map]
    refine (List.Pairwise.and_mem.mp nodup).imp fun {scalar scalar'} both => ?_
    rw [renders, renders]
    exact text_apart plain ((types _ both.1).trans (types _ both.2.1).symm) both.2.2
      (closing_mem value)
  rwa [List.pairwise_map] at apart

/-- **One call to `hash_reflected` records no name twice**, whatever its prefix. On any session it
makes the calls of the first of its fields, and appends their frames if no write fails. -/
theorem field_paths_distinct (hashBytes : Bytes → UInt64) (plain : Char → Bool)
    (debug : ReflectRef ω → String) (renders : RendersScalars plain debug) (tick entityId : UInt64)
    (typeName : String) (trackedFields : List String) (fieldNamePrefix typePath : String)
    (fields : List (String × ReflectRef ω))
    (names : Everywhere debug NamesOk (tracked trackedFields (.struct typePath fields)))
    (keys : Everywhere debug ScalarKeys (tracked trackedFields (.struct typePath fields))) :
    let recorded := recordedFields debug trackedFields fieldNamePrefix (.struct typePath fields)
    let after := fun session => leaves (hashReflected hashBytes debug tick entityId typeName
      trackedFields fieldNamePrefix (.struct typePath fields) session)
    (recorded.map Prod.fst).Nodup ∧
      (∀ session, ∃ made, made <+: recorded ∧ (made.map Prod.fst).Nodup ∧
        after session = (run hashBytes session
          (walkerCalls tick entityId typeName trackedFields made)).2) ∧
      ∀ session : Session, session.Reliable →
        Appends session
          (schemaFrames session.writtenSchemas typeName trackedFields ++
            fieldFrames hashBytes tick entityId session.localPeerId recorded) (after session) := by
  intro recorded after
  have well : Everywhere debug (WellNamed debug) (tracked trackedFields (.struct typePath fields)) :=
    fun count target below =>
      wellNamed_of_scalarKeys renders (names count target below) (keys count target below)
  have front : recorded <+: unlimited debug fieldNamePrefix
      (tracked trackedFields (.struct typePath fields)) := walkPlan_isPrefix debug _ _ _
  have distinct : (recorded.map Prod.fst).Nodup :=
    (names_nodup well fieldNamePrefix).sublist (front.map Prod.fst).sublist
  refine ⟨distinct, fun session => ?_, fun session reliable => ?_⟩
  · obtain ⟨made, first, left⟩ := hashReflected_leaves hashBytes debug tick entityId typeName
      trackedFields fieldNamePrefix typePath fields session
    exact ⟨made, first, distinct.sublist (first.map Prod.fst).sublist, left⟩
  · exact hashReflected_appends hashBytes debug tick entityId reliable typeName trackedFields
      fieldNamePrefix typePath fields

/-- What `{:?}` prints for scalars. -/
def scalarDebug (plain : Char → Bool) : ReflectRef Unit → String
  | .leaf (.int ty value) => (Scalar.int ty value).text plain
  | .leaf (.size signed value) => (Scalar.size signed value).text plain
  | .leaf (.bool value) => (Scalar.bool value).text plain
  | .leaf (.string value) => (Scalar.string value).text plain
  | _ => ""

/-- A map whose keys hold what paths are punctuated with. -/
def scores : List (String × ReflectRef Unit) :=
  [("scores", .map [(.leaf (.string "a"), .leaf (.bool true)),
    (.leaf (.string "a\"][\"b"), .leaf (.bool false))])]

theorem everywhere_scores {debug : ReflectRef Unit → String} {P : ReflectRef Unit → Prop}
    (root : P (.struct "Board" scores))
    (map : P (.map [(.leaf (.string "a"), .leaf (.bool true)),
      (.leaf (.string "a\"][\"b"), .leaf (.bool false))]))
    (leaf : ∀ value, P (.leaf (.bool value))) :
    Everywhere debug P (tracked ["scores"] (.struct "Board" scores)) := by
  refine everywhere_iff.mpr ⟨root, List.forall_mem_singleton.mpr (everywhere_iff.mpr ⟨map, ?_⟩)⟩
  intro part member
  obtain ⟨entry, inEntries, rfl⟩ := List.mem_map.mp ((parts_perm debug _).mem_iff.mp member)
  refine everywhere_iff.mpr ⟨?_, ?_⟩
  · rcases List.mem_cons.mp inEntries with rfl | last
    · exact leaf true
    · cases List.mem_singleton.mp last
      exact leaf false
  · rcases List.mem_cons.mp inEntries with rfl | last
    · exact List.forall_mem_nil _
    · cases List.mem_singleton.mp last
      exact List.forall_mem_nil _

theorem field_paths_distinct_scores :
    ((recordedFields (scalarDebug fun _ => true) ["scores"] "unit" (.struct "Board" scores)).map
      Prod.fst).Nodup := by
  refine (field_paths_distinct (fun _ => 7) (fun _ => true) (scalarDebug fun _ => true) ?_ 0 0 "Board"
    ["scores"] "unit" "Board" scores ?_ ?_).1
  · intro scalar
    cases scalar <;> rfl
  · refine everywhere_scores ⟨?_, List.nodup_singleton _⟩ trivial fun leaf => trivial
    refine List.forall_mem_singleton.mpr ⟨⟨'s', "cores".toList, rfl, rfl⟩, ?_⟩
    simp [opening]
  · refine everywhere_scores ⟨[], rfl, List.nodup_nil, .bool, List.forall_mem_nil _⟩
      ⟨[.string "a", .string "a\"][\"b"], rfl, by simp, .string, by simp [Scalar.ty]⟩ fun leaf =>
        ⟨[], rfl, List.nodup_nil, .bool, List.forall_mem_nil _⟩

end Foldback.Bevy
