/-
**When Godot field paths identify fields.**

* `Leads`: the ways down to a leaf, each spelled step after step. `mem_paths_iff`: these are the paths
  that are recorded.
* `Clash`: one label is the other, continued by what leads on below the other. Array elements never
  clash (`unclashing_array`), names and keys may: `walk` writes a key as `stringify` renders it.
* `godot_paths_distinct_iff`: **the paths are distinct exactly where nothing clashes.**
-/

import Foldback.Godot.Walk
import Foldback.Lib.PrefixCode

namespace Foldback.Godot

open GuardedWalk PrefixCode

variable {ω : Type}

/-! ### The labels on a path -/

/-- What a step adds to a path. -/
def Step.label : Step → String
  | .property name => "." ++ name
  | .item i => "[" ++ toString i ++ "]"
  | .entry key => "[" ++ key ++ "]"

theorem Step.extend_eq (path : String) (step : Step) : step.extend path = path ++ step.label := by
  cases step with
  | property name => exact String.append_assoc
  | item i =>
    show path ++ "[" ++ toString i ++ "]" = path ++ ("[" ++ toString i ++ "]")
    rw [String.append_assoc, String.append_assoc, String.append_assoc]
  | entry key =>
    show path ++ "[" ++ key ++ "]" = path ++ ("[" ++ key ++ "]")
    rw [String.append_assoc, String.append_assoc, String.append_assoc]

/-- Two spellings are the same exactly if one begins with the other. -/
theorem append_eq_append_iff {first second rest rest' : String} :
    first ++ rest = second ++ rest' ↔
      (∃ gap, second = first ++ gap ∧ rest = gap ++ rest') ∨
        ∃ gap, first = second ++ gap ∧ rest' = gap ++ rest := by
  constructor
  · intro same
    have chars : first.toList ++ rest.toList = second.toList ++ rest'.toList := by
      rw [← String.toList_append, same, String.toList_append]
    rcases List.append_eq_append_iff.mp chars with ⟨gap, longer, left⟩ | ⟨gap, longer, left⟩
    · refine .inl ⟨String.ofList gap, ?_, ?_⟩
      · rw [← String.toList_inj, String.toList_append, String.toList_ofList, longer]
      · rw [← String.toList_inj, String.toList_append, String.toList_ofList, left]
    · refine .inr ⟨String.ofList gap, ?_, ?_⟩
      · rw [← String.toList_inj, String.toList_append, String.toList_ofList, longer]
      · rw [← String.toList_inj, String.toList_append, String.toList_ofList, left]
  · rintro (⟨gap, rfl, rfl⟩ | ⟨gap, rfl, rfl⟩)
    · exact String.append_assoc.symm
    · exact String.append_assoc

section Graph

variable (stringify : Variant ω → String) (heap : Heap ω)

/-- The bytes that the walk records for a value itself. -/
def leafRecord : Variant ω → Option Bytes
  | .nil => some [0xFF]
  | .object id => if (heap.object id).isSome then none else some [0xFF]
  | .array _ | .dictionary _ => none
  | leaf => some (leafBytes stringify leaf)

theorem own_eq (path : String) (value : Variant ω) :
    own stringify heap path value =
      ((leafRecord stringify heap value).map fun bytes => (path, bytes)).toList := by
  cases value with
  | object id =>
    rw [own, leafRecord]
    split
    all_goals rfl
  | _ => rfl

/-- A leaf holds nothing. -/
theorem held_of_leaf {value : Variant ω} {bytes : Bytes}
    (leaf : leafRecord stringify heap value = some bytes) : held stringify heap value = [] := by
  cases value with
  | object id =>
    rw [leafRecord] at leaf
    rw [held]
    split at leaf
    · cases leaf
    · rename_i freed
      rw [Option.not_isSome_iff_eq_none.mp freed]
  | array id => cases leaf
  | dictionary id => cases leaf
  | _ => rfl

/-- A way down to a leaf, spelled step after step. -/
inductive Leads : Variant ω → String → Prop
  | leaf {value : Variant ω} {bytes : Bytes}
      (leaf : leafRecord stringify heap value = some bytes) : Leads value ""
  | down {value : Variant ω} {part : Step × Variant ω} {text : String}
      (member : part ∈ held stringify heap value) (rest : Leads part.2 text) :
      Leads value (part.1.label ++ text)

/-- The label of the one part is that of the other, continued by what leads on below the other to
where the one leads. -/
def Clash (part other : Step × Variant ω) : Prop :=
  ∃ gap text, other.1.label = part.1.label ++ gap ∧ Leads stringify heap part.2 (gap ++ text) ∧
    Leads stringify heap other.2 text

/-- No two parts of a value clash. -/
def Unclashing (value : Variant ω) : Prop :=
  (held stringify heap value).Pairwise fun part other =>
    ¬ Clash stringify heap part other ∧ ¬ Clash stringify heap other part

variable {stringify heap}

/-- **The paths that are recorded are the ways down.** -/
theorem mem_paths_iff {left : ℕ} {value : Variant ω}
    (fits : Fits (graph stringify heap) left value) {path name : String} :
    name ∈ (preorder (graph stringify heap) left path value).map Prod.fst ↔
      ∃ text, Leads stringify heap value text ∧ name = path ++ text := by
  induction left generalizing path value with
  | zero => exact fits.elim
  | succ left ih =>
    have below : ∀ part ∈ held stringify heap value,
        (name ∈ (preorder (graph stringify heap) left (part.1.extend path) part.2).map Prod.fst ↔
          ∃ text, Leads stringify heap part.2 text ∧ name = path ++ (part.1.label ++ text)) := by
      intro part member
      rw [ih (fits part member), Step.extend_eq]
      simp only [String.append_assoc]
    have own : name ∈ (own stringify heap path value).map Prod.fst ↔
        (∃ bytes, leafRecord stringify heap value = some bytes) ∧ name = path := by
      rw [own_eq]
      rcases leafRecord stringify heap value with _ | bytes
      · simp
      · simp
    rw [preorder, List.map_append, List.mem_append, List.map_flatMap, List.mem_flatMap]
    constructor
    · rintro (here | ⟨part, member, there⟩)
      · obtain ⟨⟨bytes, leaf⟩, rfl⟩ := own.mp here
        exact ⟨"", .leaf leaf, String.append_empty.symm⟩
      · obtain ⟨text, rest, rfl⟩ := (below part member).mp there
        exact ⟨part.1.label ++ text, .down member rest, rfl⟩
    · rintro ⟨text, leads, rfl⟩
      cases leads with
      | leaf leaf => exact .inl (own.mpr ⟨⟨_, leaf⟩, String.append_empty⟩)
      | @down _ part text member rest =>
        exact .inr ⟨part, member, (below part member).mpr ⟨text, rest, rfl⟩⟩

/-- Two parts record no common path exactly if they do not clash. -/
theorem disjoint_paths_iff {left : ℕ} {path : String} {part other : Step × Variant ω}
    (fits : Fits (graph stringify heap) left part.2)
    (fits' : Fits (graph stringify heap) left other.2) :
    List.Disjoint ((preorder (graph stringify heap) left (part.1.extend path) part.2).map Prod.fst)
        ((preorder (graph stringify heap) left (other.1.extend path) other.2).map Prod.fst) ↔
      ¬ Clash stringify heap part other ∧ ¬ Clash stringify heap other part := by
  have common : ∀ text text', (part.1.extend path ++ text = other.1.extend path ++ text' ↔
      part.1.label ++ text = other.1.label ++ text') := by
    intro text text'
    rw [Step.extend_eq, Step.extend_eq, String.append_assoc, String.append_assoc,
      String.append_right_inj]
  rw [← not_or, List.disjoint_left]
  constructor
  · intro disjoint clash
    have shared : ∃ text text', Leads stringify heap part.2 text ∧
        Leads stringify heap other.2 text' ∧ part.1.label ++ text = other.1.label ++ text' := by
      rcases clash with ⟨gap, text, longer, leads, leads'⟩ | ⟨gap, text, longer, leads, leads'⟩
      · exact ⟨_, _, leads, leads', by rw [longer, String.append_assoc]⟩
      · exact ⟨_, _, leads', leads, by rw [longer, String.append_assoc]⟩
    obtain ⟨text, text', leads, leads', same⟩ := shared
    exact disjoint ((mem_paths_iff fits).mpr ⟨text, leads, rfl⟩)
      ((mem_paths_iff fits').mpr ⟨text', leads', (common text text').mpr same⟩)
  · intro apart name here there
    obtain ⟨text, leads, rfl⟩ := (mem_paths_iff fits).mp here
    obtain ⟨text', leads', same⟩ := (mem_paths_iff fits').mp there
    refine apart ?_
    rcases append_eq_append_iff.mp ((common text text').mp same) with
      ⟨gap, longer, rfl⟩ | ⟨gap, longer, rfl⟩
    · exact .inl ⟨gap, text', longer, leads, leads'⟩
    · exact .inr ⟨gap, text, longer, leads', leads⟩

/-- **The paths below a value are distinct exactly where nothing clashes.** -/
theorem nodup_paths_iff {left : ℕ} {path : String} {value : Variant ω}
    (fits : Fits (graph stringify heap) left value) :
    ((preorder (graph stringify heap) left path value).map Prod.fst).Nodup ↔
      ∀ count target, Below (graph stringify heap) count value target →
        Unclashing stringify heap target := by
  induction left generalizing path value with
  | zero => exact fits.elim
  | succ left ih =>
    have located : (own stringify heap path value).map Prod.fst = [] ∨ held stringify heap value = [] := by
      rw [own_eq]
      rcases leaf : leafRecord stringify heap value with _ | bytes
      · exact .inl rfl
      · exact .inr (held_of_leaf stringify heap leaf)
    have ownNodup : ((own stringify heap path value).map Prod.fst).Nodup := by
      rw [own_eq]
      rcases leafRecord stringify heap value with _ | bytes
      · exact List.nodup_nil
      · exact List.nodup_singleton path
    have clashes : (held stringify heap value).Pairwise (fun part other =>
        List.Disjoint
          ((preorder (graph stringify heap) left (part.1.extend path) part.2).map Prod.fst)
          ((preorder (graph stringify heap) left (other.1.extend path) other.2).map Prod.fst)) ↔
        Unclashing stringify heap value := by
      refine List.Pairwise.iff_of_mem fun member member' => ?_
      exact disjoint_paths_iff (fits _ member) (fits _ member')
    have apart : List.Disjoint ((own stringify heap path value).map Prod.fst)
        ((held stringify heap value).flatMap fun part =>
          (preorder (graph stringify heap) left (part.1.extend path) part.2).map Prod.fst) := by
      rcases located with none | none
      · rw [none]
        exact List.disjoint_nil_left _
      · rw [none]
        exact List.disjoint_nil_right _
    rw [preorder, List.map_append, List.map_flatMap, List.nodup_append', forall_below_iff]
    show _ ∧ (((held stringify heap value).flatMap _).Nodup) ∧ _ ↔ _
    rw [List.nodup_flatMap]
    constructor
    · rintro ⟨-, ⟨parts, disjoint⟩, -⟩
      exact ⟨clashes.mp disjoint, fun part member => (ih (fits part member)).mp (parts part member)⟩
    · rintro ⟨here, below⟩
      refine ⟨ownNodup, ⟨fun part member => ?_, clashes.mpr here⟩, apart⟩
      exact (ih (fits part member)).mpr (below part member)

/-- **The elements of an array never clash.** -/
theorem unclashing_array (id : ContainerId) : Unclashing stringify heap (.array id) := by
  have item : ∀ {i j : ℕ} {value value' : Variant ω}, i ≠ j →
      ¬ Clash stringify heap (.item i, value) (.item j, value') := by
    rintro i j value value' differ ⟨gap, text, longer, -, -⟩
    have chars := congrArg String.toList longer
    simp only [Step.label, String.toList_append, List.append_assoc] at chars
    exact differ (numeral_eq_of_closed rfl (List.append_cancel_left chars)).symm
  refine List.pairwise_map.mpr ?_
  have increasing : ((heap.array id).zipIdx).Pairwise fun item item' => item.2 ≠ item'.2 := by
    rw [← List.pairwise_map, List.zipIdx_map_snd]
    exact List.nodup_range'
  exact increasing.imp fun differ => ⟨item differ, item differ.symm⟩

end Graph

/-! ### A successful call -/

/-- **The paths that `hash_reflected` records are distinct exactly where nothing clashes**: no two
properties of an object and no two entries of a dictionary that is reached. These are the names of the
field frames. -/
theorem godot_paths_distinct_iff (hashBytes : Bytes → UInt64) (ioText : IoError → String)
    (stringify : Variant ω → String) (heap : Heap ω) (tick entityId : UInt64)
    (fieldNamePrefix : String) (target : Gd heap) (session after : Session)
    (preview : List (String × UInt64))
    (ok : hashReflected hashBytes ioText stringify heap tick entityId fieldNamePrefix target session =
      .ok preview after) :
    ((preview.map Prod.fst).Nodup ↔ ∀ length value,
      Below (graph stringify heap) length (.object target.id) value → (∀ id, value ≠ .array id) →
        Unclashing stringify heap value) ∧
    ∃ recorded, preview = previewOf hashBytes recorded ∧
      (session.Reliable → Appends session
        (schemaFrames session.writtenSchemas (schemaTypeName target.object)
            (listTracked target.object).1 ++
          fieldFrames hashBytes tick entityId session.localPeerId recorded) after) := by
  obtain ⟨fits, rfl⟩ := hashReflected_ok ok
  have names : ∀ recorded : List (String × Bytes),
      (previewOf hashBytes recorded).map Prod.fst = recorded.map Prod.fst := by
    intro recorded
    rw [previewOf, List.map_map]
    rfl
  refine ⟨?_, _, rfl, fun reliable => ?_⟩
  · rw [names, nodup_paths_iff fits]
    constructor
    · exact fun all length value below _ => all length value below
    · intro keyed length value below
      by_cases array : ∃ id, value = .array id
      · obtain ⟨id, rfl⟩ := array
        exact unclashing_array id
      · exact keyed length value below (not_exists.mp array)
  · have none : (walkPlan stringify heap (defaultMaxDepth + 1) [] fieldNamePrefix
        (.object target.id)).2 = none :=
      (plan_stop_iff mem_of_isRevisit fun _ member => absurd member List.not_mem_nil).mpr fits
    have called := (hashReflected_reliable hashBytes ioText stringify heap tick entityId reliable
      fieldNamePrefix target).1 none
    rw [called] at ok
    obtain rfl := (EStateM.Result.ok.inj ok).2
    rw [← plan_records none]
    exact run_walkerCalls hashBytes tick entityId reliable _ _ _

/-- How integers, bools and strings are rendered. -/
def plainText : Variant Unit → String
  | .int value => toString value.toInt
  | .bool value => if value then "true" else "false"
  | .string value => value
  | _ => ""

/-- A dictionary with the keys `1` and `"1"`. -/
def doors : Heap Unit where
  object id :=
    if id = 1 then some {
      propertyList := [some (.string "foldback_open")]
      get := fun _ => .dictionary 7
      globalName := some "Doors"
      className := "RefCounted" }
    else none
  array _ := []
  dictionary _ := [(.int 1, .bool true), (.string "1", .bool false)]

theorem godot_paths_distinct_iff_shared : Unclashing plainText shared (.object 1) := by
  have reliable : (({} : SessionBuilder).session none).Reliable := by decide
  have called := (hashReflected_reliable (fun _ => 7) (fun _ => "") plainText shared 0 0 reliable
    "root" ⟨1, _, rfl⟩).1 (by decide)
  exact (godot_paths_distinct_iff (fun _ => 7) (fun _ => "") plainText shared 0 0 "root" ⟨1, _, rfl⟩
    (({} : SessionBuilder).session none) _ _ called).1.mp (by decide) 0 _ (.here _) fun _ same => by
      cases same

/-- Two fields of one call, one name. -/
theorem godot_paths_repeat_doors :
    ∃ preview after, hashReflected (fun bytes => if bytes = [1] then 1 else 0) (fun _ => "") plainText
        doors 0 0 "root" ⟨1, _, rfl⟩ (({} : SessionBuilder).session none) = .ok preview after ∧
      preview = [("root.foldback_open[1]", 1), ("root.foldback_open[1]", 0)] ∧
      ¬ (preview.map Prod.fst).Nodup := by
  have reliable : (({} : SessionBuilder).session none).Reliable := by decide
  have called := (hashReflected_reliable (fun bytes => if bytes = [1] then 1 else 0) (fun _ => "")
    plainText doors 0 0 reliable "root" ⟨1, _, rfl⟩).1 (by decide)
  exact ⟨_, _, called, by decide, by decide⟩

end Foldback.Godot
