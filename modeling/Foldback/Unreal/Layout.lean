/-
**Where a nested struct is taken for a cycle.**

The walk remembers the pointers of the structs that it is in. A struct that is the first member of
another one is at the pointer of the other.

* `SeparatelyAllocated`: the items of a container are in a block of their own. No block owns itself.
* `unreal_no_false_cycle_iff`: then **a value within the depth is serialized exactly if no struct in it
  starts with a struct**; the visited pointers are empty however the walk ends.
-/

import Foldback.Unreal.Walk

namespace Foldback.Unreal

open GuardedWalk WeakOrder Relation

/-! ### Layout -/

def Property.isStruct : Property → Bool
  | .struct _ _ => true
  | _ => false

/-- The items are elsewhere. -/
def Property.isContainer : Property → Bool
  | .array _ _ | .map _ _ _ | .set _ _ => true
  | _ => false

section Layout

variable (structs : Structs) (memory : Memory)

/-- A container in the one block has an item in the other. -/
def Owns (root : Place) (block block' : ℕ) : Prop :=
  ∃ count container, Below (graph structs memory) count root container ∧
    container.1.isContainer = true ∧ ∃ item ∈ inside structs memory container,
      container.2.block = block ∧ item.2.block = block'

/-- **The items of a container are in memory of their own**: no block owns itself. -/
def SeparatelyAllocated (root : Place) : Prop :=
  ∀ block, ¬ TransGen (Owns structs memory root) block block

/-- A struct that has a struct at its own pointer. -/
def StartsWithStruct : Place → Prop
  | (.struct _ id, _) => ∃ member ∈ structs id, member.isStruct = true ∧ member.field.offset = 0
  | _ => False

instance decidableStarts : (place : Place) → Decidable (StartsWithStruct structs place)
  | (.struct _ id, _) => inferInstanceAs (Decidable (∃ member ∈ structs id, _))
  | (.leaf _ _, _) | (.array _ _, _) | (.map _ _ _, _) | (.set _ _, _) =>
    inferInstanceAs (Decidable False)

/-! ### What is visited -/

variable (owns : ℕ → ℕ → Prop)

/-- Ownership below a place. -/
def Respects (place : Place) : Prop :=
  ∀ count container, Below (graph structs memory) count place container →
    container.1.isContainer = true → ∀ item ∈ inside structs memory container,
      owns container.2.block item.2.block

/-- A visited pointer is in an owner of the block, or before the place. -/
def Safe (visited : Finset Pointer) (place : Place) : Prop :=
  ∀ ptr ∈ visited, TransGen owns ptr.block place.2.block ∨ ptr.block = place.2.block ∧
    ptr.offset ≤ place.2.offset ∧ (place.1.isStruct = true → ptr.offset < place.2.offset)

variable {structs memory owns} {visited : Finset Pointer} {place child : Place}

theorem mem_children : ((), child) ∈ (graph structs memory).children place ↔
    child ∈ inside structs memory place := by
  show ((), child) ∈ List.map _ _ ↔ _
  simp

theorem Respects.below (respects : Respects structs memory owns place)
    (member : child ∈ inside structs memory place) : Respects structs memory owns child :=
  (forall_below_iff.mp respects).2 ((), child) (mem_children.mpr member)

theorem not_refused (acyclic : ∀ block, ¬ TransGen owns block block) (safe : Safe owns visited place) :
    ¬ Refused visited place := by
  obtain ⟨property, ptr⟩ := place
  cases property with
  | struct field id =>
    intro member
    rcases safe ptr member with owned | ⟨-, -, before⟩
    · exact acyclic _ owned
    · exact Nat.lt_irrefl _ (before rfl)
  | _ => exact id

/-- What is inside is safe, if no struct is at the pointer of the one around it. -/
theorem Safe.below (safe : Safe owns visited place) (respects : Respects structs memory owns place)
    (apart : ¬ StartsWithStruct structs place) (member : child ∈ inside structs memory place) :
    Safe owns (enter visited place) child := by
  have elsewhere : place.1.isContainer = true → enter visited place = visited →
      Safe owns (enter visited place) child := by
    intro container same ptr old
    rw [same] at old
    have owned := respects 0 place (.here place) container child member
    rcases safe ptr old with further | ⟨block, -⟩
    · exact .inl (further.tail owned)
    · exact .inl (.single (block ▸ owned))
  obtain ⟨property, ptr⟩ := place
  cases property with
  | leaf field kind => cases member
  | struct field id =>
    obtain ⟨inner, declared, rfl⟩ := List.mem_map.mp member
    have positive : inner.isStruct = true → 0 < inner.field.offset := fun is =>
      Nat.pos_of_ne_zero fun zero => apart ⟨inner, declared, is, zero⟩
    intro old inEntered
    rcases Finset.mem_insert.mp inEntered with rfl | inVisited
    · exact .inr ⟨rfl, Nat.le_add_right _ _, fun is => Nat.lt_add_of_pos_right (positive is)⟩
    · rcases safe old inVisited with further | ⟨block, -, before⟩
      · exact .inl further
      · have less := before rfl
        exact .inr ⟨block, (Nat.le_of_lt less).trans (Nat.le_add_right _ _), fun _ =>
          less.trans_le (Nat.le_add_right _ _)⟩
  | _ => exact elsewhere rfl rfl

/-- A struct at the pointer of the one around it is refused. -/
theorem not_passes_of_startsWithStruct {left : ℕ} (starts : StartsWithStruct structs place) :
    ¬ ∀ child ∈ inside structs memory place,
      Passes structs memory left (enter visited place) child := by
  obtain ⟨property, ptr⟩ := place
  cases property with
  | struct field id =>
    obtain ⟨member, declared, is, zero⟩ := starts
    intro passes
    have passed := passes (member, member.valuePtr ptr) (List.mem_map_of_mem declared)
    cases left with
    | zero => exact passed
    | succ left =>
      cases member with
      | struct field' id' =>
        have same : (Property.struct field' id').valuePtr ptr = ptr := by
          show Pointer.mk _ _ = _
          rw [zero, Nat.add_zero]
        refine passed.1 ?_
        rw [same]
        exact Finset.mem_insert_self ptr visited
      | _ => cases is
  | _ => exact starts.elim

/-- **A walk passes exactly if the value is within the depth and no struct starts with a struct.** -/
theorem passes_iff (acyclic : ∀ block, ¬ TransGen owns block block) {left : ℕ}
    (safe : Safe owns visited place) (respects : Respects structs memory owns place) :
    Passes structs memory left visited place ↔ Fits (graph structs memory) left place ∧
      ∀ count reached, Below (graph structs memory) count place reached →
        ¬ StartsWithStruct structs reached := by
  induction left generalizing visited place with
  | zero => exact ⟨False.elim, fun both => both.1.elim⟩
  | succ left ih =>
    rw [Passes, forall_below_iff, Fits]
    simp only [and_iff_right (not_refused acyclic safe)]
    by_cases starts : StartsWithStruct structs place
    · constructor
      · exact fun passes => absurd passes (not_passes_of_startsWithStruct starts)
      · exact fun both => absurd starts both.2.1
    · have each : ∀ child ∈ inside structs memory place,
          Passes structs memory left (enter visited place) child ↔ _ :=
        fun child member => ih (safe.below respects starts member) (respects.below member)
      rw [forall₂_congr each, forall₂_and, and_iff_right starts]
      show _ ↔ (∀ child ∈ List.map _ _, _) ∧ ∀ child ∈ List.map _ _, _
      simp only [List.forall_mem_map]

end Layout

/-! ### A whole value -/

/-- **A value is serialized exactly if it is within the depth**, with no pointers visited before or
after: exactly if no struct in it starts with a struct, where it is within the depth. -/
theorem unreal_no_false_cycle_iff (structs : Structs) (memory : Memory) (sort : Sorter) (maxDepth : ℤ)
    (property : Property) (ptr : Pointer) (outBytes : Bytes)
    (separate : SeparatelyAllocated structs memory (property, ptr)) :
    ((Fits (graph structs memory) (maxDepth + 1).toNat (property, ptr) →
        ∃ bytes, serializeValue structs memory sort maxDepth property ptr 0 ⟨outBytes, ∅⟩ =
          .ok () ⟨outBytes ++ bytes, ∅⟩) ∧
      (¬ Fits (graph structs memory) (maxDepth + 1).toNat (property, ptr) →
        ∃ text outBytes', serializeValue structs memory sort maxDepth property ptr 0 ⟨outBytes, ∅⟩ =
          .error text ⟨outBytes', ∅⟩)) ↔
    (Fits (graph structs memory) (maxDepth + 1).toNat (property, ptr) →
      ∀ count reached, Below (graph structs memory) count (property, ptr) reached →
        ¬ StartsWithStruct structs reached) := by
  have levels : (maxDepth + 1).toNat = (maxDepth + 1 - (0 : ℕ)).toNat := by omega
  have does : Does ∅ (serializeValue structs memory sort maxDepth property ptr 0) _ () _ :=
    serializeValue_does levels ∅ property ptr
  obtain ⟨ok, error⟩ := does outBytes
  have safe : Safe (Owns structs memory (property, ptr)) ∅ (property, ptr) :=
    fun ptr member => absurd member (Finset.notMem_empty ptr)
  have respects : Respects structs memory (Owns structs memory (property, ptr)) (property, ptr) :=
    fun count container below is item member => ⟨count, container, below, is, item, member, rfl, rfl⟩
  have passes : Passes structs memory (maxDepth + 1).toNat ∅ (property, ptr) ↔ _ :=
    passes_iff separate safe respects
  constructor
  · rintro ⟨succeeds, -⟩ fits
    obtain ⟨bytes, serialized⟩ := succeeds fits
    by_contra starts
    obtain ⟨text, outBytes', failed⟩ := error fun passed => starts (passes.mp passed).2
    rw [failed] at serialized
    cases serialized
  · intro apart
    refine ⟨fun fits => ⟨_, ok (passes.mpr ⟨fits, apart fits⟩)⟩, fun deep => ?_⟩
    exact error fun passed => deep (passes.mp passed).1

/-- A struct 1 with a number, and a struct 2 with the struct 1 in front of or behind a number. -/
def nested (front : Bool) : Structs
  | 1 => [.leaf ⟨"Health", 0⟩ (.numeric 4)]
  | 2 =>
    if front then [.struct ⟨"Stats", 0⟩ 1, .leaf ⟨"Level", 4⟩ (.numeric 4)]
    else [.leaf ⟨"Level", 0⟩ (.numeric 4), .struct ⟨"Stats", 4⟩ 1]
  | _ => []

/-- Memory of zeros, without objects. -/
def zeros : Memory where
  byte _ := 0
  object _ := .null
  array _ := noItems
  map _ := noItems
  set _ := noItems

def unit : Place := (.struct ⟨"Unit", 0⟩ 2, ⟨0, 0⟩)

/-- Without containers, no block has an owner. -/
theorem nested_separate (front : Bool) : SeparatelyAllocated (nested front) zeros unit := by
  have none : ∀ count reached, Below (graph (nested front) zeros) count unit reached →
      reached.1.isContainer = false := by
    cases front
    all_goals exact forall_below_of_nodes 3 (by decide) (by decide)
  have free : ∀ block block', ¬ Owns (nested front) zeros unit block block' := by
    rintro block block' ⟨count, container, below, is, -⟩
    rw [none count container below] at is
    cases is
  intro block owned
  cases owned with
  | single owns => exact free _ _ owns
  | tail _ owns => exact free _ _ owns

theorem unreal_no_false_cycle_iff_behind :
    ∃ bytes, serializeValue (nested false) zeros insertionSorter 8 unit.1 unit.2 0 ⟨[], ∅⟩ =
      .ok () ⟨[] ++ bytes, ∅⟩ := by
  refine ((unreal_no_false_cycle_iff (nested false) zeros insertionSorter 8 unit.1 unit.2 []
    (nested_separate false)).mpr fun fits => ?_).1 (by decide)
  exact forall_below_of_nodes 9 fits (by decide)

/-- A struct in front, within the depth. -/
theorem unreal_front_struct_refused :
    SeparatelyAllocated (nested true) zeros unit ∧ Fits (graph (nested true) zeros) (8 + 1) unit ∧
      serializeValue (nested true) zeros insertionSorter 8 unit.1 unit.2 0 ⟨[], ∅⟩ =
        .error (cycleDetected "Stats") ⟨[], ∅⟩ := by
  refine ⟨nested_separate true, by decide, ?_⟩
  -- The inner struct is at the pointer of the outer one, which is visited.
  have inner : ∀ next : Unit → Walking Unit, EStateM.bind
      (serializeValue (nested true) zeros insertionSorter 8 (.struct ⟨"Stats", 0⟩ 1) ⟨0, 0⟩ 1) next
      ⟨[], insert ⟨0, 0⟩ ∅⟩ = .error (cycleDetected "Stats") ⟨[], insert ⟨0, 0⟩ ∅⟩ := by
    intro next
    rw [EStateM.bind, serializeValue.eq_def, dif_neg (by decide)]
    rfl
  have outer : ∀ walk : Walking Unit, walk ⟨[], insert ⟨0, 0⟩ ∅⟩ =
      .error (cycleDetected "Stats") ⟨[], insert ⟨0, 0⟩ ∅⟩ →
        visiting ⟨0, 0⟩ walk ⟨[], ∅⟩ = .error (cycleDetected "Stats") ⟨[], ∅⟩ := by
    intro walk failed
    rw [visiting, failed]
    rfl
  rw [serializeValue.eq_def, dif_neg (by decide)]
  exact outer _ (inner _)

end Foldback.Unreal
