/-
**Where the iteration order of maps and sets shows.**

The entries of a map and the elements of a set are sorted by their bytes. The comparison takes one for
the smaller if it is smaller where they first differ, or if it is shorter.

* `SameContent`: memory that iterates in other orders. `WellCompared`: the comparison is a strict weak
  order on what a container compares, and tells it apart.
* `Graded`: of two keys that differ somewhere, the smaller is not longer; equal keys have equal values.
* `unreal_order_independent_iff`: **the bytes do not depend on iteration orders, by a comparison that is
  in order, exactly if all containers are graded.**
-/

import Foldback.Lib.KeyOrder
import Foldback.Unreal.Walk

namespace Foldback.Unreal

open GuardedWalk KeyOrder Radix Std WeakOrder

/-! ### The comparison -/

theorem memcmp_swap (a b : Bytes) : memcmp b a = (memcmp a b).swap := by
  induction a generalizing b with
  | nil =>
    cases b with
    | nil => rfl
    | cons => rfl
  | cons x a ih =>
    cases b with
    | nil => rfl
    | cons y b =>
      have swapped : compare y x = (compare x y).swap := OrientedCmp.eq_swap
      rw [memcmp, memcmp, ih b, swapped, Ordering.swap_then]

/-- The lexicographic order is that of the first difference, then that of the lengths. -/
theorem compare_eq_memcmp (a b : Bytes) :
    compare a b = (memcmp a b).then (compare a.length b.length) := by
  induction a generalizing b with
  | nil =>
    cases b with
    | nil => rfl
    | cons y b =>
      rw [List.compare_nil_cons]
      exact (compare_lt_iff_lt.mpr (Nat.succ_pos b.length)).symm
  | cons x a ih =>
    cases b with
    | nil =>
      rw [List.compare_cons_nil]
      exact (compare_gt_iff_gt.mpr (Nat.succ_pos a.length)).symm
    | cons y b =>
      have lengths : compare (x :: a).length (y :: b).length = compare a.length b.length := by
        simp [Nat.compare_eq_ite_lt]
      rw [List.compare_cons_cons, ih b, memcmp, lengths, Ordering.then_assoc]

/-- Where keys differ, the smaller is not longer. -/
def GradedKeys (keys : List Bytes) : Prop :=
  ∀ a ∈ keys, ∀ b ∈ keys, memcmp a b = .lt → a.length ≤ b.length

instance (keys : List Bytes) : Decidable (GradedKeys keys) :=
  inferInstanceAs (Decidable (∀ a ∈ keys, ∀ b ∈ keys, _))

theorem less_iff {keys : List Bytes} (graded : GradedKeys keys) {a b : Bytes} (inA : a ∈ keys)
    (inB : b ∈ keys) : less a b = true ↔ compare a b = .lt := by
  have first := graded a inA b inB
  have second := graded b inB a inA
  rw [memcmp_swap a b] at second
  rw [less, decide_eq_true_eq, compare_eq_memcmp]
  cases order : memcmp a b with
  | lt => simp
  | eq => simp [compare_lt_iff_lt]
  | gt =>
    have notLonger := second (by rw [order]; rfl)
    simp
    omega

/-- A comparison that is never true in both directions compares graded keys. -/
theorem graded_of_asymm {keys : List Bytes}
    (asymm : ∀ a ∈ keys, ∀ b ∈ keys, less a b = true → less b a = false) : GradedKeys keys := by
  intro a inA b inB smaller
  by_contra longer
  have one : less a b = true := decide_eq_true (.inl smaller)
  have other : less b a = true := decide_eq_true (.inr (Nat.lt_of_not_le longer))
  rw [asymm a inA b inB one] at other
  cases other

section Order

variable (structs : Structs) (memory : Memory) (sort : Sorter) (limit : ℕ)

/-- The entries of a map, as it iterates. -/
def entriesOf (key value : Property) (ptr : Pointer) : List (Bytes × Bytes) :=
  (memory.map ptr).1.map fun entry =>
    (canonical structs memory sort limit (key, entry.1),
      canonical structs memory sort limit (value, entry.2))

/-- The elements of a set, as it iterates. -/
def elementsOf (element : Property) (ptr : Pointer) : List Bytes :=
  (memory.set ptr).1.map fun item => canonical structs memory sort limit (element, item)

/-- The comparison of entries. -/
def lessKey (a b : Bytes × Bytes) : Bool := less a.1 b.1

/-- **The comparison is a strict weak order on what a container compares**, and what it does not tell
apart is equal. -/
def WellCompared : Place → Prop
  | (.map _ key value, ptr) =>
    StrictWeakOn lessKey (entriesOf structs memory sort limit key value ptr) ∧
      TellsApart lessKey (entriesOf structs memory sort limit key value ptr)
  | (.set _ element, ptr) =>
    StrictWeakOn less (elementsOf structs memory sort limit element ptr) ∧
      TellsApart less (elementsOf structs memory sort limit element ptr)
  | _ => True

/-- **Of two keys that differ somewhere, the smaller is not longer**; equal keys have equal values. -/
def Graded : Place → Prop
  | (.map _ key value, ptr) =>
    GradedKeys ((entriesOf structs memory sort limit key value ptr).map Prod.fst) ∧
      ∀ a ∈ entriesOf structs memory sort limit key value ptr,
        ∀ b ∈ entriesOf structs memory sort limit key value ptr, a.1 = b.1 → a.2 = b.2
  | (.set _ element, ptr) => GradedKeys (elementsOf structs memory sort limit element ptr)
  | _ => True

instance decidableGraded : (place : Place) → Decidable (Graded structs memory sort limit place)
  | (.map _ _ _, _) => inferInstanceAs (Decidable (GradedKeys _ ∧ ∀ a ∈ _, ∀ b ∈ _, _))
  | (.set _ _, _) => inferInstanceAs (Decidable (GradedKeys _))
  | (.leaf _ _, _) | (.struct _ _, _) | (.array _ _, _) => inferInstanceAs (Decidable True)

variable {structs memory sort limit}

theorem wellCompared_iff {place : Place} :
    WellCompared structs memory sort limit place ↔ Graded structs memory sort limit place := by
  obtain ⟨property, ptr⟩ := place
  cases property with
  | map field key value =>
    constructor
    · rintro ⟨order, apart⟩
      refine ⟨graded_of_asymm ?_, fun a inA b inB same => ?_⟩
      · simp only [List.forall_mem_map]
        exact order.asymm
      · have irrefl := order.irrefl a inA
        have one : lessKey a b = false := by
          rw [← irrefl, lessKey, lessKey, same]
        have other : lessKey b a = false := by
          rw [← irrefl, lessKey, lessKey, same]
        rw [apart a inA b inB one other]
    · rintro ⟨graded, values⟩
      have agrees : ∀ a ∈ entriesOf structs memory sort limit key value ptr,
          ∀ b ∈ entriesOf structs memory sort limit key value ptr,
            lessKey a b = true ↔ compare a.1 b.1 = .lt :=
        fun a inA b inB => less_iff graded (List.mem_map_of_mem inA) (List.mem_map_of_mem inB)
      exact ⟨strictWeakOn_of_agrees agrees, tellsApart_of_agrees agrees fun a inA b inB same =>
        Prod.ext same (values a inA b inB same)⟩
  | set field element =>
    constructor
    · exact fun both => graded_of_asymm both.1.asymm
    · intro graded
      have agrees : ∀ a ∈ elementsOf structs memory sort limit element ptr,
          ∀ b ∈ elementsOf structs memory sort limit element ptr,
            less a b = true ↔ compare (id a) (id b) = .lt :=
        fun a inA b inB => less_iff graded inA inB
      exact ⟨strictWeakOn_of_agrees agrees, tellsApart_of_agrees agrees fun a _ b _ same => same⟩
  | _ => exact Iff.rfl

/-! ### Iteration orders -/

/-- The same memory, iterating in other orders. -/
structure SameContent (memory memory' : Memory) : Prop where
  byte : memory'.byte = memory.byte
  object : memory'.object = memory.object
  array : memory'.array = memory.array
  map : ∀ ptr, (memory.map ptr).1.Perm (memory'.map ptr).1
  set : ∀ ptr, (memory.set ptr).1.Perm (memory'.set ptr).1

variable {memory' : Memory}

theorem leafBytes_sameContent (same : SameContent memory memory') (ptr : Pointer) (kind : Kind) :
    leafBytes memory' ptr kind = leafBytes memory ptr kind := by
  have raw : ∀ ptr num, memory'.raw ptr num = memory.raw ptr num := by
    intro ptr num
    rw [Memory.raw, Memory.raw, same.byte]
  have component : ∀ size i, memory'.component ptr size i = memory.component ptr size i :=
    fun size i => raw _ size
  cases kind with
  | numeric elementSize => exact raw ptr elementSize
  | enum elementSize => exact raw ptr elementSize
  | bool byteOffset fieldMask => rw [leafBytes, leafBytes, Memory.bool, Memory.bool, same.byte]
  | vector size => simp only [leafBytes, component]
  | rotator size => simp only [leafBytes, component]
  | quat size => simp only [leafBytes, component]
  | object => rw [leafBytes, leafBytes, same.object]
  | unsupported => rfl

/-- The same is inside, in another order. -/
theorem inside_perm (same : SameContent memory memory') (place : Place) :
    (inside structs memory place).Perm (inside structs memory' place) := by
  obtain ⟨property, ptr⟩ := place
  cases property with
  | leaf field kind => exact .refl _
  | struct field id => exact .refl _
  | array field inner =>
    show List.Perm _ (List.map _ (memory'.array ptr).1)
    rw [same.array]
    exact .refl _
  | map field key value => exact (same.map ptr).flatMap_right _
  | set field element => exact (same.set ptr).map _

theorem passes_sameContent (same : SameContent memory memory') {left : ℕ} {visited : Finset Pointer}
    {place : Place} :
    Passes structs memory' left visited place ↔ Passes structs memory left visited place := by
  induction left generalizing visited place with
  | zero => exact Iff.rfl
  | succ left ih =>
    rw [Passes, Passes]
    refine and_congr_right fun _ => ?_
    simp only [← (inside_perm same place).mem_iff, ih]

/-- **If all containers are well compared, the bytes are the same in every order.** -/
theorem canonical_sameContent (sorts : Sorts sort) (same : SameContent memory memory') {left : ℕ}
    {place : Place} (le : left ≤ limit) (fits : Fits (graph structs memory) left place)
    (compared : ∀ count reached, Below (graph structs memory) count place reached →
      WellCompared structs memory sort limit reached) :
    canonical structs memory' sort left place = canonical structs memory sort left place := by
  induction left generalizing place with
  | zero => rfl
  | succ left ih =>
    have smaller := Nat.le_of_succ_le le
    have children : ∀ child ∈ inside structs memory place,
        canonical structs memory' sort left child = canonical structs memory sort left child ∧
          canonical structs memory sort limit child = canonical structs memory sort left child := by
      intro child member
      have member' : ((), child) ∈ (graph structs memory).children place := List.mem_map_of_mem member
      exact ⟨ih smaller (fits _ member') ((forall_below_iff.mp compared).2 _ member'),
        canonical_eq (fits _ member') smaller⟩
    have here := compared 0 place (.here place)
    obtain ⟨property, ptr⟩ := place
    cases property with
    | leaf field kind => exact leafBytes_sameContent same ptr kind
    | struct field id =>
      exact List.flatMap_congr fun member declared => (children _ (List.mem_map_of_mem declared)).1
    | array field inner =>
      show counted _ (memory'.array ptr).1 = counted _ (memory.array ptr).1
      rw [same.array]
      refine congrArg (leBytes 4 _ ++ ·) (List.flatMap_congr fun item member => ?_)
      exact (children _ (List.mem_map_of_mem member)).1
    | map field key value =>
      have entries : entriesOf structs memory sort limit key value ptr =
          entriesOf structs memory sort left key value ptr := by
        refine List.map_congr_left fun entry member => ?_
        obtain ⟨keyInside, valueInside⟩ := mem_inside_map member
        rw [(children _ keyInside).2, (children _ valueInside).2]
      rw [WellCompared, entries] at here
      refine congrArg (counted _) (sorts.eq_of_perm here.1 here.2
        (perm_map (same.map ptr) fun entry member => ?_))
      obtain ⟨keyInside, valueInside⟩ := mem_inside_map member
      rw [(children _ keyInside).1, (children _ valueInside).1]
    | set field element =>
      have elements : elementsOf structs memory sort limit element ptr =
          elementsOf structs memory sort left element ptr :=
        List.map_congr_left fun item member => (children _ (List.mem_map_of_mem member)).2
      rw [WellCompared, elements] at here
      refine congrArg (counted _) (sorts.eq_of_perm here.1 here.2
        (perm_map (same.set ptr) fun item member => ?_))
      exact (children _ (List.mem_map_of_mem member)).1

end Order

/-! ### A whole value -/

/-- **The bytes do not depend on iteration orders, by a comparison that is a strict weak order wherever
it is used, exactly if all containers are graded.** -/
theorem unreal_order_independent_iff (structs : Structs) (memory : Memory) (sort : Sorter)
    (sorts : Sorts sort) (maxDepth : ℤ) (property : Property) (ptr : Pointer) (depth : ℕ)
    (walker after : Walker)
    (ok : serializeValue structs memory sort maxDepth property ptr depth walker = .ok () after) :
    ((∀ memory', SameContent memory memory' →
        serializeValue structs memory' sort maxDepth property ptr depth walker = .ok () after) ∧
      ∀ count reached, Below (graph structs memory) count (property, ptr) reached →
        WellCompared structs memory sort (maxDepth + 1 - depth).toNat reached) ↔
    ∀ count reached, Below (graph structs memory) count (property, ptr) reached →
      Graded structs memory sort (maxDepth + 1 - depth).toNat reached := by
  have compared : (∀ count reached, Below (graph structs memory) count (property, ptr) reached →
      WellCompared structs memory sort (maxDepth + 1 - depth).toNat reached) ↔ _ :=
    forall₃_congr fun count reached below => wellCompared_iff
  rw [← compared]
  refine ⟨And.right, fun well => ⟨fun memory' same => ?_, well⟩⟩
  obtain ⟨passes, rfl⟩ := serializeValue_ok ok
  rw [serializeValue_of_passes ((passes_sameContent same).mpr passes),
    canonical_sameContent sorts same (Nat.le_refl _) passes.fits well]

/-- Memory with a set of objects: at the offset 0 `null`, at 1 one without an id, then objects with the
offset as their id. -/
def crew (items : Container Pointer) : Memory where
  byte _ := 0
  object ptr :=
    match ptr.offset with
    | 0 => .null
    | 1 => .plain
    | id => .identifiable (BitVec.ofNat 64 id)
  array _ := noItems
  map _ := noItems
  set _ := items

def targets : Property := .set ⟨"Targets", 0⟩ (.leaf ⟨"Targets", 0⟩ .object)

theorem crew_sameContent {items items' : Container Pointer} (perm : items.1.Perm items'.1) :
    SameContent (crew items) (crew items') :=
  ⟨rfl, rfl, rfl, fun _ => .refl _, fun _ => perm⟩

theorem crew_walk {items : Container Pointer} {bytes : Bytes}
    (passes : Passes (fun _ => []) (crew items) 9 ∅ (targets, ⟨0, 0⟩))
    (appended : canonical (fun _ => []) (crew items) insertionSorter 9 (targets, ⟨0, 0⟩) = bytes) :
    serializeValue (fun _ => []) (crew items) insertionSorter 8 targets ⟨0, 0⟩ 0 ⟨[], ∅⟩ =
      .ok () ⟨bytes, ∅⟩ := by
  rw [← appended]
  exact serializeValue_of_passes passes

theorem unreal_order_independent_iff_ids :
    serializeValue (fun _ => []) (crew ⟨[⟨1, 3⟩, ⟨1, 2⟩], by decide⟩) insertionSorter 8 targets ⟨0, 0⟩ 0
        ⟨[], ∅⟩ =
      .ok () ⟨[2, 0, 0, 0, 1, 2, 0, 0, 0, 0, 0, 0, 0, 1, 3, 0, 0, 0, 0, 0, 0, 0], ∅⟩ := by
  have graded : ∀ count reached, Below (graph (fun _ => []) (crew ⟨[⟨1, 2⟩, ⟨1, 3⟩], by decide⟩)) count
      (targets, ⟨0, 0⟩) reached →
        Graded (fun _ => []) (crew ⟨[⟨1, 2⟩, ⟨1, 3⟩], by decide⟩) insertionSorter 9 reached :=
    forall_below_of_nodes 9 (by decide) (by decide)
  exact ((unreal_order_independent_iff _ _ insertionSorter sorts_insertionSorter 8 targets ⟨0, 0⟩ 0 _ _
    (crew_walk (by decide) (by decide))).mpr graded).1 _ (crew_sameContent (.swap _ _ []))

/-- `null` and an object without an id, in two orders: each is before the other. -/
theorem unreal_order_shows_null :
    SameContent (crew ⟨[⟨1, 0⟩, ⟨1, 1⟩], by decide⟩) (crew ⟨[⟨1, 1⟩, ⟨1, 0⟩], by decide⟩) ∧
      serializeValue (fun _ => []) (crew ⟨[⟨1, 0⟩, ⟨1, 1⟩], by decide⟩) insertionSorter 8 targets ⟨0, 0⟩ 0
        ⟨[], ∅⟩ = .ok () ⟨[2, 0, 0, 0, 2, 0, 0, 0, 0], ∅⟩ ∧
      serializeValue (fun _ => []) (crew ⟨[⟨1, 1⟩, ⟨1, 0⟩], by decide⟩) insertionSorter 8 targets ⟨0, 0⟩ 0
        ⟨[], ∅⟩ = .ok () ⟨[2, 0, 0, 0, 0, 0, 0, 0, 2], ∅⟩ ∧
      less [0, 0, 0, 0] [2] = true ∧ less [2] [0, 0, 0, 0] = true := by
  exact ⟨crew_sameContent (.swap _ _ []), crew_walk (by decide) (by decide),
    crew_walk (by decide) (by decide), rfl, rfl⟩

end Foldback.Unreal
