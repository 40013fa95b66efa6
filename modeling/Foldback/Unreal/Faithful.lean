/-
**What canonical bytes tell.**

Numbers have the width of their type, everything of variable length stands behind its number, and an
object behind a byte that says what it is. So bytes end where their value does.

* `Same`: equal values, maps and sets whatever order they are written in.
* `delimits_canonical`: **bytes that are equal, with anything behind them, are those of equal values.**
* `unreal_bytes_faithful`: so it is with what two walks append.
-/

import Foldback.Lib.KeyOrder
import Foldback.Lib.PrefixCode
import Foldback.Unreal.Walk

namespace Foldback.Unreal

open GuardedWalk KeyOrder PrefixCode Radix WeakOrder

/-! ### Equal values -/

/-- Leaves are equal as numbers, bools, components or objects. -/
def SameLeaf (memory memory' : Memory) (ptr ptr' : Pointer) : Kind → Prop
  | .numeric elementSize | .enum elementSize =>
    memory.raw ptr elementSize = memory'.raw ptr' elementSize
  | .bool byteOffset fieldMask =>
    memory.bool ptr byteOffset fieldMask = memory'.bool ptr' byteOffset fieldMask
  | .vector size | .rotator size =>
    ∀ i < 3, memory.component ptr size i = memory'.component ptr' size i
  | .quat size => ∀ i < 4, memory.component ptr size i = memory'.component ptr' size i
  | .object => memory.object ptr = memory'.object ptr'
  | .unsupported => True

/-- **The values of a property are equal.** -/
inductive Same (structs : Structs) (memory memory' : Memory) : Property → Pointer → Pointer → Prop
  | leaf {field : Field} {kind : Kind} {ptr ptr' : Pointer}
      (same : SameLeaf memory memory' ptr ptr' kind) :
      Same structs memory memory' (.leaf field kind) ptr ptr'
  | struct {field : Field} {id : StructId} {ptr ptr' : Pointer}
      (same : ∀ member ∈ structs id,
        Same structs memory memory' member (member.valuePtr ptr) (member.valuePtr ptr')) :
      Same structs memory memory' (.struct field id) ptr ptr'
  | array {field : Field} {inner : Property} {ptr ptr' : Pointer}
      (lengths : (memory.array ptr).1.length = (memory'.array ptr').1.length)
      (same : ∀ pair ∈ (memory.array ptr).1.zip (memory'.array ptr').1,
        Same structs memory memory' inner pair.1 pair.2) :
      Same structs memory memory' (.array field inner) ptr ptr'
  | map {field : Field} {key value : Property} {ptr ptr' : Pointer}
      {entries entries' : List (Pointer × Pointer)} (perm : (memory.map ptr).1.Perm entries)
      (perm' : (memory'.map ptr').1.Perm entries') (lengths : entries.length = entries'.length)
      (keys : ∀ pair ∈ entries.zip entries', Same structs memory memory' key pair.1.1 pair.2.1)
      (values : ∀ pair ∈ entries.zip entries', Same structs memory memory' value pair.1.2 pair.2.2) :
      Same structs memory memory' (.map field key value) ptr ptr'
  | set {field : Field} {element : Property} {ptr ptr' : Pointer} {items items' : List Pointer}
      (perm : (memory.set ptr).1.Perm items) (perm' : (memory'.set ptr').1.Perm items')
      (lengths : items.length = items'.length)
      (same : ∀ pair ∈ items.zip items', Same structs memory memory' element pair.1 pair.2) :
      Same structs memory memory' (.set field element) ptr ptr'

/-- The property is supported, and an object has a stable id. -/
def Supported (memory : Memory) : Place → Prop
  | (.leaf _ .object, ptr) => memory.object ptr ≠ .plain
  | (.leaf _ .unsupported, _) => False
  | _ => True

instance decidableSupported (memory : Memory) : (place : Place) → Decidable (Supported memory place)
  | (.leaf _ kind, ptr) =>
    match kind with
    | .object => inferInstanceAs (Decidable (memory.object ptr ≠ .plain))
    | .unsupported => inferInstanceAs (Decidable False)
    | .numeric _ | .bool _ _ | .enum _ | .vector _ | .rotator _ | .quat _ =>
      inferInstanceAs (Decidable True)
  | (.struct _ _, _) | (.array _ _, _) | (.map _ _ _, _) | (.set _ _, _) =>
    inferInstanceAs (Decidable True)

/-- All of a value is supported. -/
def AllSupported (structs : Structs) (memory : Memory) (place : Place) : Prop :=
  ∀ count reached, Below (graph structs memory) count place reached → Supported memory reached

/-! ### Bytes that delimit themselves -/

section Delimits

variable {structs : Structs} {memory memory' : Memory} {sort : Sorter} {ptr ptr' : Pointer}

theorem length_raw (num : ℕ) : (memory.raw ptr num).length = num := by
  rw [Memory.raw, List.length_map, List.length_range]

theorem delimits_raw (num : ℕ) :
    Delimits (memory.raw ptr num = memory'.raw ptr' num) (memory.raw ptr num) (memory'.raw ptr' num) :=
  delimits_of_length (by rw [length_raw, length_raw]) id

theorem delimits_components (size : ℕ) :
    Delimits (∀ i < 3, memory.component ptr size i = memory'.component ptr' size i)
      (memory.component ptr size 0 ++ memory.component ptr size 1 ++ memory.component ptr size 2)
      (memory'.component ptr' size 0 ++ memory'.component ptr' size 1 ++
        memory'.component ptr' size 2) := by
  refine (((delimits_raw size).append fun _ => delimits_raw size).append fun _ =>
    delimits_raw size).imp ?_
  rintro ⟨⟨first, second⟩, third⟩ i bound
  interval_cases i
  · exact first
  · exact second
  · exact third

theorem delimits_object (supported : memory.object ptr ≠ .plain)
    (supported' : memory'.object ptr' ≠ .plain) :
    Delimits (memory.object ptr = memory'.object ptr') (leafBytes memory ptr .object)
      (leafBytes memory' ptr' .object) := by
  unfold leafBytes
  cases object : memory.object ptr with
  | plain => exact absurd object supported
  | null =>
    cases object' : memory'.object ptr' with
    | plain => exact absurd object' supported'
    | null => exact delimits_of_length rfl fun _ => rfl
    | identifiable stableId =>
      intro s t same
      cases (List.cons.inj same).1
  | identifiable stableId =>
    cases object' : memory'.object ptr' with
    | plain => exact absurd object' supported'
    | null =>
      intro s t same
      cases (List.cons.inj same).1
    | identifiable stableId' =>
      refine delimits_of_length (by simp) fun same => congrArg _ ?_
      exact eq_of_leBytes (by norm_num) (List.cons.inj same).2

theorem delimits_leaf {field : Field} {kind : Kind}
    (supported : Supported memory (.leaf field kind, ptr))
    (supported' : Supported memory' (.leaf field kind, ptr')) :
    Delimits (SameLeaf memory memory' ptr ptr' kind) (leafBytes memory ptr kind)
      (leafBytes memory' ptr' kind) := by
  cases kind with
  | numeric elementSize => exact delimits_raw elementSize
  | enum elementSize => exact delimits_raw elementSize
  | bool byteOffset fieldMask =>
    refine delimits_of_length rfl fun same => ?_
    have bits := (List.cons.inj same).1
    show memory.bool ptr byteOffset fieldMask = memory'.bool ptr' byteOffset fieldMask
    cases bit : memory.bool ptr byteOffset fieldMask
    all_goals
      cases bit' : memory'.bool ptr' byteOffset fieldMask
      all_goals first
        | rfl
        | simp [bit, bit'] at bits
  | vector size => exact delimits_components size
  | rotator size => exact delimits_components size
  | quat size =>
    refine ((delimits_components size).append fun _ => delimits_raw size).imp ?_
    rintro ⟨three, fourth⟩ i bound
    rcases Nat.lt_succ_iff_lt_or_eq.mp bound with before | rfl
    · exact three i before
    · exact fourth
  | object => exact delimits_object supported supported'
  | unsupported => exact supported.elim

theorem forall₂_of_all {α β : Type} {R : α → β → Prop} {items : List α} {items' : List β}
    (lengths : items.length = items'.length) (all : ∀ a ∈ items, ∀ b ∈ items', R a b) :
    List.Forall₂ R items items' := by
  refine List.forall₂_iff_zip.mpr ⟨lengths, fun {a b} member => ?_⟩
  obtain ⟨inItems, inItems'⟩ := List.of_mem_zip member
  exact all a inItems b inItems'

/-- The number of the items says where they end. -/
theorem delimits_counted {α β : Type} {R : α → β → Prop} {bytes : α → Bytes} {bytes' : β → Bytes}
    {items : List α} {items' : List β} (small : items.length < 2 ^ 31) (small' : items'.length < 2 ^ 31)
    (each : ∀ a ∈ items, ∀ b ∈ items', Delimits (R a b) (bytes a) (bytes' b)) :
    Delimits (List.Forall₂ R items items') (counted bytes items) (counted bytes' items') := by
  have number : Delimits (items.length = items'.length) (leBytes 4 items.length)
      (leBytes 4 items'.length) := by
    refine delimits_of_length (by rw [length_leBytes, length_leBytes]) fun same => ?_
    exact leBytes_injOn (by omega) (by omega) same
  exact (number.append fun lengths => delimits_flatMap (forall₂_of_all lengths each)).imp And.right

/-- Sorted entries are those of the two containers in some order. -/
theorem delimits_sorted (permutes : ∀ α less items, (sort α less items).Perm items) {α β δ : Type}
    {R : α → β → Prop} {code : α → δ} {code' : β → δ} {bytes : δ → Bytes} {less : δ → δ → Bool}
    {items : List α} {items' : List β} (small : items.length < 2 ^ 31) (small' : items'.length < 2 ^ 31)
    (each : ∀ a ∈ items, ∀ b ∈ items', Delimits (R a b) (bytes (code a)) (bytes (code' b))) :
    Delimits (∃ order order', items.Perm order ∧ items'.Perm order' ∧ List.Forall₂ R order order')
      (counted bytes (sort δ less (items.map code)))
      (counted bytes (sort δ less (items'.map code'))) := by
  obtain ⟨order, perm, sorted⟩ := exists_perm_of_map (permutes δ less (items.map code)).symm
  obtain ⟨order', perm', sorted'⟩ := exists_perm_of_map (permutes δ less (items'.map code')).symm
  have pieces : ∀ {γ : Type} (code : γ → δ) (order : List γ),
      counted bytes (order.map code) = counted (bytes ∘ code) order := by
    intro γ code order
    rw [counted, counted, List.length_map, List.flatMap_map]
    rfl
  rw [sorted, sorted', pieces, pieces]
  rw [perm.length_eq] at small
  rw [perm'.length_eq] at small'
  refine (delimits_counted small small' fun a inOrder b inOrder' => ?_).imp fun related =>
    ⟨order, order', perm, perm', related⟩
  exact each a (perm.mem_iff.mpr inOrder) b (perm'.mem_iff.mpr inOrder')

theorem AllSupported.below {place child : Place} (supported : AllSupported structs memory place)
    (member : child ∈ inside structs memory place) : AllSupported structs memory child :=
  (forall_below_iff.mp supported).2 ((), child) (List.mem_map_of_mem member)

variable (structs memory memory' sort) in
/-- The bytes of two values of a property, cut at a depth, delimit themselves. -/
def DelimitsValues (left : ℕ) (property : Property) (ptr ptr' : Pointer) : Prop :=
  Delimits (Same structs memory memory' property ptr ptr')
    (canonical structs memory sort left (property, ptr))
    (canonical structs memory' sort left (property, ptr'))

/-- **Bytes that are equal, with anything behind them, are those of equal values.** -/
theorem delimits_canonical (permutes : ∀ α less items, (sort α less items).Perm items) {left : ℕ}
    {property : Property} (fits : Fits (graph structs memory) left (property, ptr))
    (fits' : Fits (graph structs memory') left (property, ptr'))
    (supported : AllSupported structs memory (property, ptr))
    (supported' : AllSupported structs memory' (property, ptr')) :
    DelimitsValues structs memory memory' sort left property ptr ptr' := by
  induction left generalizing property ptr ptr' with
  | zero => exact fits.elim
  | succ left ih =>
    have inner : ∀ {child child' : Pointer} {property' : Property},
        (property', child) ∈ inside structs memory (property, ptr) →
        (property', child') ∈ inside structs memory' (property, ptr') →
        DelimitsValues structs memory memory' sort left property' child child' := by
      intro child child' property' member member'
      exact ih (fits ((), _) (List.mem_map_of_mem member)) (fits' ((), _) (List.mem_map_of_mem member'))
        (supported.below member) (supported'.below member')
    cases property with
    | leaf field kind =>
      exact (delimits_leaf (supported 0 _ (.here _)) (supported' 0 _ (.here _))).imp .leaf
    | struct field id =>
      have each : List.Forall₂ (fun member member' => Delimits
          (Same structs memory memory' member (member.valuePtr ptr) (member.valuePtr ptr'))
          (canonical structs memory sort left (member, member.valuePtr ptr))
          (canonical structs memory' sort left (member', member'.valuePtr ptr')))
          (structs id) (structs id) :=
        List.forall₂_same.mpr fun member declared =>
          inner (List.mem_map_of_mem declared) (List.mem_map_of_mem declared)
      exact (delimits_flatMap each).imp fun related => .struct (List.forall₂_same.mp related)
    | array field element =>
      have each : ∀ a ∈ (memory.array ptr).1, ∀ b ∈ (memory'.array ptr').1,
          DelimitsValues structs memory memory' sort left element a b :=
        fun a member b member' => inner (List.mem_map_of_mem member) (List.mem_map_of_mem member')
      refine (delimits_counted (memory.array ptr).2 (memory'.array ptr').2 each).imp fun related => ?_
      obtain ⟨lengths, same⟩ := List.forall₂_iff_zip.mp related
      exact .array lengths fun pair member => same member
    | map field key value =>
      have each : ∀ a ∈ (memory.map ptr).1, ∀ b ∈ (memory'.map ptr').1,
          Delimits (Same structs memory memory' key a.1 b.1 ∧ Same structs memory memory' value a.2 b.2)
            (canonical structs memory sort left (key, a.1) ++
              canonical structs memory sort left (value, a.2))
            (canonical structs memory' sort left (key, b.1) ++
              canonical structs memory' sort left (value, b.2)) := by
        intro a member b member'
        obtain ⟨keyInside, valueInside⟩ := mem_inside_map member
        obtain ⟨keyInside', valueInside'⟩ := mem_inside_map member'
        exact (inner keyInside keyInside').append fun _ => inner valueInside valueInside'
      refine (delimits_sorted permutes (memory.map ptr).2 (memory'.map ptr').2 each).imp ?_
      rintro ⟨entries, entries', perm, perm', related⟩
      obtain ⟨lengths, same⟩ := List.forall₂_iff_zip.mp related
      exact .map perm perm' lengths (fun pair member => (same member).1) fun pair member =>
        (same member).2
    | set field element =>
      have each : ∀ a ∈ (memory.set ptr).1, ∀ b ∈ (memory'.set ptr').1,
          DelimitsValues structs memory memory' sort left element a b :=
        fun a member b member' => inner (List.mem_map_of_mem member) (List.mem_map_of_mem member')
      show Delimits _ (counted (fun bytes => bytes) (sort Bytes less _)) (counted _ (sort Bytes less _))
      refine Delimits.imp (delimits_sorted permutes (memory.set ptr).2 (memory'.set ptr').2 each) ?_
      rintro ⟨items, items', perm, perm', related⟩
      obtain ⟨lengths, same⟩ := List.forall₂_iff_zip.mp related
      exact .set perm perm' lengths fun pair member => same member

end Delimits

/-! ### Two walks -/

/-- **Two walks that append the same bytes have walked equal values**, and the bytes of values that are
not equal do not begin one another. -/
theorem unreal_bytes_faithful (structs : Structs) (sort : Sorter)
    (permutes : ∀ α less items, (sort α less items).Perm items) (property : Property)
    (memory memory' : Memory) (ptr ptr' : Pointer)
    (supported : AllSupported structs memory (property, ptr))
    (supported' : AllSupported structs memory' (property, ptr')) (maxDepth maxDepth' : ℤ)
    (depth depth' : ℕ) (walker walker' after after' : Walker) (bytes bytes' : Bytes)
    (ok : serializeValue structs memory sort maxDepth property ptr depth walker = .ok () after)
    (ok' : serializeValue structs memory' sort maxDepth' property ptr' depth' walker' = .ok () after')
    (appended : after.outBytes = walker.outBytes ++ bytes)
    (appended' : after'.outBytes = walker'.outBytes ++ bytes') :
    (bytes = bytes' → Same structs memory memory' property ptr ptr') ∧
      (¬ Same structs memory memory' property ptr ptr' → ¬ bytes <+: bytes' ∧ ¬ bytes' <+: bytes) := by
  obtain ⟨passes, rfl⟩ := serializeValue_ok ok
  obtain ⟨passes', rfl⟩ := serializeValue_ok ok'
  have fits := passes.fits
  have fits' := passes'.fits
  obtain rfl := List.append_cancel_left appended
  obtain rfl := List.append_cancel_left appended'
  -- Both are the bytes at the larger one of the two depths.
  have larger := Nat.le_max_left (maxDepth + 1 - depth).toNat (maxDepth' + 1 - depth').toNat
  have larger' := Nat.le_max_right (maxDepth + 1 - depth).toNat (maxDepth' + 1 - depth').toNat
  have delimits := delimits_canonical permutes (fits.mono larger) (fits'.mono larger') supported
    supported'
  rw [DelimitsValues, canonical_eq fits larger, canonical_eq fits' larger'] at delimits
  refine ⟨fun same => ?_, delimits.not_prefix⟩
  exact (delimits [] [] (by rw [same])).1

/-- Memory with a set of ids, each the offset of its pointer. -/
def ids (items : Container Pointer) : Memory where
  byte ptr := UInt8.ofNat ptr.offset
  object _ := .null
  array _ := noItems
  map _ := noItems
  set _ := items

def idSet : Property := .set ⟨"Ids", 0⟩ (.leaf ⟨"Ids", 0⟩ (.numeric 1))

theorem unreal_bytes_faithful_sets :
    Same (fun _ => []) (ids ⟨[⟨1, 3⟩, ⟨1, 4⟩], by decide⟩) (ids ⟨[⟨1, 4⟩, ⟨1, 3⟩], by decide⟩) idSet
      ⟨0, 0⟩ ⟨0, 0⟩ := by
  refine (unreal_bytes_faithful _ insertionSorter sorts_insertionSorter.perm idSet _ _ _ _ ?_ ?_ 8 8 0 0
    ⟨[], ∅⟩ ⟨[], ∅⟩ _ _ _ _ (serializeValue_of_passes (by decide))
    (serializeValue_of_passes (by decide)) rfl rfl).1 (by decide)
  · exact forall_below_of_nodes 9 (by decide) (by decide)
  · exact forall_below_of_nodes 9 (by decide) (by decide)

end Foldback.Unreal
