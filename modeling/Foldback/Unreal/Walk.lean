/-
**What one walk of a property does.**

* `canonical`: the bytes of a value, cut at a depth. `Passes`: nothing is too deep, and no struct is at
  a pointer that is being visited.
* `serializeValue_does`: **a walk appends the canonical bytes exactly if it passes**, and however it
  ends, the visited pointers are what they were.
* `hashTaggedFields_eq`: of a container, the tagged fields that pass are hashed.
-/

import Foldback.Unreal.Reflection

namespace Foldback.Unreal

open GuardedWalk Radix WeakOrder

/-! ### Walks -/

section Does

variable {α β : Type} {visited : Finset Pointer}

/-- The walk appends the bytes and returns the result if it passes, or else fails; it leaves the
visited pointers. -/
def Does (visited : Finset Pointer) (walk : Walking α) (passes : Prop) (result : α) (bytes : Bytes) :
    Prop :=
  ∀ outBytes, (passes → walk ⟨outBytes, visited⟩ = .ok result ⟨outBytes ++ bytes, visited⟩) ∧
    (¬ passes → ∃ text outBytes', walk ⟨outBytes, visited⟩ = .error text ⟨outBytes', visited⟩)

theorem Does.congr {walk : Walking α} {passes passes' : Prop} {result : α} {bytes bytes' : Bytes}
    (does : Does visited walk passes result bytes) (same : passes' ↔ passes) (equal : bytes' = bytes) :
    Does visited walk passes' result bytes' := by
  rw [equal]
  exact fun outBytes => ⟨fun holds => (does outBytes).1 (same.mp holds), fun fails =>
    (does outBytes).2 fun holds => fails (same.mpr holds)⟩

theorem does_pure (result : α) : Does visited (pure result) True result [] := by
  intro outBytes
  refine ⟨fun _ => ?_, fun fails => absurd trivial fails⟩
  rw [List.append_nil]
  rfl

theorem does_throw (text : String) (result : α) (bytes : Bytes) :
    Does visited (throw text) False result bytes :=
  fun outBytes => ⟨False.elim, fun _ => ⟨text, outBytes, rfl⟩⟩

theorem does_appendRaw (bytes : Bytes) : Does visited (appendRaw bytes) True () bytes :=
  fun _ => ⟨fun _ => rfl, fun fails => absurd trivial fails⟩

theorem Does.bind {walk : Walking α} {next : α → Walking β} {passes passes' : Prop} {result : α}
    {result' : β} {bytes bytes' : Bytes} (first : Does visited walk passes result bytes)
    (second : Does visited (next result) passes' result' bytes') :
    Does visited (walk >>= next) (passes ∧ passes') result' (bytes ++ bytes') := by
  intro outBytes
  show (_ → EStateM.bind walk next _ = _) ∧ (_ → ∃ text outBytes', EStateM.bind walk next _ = _)
  unfold EStateM.bind
  by_cases passed : passes
  · rw [(first outBytes).1 passed, ← List.append_assoc]
    obtain ⟨ok, error⟩ := second (outBytes ++ bytes)
    exact ⟨fun both => ok both.2, fun fails => error fun passed' => fails ⟨passed, passed'⟩⟩
  · obtain ⟨text, outBytes', failed⟩ := (first outBytes).2 passed
    rw [failed]
    exact ⟨fun both => absurd both.1 passed, fun _ => ⟨text, outBytes', rfl⟩⟩

/-- A walk that is refused at a visited pointer. -/
theorem does_guard {walk : Walking Unit} {passes : Prop} {bytes : Bytes} {ptr : Pointer}
    (text : String) (does : ptr ∉ visited → Does visited walk passes () bytes) :
    Does visited (do if ptr ∈ (← get).visited then throw text else walk) (ptr ∉ visited ∧ passes) ()
      bytes := by
  intro outBytes
  show (_ → (if ptr ∈ visited then throw text else walk) _ = _) ∧
    (_ → ∃ text' outBytes', (if ptr ∈ visited then throw text else walk) _ = _)
  by_cases member : ptr ∈ visited
  · rw [if_pos member]
    exact ⟨fun both => absurd member both.1, fun _ => ⟨text, outBytes, rfl⟩⟩
  · rw [if_neg member]
    obtain ⟨ok, error⟩ := does member outBytes
    exact ⟨fun both => ok both.2, fun fails => error fun passed => fails ⟨member, passed⟩⟩

theorem Does.visiting {walk : Walking Unit} {passes : Prop} {bytes : Bytes} {ptr : Pointer}
    (fresh : ptr ∉ visited) (does : Does (insert ptr visited) walk passes () bytes) :
    Does visited (visiting ptr walk) passes () bytes := by
  intro outBytes
  obtain ⟨ok, error⟩ := does outBytes
  refine ⟨fun passed => ?_, fun fails => ?_⟩
  · rw [Unreal.visiting, ok passed]
    simp only [Finset.erase_insert fresh]
  · obtain ⟨text, outBytes', failed⟩ := error fails
    refine ⟨text, outBytes', ?_⟩
    rw [Unreal.visiting, failed]
    simp only [Finset.erase_insert fresh]

theorem Does.separately {walk : Walking Unit} {passes : Prop} {bytes : Bytes}
    (does : Does visited walk passes () bytes) :
    Does visited (separately walk) passes bytes [] := by
  intro outBytes
  obtain ⟨ok, error⟩ := does []
  refine ⟨fun passed => ?_, fun fails => ?_⟩
  · rw [Unreal.separately, ok passed, List.nil_append, List.append_nil]
  · obtain ⟨text, outBytes', failed⟩ := error fails
    refine ⟨text, outBytes, ?_⟩
    rw [Unreal.separately, failed]

theorem does_forM {items : List α} {run : α → Walking Unit} {passes : α → Prop} {bytes : α → Bytes}
    (each : ∀ item ∈ items, Does visited (run item) (passes item) () (bytes item)) :
    Does visited (forM items run) (∀ item ∈ items, passes item) () (items.flatMap bytes) := by
  induction items with
  | nil => exact (does_pure ()).congr (by simp) rfl
  | cons item items ih =>
    rw [List.forM_cons]
    have rest := ih fun item member => each item (List.mem_cons_of_mem _ member)
    exact ((each item List.mem_cons_self).bind rest).congr List.forall_mem_cons List.flatMap_cons

theorem does_mapM {items : List α} {run : α → Walking β} {passes : α → Prop} {result : α → β}
    (each : ∀ item ∈ items, Does visited (run item) (passes item) (result item) []) :
    Does visited (items.mapM run) (∀ item ∈ items, passes item) (items.map result) [] := by
  induction items with
  | nil =>
    rw [List.mapM_nil]
    exact (does_pure []).congr (by simp) rfl
  | cons item items ih =>
    rw [List.mapM_cons]
    have rest := ih fun item member => each item (List.mem_cons_of_mem _ member)
    refine Does.congr (Does.bind (each item List.mem_cons_self) (Does.bind rest
      (does_pure (result item :: items.map result)))) ?_ rfl
    rw [List.forall_mem_cons, and_true]

end Does

/-! ### Canonical bytes -/

section Canonical

variable (structs : Structs) (memory : Memory) (sort : Sorter)

/-- A struct at a pointer that is being visited. -/
def Refused (visited : Finset Pointer) : Place → Prop
  | (.struct _ _, ptr) => ptr ∈ visited
  | _ => False

/-- The visited pointers for what is inside. -/
def enter (visited : Finset Pointer) : Place → Finset Pointer
  | (.struct _ _, ptr) => insert ptr visited
  | _ => visited

/-- Nothing is too deep or refused. -/
def Passes : ℕ → Finset Pointer → Place → Prop
  | 0, _, _ => False
  | left + 1, visited, place =>
    ¬ Refused visited place ∧
      ∀ child ∈ inside structs memory place, Passes left (enter visited place) child

instance decidableRefused (visited : Finset Pointer) :
    (place : Place) → Decidable (Refused visited place)
  | (.struct _ _, ptr) => inferInstanceAs (Decidable (ptr ∈ visited))
  | (.leaf _ _, _) | (.array _ _, _) | (.map _ _ _, _) | (.set _ _, _) =>
    inferInstanceAs (Decidable False)

instance decidablePasses : (left : ℕ) → (visited : Finset Pointer) → (place : Place) →
    Decidable (Passes structs memory left visited place)
  | 0, _, _ => inferInstanceAs (Decidable False)
  | left + 1, visited, place =>
    have := decidablePasses left (enter visited place)
    inferInstanceAs (Decidable (¬ Refused visited place ∧ ∀ child ∈ inside structs memory place, _))

/-- Items behind their number. -/
def counted {α : Type} (bytes : α → Bytes) (items : List α) : Bytes :=
  leBytes 4 items.length ++ items.flatMap bytes

/-- Entries sorted by their keys. -/
def entryBytes (entries : List (Bytes × Bytes)) : Bytes :=
  counted (fun entry => entry.1 ++ entry.2)
    (sort (Bytes × Bytes) (fun a b => less a.1 b.1) entries)

/-- Elements sorted. -/
def elementBytes (elements : List Bytes) : Bytes :=
  counted (fun element => element) (sort Bytes less elements)

/-- The bytes of a value. -/
def canonical : ℕ → Place → Bytes
  | 0, _ => []
  | left + 1, (property, ptr) =>
    match property with
    | .leaf _ kind => leafBytes memory ptr kind
    | .struct _ id => (structs id).flatMap fun member => canonical left (member, member.valuePtr ptr)
    | .array _ inner => counted (fun item => canonical left (inner, item)) (memory.array ptr).1
    | .map _ key value =>
      entryBytes sort ((memory.map ptr).1.map fun entry =>
        (canonical left (key, entry.1), canonical left (value, entry.2)))
    | .set _ element =>
      elementBytes sort ((memory.set ptr).1.map fun item => canonical left (element, item))

variable {structs memory sort}

/-- The keys and the values are inside a map. -/
theorem forall_inside_map {ptr : Pointer} {field : Field} {key value : Property} {P : Place → Prop} :
    (∀ child ∈ inside structs memory (.map field key value, ptr), P child) ↔
      ∀ entry ∈ (memory.map ptr).1, P (key, entry.1) ∧ P (value, entry.2) := by
  show (∀ child ∈ List.flatMap _ _, P child) ↔ _
  rw [List.forall_mem_flatMap]
  refine forall₂_congr fun entry _ => ?_
  rw [List.forall_mem_cons, List.forall_mem_singleton]

theorem mem_inside_map {ptr : Pointer} {field : Field} {key value : Property}
    {entry : Pointer × Pointer} (member : entry ∈ (memory.map ptr).1) :
    (key, entry.1) ∈ inside structs memory (.map field key value, ptr) ∧
      (value, entry.2) ∈ inside structs memory (.map field key value, ptr) :=
  forall_inside_map.mp (fun _ inside => inside) entry member

/-- **A walk appends the canonical bytes exactly if it passes**, and leaves the visited pointers. -/
theorem serializeValue_does {maxDepth : ℤ} {left depth : ℕ}
    (levels : left = (maxDepth + 1 - depth).toNat) (visited : Finset Pointer) (property : Property)
    (ptr : Pointer) :
    Does visited (serializeValue structs memory sort maxDepth property ptr depth)
      (Passes structs memory left visited (property, ptr)) ()
      (canonical structs memory sort left (property, ptr)) := by
  induction left generalizing depth visited property ptr with
  | zero =>
    rw [serializeValue.eq_def, dif_pos (by omega)]
    exact does_throw _ () _
  | succ left ih =>
    have deeper : left = (maxDepth + 1 - (depth + 1 : ℕ)).toNat := by omega
    rw [serializeValue.eq_def, dif_neg (by omega)]
    cases property with
    | leaf field kind =>
      refine (does_appendRaw _).congr ?_ rfl
      simp [Passes, Refused, inside]
    | struct field id =>
      refine (does_guard (cycleDetected field.name) fun fresh => (does_forM
        fun member (_ : member ∈ structs id) =>
          ih deeper (insert ptr visited) member (member.valuePtr ptr)).visiting fresh).congr ?_ rfl
      simp [Passes, Refused, inside, enter]
    | array field inner =>
      have items := does_forM fun item (_ : item ∈ (memory.array ptr).1) => ih deeper visited inner item
      refine ((does_appendRaw _).bind items).congr ?_ rfl
      simp [Passes, Refused, inside, enter]
    | map field key value =>
      have each : ∀ entry ∈ (memory.map ptr).1, Does visited (do
            let keyBytes ← separately
              (serializeValue structs memory sort maxDepth key entry.1 (depth + 1))
            let valBytes ← separately
              (serializeValue structs memory sort maxDepth value entry.2 (depth + 1))
            return (keyBytes, valBytes))
          (Passes structs memory left visited (key, entry.1) ∧
            Passes structs memory left visited (value, entry.2))
          (canonical structs memory sort left (key, entry.1),
            canonical structs memory sort left (value, entry.2)) [] := by
        intro entry _
        have keyBytes := (ih deeper visited key entry.1).separately
        have valBytes := (ih deeper visited value entry.2).separately
        refine Does.congr (Does.bind keyBytes (Does.bind valBytes (does_pure (_, _)))) ?_ rfl
        rw [and_true]
      have append : ∀ entry : Bytes × Bytes, Does visited (do appendRaw entry.1; appendRaw entry.2)
          (True ∧ True) () (entry.1 ++ entry.2) :=
        fun entry => (does_appendRaw entry.1).bind (does_appendRaw entry.2)
      refine Does.congr (Does.bind (does_mapM each) (Does.bind (does_appendRaw _) (does_forM
        fun entry _ => append entry))) ?_ rfl
      rw [Passes, forall_inside_map]
      simp [Refused, enter]
    | set field element =>
      have items := does_mapM fun item (_ : item ∈ (memory.set ptr).1) =>
        (ih deeper visited element item).separately
      refine Does.congr (Does.bind items (Does.bind (does_appendRaw _) (does_forM
        fun bytes _ => does_appendRaw bytes))) ?_ rfl
      simp [Passes, Refused, inside, enter]

/-- What passes is within the depth. -/
theorem Passes.fits {left : ℕ} {visited : Finset Pointer} {place : Place}
    (passes : Passes structs memory left visited place) : Fits (graph structs memory) left place := by
  induction left generalizing visited place with
  | zero => exact passes
  | succ left ih =>
    intro child member
    obtain ⟨place', inside, rfl⟩ := List.mem_map.mp member
    exact ih (passes.2 place' inside)

/-- A walk that passes. -/
theorem serializeValue_of_passes {maxDepth : ℤ} {property : Property} {ptr : Pointer} {depth : ℕ}
    {walker : Walker}
    (passes : Passes structs memory (maxDepth + 1 - depth).toNat walker.visited (property, ptr)) :
    serializeValue structs memory sort maxDepth property ptr depth walker = .ok () ⟨walker.outBytes ++
      canonical structs memory sort (maxDepth + 1 - depth).toNat (property, ptr), walker.visited⟩ :=
  (serializeValue_does rfl walker.visited property ptr walker.outBytes).1 passes

/-- **A walk that succeeds** has passed and appends the canonical bytes. -/
theorem serializeValue_ok {maxDepth : ℤ} {property : Property} {ptr : Pointer} {depth : ℕ}
    {walker after : Walker}
    (ok : serializeValue structs memory sort maxDepth property ptr depth walker = .ok () after) :
    Passes structs memory (maxDepth + 1 - depth).toNat walker.visited (property, ptr) ∧
      after = ⟨walker.outBytes ++
        canonical structs memory sort (maxDepth + 1 - depth).toNat (property, ptr), walker.visited⟩ := by
  by_cases passes : Passes structs memory (maxDepth + 1 - depth).toNat walker.visited (property, ptr)
  · rw [serializeValue_of_passes passes] at ok
    exact ⟨passes, (EStateM.Result.ok.inj ok).2.symm⟩
  · obtain ⟨text, outBytes', failed⟩ :=
      (serializeValue_does rfl walker.visited property ptr walker.outBytes).2 passes
    cases failed.symm.trans ok

/-- The bytes of a value are determined by those of what is inside. -/
theorem canonical_congr {left more : ℕ} {place : Place}
    (same : ∀ child ∈ inside structs memory place,
      canonical structs memory sort more child = canonical structs memory sort left child) :
    canonical structs memory sort (more + 1) place =
      canonical structs memory sort (left + 1) place := by
  obtain ⟨property, ptr⟩ := place
  cases property with
  | leaf field kind => rfl
  | struct field id =>
    exact List.flatMap_congr fun member declared => same _ (List.mem_map_of_mem declared)
  | array field inner =>
    refine congrArg (leBytes 4 _ ++ ·) (List.flatMap_congr fun item member => ?_)
    exact same _ (List.mem_map_of_mem member)
  | map field key value =>
    refine congrArg (entryBytes sort) (List.map_congr_left fun entry member => ?_)
    obtain ⟨keyInside, valueInside⟩ := mem_inside_map member
    rw [same _ keyInside, same _ valueInside]
  | set field element =>
    refine congrArg (elementBytes sort) (List.map_congr_left fun item member => ?_)
    exact same _ (List.mem_map_of_mem member)

/-- Within the depth, a larger depth changes nothing. -/
theorem canonical_eq {left more : ℕ} {place : Place} (fits : Fits (graph structs memory) left place)
    (le : left ≤ more) :
    canonical structs memory sort more place = canonical structs memory sort left place := by
  induction left generalizing more place with
  | zero => exact fits.elim
  | succ left ih =>
    obtain ⟨more, rfl⟩ := Nat.exists_eq_add_of_le' (Nat.lt_of_lt_of_le (Nat.succ_pos left) le)
    refine canonical_congr fun child member => ?_
    exact ih (fits ((), child) (List.mem_map_of_mem member)) (Nat.le_of_succ_le_succ le)

/-! ### Tagged fields -/

section Tagged

variable {m : Type → Type} [Monad m] (hashField : String → Bytes → m Bool)

/-- Hash fields one after another: whether all have been recorded, and what was so before. -/
def hashAll (fields : List (String × Bytes)) (allOk : Bool) : m Bool :=
  fields.foldlM (fun allOk field => return (← hashField field.1 field.2) && allOk) allOk

variable (structs memory) in
/-- A field of the container passes. -/
def fieldPasses (maxDepth : ℤ) (containerPtr : Pointer) (property : Property) : Bool :=
  Passes structs memory (maxDepth + 1 - (0 : ℕ)).toNat ∅ (property, property.valuePtr containerPtr)

variable (structs memory sort) in
/-- The name and the canonical bytes of a field. -/
def fieldOf (maxDepth : ℤ) (containerPtr : Pointer) (property : Property) : String × Bytes :=
  (property.field.name, canonical structs memory sort (maxDepth + 1 - (0 : ℕ)).toNat
    (property, property.valuePtr containerPtr))

theorem hashTaggedField_of_passes {maxDepth : ℤ} {containerPtr : Pointer} {property : Property}
    (passes : fieldPasses structs memory maxDepth containerPtr property = true) (allOk : Bool) :
    hashTaggedField structs memory sort hashField maxDepth containerPtr allOk property =
      (return (← hashField (fieldOf structs memory sort maxDepth containerPtr property).1
        (fieldOf structs memory sort maxDepth containerPtr property).2) && allOk) := by
  have serialized : serializeValue structs memory sort maxDepth property
      (property.valuePtr containerPtr) 0 ⟨[], ∅⟩ = _ :=
    serializeValue_of_passes (of_decide_eq_true passes)
  rw [hashTaggedField, serialized]
  rfl

theorem hashTaggedField_of_fails {maxDepth : ℤ} {containerPtr : Pointer} {property : Property}
    (fails : ¬ fieldPasses structs memory maxDepth containerPtr property = true) (allOk : Bool) :
    hashTaggedField structs memory sort hashField maxDepth containerPtr allOk property = pure false := by
  obtain ⟨text, outBytes, failed⟩ := (serializeValue_does rfl ∅ property
    (property.valuePtr containerPtr) []).2 fun passes => fails (decide_eq_true passes)
  rw [hashTaggedField, failed]

/-- **Every tagged field that passes is hashed with its canonical bytes**; the result is whether all
fields have passed and have been recorded. -/
theorem hashTaggedFields_eq [LawfulMonad m] (hasMetaData : Property → Bool) (maxDepth : ℤ)
    (id : StructId) (containerPtr : Pointer) :
    hashTaggedFields structs memory sort hashField maxDepth true hasMetaData (some id)
        (some containerPtr) =
      hashAll hashField
        (((getTaggedProperties structs hasMetaData id).filter
          (fieldPasses structs memory maxDepth containerPtr)).map
            (fieldOf structs memory sort maxDepth containerPtr))
        ((getTaggedProperties structs hasMetaData id).all
          (fieldPasses structs memory maxDepth containerPtr)) := by
  -- The fields that are left, after some that were all right or not.
  have rest : ∀ (tagged : List Property) (allOk : Bool),
      tagged.foldlM (hashTaggedField structs memory sort hashField maxDepth containerPtr) allOk =
        hashAll hashField ((tagged.filter (fieldPasses structs memory maxDepth containerPtr)).map
          (fieldOf structs memory sort maxDepth containerPtr))
          (allOk && tagged.all (fieldPasses structs memory maxDepth containerPtr)) := by
    intro tagged
    induction tagged with
    | nil =>
      intro allOk
      rw [List.all_nil, Bool.and_true]
      rfl
    | cons property tagged ih =>
      intro allOk
      rw [List.foldlM_cons]
      by_cases passes : fieldPasses structs memory maxDepth containerPtr property = true
      · rw [hashTaggedField_of_passes hashField passes, List.filter_cons_of_pos passes, List.map_cons,
          List.all_cons, passes, Bool.true_and, hashAll, List.foldlM_cons]
        simp only [bind_assoc, pure_bind, ih, Bool.and_assoc]
        rfl
      · rw [hashTaggedField_of_fails hashField passes, pure_bind, ih, List.filter_cons_of_neg passes,
          List.all_cons, Bool.eq_false_of_not_eq_true passes, Bool.false_and, Bool.and_false]
  exact (rest _ true).trans (by rw [Bool.true_and])

end Tagged

end Canonical

end Foldback.Unreal
