/-
**Field bytes do not depend on the iteration order, nor on the kind of map or set.**

* `array_parts`, `map_parts`, `set_parts`: the types inside a container type, and what its values are.
* `content_injective`: values of an ordered type are their content; `FieldTy.eq_of_ordered`: a shape
  has one ordered type at most.
* `fieldBytes_eq_of_content`: **values with the same content have the same bytes**, whatever the two
  types of the shape are. `Rearranged` values, which differ in iteration order at any depth, have the
  same content.
-/

import Foldback.Core.FieldBytes

namespace Foldback

open KeyOrder Std

/-! ### The parts of a container type -/

section Parts

variable {ordered : Bool}

theorem array_parts {elem : Shape} {n : ℕ} (ty : FieldTy (.array elem n) ordered) :
    ∃ elemTy : FieldTy elem ordered, ∀ items : List (Carrier elem),
      Valid ty items ↔ items.length = n ∧ ∀ item ∈ items, Valid elemTy item := by
  cases ty with
  | array elemTy => exact ⟨elemTy, fun _ => Iff.rfl⟩

/-- A map type has an ordered key type. Its values have distinct keys, and ascending entries make a
value of it, whichever kind of map it is. -/
theorem map_parts {key value : Shape} (ty : FieldTy (.map key value) ordered) :
    ∃ (keyTy : FieldTy key true) (valueOrdered : Bool) (valueTy : FieldTy value valueOrdered),
      ∀ entries : List (Carrier key × Carrier value),
        (Valid ty entries → (entries.map Prod.fst).Nodup ∧
          ∀ entry ∈ entries, Valid keyTy entry.1 ∧ Valid valueTy entry.2) ∧
        (Ascending (cmp key) Prod.fst entries →
          (∀ entry ∈ entries, Valid keyTy entry.1 ∧ Valid valueTy entry.2) → Valid ty entries) := by
  cases ty with
  | hashMap keyTy valueTy =>
    exact ⟨keyTy, _, valueTy, fun entries => ⟨id, fun ascending each =>
      ⟨ascending.nodup_keys, each⟩⟩⟩
  | btreeMap keyTy valueTy =>
    refine ⟨keyTy, _, valueTy, fun entries => ⟨fun valid => ?_, And.intro⟩⟩
    have ascending : Ascending (cmp key) Prod.fst entries := valid.1
    exact ⟨ascending.nodup_keys, valid.2⟩

theorem set_parts {elem : Shape} (ty : FieldTy (.set elem) ordered) :
    ∃ elemTy : FieldTy elem true, ∀ items : List (Carrier elem),
      (Valid ty items → items.Nodup ∧ ∀ item ∈ items, Valid elemTy item) ∧
      (Ascending (cmp elem) id items → (∀ item ∈ items, Valid elemTy item) → Valid ty items) := by
  have nodup : ∀ items : List (Carrier elem), Ascending (cmp elem) id items → items.Nodup := by
    intro items ascending
    have keys := ascending.nodup_keys
    rwa [List.map_id] at keys
  cases ty with
  | hashSet elemTy =>
    exact ⟨elemTy, fun items => ⟨id, fun ascending each => ⟨nodup items ascending, each⟩⟩⟩
  | btreeSet elemTy =>
    exact ⟨elemTy, fun items => ⟨fun valid => ⟨nodup items valid.1, valid.2⟩, And.intro⟩⟩

end Parts

/-- **A shape has at most one ordered type.** -/
theorem FieldTy.eq_of_ordered {shape : Shape} (ty ty' : FieldTy shape true) : ty = ty' := by
  induction shape with
  | int _ | float _ | bool => cases ty <;> cases ty' <;> rfl
  | array elem n ih =>
    cases ty with
    | array elemTy =>
      cases ty' with
      | array elemTy' => rw [ih elemTy elemTy']
  | map key value ihKey ihValue =>
    cases ty with
    | btreeMap keyTy valueTy =>
      cases ty' with
      | btreeMap keyTy' valueTy' => rw [ihKey keyTy keyTy', ihValue valueTy valueTy']
  | set elem ih =>
    cases ty with
    | btreeSet elemTy =>
      cases ty' with
      | btreeSet elemTy' => rw [ih elemTy elemTy']

/-! ### Content -/

theorem content_map {key value : Shape} (entries : List (Carrier key × Carrier value)) :
    content (.map key value) entries = { pair | pair ∈ entries.map fun entry =>
      (content key entry.1, content value entry.2) } :=
  Set.ext fun pair => by
    show (∃ entry ∈ entries, pair = (content key entry.1, content value entry.2)) ↔ _
    simp [eq_comm]

theorem content_set {elem : Shape} (items : List (Carrier elem)) :
    content (.set elem) items = { member | member ∈ items.map (content elem) } :=
  Set.ext fun member => by
    show (∃ item ∈ items, member = content elem item) ↔ _
    simp [eq_comm]

/-- An entry of one map has an entry of the same content in another map of the same content. -/
theorem exists_entry_of_content {key value : Shape}
    {entries entries' : List (Carrier key × Carrier value)}
    (same : content (.map key value) entries = content (.map key value) entries')
    {entry : Carrier key × Carrier value} (member : entry ∈ entries) :
    ∃ entry' ∈ entries', content key entry.1 = content key entry'.1 ∧
      content value entry.2 = content value entry'.2 := by
  have sets : {pair | ∃ entry ∈ entries, pair = (content key entry.1, content value entry.2)} =
      {pair | ∃ entry ∈ entries', pair = (content key entry.1, content value entry.2)} := same
  obtain ⟨entry', member', pair⟩ := (Set.ext_iff.mp sets _).mp ⟨entry, member, rfl⟩
  exact ⟨entry', member', congrArg Prod.fst pair, congrArg Prod.snd pair⟩

theorem exists_item_of_content {elem : Shape} {items items' : List (Carrier elem)}
    (same : content (.set elem) items = content (.set elem) items') {item : Carrier elem}
    (member : item ∈ items) : ∃ item' ∈ items', content elem item = content elem item' := by
  have sets : {member | ∃ item ∈ items, member = content elem item} =
      {member | ∃ item ∈ items', member = content elem item} := same
  exact (Set.ext_iff.mp sets _).mp ⟨item, member, rfl⟩

/-- **Values of an ordered type are their content.** -/
theorem content_injective {shape : Shape} (ty : FieldTy shape true) {a b : Carrier shape}
    (validA : Valid ty a) (validB : Valid ty b) (same : content shape a = content shape b) :
    a = b := by
  induction shape with
  | int _ | float _ | bool => exact same
  | array elem n ih =>
    cases ty with
    | array elemTy =>
      have items := map_eq_of_map_eq (g := id) (fun item member item' member' =>
        ih elemTy (validA.2 item member) (validB.2 item' member')) same
      exact (List.map_id _).symm.trans (items.trans (List.map_id _))
  | map key value ihKey ihValue =>
    cases ty with
    | btreeMap keyTy valueTy =>
      have sub : ∀ {one other : List (Carrier key × Carrier value)},
          Valid (.btreeMap keyTy valueTy) one → Valid (.btreeMap keyTy valueTy) other →
          content (.map key value) one = content (.map key value) other →
          ∀ entry ∈ one, entry ∈ other := by
        intro one other validOne validOther same entry member
        obtain ⟨entry', member', sameKey, sameValue⟩ := exists_entry_of_content same member
        obtain ⟨key₁, value₁⟩ := validOne.2 entry member
        obtain ⟨key₂, value₂⟩ := validOther.2 entry' member'
        rwa [Prod.ext (ihKey keyTy key₁ key₂ sameKey) (ihValue valueTy value₁ value₂ sameValue)]
      exact validA.1.eq_of_mem_iff validB.1 fun entry =>
        ⟨sub validA validB same entry, sub validB validA same.symm entry⟩
  | set elem ih =>
    cases ty with
    | btreeSet elemTy =>
      have sub : ∀ {one other : List (Carrier elem)}, Valid (.btreeSet elemTy) one →
          Valid (.btreeSet elemTy) other →
          content (.set elem) one = content (.set elem) other → ∀ item ∈ one, item ∈ other := by
        intro one other validOne validOther same item member
        obtain ⟨item', member', sameItem⟩ := exists_item_of_content same member
        rwa [ih elemTy (validOne.2 item member) (validOther.2 item' member') sameItem]
      exact validA.1.eq_of_mem_iff validB.1 fun item =>
        ⟨sub validA validB same item, sub validB validA same.symm item⟩

/-- Maps of one content have the same entries, once each value is replaced by what its content
determines. -/
theorem mem_map_of_content {key value : Shape} {keyTy : FieldTy key true} {β : Type}
    {f : Carrier value → β} {entries entries' : List (Carrier key × Carrier value)}
    (keys : ∀ entry ∈ entries, Valid keyTy entry.1)
    (keys' : ∀ entry ∈ entries', Valid keyTy entry.1)
    (determines : ∀ entry ∈ entries, ∀ entry' ∈ entries',
      content value entry.2 = content value entry'.2 → f entry.2 = f entry'.2)
    (same : content (.map key value) entries = content (.map key value) entries')
    {pair : Carrier key × β} (member : pair ∈ entries.map fun entry => (entry.1, f entry.2)) :
    pair ∈ entries'.map fun entry => (entry.1, f entry.2) := by
  obtain ⟨entry, inside, rfl⟩ := List.mem_map.mp member
  obtain ⟨entry', inside', sameKey, sameValue⟩ := exists_entry_of_content same inside
  refine List.mem_map.mpr ⟨entry', inside', Prod.ext ?_ ?_⟩
  · exact (content_injective keyTy (keys _ inside) (keys' _ inside') sameKey).symm
  · exact (determines _ inside _ inside' sameValue).symm

/-- Sets of one content have the same items. -/
theorem mem_of_content {elem : Shape} {elemTy : FieldTy elem true} {items items' : List (Carrier elem)}
    (each : ∀ item ∈ items, Valid elemTy item) (each' : ∀ item ∈ items', Valid elemTy item)
    (same : content (.set elem) items = content (.set elem) items') {item : Carrier elem}
    (member : item ∈ items) : item ∈ items' := by
  obtain ⟨item', member', sameItem⟩ := exists_item_of_content same member
  rwa [content_injective elemTy (each _ member) (each' _ member') sameItem]

/-! ### The bytes follow from the content -/

/-- **Values with the same content have the same bytes**, whatever their two types are. -/
theorem fieldBytes_eq_of_content {shape : Shape} {ordered ordered' : Bool}
    {ty : FieldTy shape ordered} {ty' : FieldTy shape ordered'} {a b : Carrier shape}
    (validA : Valid ty a) (validB : Valid ty' b) (same : content shape a = content shape b) :
    fieldBytes shape a = fieldBytes shape b := by
  induction shape generalizing ordered ordered' with
  | int _ | float _ | bool => exact congrArg _ same
  | array elem n ih =>
    obtain ⟨elemTy, parts⟩ := array_parts ty
    obtain ⟨elemTy', parts'⟩ := array_parts ty'
    obtain ⟨_, each⟩ := (parts a).mp validA
    obtain ⟨_, each'⟩ := (parts' b).mp validB
    have chunks := map_eq_of_map_eq (g := fieldBytes elem) (fun item member item' member' =>
      ih (each item member) (each' item' member')) same
    exact congrArg List.flatten chunks
  | map key value ihKey ihValue =>
    obtain ⟨keyTy, _, valueTy, parts⟩ := map_parts ty
    obtain ⟨keyTy', _, valueTy', parts'⟩ := map_parts ty'
    obtain ⟨distinct, each⟩ := (parts a).1 validA
    obtain ⟨distinct', each'⟩ := (parts' b).1 validB
    rw [FieldTy.eq_of_ordered keyTy' keyTy] at each'
    have determines := fun entry member entry' member' =>
      ihValue (each entry member).2 (each' entry' member').2
    have sorted : (sortByKey (cmp key) Prod.fst a).map (fun entry => (entry.1, fieldBytes value entry.2))
        = (sortByKey (cmp key) Prod.fst b).map fun entry => (entry.1, fieldBytes value entry.2) := by
      refine map_sortByKey_eq distinct distinct' Prod.fst (fun _ => rfl) fun pair => ?_
      constructor
      · exact mem_map_of_content (fun entry member => (each entry member).1)
          (fun entry member => (each' entry member).1) determines same
      · exact mem_map_of_content (fun entry member => (each' entry member).1)
          (fun entry member => (each entry member).1)
          (fun entry member entry' member' sameValue =>
            (determines entry' member' entry member sameValue.symm).symm) same.symm
    have chunks := congrArg (List.flatMap fun pair => fieldBytes key pair.1 ++ pair.2) sorted
    rwa [List.flatMap_map, List.flatMap_map] at chunks
  | set elem ih =>
    obtain ⟨elemTy, parts⟩ := set_parts ty
    obtain ⟨elemTy', parts'⟩ := set_parts ty'
    obtain ⟨distinct, each⟩ := (parts a).1 validA
    obtain ⟨distinct', each'⟩ := (parts' b).1 validB
    rw [FieldTy.eq_of_ordered elemTy' elemTy] at each'
    have sorted : sortByKey (cmp elem) id a = sortByKey (cmp elem) id b :=
      sortByKey_id_eq distinct distinct' fun item =>
        ⟨mem_of_content each each' same, mem_of_content each' each same.symm⟩
    exact congrArg (List.flatMap (fieldBytes elem)) sorted

/-! ### Rearrangements -/

/-- The two values differ in iteration orders alone, at any depth. -/
def Rearranged : (shape : Shape) → Carrier shape → Carrier shape → Prop
  | .int _ => fun a b => a = b
  | .float _ => fun a b => a = b
  | .bool => fun a b => a = b
  | .array elem _ => fun (items items' : List (Carrier elem)) =>
    List.Forall₂ (Rearranged elem) items items'
  | .map key value => fun (entries entries' : List (Carrier key × Carrier value)) =>
    ∃ moved, entries.Perm moved ∧ List.Forall₂ (fun entry entry' =>
      Rearranged key entry.1 entry'.1 ∧ Rearranged value entry.2 entry'.2) moved entries'
  | .set elem => fun (items items' : List (Carrier elem)) =>
    ∃ moved, items.Perm moved ∧ List.Forall₂ (Rearranged elem) moved items'

theorem map_eq_of_forall₂ {α β : Type} {rel : α → α → Prop} {f : α → β}
    (determines : ∀ a b, rel a b → f a = f b) {first second : List α}
    (related : List.Forall₂ rel first second) : first.map f = second.map f := by
  induction related with
  | nil => rfl
  | cons here _ ih => rw [List.map_cons, List.map_cons, determines _ _ here, ih]

/-- A rearranged value has the same content. -/
theorem content_eq_of_rearranged {shape : Shape} {a b : Carrier shape}
    (rearranged : Rearranged shape a b) : content shape a = content shape b := by
  induction shape with
  | int _ | float _ | bool => exact rearranged
  | array elem n ih => exact map_eq_of_forall₂ (fun _ _ here => ih here) rearranged
  | map key value ihKey ihValue =>
    obtain ⟨moved, perm, related⟩ := rearranged
    have images := map_eq_of_forall₂ (f := fun entry => (content key entry.1, content value entry.2))
      (fun entry entry' both => Prod.ext (ihKey both.1) (ihValue both.2)) related
    refine (content_map a).trans (Eq.trans ?_ (content_map b).symm)
    rw [← images]
    exact Set.ext fun pair => (perm.map _).mem_iff
  | set elem ih =>
    obtain ⟨moved, perm, related⟩ := rearranged
    have images := map_eq_of_forall₂ (fun _ _ here => ih here) related
    refine (content_set a).trans (Eq.trans ?_ (content_set b).symm)
    rw [← images]
    exact Set.ext fun member => (perm.map _).mem_iff

/-! ### The canonical form -/

/-- **Field bytes depend on neither the iteration orders nor the kind of any map or set**: two values
of types of one shape that have the same content have the same bytes. -/
theorem fieldBytes_canonical {shape : Shape} {ordered ordered' : Bool} (ty : FieldTy shape ordered)
    (ty' : FieldTy shape ordered') (a : Value ty) (b : Value ty')
    (same : content shape a.1 = content shape b.1) :
    fieldBytes shape a.1 = fieldBytes shape b.1 :=
  fieldBytes_eq_of_content a.2 b.2 same

/-- A `HashMap` of `HashSet`s, in an arbitrary order. -/
def hashedSample : Carrier (.map (.int .u8) (.set (.int .u8))) := [(2#8, [3#8, 1#8]), (1#8, [])]

/-- The `BTreeMap` of `BTreeSet`s with the same content. -/
def sortedSample : Carrier (.map (.int .u8) (.set (.int .u8))) := [(1#8, []), (2#8, [1#8, 3#8])]

theorem fieldBytes_canonical_sample :
    fieldBytes _ hashedSample = fieldBytes _ sortedSample :=
  fieldBytes_canonical (.hashMap (.int .u8) (.hashSet (.int .u8)))
    (.btreeMap (.int .u8) (.btreeSet (.int .u8))) ⟨hashedSample, by decide⟩
    ⟨sortedSample, by decide⟩
    (content_eq_of_rearranged ⟨[(1#8, []), (2#8, [3#8, 1#8])], .swap _ _ _,
      .cons ⟨rfl, [], .nil, .nil⟩
        (.cons ⟨rfl, [1#8, 3#8], .swap _ _ _, .cons rfl (.cons rfl .nil)⟩ .nil)⟩)

end Foldback
