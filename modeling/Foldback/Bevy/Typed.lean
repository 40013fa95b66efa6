/-
**Types of reflected values.**

* `TypeInfo`: what a type says of its values. `Types` are types whose names are those of Rust: it
  carries the proof.
* `HasType types value ty`; `HasType.shaped` reads off what a value of a type looks like.
* `HasType.wellNamed`: **typed values are well named**, where different keys have renderings that end
  at their brackets (`Legible`).
-/

import Foldback.Bevy.Steps

namespace Foldback.Bevy

open GuardedWalk PrefixCode

variable {τ ω : Type}

/-! ### Types -/

/-- The leaves of one type. -/
inductive LeafKind (ω : Type)
  | int (ty : IntTy)
  | size (signed : Bool)
  | float (ty : FloatTy)
  | bool
  | string
  | other (holds : ω → Prop)

def LeafKind.Holds : LeafKind ω → Leaf ω → Prop
  | .int ty, .int ty' _ => ty = ty'
  | .size signed, .size signed' _ => signed = signed'
  | .float ty, .float ty' _ => ty = ty'
  | .bool, .bool _ => True
  | .string, .string _ => True
  | .other holds, .other value => holds value
  | _, _ => False

/-- `τ` are the types it refers to. -/
inductive TypeInfo (τ ω : Type)
  | struct (typePath : String) (fields : List (String × τ))
  | tupleStruct (typePath : String) (fields : List τ)
  | tuple (fields : List τ)
  | list (item : τ)
  | array (item : τ) (capacity : ℕ)
  | map (key value : τ)
  | set (item : τ)
  | enum (typePath : String) (variants : List (String × List (Option String × τ)))
  | leaf (kind : LeafKind ω)

/-- Names are identifiers, and those of one struct, enum or variant differ. -/
def TypeInfo.NamesOk : TypeInfo τ ω → Prop
  | .struct _ fields => (∀ field ∈ fields, IsIdentifier field.1) ∧ (fields.map Prod.fst).Nodup
  | .enum _ variants =>
    (variants.map Prod.fst).Nodup ∧ ∀ variant ∈ variants, IsIdentifier variant.1 ∧
      (∀ field ∈ variant.2, ∀ name ∈ field.1, IsIdentifier name) ∧
        (variant.2.filterMap Prod.fst).Nodup
  | _ => True

/-- The types of a program. -/
structure Types (τ ω : Type) where
  info : τ → TypeInfo τ ω
  namesOk : ∀ ty, (info ty).NamesOk

/-! ### Values of a type -/

/-- A map does not hold a key twice, a set no element; keys are equal up to iteration orders. -/
inductive HasType (types : Types τ ω) : ReflectRef ω → τ → Prop
  | struct {ty : τ} {typePath : String} {fields : List (String × ReflectRef ω)}
      {fieldTypes : List (String × τ)} (is : types.info ty = .struct typePath fieldTypes)
      (names : fields.map Prod.fst = fieldTypes.map Prod.fst)
      (values : List.Forall₂ (HasType types) (fields.map Prod.snd) (fieldTypes.map Prod.snd)) :
      HasType types (.struct typePath fields) ty
  | tupleStruct {ty : τ} {typePath : String} {fields : List (ReflectRef ω)} {fieldTypes : List τ}
      (is : types.info ty = .tupleStruct typePath fieldTypes)
      (values : List.Forall₂ (HasType types) fields fieldTypes) :
      HasType types (.tupleStruct typePath fields) ty
  | tuple {ty : τ} {fields : List (ReflectRef ω)} {fieldTypes : List τ}
      (is : types.info ty = .tuple fieldTypes)
      (values : List.Forall₂ (HasType types) fields fieldTypes) : HasType types (.tuple fields) ty
  | list {ty item : τ} {items : List (ReflectRef ω)} (is : types.info ty = .list item)
      (values : ∀ value ∈ items, HasType types value item) : HasType types (.list items) ty
  | array {ty item : τ} {capacity : ℕ} {items : List (ReflectRef ω)}
      (is : types.info ty = .array item capacity) (length : items.length = capacity)
      (values : ∀ value ∈ items, HasType types value item) : HasType types (.array items) ty
  | map {ty key value : τ} {entries : List (ReflectRef ω × ReflectRef ω)}
      (is : types.info ty = .map key value)
      (keys : ∀ entry ∈ entries, HasType types entry.1 key)
      (values : ∀ entry ∈ entries, HasType types entry.2 value)
      (distinct : entries.Pairwise fun entry entry' => ¬ Reordered entry.1 entry'.1) :
      HasType types (.map entries) ty
  | set {ty item : τ} {items : List (ReflectRef ω)} (is : types.info ty = .set item)
      (values : ∀ value ∈ items, HasType types value item)
      (distinct : items.Pairwise fun item item' => ¬ Reordered item item') :
      HasType types (.set items) ty
  | enum {ty : τ} {typePath variantName : String} {fields : List (Option String × ReflectRef ω)}
      {variants : List (String × List (Option String × τ))} {fieldTypes : List (Option String × τ)}
      (is : types.info ty = .enum typePath variants) (variant : (variantName, fieldTypes) ∈ variants)
      (names : fields.map Prod.fst = fieldTypes.map Prod.fst)
      (values : List.Forall₂ (HasType types) (fields.map Prod.snd) (fieldTypes.map Prod.snd)) :
      HasType types (.enum typePath variantName fields) ty
  | leaf {ty : τ} {kind : LeafKind ω} {leaf : Leaf ω} (is : types.info ty = .leaf kind)
      (holds : kind.Holds leaf) : HasType types (.leaf leaf) ty

/-- What a value of a type looks like. -/
def Shaped (types : Types τ ω) (value : ReflectRef ω) : TypeInfo τ ω → Prop
  | .struct typePath fieldTypes => ∃ fields, value = .struct typePath fields ∧
    fields.map Prod.fst = fieldTypes.map Prod.fst ∧
      List.Forall₂ (HasType types) (fields.map Prod.snd) (fieldTypes.map Prod.snd)
  | .tupleStruct typePath fieldTypes => ∃ fields, value = .tupleStruct typePath fields ∧
    List.Forall₂ (HasType types) fields fieldTypes
  | .tuple fieldTypes => ∃ fields, value = .tuple fields ∧
    List.Forall₂ (HasType types) fields fieldTypes
  | .list item => ∃ items, value = .list items ∧ ∀ value ∈ items, HasType types value item
  | .array item capacity => ∃ items, value = .array items ∧ items.length = capacity ∧
    ∀ value ∈ items, HasType types value item
  | .map key mapped => ∃ entries, value = .map entries ∧
    (∀ entry ∈ entries, HasType types entry.1 key) ∧
      (∀ entry ∈ entries, HasType types entry.2 mapped) ∧
        entries.Pairwise fun entry entry' => ¬ Reordered entry.1 entry'.1
  | .set item => ∃ items, value = .set items ∧ (∀ value ∈ items, HasType types value item) ∧
    items.Pairwise fun item item' => ¬ Reordered item item'
  | .enum typePath variants => ∃ variantName fields fieldTypes,
    value = .enum typePath variantName fields ∧ (variantName, fieldTypes) ∈ variants ∧
      fields.map Prod.fst = fieldTypes.map Prod.fst ∧
        List.Forall₂ (HasType types) (fields.map Prod.snd) (fieldTypes.map Prod.snd)
  | .leaf kind => ∃ leaf, value = .leaf leaf ∧ kind.Holds leaf

theorem HasType.shaped {types : Types τ ω} {value : ReflectRef ω} {ty : τ}
    (typed : HasType types value ty) : Shaped types value (types.info ty) := by
  cases typed with
  | struct is names values =>
    rw [is]
    exact ⟨_, rfl, names, values⟩
  | tupleStruct is values =>
    rw [is]
    exact ⟨_, rfl, values⟩
  | tuple is values =>
    rw [is]
    exact ⟨_, rfl, values⟩
  | list is values =>
    rw [is]
    exact ⟨_, rfl, values⟩
  | array is length values =>
    rw [is]
    exact ⟨_, rfl, length, values⟩
  | map is keys values distinct =>
    rw [is]
    exact ⟨_, rfl, keys, values, distinct⟩
  | set is values distinct =>
    rw [is]
    exact ⟨_, rfl, values, distinct⟩
  | enum is variant names values =>
    rw [is]
    exact ⟨_, _, _, rfl, variant, names, values⟩
  | leaf is holds =>
    rw [is]
    exact ⟨_, rfl, holds⟩

/-! ### Parts of typed values -/

theorem exists_of_forall₂ {α β : Type} {R : α → β → Prop} {first : List α} {second : List β}
    (related : List.Forall₂ R first second) {a : α} (member : a ∈ first) : ∃ b, R a b := by
  induction related with
  | nil => cases member
  | cons here _ ih =>
    rcases List.mem_cons.mp member with rfl | rest
    · exact ⟨_, here⟩
    · exact ih rest

theorem HasType.part {types : Types τ ω} {debug : ReflectRef ω → String} {value : ReflectRef ω}
    {ty : τ} (typed : HasType types value ty) {part : Step × ReflectRef ω}
    (member : part ∈ parts debug value) : ∃ ty', HasType types part.2 ty' := by
  have inUnsorted := (parts_perm debug value).mem_iff.mp member
  cases typed with
  | struct is names values =>
    obtain ⟨field, inFields, rfl⟩ := List.mem_map.mp inUnsorted
    exact exists_of_forall₂ values (List.mem_map_of_mem inFields)
  | tupleStruct is values =>
    obtain ⟨field, inFields, rfl⟩ := List.mem_map.mp inUnsorted
    exact exists_of_forall₂ values (List.fst_mem_of_mem_zipIdx inFields)
  | tuple is values =>
    obtain ⟨field, inFields, rfl⟩ := List.mem_map.mp inUnsorted
    exact exists_of_forall₂ values (List.fst_mem_of_mem_zipIdx inFields)
  | list is values =>
    obtain ⟨item, inItems, rfl⟩ := List.mem_map.mp inUnsorted
    exact ⟨_, values _ (List.fst_mem_of_mem_zipIdx inItems)⟩
  | array is length values =>
    obtain ⟨item, inItems, rfl⟩ := List.mem_map.mp inUnsorted
    exact ⟨_, values _ (List.fst_mem_of_mem_zipIdx inItems)⟩
  | map is keys values distinct =>
    obtain ⟨entry, inEntries, rfl⟩ := List.mem_map.mp inUnsorted
    exact ⟨_, values entry inEntries⟩
  | set is values distinct =>
    obtain ⟨item, inItems, rfl⟩ := List.mem_map.mp inUnsorted
    exact ⟨_, values item inItems⟩
  | enum is variant names values =>
    obtain ⟨field, inFields, rfl⟩ := List.mem_map.mp inUnsorted
    exact exists_of_forall₂ values (List.mem_map_of_mem (List.fst_mem_of_mem_zipIdx inFields))
  | leaf is holds => cases inUnsorted

/-- In two values of one type: equal renderings are those of equal keys, no other rendering ends
where a rendering with its bracket does, and equal leaves of types that the code does not know
are the same. -/
structure Legible (debug : ReflectRef ω → String) (value value' : ReflectRef ω) : Prop where
  injective : ∀ entry ∈ rendered value, ∀ entry' ∈ rendered value',
    debug entry.1 = debug entry'.1 → Reordered entry.1 entry'.1
  delimited : ∀ entry ∈ rendered value, ∀ entry' ∈ rendered value',
    debug entry.1 ≠ debug entry'.1 → ClosedApart (closing value) (debug entry.1) (debug entry'.1)
  leaves : ∀ leaf leaf', value = .leaf (.other leaf) → value' = .leaf (.other leaf') →
    debug value = debug value' → leaf = leaf'

/-- **Typed values are well named.** -/
theorem HasType.wellNamed {types : Types τ ω} {debug : ReflectRef ω → String} {value : ReflectRef ω}
    {ty : τ} (typed : HasType types value ty) (legible : Legible debug value value) :
    WellNamed debug value := by
  have apart : (rendered value).Pairwise (fun entry entry' => ¬ Reordered entry.1 entry'.1) →
      (rendered value).Pairwise fun entry entry' =>
        ClosedApart (closing value) (debug entry.1) (debug entry'.1) := by
    intro distinct
    refine (List.Pairwise.and_mem.mp distinct).imp fun {entry entry'} both => ?_
    exact legible.delimited entry both.1 entry' both.2.1 fun same =>
      both.2.2 (legible.injective entry both.1 entry' both.2.1 same)
  have ok := types.namesOk ty
  cases typed with
  | struct is names values =>
    rw [is] at ok
    refine ⟨⟨fun field member => ?_, names ▸ ok.2⟩, .nil⟩
    have inNames : field.1 ∈ _ := names ▸ List.mem_map_of_mem member
    obtain ⟨fieldType, inTypes, same⟩ := List.mem_map.mp inNames
    exact same ▸ ok.1 fieldType inTypes
  | map is keys values distinct => exact ⟨trivial, apart distinct⟩
  | set is values distinct => exact ⟨trivial, apart (List.pairwise_map.mpr distinct)⟩
  | @enum _ typePath variantName fields variants fieldTypes is variant names values =>
    rw [is] at ok
    obtain ⟨identifier, identifiers, nodup⟩ := ok.2 _ variant
    refine ⟨⟨identifier, fun field member name named => ?_, ?_⟩, .nil⟩
    · have inNames : field.1 ∈ _ := names ▸ List.mem_map_of_mem member
      obtain ⟨fieldType, inTypes, same⟩ := List.mem_map.mp inNames
      exact identifiers fieldType inTypes name (same ▸ named)
    · have unnamed : fields.filterMap Prod.fst = (fields.map Prod.fst).filterMap id := by
        rw [List.filterMap_map]
        rfl
      rw [unnamed, names, List.filterMap_map]
      exact nodup
  | _ => exact ⟨trivial, .nil⟩

end Foldback.Bevy
