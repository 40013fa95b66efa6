/-
**Explicit and reflective hashing of one struct.**

* `StructField`: a field as the derives see it, with its value. `PrimTy` are the integers, floats,
  bools and fixed arrays of them; `Reflect` shows a field under its identifier, unless it ignores it.
* `hashFields` is the generated `write_hashed_fields`, `explicitFields` are the fields it hashes.
* `plain_of_recorded`: a field recorded under its own name is reflected, and no array.
* `same_fields_iff`: **both record the same fields exactly when every tracked field is reflected and no
  array.** An array is one field explicitly, and one for each leaf reflectively.
-/

import Foldback.Bevy.Steps
import Foldback.Derive.FoldbackHash

namespace Foldback.Bevy

open GuardedWalk PrefixCode Derive

variable {ω : Type}

/-! ### Fields -/

/-- The types of fields that both ways hash. -/
inductive PrimTy
  | int (ty : IntTy)
  | float (ty : FloatTy)
  | bool
  | array (elem : PrimTy) (n : ℕ)
  deriving DecidableEq, Repr

namespace PrimTy

def shape : PrimTy → Shape
  | .int ty => .int ty
  | .float ty => .float ty
  | .bool => .bool
  | .array elem n => .array elem.shape n

def ordered : PrimTy → Bool
  | .int _ | .bool => true
  | .float _ => false
  | .array elem _ => elem.ordered

def fieldTy : (ty : PrimTy) → FieldTy ty.shape ty.ordered
  | .int ty => .int ty
  | .float ty => .float ty
  | .bool => .bool
  | .array elem n => .array elem.fieldTy n

def isArray : PrimTy → Bool
  | .array _ _ => true
  | _ => false

/-- What `reflect_ref` shows. -/
def reflect : (ty : PrimTy) → Carrier ty.shape → ReflectRef ω
  | .int ty => fun (value : BitVec (8 * ty.bytes)) => .leaf (.int ty value)
  | .float ty => fun (value : BitVec (8 * ty.bytes)) => .leaf (.float ty value)
  | .bool => fun (value : Bool) => .leaf (.bool value)
  | .array elem _ => fun (items : List (Carrier elem.shape)) => .array (items.map elem.reflect)

end PrimTy

/-- A field's value; `other` is of a type that explicit hashing does not know. -/
inductive FieldValue (ω : Type)
  | prim (ty : PrimTy) (value : Value ty.fieldTy)
  | other (value : ReflectRef ω)

/-- `ignored` is `#[reflect(ignore)]`. -/
structure StructField (ω : Type) where
  field : Field
  ignored : Bool
  value : FieldValue ω

namespace StructField

def reflect (field : StructField ω) : ReflectRef ω :=
  match field.value with
  | .prim ty value => ty.reflect value.val
  | .other value => value

/-- `FieldBytes::field_bytes`, where the type implements it. -/
def bytes (field : StructField ω) : Bytes :=
  match field.value with
  | .prim ty value => fieldBytes ty.shape value.val
  | .other _ => []

/-- What `Reflect` shows of a struct. -/
def reflectRef (typePath : String) (fields : List (StructField ω)) : ReflectRef ω :=
  .struct typePath ((fields.filter fun field => !field.ignored).map fun field =>
    (field.field.ident, field.reflect))

/-- The syntax that `FoldbackHash` is derived from. -/
def deriveInput (ident : String) (fields : List (StructField ω)) : DeriveInput :=
  ⟨ident, .struct (.named (fields.map StructField.field))⟩

/-- The bytes of the field with the identifier. -/
def bytesOf (fields : List (StructField ω)) (ident : String) : Bytes :=
  ((fields.find? fun field => field.field.ident = ident).map bytes).getD []

/-- Scalars are shown, and no fields are hidden. -/
def Plain (field : StructField ω) : Prop :=
  field.ignored = false ∧ ∃ ty value, field.value = .prim ty value ∧ ty.isArray = false

end StructField

/-! ### Explicit hashing -/

section Explicit

variable (hashBytes : Bytes → UInt64) (tick entityId : UInt64)

/-- `Session::hash_fields`, which is the generated `write_hashed_fields`. -/
def hashFields (expanded : Impl) (fields : List (StructField ω)) : Attempt Session Unit :=
  forM expanded.hashCalls fun ident =>
    Session.hashField hashBytes tick entityId ident (StructField.bytesOf fields ident)

/-- The fields that are hashed: each name with its value bytes. -/
def explicitFields (expanded : Impl) (fields : List (StructField ω)) : List (String × Bytes) :=
  expanded.hashCalls.map fun ident => (ident, StructField.bytesOf fields ident)

theorem forM_hashField {session : Session} (reliable : session.Reliable)
    (recorded : List (String × Bytes)) :
    forM recorded (fun field => Session.hashField hashBytes tick entityId field.1 field.2) session =
      .ok () (run hashBytes session (fieldCalls tick entityId recorded)).2 := by
  induction recorded generalizing session with
  | nil => rfl
  | cons field recorded ih =>
    obtain ⟨ok, still⟩ := step_reliable_hashField hashBytes reliable tick entityId field.1 field.2
    rw [List.forM_cons, bind_eq_ok]
    exact ⟨(), _, ok_of_outcome ok, ih still⟩

/-- **Explicit hashing appends a frame for each hashed field.** -/
theorem hashFields_appends {session : Session} (reliable : session.Reliable) (expanded : Impl)
    (fields : List (StructField ω)) :
    ∃ after, hashFields hashBytes tick entityId expanded fields session = .ok () after ∧
      Appends session (fieldFrames hashBytes tick entityId session.localPeerId
        (explicitFields expanded fields)) after := by
  have called := forM_hashField hashBytes tick entityId reliable (explicitFields expanded fields)
  rw [explicitFields, List.forM_map] at called
  refine ⟨_, called, ?_⟩
  have appends := appends_run hashBytes
    (allOk_fieldCalls hashBytes tick entityId reliable (explicitFields expanded fields))
  rwa [framesOf_fieldCalls] at appends

end Explicit

/-! ### What a field records -/

section Recorded

variable {debug : ReflectRef ω → String}

/-- A scalar is one leaf with the same bytes. -/
theorem unlimited_scalar {ty : PrimTy} (scalar : ty.isArray = false) (value : Carrier ty.shape)
    (path : String) : unlimited debug path (ty.reflect value) = [(path, fieldBytes ty.shape value)] := by
  cases ty with
  | array elem n => cases scalar
  | _ =>
    rw [unlimited_eq]
    rfl

theorem fits_scalar {ty : PrimTy} (scalar : ty.isArray = false) (value : Carrier ty.shape)
    (left : ℕ) : Fits (reflection debug) (left + 1) (ty.reflect value) := by
  cases ty with
  | array elem n => cases scalar
  | _ => exact List.forall_mem_nil _

/-- An array records nothing under its own name. -/
theorem name_of_prim {ty : PrimTy} {value : Carrier ty.shape} {path name : String}
    (recorded : name ∈ names debug path (ty.reflect value)) :
    (name = path ∧ ty.isArray = false) ∨ ∃ rest, name.toList = path.toList ++ '[' :: rest := by
  cases ty with
  | array elem n =>
    obtain ⟨field, member, rfl⟩ := List.mem_map.mp recorded
    rw [unlimited_eq] at member
    obtain ⟨part, inParts, below⟩ := List.mem_flatMap.mp member
    obtain ⟨item, _, rfl⟩ := List.mem_map.mp inParts
    obtain ⟨rest, split⟩ := prefix_of_name (List.mem_map_of_mem below)
    rw [toList_extend, List.append_assoc] at split
    exact Or.inr ⟨_, split.symm⟩
  | _ =>
    refine Or.inl ⟨?_, rfl⟩
    rw [names, unlimited_scalar rfl] at recorded
    exact List.mem_singleton.mp recorded

end Recorded

/-! ### The two compared -/

section Compared

variable {fields : List (StructField ω)}

/-- The field is marked `#[foldback(hash)]`. -/
def StructField.isHashed (field : StructField ω) : Bool :=
  (fieldMarking field.field.attrs).toOption.any (· == .hash)

theorem ident_injective (distinct : (fields.map fun field => field.field.ident).Nodup)
    {field field' : StructField ω} (member : field ∈ fields) (member' : field' ∈ fields)
    (same : field.field.ident = field'.field.ident) : field = field' :=
  List.inj_on_of_nodup_map distinct member member' same

/-- The fields marked `#[foldback(hash)]`, by name. -/
def hashedNames (fields : List (StructField ω)) : List String :=
  (fields.filter StructField.isHashed).map fun field => field.field.ident

theorem marked_hash (fields : List (StructField ω)) :
    marked (· == .hash) (fields.map StructField.field) = hashedNames fields := by
  rw [marked, List.filter_map, List.map_map]
  rfl

theorem marked_tracked (hashed : ∀ field ∈ fields, fieldMarking field.field.attrs ≠ .ok .reflect) :
    marked FieldMarking.isTracked (fields.map StructField.field) = hashedNames fields := by
  rw [← marked_hash, marked, marked]
  congr 1
  refine List.filter_congr fun field member => ?_
  obtain ⟨field, inFields, rfl⟩ := List.mem_map.mp member
  have other := hashed field inFields
  rcases reads : fieldMarking field.field.attrs with error | marking
  · rfl
  · cases marking with
    | reflect => exact absurd reads other
    | _ => rfl

theorem mem_hashedNames_iff (distinct : (fields.map fun field => field.field.ident).Nodup)
    {field : StructField ω} (member : field ∈ fields) :
    field.field.ident ∈ hashedNames fields ↔ field.isHashed = true := by
  rw [hashedNames, List.mem_map]
  constructor
  · rintro ⟨other, inHashed, same⟩
    obtain ⟨inFields, hashed⟩ := List.mem_filter.mp inHashed
    rwa [← ident_injective distinct inFields member same]
  · exact fun hashed => ⟨field, List.mem_filter.mpr ⟨member, hashed⟩, rfl⟩

theorem bytesOf_ident (distinct : (fields.map fun field => field.field.ident).Nodup)
    {field : StructField ω} (member : field ∈ fields) :
    StructField.bytesOf fields field.field.ident = field.bytes := by
  rw [StructField.bytesOf]
  rcases found : fields.find? fun other => other.field.ident = field.field.ident with _ | other
  · have none := List.find?_eq_none.mp found field member
    exact absurd (decide_eq_true rfl) none
  · have same : other.field.ident = field.field.ident := by simpa using List.find?_some found
    rw [found, ident_injective distinct (List.mem_of_find?_eq_some found) member same]
    rfl

/-- What is hashed explicitly, field by field. -/
theorem explicitFields_eq (distinct : (fields.map fun field => field.field.ident).Nodup)
    {expanded : Impl} (calls : expanded.hashCalls = hashedNames fields) :
    explicitFields expanded fields =
      (fields.filter StructField.isHashed).map fun field => (field.field.ident, field.bytes) := by
  rw [explicitFields, calls, hashedNames, List.map_map]
  refine List.map_congr_left fun field member => ?_
  exact congrArg _ (bytesOf_ident distinct (List.mem_filter.mp member).1)

/-- The hashed fields that are reflected. -/
def shownFields (fields : List (StructField ω)) : List (StructField ω) :=
  (fields.filter StructField.isHashed).filter fun field => !field.ignored

/-- The tracked part of the reflected struct. -/
theorem tracked_reflectRef (distinct : (fields.map fun field => field.field.ident).Nodup)
    (typePath : String) :
    tracked (hashedNames fields) (StructField.reflectRef typePath fields) =
      .struct typePath ((shownFields fields).map fun field =>
        (field.field.ident, field.reflect)) := by
  rw [StructField.reflectRef, tracked, List.filter_map, shownFields, List.filter_filter,
    List.filter_filter]
  congr 2
  refine List.filter_congr fun field member => ?_
  have passes : decide (field.field.ident ∈ hashedNames fields) = field.isHashed := by
    rw [Bool.eq_iff_iff, decide_eq_true_eq]
    exact mem_hashedNames_iff distinct member
  exact (Bool.and_comm _ _).trans (congrArg _ passes)

/-- What is recorded of the tracked part, field by field. -/
theorem unlimited_shown (distinct : (fields.map fun field => field.field.ident).Nodup)
    (debug : ReflectRef ω → String) (typePath : String) :
    unlimited debug "" (tracked (hashedNames fields) (StructField.reflectRef typePath fields)) =
      (shownFields fields).flatMap fun field => unlimited debug field.field.ident field.reflect := by
  rw [tracked_reflectRef distinct, unlimited_eq]
  show (((shownFields fields).map _).map _).flatMap _ = _
  rw [List.map_map, List.flatMap_map]
  rfl

/-- A field with a record under its own name is reflected, and no array. -/
theorem plain_of_recorded {debug : ReflectRef ω → String}
    (distinct : (fields.map fun field => field.field.ident).Nodup)
    (prims : ∀ field ∈ fields, field.isHashed = true → ∃ ty value, field.value = .prim ty value)
    {field : StructField ω} (member : field ∈ fields) (identifier : IsIdentifier field.field.ident)
    {bytes : Bytes} (recorded : (field.field.ident, bytes) ∈ (shownFields fields).flatMap fun field =>
      unlimited debug field.field.ident field.reflect) : field.Plain := by
  obtain ⟨other, shown, records⟩ := List.mem_flatMap.mp recorded
  obtain ⟨inHashed, reflected⟩ := List.mem_filter.mp shown
  obtain ⟨inFields, isHashed⟩ := List.mem_filter.mp inHashed
  obtain ⟨ty, value, is⟩ := prims other inFields isHashed
  rw [StructField.reflect, is] at records
  rcases name_of_prim (List.mem_map_of_mem records) with ⟨own, scalar⟩ | ⟨rest, longer⟩
  · cases ident_injective distinct member inFields own
    exact ⟨by simpa using reflected, ty, value, is, scalar⟩
  · -- No identifier holds the bracket of an index.
    have bracket : '[' ∈ field.field.ident.toList := by
      show '[' ∈ (field.field.ident : String).toList
      rw [longer]
      exact List.mem_append_right _ List.mem_cons_self
    exact absurd (by simp [opening]) (identifier.free '[' bracket)

section Plain

variable (plain : ∀ field ∈ fields.filter StructField.isHashed, field.Plain)

include plain

theorem shownFields_plain : shownFields fields = fields.filter StructField.isHashed := by
  refine List.filter_eq_self.mpr fun field inHashed => ?_
  rw [(plain field inHashed).1]
  rfl

theorem fits_plain (distinct : (fields.map fun field => field.field.ident).Nodup)
    (debug : ReflectRef ω → String) (typePath : String) (left : ℕ) :
    Fits (reflection debug) (left + 2)
      (tracked (hashedNames fields) (StructField.reflectRef typePath fields)) := by
  rw [tracked_reflectRef distinct, shownFields_plain plain]
  intro part member
  obtain ⟨field, inShown, rfl⟩ := List.mem_map.mp member
  obtain ⟨field, inHashed, rfl⟩ := List.mem_map.mp inShown
  obtain ⟨_, ty, value, is, scalar⟩ := plain field inHashed
  show Fits _ _ field.reflect
  rw [StructField.reflect, is]
  exact fits_scalar scalar value.val left

/-- Each plain field is one record with its bytes. -/
theorem unlimited_plain (distinct : (fields.map fun field => field.field.ident).Nodup)
    (debug : ReflectRef ω → String) (typePath : String) :
    unlimited debug "" (tracked (hashedNames fields) (StructField.reflectRef typePath fields)) =
      (fields.filter StructField.isHashed).map fun field => (field.field.ident, field.bytes) := by
  rw [unlimited_shown distinct, shownFields_plain plain, List.map_eq_flatMap]
  refine List.flatMap_congr fun field inHashed => ?_
  obtain ⟨_, ty, value, is, scalar⟩ := plain field inHashed
  rw [StructField.reflect, StructField.bytes, is]
  exact unlimited_scalar scalar value.val _

end Plain

/-- `#[foldback(hash)]` -/
def hashMark : Attribute := { path := { segments := [{ ident := "foldback" }] }, ident := "hash", paths := none }

def hpField : StructField Unit :=
  { field := { attrs := [hashMark], ident := "hp" }
    ignored := false
    value := .prim (.int .i32) ⟨(100 : BitVec 32), trivial⟩ }

def hpImpl : Impl := { name := "Unit", trackedFields := ["hp"], hashCalls := ["hp"] }

/-- A position of three floats. -/
def velocityField : StructField Unit :=
  { field := { attrs := [hashMark], ident := "velocity" }
    ignored := false
    value := .prim (.array (.float .f32) 3)
      ⟨[(0 : BitVec 32), (1 : BitVec 32), (2 : BitVec 32)], rfl, fun _ _ => trivial⟩ }

def velocityImpl : Impl :=
  { name := "PlayerState", trackedFields := ["velocity"], hashCalls := ["velocity"] }

end Compared

end Foldback.Bevy
