/-
**Reflective hashing of Unreal properties, as `FoldbackReflection.cpp` serializes them.**

* `Property` is what the engine knows of a type; a struct is named, so a type may contain itself.
* `Memory` is what the engine reads at a pointer. A pointer is an offset into a separately allocated
  block. Byte order is little-endian, as on all platforms of the engine.
* `serializeValue` is `SerializeValue`; the sort of `TArray` is a parameter. A warning is not modelled.
* `hashTaggedFields` is `HashTaggedFields` over a monad; `HashField` of the session is a parameter.
* `graph` is the same memory as a hierarchy of values.
-/

import Foldback.Lib.GuardedWalk
import Foldback.Lib.WeakOrder
import Foldback.Core.Io

namespace Foldback.Unreal

open GuardedWalk Radix WeakOrder

/-! ### Memory -/

structure Pointer where
  block : ℕ
  offset : ℕ
  deriving DecidableEq, Repr

def Pointer.plus (ptr : Pointer) (offset : ℕ) : Pointer := ⟨ptr.block, ptr.offset + offset⟩

/-- What a `UObject*` refers to. -/
inductive Reference
  | null
  | identifiable (stableId : BitVec 64)
  | plain
  deriving DecidableEq, Repr

/-- The items of a container, as it iterates. -/
abbrev Container (α : Type) := {items : List α // items.length < 2 ^ 31}

def noItems {α : Type} : Container α := ⟨[], Nat.two_pow_pos 31⟩

/-- What is read at a pointer: a byte, an object, or a container with the places of its items. -/
structure Memory where
  byte : Pointer → UInt8
  object : Pointer → Reference
  array : Pointer → Container Pointer
  map : Pointer → Container (Pointer × Pointer)
  set : Pointer → Container Pointer

def Memory.raw (memory : Memory) (ptr : Pointer) (num : ℕ) : Bytes :=
  (List.range num).map fun i => memory.byte (ptr.plus i)

/-- A component of a math struct. -/
def Memory.component (memory : Memory) (ptr : Pointer) (size i : ℕ) : Bytes :=
  memory.raw (ptr.plus (i * size)) size

/-- `FBoolProperty::GetPropertyValue`. -/
def Memory.bool (memory : Memory) (ptr : Pointer) (byteOffset : ℕ) (fieldMask : UInt8) : Bool :=
  memory.byte (ptr.plus byteOffset) &&& fieldMask ≠ 0

/-! ### Properties -/

abbrev StructId := ℕ

/-- The properties that hold no others. -/
inductive Kind
  | numeric (elementSize : ℕ)
  | bool (byteOffset : ℕ) (fieldMask : UInt8)
  -- The size of the underlying property.
  | enum (elementSize : ℕ)
  -- The sizes of `V.X`, `R.Pitch` and `Q.X`.
  | vector (size : ℕ)
  | rotator (size : ℕ)
  | quat (size : ℕ)
  | object
  | unsupported
  deriving DecidableEq, Repr

/-- The name of a property and its place in its container. -/
structure Field where
  name : String
  offset : ℕ
  deriving DecidableEq, Repr

inductive Property
  | leaf (field : Field) (kind : Kind)
  | struct (field : Field) (id : StructId)
  | array (field : Field) (inner : Property)
  | map (field : Field) (key value : Property)
  | set (field : Field) (element : Property)
  deriving DecidableEq, Repr

def Property.field : Property → Field
  | .leaf field _ | .struct field _ | .array field _ | .map field _ _ | .set field _ => field

/-- `ContainerPtrToValuePtr`. -/
def Property.valuePtr (property : Property) (containerPtr : Pointer) : Pointer :=
  containerPtr.plus property.field.offset

/-- The properties of a struct, in the order of `TFieldIterator`. -/
abbrev Structs := StructId → List Property

/-! ### `SerializeValue` -/

structure Walker where
  outBytes : Bytes
  visited : Finset Pointer

/-- A walk that may fail with `OutError`. -/
abbrev Walking (α : Type) := EStateM String Walker α

def depthExceeded (maxDepth : ℤ) (name : String) : String :=
  "FoldbackHash: max recursion depth (" ++ toString maxDepth ++ ") exceeded at property '" ++ name ++
    "' — likely a reference cycle without an IFoldbackIdentifiable-based cut"

def cycleDetected (name : String) : String :=
  "FoldbackHash: cycle detected walking nested struct at property '" ++ name ++ "'"

def appendRaw (bytes : Bytes) : Walking Unit :=
  modify fun walker => { walker with outBytes := walker.outBytes ++ bytes }

def appendU32 (value : ℕ) : Walking Unit := appendRaw (leBytes 4 value)

/-- `FMemory::Memcmp` of the bytes that both have. -/
def memcmp : Bytes → Bytes → Ordering
  | a :: as, b :: bs => (compare a b).then (memcmp as bs)
  | _, _ => .eq

/-- The comparison of the entries. -/
def less (a b : Bytes) : Bool := memcmp a b = .lt ∨ a.length < b.length

/-- Append to bytes of its own. -/
def separately (walk : Walking Unit) : Walking Bytes := fun walker =>
  match walk { walker with outBytes := [] } with
  | .ok _ after => .ok after.outBytes { after with outBytes := walker.outBytes }
  | .error text after => .error text { after with outBytes := walker.outBytes }

/-- `Visited.Add`, and `Visited.Remove` however the walk ends. -/
def visiting (ptr : Pointer) (walk : Walking Unit) : Walking Unit := fun walker =>
  match walk { walker with visited := insert ptr walker.visited } with
  | .ok _ after => .ok () { after with visited := after.visited.erase ptr }
  | .error text after => .error text { after with visited := after.visited.erase ptr }

section Walk

variable (structs : Structs) (memory : Memory) (sort : Sorter)

def leafBytes (ptr : Pointer) : Kind → Bytes
  | .numeric elementSize => memory.raw ptr elementSize
  | .bool byteOffset fieldMask => [if memory.bool ptr byteOffset fieldMask then 1 else 0]
  | .enum elementSize => memory.raw ptr elementSize
  | .vector size | .rotator size =>
    memory.component ptr size 0 ++ memory.component ptr size 1 ++ memory.component ptr size 2
  | .quat size =>
    memory.component ptr size 0 ++ memory.component ptr size 1 ++ memory.component ptr size 2 ++
      memory.component ptr size 3
  | .object =>
    match memory.object ptr with
    | .null => leBytes 4 0
    | .identifiable stableId => 1 :: leBytes 8 stableId.toNat
    | .plain => [2]
  | .unsupported => []

def serializeValue (maxDepth : ℤ) (property : Property) (valuePtr : Pointer) (depth : ℕ) :
    Walking Unit :=
  if _ : depth > maxDepth then throw (depthExceeded maxDepth property.field.name)
  else
    match property with
    | .leaf _ kind => appendRaw (leafBytes memory valuePtr kind)
    | .struct field id => do
      if valuePtr ∈ (← get).visited then throw (cycleDetected field.name)
      else
        visiting valuePtr (forM (structs id) fun member =>
          serializeValue maxDepth member (member.valuePtr valuePtr) (depth + 1))
    | .array _ inner => do
      let items := (memory.array valuePtr).1
      appendU32 items.length
      forM items fun item => serializeValue maxDepth inner item (depth + 1)
    | .map _ key value => do
      let entries ← (memory.map valuePtr).1.mapM fun entry => do
        let keyBytes ← separately (serializeValue maxDepth key entry.1 (depth + 1))
        let valBytes ← separately (serializeValue maxDepth value entry.2 (depth + 1))
        return (keyBytes, valBytes)
      let sorted := sort (Bytes × Bytes) (fun a b => less a.1 b.1) entries
      appendU32 sorted.length
      forM sorted fun entry => do
        appendRaw entry.1
        appendRaw entry.2
    | .set _ element => do
      let entries ← (memory.set valuePtr).1.mapM fun item =>
        separately (serializeValue maxDepth element item (depth + 1))
      let sorted := sort Bytes less entries
      appendU32 sorted.length
      forM sorted appendRaw
termination_by (maxDepth + 1 - depth).toNat

/-! ### `HashTaggedFields` -/

def getTaggedProperties (hasMetaData : Property → Bool) (id : StructId) : List Property :=
  (structs id).filter hasMetaData

section Tagged

variable {m : Type → Type} [Monad m] (hashField : String → Bytes → m Bool) (maxDepth : ℤ)

/-- One turn of the loop: `bAllOk` before and after. -/
def hashTaggedField (containerPtr : Pointer) (allOk : Bool) (property : Property) : m Bool :=
  match serializeValue structs memory sort maxDepth property (property.valuePtr containerPtr) 0
    ⟨[], ∅⟩ with
  | .error _ _ => pure false
  | .ok _ walker => return (← hashField property.field.name walker.outBytes) && allOk

/-- A field that fails does not keep the others from being hashed. A build without metadata hashes
nothing. -/
def hashTaggedFields (withMetadata : Bool) (hasMetaData : Property → Bool) :
    Option StructId → Option Pointer → m Bool
  | some id, some containerPtr =>
    if withMetadata then
      (getTaggedProperties structs hasMetaData id).foldlM
        (hashTaggedField structs memory sort hashField maxDepth containerPtr) true
    else pure false
  | _, _ => pure false

end Tagged

end Walk

/-! ### The values that are walked -/

/-- A property and the place of its value. -/
abbrev Place := Property × Pointer

/-- What is one level further down. -/
def inside (structs : Structs) (memory : Memory) : Place → List Place
  | (.leaf _ _, _) => []
  | (.struct _ id, ptr) => (structs id).map fun member => (member, member.valuePtr ptr)
  | (.array _ inner, ptr) => (memory.array ptr).1.map fun item => (inner, item)
  | (.map _ key value, ptr) =>
    (memory.map ptr).1.flatMap fun entry => [(key, entry.1), (value, entry.2)]
  | (.set _ element, ptr) => (memory.set ptr).1.map fun item => (element, item)

/-- The values, without paths or records. -/
def graph (structs : Structs) (memory : Memory) : Hierarchy Place Unit Unit Empty where
  extend _ _ := ()
  own _ _ := []
  children place := (inside structs memory place).map fun child => ((), child)

end Foldback.Unreal
