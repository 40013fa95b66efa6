/-
**Reflective hashing of C# objects, as `FoldbackReflection.cs` walks them.**

* `Heap` is what the walk can reach: every object has its shape, a set and a dictionary with the order
  in which it enumerates. Reading a member has no effect. A boxed value type is an object of its own.
* `toString` is the game's; it may read the whole heap. `native` says which exception the session
  throws after its calls, if any.
* `walk` guards itself twice. The set of the objects that are being walked is handed down: the
  `finally` takes an object out again.
* `graph` is the same heap as a hierarchy.
-/

import Foldback.Lib.GuardedWalk
import Foldback.Lib.KeyOrder
import Foldback.Unity.Text

namespace Foldback.Unity

open GuardedWalk KeyOrder Radix

/-! ### Objects -/

inductive Integral
  | byte
  | sbyte
  | short
  | ushort
  | int
  | uint
  | long
  | ulong
  deriving DecidableEq, Repr

/-- The number of bytes. -/
def Integral.width : Integral → ℕ
  | .byte | .sbyte => 1
  | .short | .ushort => 2
  | .int | .uint => 4
  | .long | .ulong => 8

/-- The values that `TryLeafBytes` knows. -/
inductive Leaf
  | bool (value : Bool)
  | integral (ty : Integral) (value : BitVec (8 * ty.width))
  | float (bits : BitVec 32)
  | double (bits : BitVec 64)
  | char (unit : UInt16)
  | string (text : Text)
  | enum (name : Text) (underlying : Integral) (value : BitVec (8 * underlying.width))
  deriving DecidableEq

def leafBytes : Leaf → Bytes
  | .bool value => [if value then 1 else 0]
  | .integral ty value => leBytes ty.width value.toNat
  | .float bits => leBytes 4 bits.toNat
  | .double bits => leBytes 8 bits.toNat
  | .char unit => leBytes 2 unit.toNat
  | .string text => utf8 text
  -- An enum is converted to its underlying type first.
  | .enum _ underlying value => leBytes underlying.width value.toNat

abbrev ObjectId := ℕ

/-- A reference, or `null`. -/
abbrev Value := Option ObjectId

/-- What `WalkTyped` makes of an object, by the order of its cases. -/
inductive Shape
  | leaf (leaf : Leaf)
  | set (items : List Value)
  | dictionary (entries : List (Value × Value))
  | sequence (items : List Value)
  | compound (members : List (Text × Value))

structure Node where
  isValueType : Bool
  shape : Shape

abbrev Heap := ObjectId → Node

/-- The object that is hashed: the full name of its type and its tracked members. -/
structure Root where
  typeName : Text
  members : List (Text × Value)

/-! ### Calls on the session -/

inductive Call
  | recordSchema (typeName : Text) (fieldNames : List Text)
  | hashField (path : Text) (bytes : Bytes)
  deriving DecidableEq, Repr

/-- The calls made on the session, the types whose schema it has, and the preview. -/
structure Recording where
  calls : List Call
  schemas : List Text
  preview : List (Text × UInt64)

/-- A call that may throw an exception with a message. -/
abbrev Throwing (σ α : Type) := EStateM Text σ α

/-- FNV-1a. -/
def foldbackHashBytes (bytes : Bytes) : UInt64 :=
  bytes.foldl (fun hash byte => (hash ^^^ byte.toUInt64) * 1099511628211) 14695981039346656037

def defaultMaxDepth : ℕ := 8

def depthExceeded (path : Text) : Text :=
  units ("reflective hash walk exceeded max depth " ++ defaultMaxDepth.repr ++ " at '") ++ path ++
    units "' — likely a cyclic or self-referential reflected object graph"

def cycleFound (path : Text) : Text :=
  units "reflective hash walk found a reference cycle at '" ++ path ++ units "'"

def joinPath (fieldNamePrefix member : Text) : Text :=
  if fieldNamePrefix = [] then member else fieldNamePrefix ++ units "." ++ member

/-- `OrderBy(entry => entry.Text, StringComparer.Ordinal)`. -/
def orderByText {α : Type} (entries : List (Text × α)) : List (Text × α) :=
  sortByKey compare Prod.fst entries

section Walk

variable (native : List Call → Option Text) (toString : Heap → ObjectId → Option Text) (heap : Heap)

def call (made : Call) : Throwing Recording Unit := fun recording =>
  let after := { recording with calls := recording.calls ++ [made] }
  match native after.calls with
  | none => .ok () after
  | some message => .error message after

def recordSchemaOnce (root : Root) : Throwing Recording Unit := fun recording =>
  if root.typeName ∈ recording.schemas then .ok () recording
  else
    call native (.recordSchema root.typeName (root.members.map Prod.fst))
      { recording with schemas := recording.schemas ++ [root.typeName] }

def record (path : Text) (bytes : Bytes) : Throwing Recording Unit := do
  call native (.hashField path bytes)
  modify fun recording =>
    { recording with preview := recording.preview ++ [(path, foldbackHashBytes bytes)] }

/-- `key?.ToString() ?? "null"`. -/
def renderKey (key : Value) : Text := (key.bind (toString heap)).getD (units "null")

def walk (path : Text) (value : Value) (depth : ℕ) (visited : Finset ObjectId) :
    Throwing Recording Unit :=
  if _ : depth > defaultMaxDepth then throw (depthExceeded path)
  else
    match value with
    | none => record native path [0xFF]
    | some id =>
      if (heap id).isValueType = false ∧ id ∈ visited then throw (cycleFound path)
      else
        let visited := if (heap id).isValueType then visited else insert id visited
        match (heap id).shape with
        | .leaf leaf => record native path (leafBytes leaf)
        | .set items =>
          forM (orderByText (items.map fun item => (renderKey toString heap item, item)))
            fun entry => walk (path ++ (units "\x7b" ++ entry.1 ++ units "\x7d")) entry.2 (depth + 1)
              visited
        | .dictionary entries =>
          forM (orderByText (entries.map fun entry => (renderKey toString heap entry.1, entry.2)))
            fun entry =>
              walk (path ++ (units "[" ++ entry.1 ++ units "]")) entry.2 (depth + 1) visited
        | .sequence items =>
          forM items.zipIdx fun item =>
            walk (path ++ (units "[" ++ units item.2.repr ++ units "]")) item.1 (depth + 1) visited
        | .compound members =>
          forM members fun member =>
            walk (path ++ (units "." ++ member.1)) member.2 (depth + 1) visited
termination_by defaultMaxDepth + 1 - depth

def hashReflected (fieldNamePrefix : Text) (root : Root) :
    Throwing Recording (List (Text × UInt64)) := do
  recordSchemaOnce native root
  modify fun recording => { recording with preview := [] }
  forM root.members fun member =>
    walk native toString heap (joinPath fieldNamePrefix member.1) member.2 1 ∅
  return (← get).preview

end Walk

/-! ### The graph that is walked -/

/-- How the path of a value that is reached extends the path of what it is reached from. -/
inductive Step
  | element (text : Text)
  | entry (text : Text)
  | item (i : ℕ)
  | member (name : Text)
  deriving DecidableEq, Repr

def Step.label : Step → Text
  | .element text => units "\x7b" ++ text ++ units "\x7d"
  | .entry text => units "[" ++ text ++ units "]"
  | .item i => units "[" ++ units i.repr ++ units "]"
  | .member name => units "." ++ name

section Graph

variable (toString : Heap → ObjectId → Option Text) (heap : Heap)

/-- The record of `null` or of a leaf. -/
def own (path : Text) : Value → List (Text × Bytes)
  | none => [(path, [0xFF])]
  | some id =>
    match (heap id).shape with
    | .leaf leaf => [(path, leafBytes leaf)]
    | _ => []

/-- What is reached in one step, sets and dictionaries by their texts. -/
def held : Value → List (Step × Value)
  | none => []
  | some id =>
    match (heap id).shape with
    | .leaf _ => []
    | .set items =>
      (orderByText (items.map fun item => (renderKey toString heap item, item))).map fun entry =>
        (.element entry.1, entry.2)
    | .dictionary entries =>
      (orderByText (entries.map fun entry => (renderKey toString heap entry.1, entry.2))).map
        fun entry => (.entry entry.1, entry.2)
    | .sequence items => items.zipIdx.map fun item => (.item item.2, item.1)
    | .compound members => members.map fun member => (.member member.1, member.2)

def graph : Hierarchy Value Step Text (Text × Bytes) where
  extend path step := path ++ step.label
  own := own heap
  children := held toString heap

/-- The reference types among some values. -/
def referencesOf (trail : List Value) : Finset ObjectId :=
  (trail.filterMap fun value => value.filter fun id => !(heap id).isValueType).toFinset

/-- An object of a reference type that is among the values above it. -/
def isRevisit (trail : List Value) : Value → Bool
  | none => false
  | some id => (heap id).isValueType = false ∧ id ∈ referencesOf heap trail

end Graph

end Foldback.Unity
