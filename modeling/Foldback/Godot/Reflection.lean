/-
**Reflective hashing of Godot objects, as `reflection.rs` walks them.**

* `Heap` is what the engine holds. Objects, arrays and dictionaries are shared by reference, so they
  may contain themselves. Reading a property has no effect. `Gd` is a reference to a live object.
* An array or dictionary is read as the untyped one that it converts to. `stringify` renders a value
  as the engine does; it is a parameter, as are the value types `ω` that `leaf_bytes` does not know.
* `walk` guards itself twice: a depth that is too large is an error at every value, an object that is
  already in the visited set is one at objects only.
* `graph` is the same heap as a hierarchy. `isRevisit`: an object that is also above itself.
-/

import Foldback.Core.Session
import Foldback.Lib.GuardedWalk

namespace Foldback.Godot

open GuardedWalk Radix

/-! ### The engine -/

abbrev InstanceId := UInt64

/-- Where an array or a dictionary is held. -/
abbrev ContainerId := ℕ

/-- A value; vectors and colors have components of single precision. -/
inductive Variant (ω : Type)
  | nil
  | object (id : InstanceId)
  | array (id : ContainerId)
  | dictionary (id : ContainerId)
  | bool (value : Bool)
  | int (value : BitVec 64)
  | float (value : BitVec 64)
  | string (value : String)
  | vector2 (x y : BitVec 32)
  | vector3 (x y z : BitVec 32)
  | vector4 (x y z w : BitVec 32)
  | color (r g b a : BitVec 32)
  | other (value : ω)
  deriving DecidableEq

/-- An object: the entry `name` of each property, what a property reads as, the `class_name` of its
script if there is one, and its native class. -/
structure Object (ω : Type) where
  propertyList : List (Option (Variant ω))
  get : String → Variant ω
  globalName : Option String
  className : String

structure Heap (ω : Type) where
  object : InstanceId → Option (Object ω)
  array : ContainerId → List (Variant ω)
  dictionary : ContainerId → List (Variant ω × Variant ω)

variable {ω : Type}

/-- A live object. -/
structure Gd (heap : Heap ω) where
  id : InstanceId
  object : Object ω
  live : heap.object id = some object

def defaultMaxDepth : ℕ := 8

def trackedPrefix : String := "foldback_"

/-- `starts_with(TRACKED_PREFIX)`. -/
def IsTracked (name : String) : Prop := trackedPrefix.toList <+: name.toList

instance (name : String) : Decidable (IsTracked name) :=
  inferInstanceAs (Decidable (trackedPrefix.toList <+: name.toList))

/-- Entries without a string are skipped. -/
def propertyNames (object : Object ω) : List String :=
  object.propertyList.filterMap fun
    | some (.string name) => some name
    | _ => none

/-- The tracked and the untracked property names. -/
def listTracked (object : Object ω) : List String × List String :=
  (propertyNames object).partition (IsTracked ·)

def schemaTypeName (object : Object ω) : String :=
  match object.globalName with
  | some name => if name.isEmpty then object.className else name
  | none => object.className

/-- The components of single precision, one after another. -/
def singles (components : List (BitVec 32)) : Bytes :=
  components.flatMap fun component => leBytes 4 component.toNat

def leafBytes (stringify : Variant ω → String) : Variant ω → Bytes
  | .bool value => [if value then 1 else 0]
  | .int value => leBytes 8 value.toNat
  | .float value => leBytes 8 value.toNat
  | .string value => asBytes value
  | .vector2 x y => singles [x, y]
  | .vector3 x y z => singles [x, y, z]
  | .vector4 x y z w => singles [x, y, z, w]
  | .color r g b a => singles [r, g, b, a]
  | value => asBytes (stringify value)

/-! ### The walk -/

/-- The session, and the preview of what was recorded. -/
structure Recording where
  session : Session
  preview : List (String × UInt64)

/-- A recording, and the objects that are being walked. -/
structure Walking where
  recording : Recording
  visited : Finset InstanceId

/-- A call that may fail with a text. -/
abbrev Described (σ α : Type) := EStateM String σ α

def mapErr (describe : Error → String) (attempt : Attempt Session Unit) :
    Described Session Unit := fun session =>
  match attempt session with
  | .ok _ after => .ok () after
  | .error error after => .error (describe error) after

def onRecording (attempt : Described Recording Unit) : Described Walking Unit := fun walking =>
  match attempt walking.recording with
  | .ok _ recording => .ok () { walking with recording }
  | .error error recording => .error error { walking with recording }

def depthExceeded (path : String) : String :=
  "reflective hash walk exceeded max depth " ++ toString defaultMaxDepth ++ " at '" ++ path ++
    "' — likely a cyclic or self-referential reflected object graph"

def cycleFound (path : String) : String :=
  "reflective hash walk found a reference cycle at '" ++ path ++ "'"

/-- `visited.insert`, the walk of the object, `visited.remove`: the object is removed also when its
walk failed. -/
def whileVisited (id : InstanceId) (path : String) (attempt : Described Walking Unit) :
    Described Walking Unit := fun walking =>
  if id ∈ walking.visited then .error (cycleFound path) walking
  else
    match attempt { walking with visited := insert id walking.visited } with
    | .ok _ after => .ok () { after with visited := after.visited.erase id }
    | .error error after => .error error { after with visited := after.visited.erase id }

section Walk

variable (hashBytes : Bytes → UInt64) (ioText : IoError → String) (stringify : Variant ω → String)
  (heap : Heap ω) (tick entityId : UInt64)

def record (path : String) (bytes : Bytes) : Described Recording Unit := fun recording =>
  let hashField := mapErr
    (fun error => "hash_field failed for '" ++ path ++ "': " ++ error.display ioText)
    (Session.hashField hashBytes tick entityId path bytes)
  match hashField recording.session with
  | .ok _ session =>
    .ok () { session, preview := recording.preview ++ [(path, hashBytes bytes)] }
  | .error error session => .error error { recording with session }

/-- `walkValue` is the walk one step deeper. -/
def walkObject (walkValue : String → Variant ω → Described Walking Unit) (path : String)
    (object : Object ω) : Described Walking Unit :=
  forM (propertyNames object) fun name =>
    if ¬ IsTracked name then pure ()
    else walkValue (path ++ "." ++ name) (object.get name)

def walk (path : String) (value : Variant ω) (depth : ℕ) : Described Walking Unit :=
  if _ : depth > defaultMaxDepth then throw (depthExceeded path)
  else
    match value with
    | .nil => onRecording (record hashBytes ioText tick entityId path [0xFF])
    | .object id =>
      match heap.object id with
      -- A freed reference is recorded as `nil` is.
      | none => onRecording (record hashBytes ioText tick entityId path [0xFF])
      | some object =>
        whileVisited id path
          (walkObject (fun path value => walk path value (depth + 1)) path object)
    | .array id =>
      forM (heap.array id).zipIdx fun item =>
        walk (path ++ "[" ++ toString item.2 ++ "]") item.1 (depth + 1)
    | .dictionary id =>
      forM (heap.dictionary id) fun entry =>
        walk (path ++ "[" ++ stringify entry.1 ++ "]") entry.2 (depth + 1)
    | leaf => onRecording (record hashBytes ioText tick entityId path (leafBytes stringify leaf))
termination_by defaultMaxDepth + 1 - depth

/-- Run a walk with nothing visited and an empty preview, and return the preview. -/
def withPreview (attempt : Described Walking Unit) :
    Described Session (List (String × UInt64)) := fun session =>
  match attempt { recording := { session, preview := [] }, visited := ∅ } with
  | .ok _ walking => .ok walking.recording.preview walking.recording.session
  | .error error walking => .error error walking.recording.session

def hashReflected (fieldNamePrefix : String) (target : Gd heap) :
    Described Session (List (String × UInt64)) := do
  mapErr (fun error => "record_schema failed: " ++ error.display ioText)
    (Session.recordSchema (schemaTypeName target.object) (listTracked target.object).1)
  withPreview (walk hashBytes ioText stringify heap tick entityId fieldNamePrefix
    (.object target.id) 0)

end Walk

/-! ### The graph that is walked -/

/-- How the path of a value that is held extends the path of what holds it. -/
inductive Step
  | property (name : String)
  | item (i : ℕ)
  | entry (key : String)
  deriving DecidableEq, Repr

def Step.extend (path : String) : Step → String
  | .property name => path ++ "." ++ name
  | .item i => path ++ "[" ++ toString i ++ "]"
  | .entry key => path ++ "[" ++ key ++ "]"

section Graph

variable (stringify : Variant ω → String) (heap : Heap ω)

/-- The record of a leaf. -/
def own (path : String) : Variant ω → List (String × Bytes)
  | .nil => [(path, [0xFF])]
  | .object id => if (heap.object id).isSome then [] else [(path, [0xFF])]
  | .array _ | .dictionary _ => []
  | leaf => [(path, leafBytes stringify leaf)]

/-- The tracked properties of an object, the elements of an array, the values of a dictionary. -/
def held : Variant ω → List (Step × Variant ω)
  | .object id =>
    match heap.object id with
    | none => []
    | some object => ((propertyNames object).filter (IsTracked ·)).map fun name =>
        (.property name, object.get name)
  | .array id => (heap.array id).zipIdx.map fun item => (.item item.2, item.1)
  | .dictionary id => (heap.dictionary id).map fun entry => (.entry (stringify entry.1), entry.2)
  | _ => []

/-- What is reached from a value as a hierarchy: the records are the paths with their bytes. -/
def graph : Hierarchy (Variant ω) Step String (String × Bytes) where
  extend := Step.extend
  own := own stringify heap
  children := held stringify heap

/-- The live object that a value refers to. -/
def identity : Variant ω → Option InstanceId
  | .object id => if (heap.object id).isSome then some id else none
  | _ => none

/-- The objects among some values. -/
def objectsOf (trail : List (Variant ω)) : Finset InstanceId :=
  (trail.filterMap (identity heap)).toFinset

/-- A live object that is among the values above it. -/
def isRevisit (trail : List (Variant ω)) (value : Variant ω) : Bool :=
  match identity heap value with
  | some id => id ∈ objectsOf heap trail
  | none => false

variable {heap}

theorem identity_eq_some {value : Variant ω} {id : InstanceId} :
    identity heap value = some id ↔ value = .object id ∧ (heap.object id).isSome := by
  cases value with
  | object other =>
    rw [identity]
    split
    · rename_i live
      rw [Option.some.injEq, Variant.object.injEq]
      exact ⟨fun same => ⟨same, same ▸ live⟩, fun both => both.1⟩
    · rename_i freed
      refine ⟨fun none => absurd none (by simp), fun both => absurd both.2 ?_⟩
      rwa [← Variant.object.inj both.1]
  | _ => simp [identity]

theorem mem_of_isRevisit (trail : List (Variant ω)) (value : Variant ω)
    (revisit : isRevisit heap trail value = true) : value ∈ trail := by
  unfold isRevisit at revisit
  split at revisit
  · rename_i id isObject
    obtain ⟨above, onTrail, same⟩ :=
      List.mem_filterMap.mp (List.mem_toFinset.mp (of_decide_eq_true revisit))
    rw [(identity_eq_some.mp isObject).1, ← (identity_eq_some.mp same).1]
    exact onTrail
  · cases revisit

end Graph

end Foldback.Godot
