/-
**Reflective hashing of Bevy values, as `bevy.rs` walks them.**

* `ReflectRef` is what `reflect_ref` shows of a value, with the types of structs and enums, which a
  rendering may name. A map or set is what its iterator yields, in that order. `debug` renders a value
  as `{:?}` does; it is a parameter, as are the leaf types `ω` that the code does not know.
* `walk` has one branch for each kind of value. Its guard counts down: `left` is
  `DEFAULT_MAX_DEPTH + 1 - depth`.
* `reflection` is the same tree as a hierarchy: what a value records of its own, and its parts in the
  order in which they are walked. `walk_eq`: **walking a value is carrying out its plan**.
-/

import Foldback.Core.FieldBytes
import Foldback.Core.Session
import Foldback.Lib.GuardedWalk

namespace Foldback.Bevy

open GuardedWalk KeyOrder Radix

/-! ### Reflected values -/

/-- A value with no parts; `usize` and `isize` are those of a 64-bit target. -/
inductive Leaf (ω : Type)
  | int (ty : IntTy) (value : BitVec (8 * ty.bytes))
  | size (signed : Bool) (value : BitVec 64)
  | float (ty : FloatTy) (value : BitVec (8 * ty.bytes))
  | bool (value : Bool)
  | string (value : String)
  | other (value : ω)

/-- `leaf` is `ReflectRef::Opaque`. -/
inductive ReflectRef (ω : Type)
  | struct (typePath : String) (fields : List (String × ReflectRef ω))
  | tupleStruct (typePath : String) (fields : List (ReflectRef ω))
  | tuple (fields : List (ReflectRef ω))
  | list (items : List (ReflectRef ω))
  | array (items : List (ReflectRef ω))
  | map (entries : List (ReflectRef ω × ReflectRef ω))
  | set (items : List (ReflectRef ω))
  | enum (typePath variantName : String) (fields : List (Option String × ReflectRef ω))
  | leaf (leaf : Leaf ω)

variable {ω : Type}

def defaultMaxDepth : ℕ := 8

def joinPath (start field : String) : String :=
  if start.isEmpty then field else start ++ "." ++ field

/-- The bytes `hash_leaf` records. -/
def leafBytes (debug : ReflectRef ω → String) : Leaf ω → Bytes
  | .int ty value => leBytes ty.bytes value.toNat
  | .size _ value => leBytes 8 value.toNat
  | .float ty value => leBytes ty.bytes value.toNat
  | .bool value => [if value then 1 else 0]
  | .string value => asBytes value
  | .other value => asBytes (debug (.leaf (.other value)))

/-- `sort_by` on the rendered texts. -/
def sortByText (entries : List (String × ReflectRef ω)) : List (String × ReflectRef ω) :=
  sortByKey compare Prod.fst entries

/-! ### The walk -/

/-- What the walk borrows: the session, and the preview it pushes to. -/
structure Walking where
  session : Session
  preview : List (String × UInt64)

/-- A call on the session alone. -/
def onSession {α : Type} (attempt : Attempt Session α) : Attempt Walking α := fun walking =>
  match attempt walking.session with
  | .ok result session => .ok result { walking with session }
  | .error error session => .error error { walking with session }

def pushPreview (path : String) (hash : UInt64) : Attempt Walking Unit :=
  modify fun walking => { walking with preview := walking.preview ++ [(path, hash)] }

section Walk

variable (hashBytes : Bytes → UInt64) (debug : ReflectRef ω → String) (tick entityId : UInt64)

def record (path : String) (valueBytes : Bytes) : Attempt Session UInt64 := do
  Session.hashField hashBytes tick entityId path valueBytes
  return hashBytes valueBytes

/-- Record, and push what was recorded. -/
def recordInto (path : String) (valueBytes : Bytes) : Attempt Walking Unit := do
  let hash ← onSession (record hashBytes tick entityId path valueBytes)
  pushPreview path hash

def hashLeaf (path : String) (leaf : Leaf ω) : Attempt Walking Unit :=
  recordInto hashBytes tick entityId path (leafBytes debug leaf)

def walk : ℕ → String → ReflectRef ω → Attempt Walking Unit
  | 0, path, _ => throw (.reflectionDepthExceeded path defaultMaxDepth)
  | left + 1, path, .struct _ fields =>
    forM fields fun field => walk left (joinPath path field.1) field.2
  | left + 1, path, .tupleStruct _ fields =>
    forM fields.zipIdx fun field => walk left (path ++ "." ++ toString field.2) field.1
  | left + 1, path, .tuple fields =>
    forM fields.zipIdx fun field => walk left (path ++ "." ++ toString field.2) field.1
  | left + 1, path, .list items =>
    forM items.zipIdx fun item => walk left (path ++ "[" ++ toString item.2 ++ "]") item.1
  | left + 1, path, .array items =>
    forM items.zipIdx fun item => walk left (path ++ "[" ++ toString item.2 ++ "]") item.1
  | left + 1, path, .map entries =>
    forM (sortByText (entries.map fun entry => (debug entry.1, entry.2))) fun entry =>
      walk left (path ++ "[" ++ entry.1 ++ "]") entry.2
  | left + 1, path, .set items =>
    forM (sortByText (items.map fun item => (debug item, item))) fun item =>
      walk left (path ++ "\x7b" ++ item.1 ++ "\x7d") item.2
  | left + 1, path, .enum _ variantName fields => do
    let variantPath := path ++ "::" ++ variantName
    let variantField := variantPath ++ "#variant"
    recordInto hashBytes tick entityId variantField (asBytes variantName)
    forM fields.zipIdx fun field =>
      let fieldLabel := field.1.1.getD (toString field.2)
      walk left (variantPath ++ "." ++ fieldLabel) field.1.2
  | _ + 1, path, .leaf leaf => hashLeaf hashBytes debug tick entityId path leaf

/-- Run a walk with an empty preview and return it. -/
def withPreview (attempt : Attempt Walking Unit) : Attempt Session (List (String × UInt64)) :=
  fun session =>
    match attempt { session, preview := [] } with
    | .ok _ walking => .ok walking.preview walking.session
    | .error error walking => .error error walking.session

/-- `typeName` and `trackedFields` are what the root's type `T` says of itself. -/
def hashReflected (typeName : String) (trackedFields : List String) (fieldNamePrefix : String)
    (root : ReflectRef ω) : Attempt Session (List (String × UInt64)) :=
  match root with
  | .struct _ fields => do
    Session.recordSchema typeName trackedFields
    withPreview (forM fields fun field =>
      if field.1 ∉ trackedFields then pure ()
      else walk hashBytes debug tick entityId defaultMaxDepth (joinPath fieldNamePrefix field.1)
        field.2)
  | _ => throw .reflectionRootNotStruct

end Walk

/-! ### The tree that is walked -/

/-- How the path of a part extends the path of the whole. -/
inductive Step
  | field (name : String)
  | index (i : ℕ)
  | item (i : ℕ)
  | key (text : String)
  | element (text : String)
  | payload (variantName fieldLabel : String)
  deriving DecidableEq, Repr

def Step.extend (path : String) : Step → String
  | .field name => joinPath path name
  | .index i => path ++ "." ++ toString i
  | .item i => path ++ "[" ++ toString i ++ "]"
  | .key text => path ++ "[" ++ text ++ "]"
  | .element text => path ++ "\x7b" ++ text ++ "\x7d"
  | .payload variantName fieldLabel => path ++ "::" ++ variantName ++ "." ++ fieldLabel

/-- What a value records of its own. -/
def own (debug : ReflectRef ω → String) (path : String) : ReflectRef ω → List (String × Bytes)
  | .enum _ variantName _ => [(path ++ "::" ++ variantName ++ "#variant", asBytes variantName)]
  | .leaf leaf => [(path, leafBytes debug leaf)]
  | _ => []

/-- The parts of a value in the order of the walk. -/
def parts (debug : ReflectRef ω → String) : ReflectRef ω → List (Step × ReflectRef ω)
  | .struct _ fields => fields.map fun field => (.field field.1, field.2)
  | .tupleStruct _ fields | .tuple fields => fields.zipIdx.map fun field => (.index field.2, field.1)
  | .list items | .array items => items.zipIdx.map fun item => (.item item.2, item.1)
  | .map entries =>
    (sortByText (entries.map fun entry => (debug entry.1, entry.2))).map fun entry =>
      (.key entry.1, entry.2)
  | .set items =>
    (sortByText (items.map fun item => (debug item, item))).map fun item => (.element item.1, item.2)
  | .enum _ variantName fields =>
    fields.zipIdx.map fun field =>
      (.payload variantName (field.1.1.getD (toString field.2)), field.1.2)
  | .leaf _ => []

/-- A value as a hierarchy: the records are the field names with their value bytes. -/
def reflection (debug : ReflectRef ω → String) :
    Hierarchy (ReflectRef ω) Step String (String × Bytes) where
  extend := Step.extend
  own := own debug
  children := parts debug

/-- The root as far as it is walked. -/
def tracked (trackedFields : List String) : ReflectRef ω → ReflectRef ω
  | .struct typePath fields =>
    .struct typePath (fields.filter fun field => field.1 ∈ trackedFields)
  | value => value

/-! ### The walk carries out a plan -/

section Plan

variable (hashBytes : Bytes → UInt64) (debug : ReflectRef ω → String) (tick entityId : UInt64)

def emitRecord (recorded : String × Bytes) : Attempt Walking Unit :=
  recordInto hashBytes tick entityId recorded.1 recorded.2

/-- The error of a stop; no value is refused for another reason. -/
def haltAt (stop : Stop String) : Attempt Walking Unit :=
  throw (.reflectionDepthExceeded stop.path defaultMaxDepth)

theorem haltAt_halts : Halts haltAt := fun _ _ => rfl

/-- The plan of a value. -/
def walkPlan (left : ℕ) (path : String) (value : ReflectRef ω) :
    List (String × Bytes) × Option (Stop String) :=
  plan (reflection debug) (fun _ _ => false) left [] path value

/-- The trail does not matter where nothing is refused. -/
theorem plan_trail (left : ℕ) (trail : List (ReflectRef ω)) (path : String) (value : ReflectRef ω) :
    plan (reflection debug) (fun _ _ => false) left trail path value =
      walkPlan debug left path value := by
  induction left generalizing trail path value with
  | zero => rfl
  | succ left ih =>
    rw [walkPlan, plan, plan]
    simp only [ih]

theorem perform_walkPlan (left : ℕ) (path : String) (value : ReflectRef ω) :
    perform (emitRecord hashBytes tick entityId) haltAt (walkPlan debug (left + 1) path value) =
      (forM (own debug path value) (emitRecord hashBytes tick entityId) >>= fun _ =>
        forM (parts debug value) fun part => perform (emitRecord hashBytes tick entityId) haltAt
          (walkPlan debug left (part.1.extend path) part.2)) := by
  rw [walkPlan, perform_plan haltAt_halts, if_neg Bool.false_ne_true]
  simp only [plan_trail]
  rfl

/-- **Walking a value is carrying out its plan.** -/
theorem walk_eq (left : ℕ) (path : String) (value : ReflectRef ω) :
    walk hashBytes debug tick entityId left path value =
      perform (emitRecord hashBytes tick entityId) haltAt (walkPlan debug left path value) := by
  induction left generalizing path value with
  | zero => rfl
  | succ left ih =>
    rw [perform_walkPlan]
    cases value with
    | leaf leaf =>
      show _ = ((hashLeaf hashBytes debug tick entityId path leaf >>= fun _ => pure ()) >>= fun _ =>
        pure ())
      simp only [bind_pure_unit]
      rfl
    | enum typePath variantName fields =>
      show _ = ((recordInto _ _ _ _ _ >>= fun _ => pure ()) >>= fun _ => _)
      simp only [bind_pure_unit, parts, List.forM_map, ← ih]
      rfl
    | _ =>
      show _ = (pure () >>= fun _ => _)
      simp only [pure_bind, parts, List.forM_map, ← ih]
      rfl

/-- **The root is walked as a struct of its tracked fields**, after its schema is recorded. -/
theorem hashReflected_struct (typeName : String) (trackedFields : List String)
    (fieldNamePrefix typePath : String) (fields : List (String × ReflectRef ω)) :
    hashReflected hashBytes debug tick entityId typeName trackedFields fieldNamePrefix
        (.struct typePath fields) =
      (Session.recordSchema typeName trackedFields >>= fun _ =>
        withPreview (walk hashBytes debug tick entityId (defaultMaxDepth + 1) fieldNamePrefix
          (tracked trackedFields (.struct typePath fields)))) := by
  rw [hashReflected, tracked, walk, ← forM_filter]
  simp only [decide_eq_false_iff_not]

end Plan

end Foldback.Bevy
