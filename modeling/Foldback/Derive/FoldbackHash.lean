/-
**`#[derive(FoldbackHash)]`, as `foldback-derive` expands it.**

* `SynPath`, `Attribute`, `Field`, `Fields` and `DeriveInput` are what the code looks at in the
  syntax tree. Of an attribute's arguments it only sees what its two readings give: one identifier,
  or a list of paths.
* `Derive.fieldMarking` and `deriveFoldbackHash` are the two functions. The generated impl is kept as
  its two constants and the names of the fields that `write_hashed_fields` hashes, in order.
* `Derive.deriveFoldbackHash_named`: **an impl lists the fields by their markings.**
-/

import Mathlib

namespace Foldback

/-! ### Syntax -/

structure PathSegment where
  ident : String
  hasArguments : Bool := false
  deriving DecidableEq, Repr

structure SynPath where
  leadingColon : Bool := false
  segments : List PathSegment
  deriving DecidableEq, Repr

/-- The path is the one identifier. -/
def SynPath.isIdent (path : SynPath) (name : String) : Bool :=
  !path.leadingColon && decide (path.segments = [{ ident := name }])

/-- `ident` is what `parse_args::<Ident>` reads, `paths` what `parse_args_with` reads as a list of
paths separated by commas. -/
structure Attribute where
  path : SynPath
  ident : Option String
  paths : Option (List SynPath)
  deriving DecidableEq, Repr

structure Field where
  attrs : List Attribute
  ident : String
  deriving DecidableEq, Repr

inductive Fields
  | named (fields : List Field)
  | unnamed
  | unit
  deriving DecidableEq, Repr

inductive Data
  | struct (fields : Fields)
  | enum
  | union
  deriving DecidableEq, Repr

structure DeriveInput where
  ident : String
  data : Data
  deriving DecidableEq, Repr

/-! ### The derive -/

namespace Derive

/-- The macro's own errors, and `syn`'s for an attribute that is not one identifier. -/
inductive SynError
  | parseArgs
  | newSpanned (message : String)
  deriving DecidableEq, Repr

inductive FieldMarking
  | hash
  | reflect
  | skip
  | unmarked
  deriving DecidableEq, Repr

/-- The first `#[foldback(..)]` decides. -/
def fieldMarking : List Attribute → Except SynError FieldMarking
  | [] => .ok .unmarked
  | attr :: attrs =>
    if !attr.path.isIdent "foldback" then fieldMarking attrs
    else
      match attr.ident with
      | none => .error .parseArgs
      | some ident =>
        if ident = "hash" then .ok .hash
        else if ident = "reflect" then .ok .reflect
        else if ident = "skip" then .ok .skip
        else .error (.newSpanned ("unknown #[foldback(...)] marking '" ++ ident ++
          "' — expected 'hash', 'reflect', or 'skip'"))

/-- The generated impl; `hashCalls` are the fields hashed by `write_hashed_fields`. -/
structure Impl where
  name : String
  trackedFields : List String := []
  untrackedFields : List String := []
  hashCalls : List String := []
  deriving DecidableEq, Repr

/-- The loop's body for a field with this marking. -/
def Impl.add (expanded : Impl) (fieldName : String) : FieldMarking → Impl
  | .hash =>
    { expanded with
      hashCalls := expanded.hashCalls ++ [fieldName]
      trackedFields := expanded.trackedFields ++ [fieldName] }
  | .reflect => { expanded with trackedFields := expanded.trackedFields ++ [fieldName] }
  | .skip => expanded
  | .unmarked => { expanded with untrackedFields := expanded.untrackedFields ++ [fieldName] }

def addField (expanded : Impl) (field : Field) : Except SynError Impl := do
  let marking ← fieldMarking field.attrs
  return expanded.add field.ident marking

def deriveFoldbackHash (input : DeriveInput) : Except SynError Impl :=
  match input.data with
  | .struct (.named fields) => fields.foldlM addField { name := input.ident }
  | .struct _ =>
    .error (.newSpanned "#[derive(FoldbackHash)] requires named fields (not a tuple or unit struct)")
  | _ => .error (.newSpanned "#[derive(FoldbackHash)] only supports structs")

/-! ### What an impl lists -/

/-- The fields with a marking that passes, in order. -/
def marked (passes : FieldMarking → Bool) (fields : List Field) : List String :=
  (fields.filter fun field => (fieldMarking field.attrs).toOption.any passes).map Field.ident

def FieldMarking.isTracked : FieldMarking → Bool
  | .hash | .reflect => true
  | .skip | .unmarked => false

theorem foldlM_addField {fields : List Field} {start expanded : Impl}
    (ok : fields.foldlM addField start = .ok expanded) :
    (∀ field ∈ fields, ∃ marking, fieldMarking field.attrs = .ok marking) ∧
      expanded =
        { name := start.name
          trackedFields := start.trackedFields ++ marked FieldMarking.isTracked fields
          untrackedFields := start.untrackedFields ++ marked (· == .unmarked) fields
          hashCalls := start.hashCalls ++ marked (· == .hash) fields } := by
  induction fields generalizing start with
  | nil =>
    cases ok
    exact ⟨fun field member => absurd member List.not_mem_nil, by simp [marked]⟩
  | cons field fields ih =>
    rw [List.foldlM_cons] at ok
    rcases reads : fieldMarking field.attrs with error | marking
    · rw [addField, reads] at ok
      cases ok
    · rw [addField, reads] at ok
      obtain ⟨all, lists⟩ := ih ok
      refine ⟨fun other member => ?_, ?_⟩
      · rcases List.mem_cons.mp member with rfl | later
        · exact ⟨marking, reads⟩
        · exact all other later
      · rw [lists]
        cases marking <;>
          simp [Impl.add, marked, reads, FieldMarking.isTracked, Except.toOption]

/-- **An impl lists the fields by their markings**, and every marking was read. -/
theorem deriveFoldbackHash_named {ident : String} {fields : List Field} {expanded : Impl}
    (ok : deriveFoldbackHash ⟨ident, .struct (.named fields)⟩ = .ok expanded) :
    (∀ field ∈ fields, ∃ marking, fieldMarking field.attrs = .ok marking) ∧
      expanded =
        { name := ident
          trackedFields := marked FieldMarking.isTracked fields
          untrackedFields := marked (· == .unmarked) fields
          hashCalls := marked (· == .hash) fields } :=
  foldlM_addField ok

end Derive

end Foldback
