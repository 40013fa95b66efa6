/-
**The scanner of `foldback lint`, against the derive macro it mirrors.**

* `collectTrackedStructs`, `Lint.fieldMarking` and `derivesFoldbackHash` are the functions of
  `lint.rs`, over the tree of items and inline modules. The scanner looks for the bare identifier
  `FoldbackHash`.
* `resolves modules path` says whether a path, written in the module, names the macro.
* `collectTrackedStructs_eq`: the scan of a tree is the scan of its definitions, one by one.
* `scan_agrees_iff`: **the scanner reports what the derive generates exactly when the macro is
  derived by its bare name, and nothing else is**.
-/

import Foldback.Derive.FoldbackHash

namespace Foldback

open Derive (deriveFoldbackHash marked)

/-! ### The scanner -/

/-- `mod` is an inline module; `other` is every item that is not one of these, `mod name;` too. -/
inductive Item
  | struct (attrs : List Attribute) (ident : String) (fields : Fields)
  | enum (attrs : List Attribute) (ident : String)
  | union (attrs : List Attribute) (ident : String)
  | mod (ident : String) (content : List Item)
  | other

structure TrackedType where
  name : String
  file : String
  tracked : List String
  untracked : List String
  deriving DecidableEq, Repr

namespace Lint

inductive FieldMarking
  | tracked
  | skip
  | unmarked
  deriving DecidableEq, Repr

/-- The first `#[foldback(..)]` whose argument is one identifier decides. -/
def fieldMarking : List Attribute → FieldMarking
  | [] => .unmarked
  | attr :: attrs =>
    if !attr.path.isIdent "foldback" then fieldMarking attrs
    else
      match attr.ident with
      | none => fieldMarking attrs
      | some ident =>
        if ident = "hash" ∨ ident = "reflect" then .tracked
        else if ident = "skip" then .skip
        else .unmarked

end Lint

def derivesFoldbackHash : List Attribute → Bool
  | [] => false
  | attr :: attrs =>
    if !attr.path.isIdent "derive" then derivesFoldbackHash attrs
    else
      match attr.paths with
      | none => derivesFoldbackHash attrs
      | some paths =>
        if paths.any (·.isIdent "FoldbackHash") then true else derivesFoldbackHash attrs

def TrackedType.add (found : TrackedType) (field : Field) : TrackedType :=
  match Lint.fieldMarking field.attrs with
  | .tracked => { found with tracked := found.tracked ++ [field.ident] }
  | .skip => found
  | .unmarked => { found with untracked := found.untracked ++ [field.ident] }

mutual

/-- The body of the loop over the items. -/
def collectItem (path : String) (out : List TrackedType) : Item → List TrackedType
  | .struct attrs ident fields =>
    if !derivesFoldbackHash attrs then out
    else
      match fields with
      | .named fields =>
        out ++ [fields.foldl TrackedType.add
          { name := ident, file := path, tracked := [], untracked := [] }]
      | _ => out
  | .mod _ content => collectTrackedStructs path out content
  | _ => out

def collectTrackedStructs (path : String) (out : List TrackedType) : List Item → List TrackedType
  | [] => out
  | item :: items => collectTrackedStructs path (collectItem path out item) items

end

/-! ### The definitions of a file -/

/-- A definition a derive can be put on, and the inline modules it stands in, outermost first. -/
structure Definition where
  modules : List String
  attrs : List Attribute
  input : DeriveInput
  deriving DecidableEq, Repr

mutual

def definitionsOf (modules : List String) : Item → List Definition
  | .struct attrs ident fields => [⟨modules, attrs, ident, .struct fields⟩]
  | .enum attrs ident => [⟨modules, attrs, ident, .enum⟩]
  | .union attrs ident => [⟨modules, attrs, ident, .union⟩]
  | .mod ident content => definitions (modules ++ [ident]) content
  | .other => []

/-- Every struct, enum and union of a file, in order. -/
def definitions (modules : List String) : List Item → List Definition
  | [] => []
  | item :: items => definitionsOf modules item ++ definitions modules items

end

/-- What the scanner reports for a definition that stands alone in a file. -/
def Definition.scanned (path : String) (found : Definition) : List TrackedType :=
  match found.input.data with
  | .struct fields => collectTrackedStructs path [] [.struct found.attrs found.input.ident fields]
  | .enum => collectTrackedStructs path [] [.enum found.attrs found.input.ident]
  | .union => collectTrackedStructs path [] [.union found.attrs found.input.ident]

theorem collectItem_struct (path : String) (out : List TrackedType) (attrs : List Attribute)
    (ident : String) (fields : Fields) :
    collectItem path out (.struct attrs ident fields) =
      out ++ collectItem path [] (.struct attrs ident fields) := by
  simp only [collectItem]
  split
  · rw [List.append_nil]
  · split
    · rfl
    · rw [List.append_nil]

mutual

theorem collectItem_eq (path : String) (modules : List String) (out : List TrackedType) :
    (item : Item) → collectItem path out item =
      out ++ (definitionsOf modules item).flatMap (Definition.scanned path)
  | .struct attrs ident fields => by
    rw [collectItem_struct, definitionsOf, List.flatMap_singleton]
    rfl
  | .enum attrs ident => (List.append_nil out).symm
  | .union attrs ident => (List.append_nil out).symm
  | .mod ident content => collectTrackedStructs_eq path (modules ++ [ident]) out content
  | .other => (List.append_nil out).symm

/-- **The scan of a tree is the scan of its definitions**, each once and in order. -/
theorem collectTrackedStructs_eq (path : String) (modules : List String) (out : List TrackedType) :
    (items : List Item) → collectTrackedStructs path out items =
      out ++ (definitions modules items).flatMap (Definition.scanned path)
  | [] => (List.append_nil out).symm
  | item :: items => by
    rw [collectTrackedStructs, collectTrackedStructs_eq path modules _ items,
      collectItem_eq path modules out item, definitions, List.flatMap_append, List.append_assoc]

end

/-! ### What the derive generates -/

/-- The paths of all `#[derive(..)]` lists of an item. -/
def derivePaths (attrs : List Attribute) : List SynPath :=
  (attrs.filter (·.path.isIdent "derive")).flatMap fun attr => attr.paths.getD []

section Resolve

variable (resolves : List String → SynPath → Bool)

/-- The definition's derive list names the macro. -/
def Definition.derives (found : Definition) : Bool :=
  (derivePaths found.attrs).any (resolves found.modules)

/-- Every use of the derive compiles. -/
def Compiles (items : List Item) : Prop :=
  ∀ found ∈ definitions [] items, found.derives resolves = true →
    ∃ expanded, deriveFoldbackHash found.input = .ok expanded

/-- What the impl generated for a definition tells, in the scanner's words. -/
def Definition.derived (path : String) (found : Definition) : List TrackedType :=
  if found.derives resolves then
    match deriveFoldbackHash found.input with
    | .ok expanded =>
      [{ name := expanded.name, file := path
         tracked := expanded.trackedFields, untracked := expanded.untrackedFields }]
    | .error _ => []
  else []

/-- Structs with named fields derive the macro by its bare name, and no other macro of that name. -/
def DerivedByName (items : List Item) : Prop :=
  ∀ found ∈ definitions [] items, ∀ fields, found.input.data = .struct (.named fields) →
    ((∃ path ∈ derivePaths found.attrs, path.isIdent "FoldbackHash" = true) ↔
      ∃ path ∈ derivePaths found.attrs, resolves found.modules path = true)

end Resolve

theorem derivesFoldbackHash_iff (attrs : List Attribute) :
    derivesFoldbackHash attrs = true ↔
      ∃ path ∈ derivePaths attrs, path.isIdent "FoldbackHash" = true := by
  induction attrs with
  | nil =>
    constructor
    · intro derives
      cases derives
    · intro ⟨path, member, _⟩
      cases member
  | cons attr attrs ih =>
    unfold derivesFoldbackHash
    by_cases isDerive : attr.path.isIdent "derive" = true
    · have paths : derivePaths (attr :: attrs) = attr.paths.getD [] ++ derivePaths attrs := by
        unfold derivePaths
        rw [List.filter_cons, if_pos isDerive, List.flatMap_cons]
      rw [paths, isDerive, if_neg (by decide)]
      rcases attr.paths with _ | listed
      · exact ih
      · show (if listed.any (·.isIdent "FoldbackHash") then true else _) = true ↔ _
        by_cases named : listed.any (·.isIdent "FoldbackHash") = true
        · rw [if_pos named]
          obtain ⟨path, member, bare⟩ := List.any_eq_true.mp named
          exact ⟨fun _ => ⟨path, List.mem_append_left _ member, bare⟩, fun _ => rfl⟩
        · rw [if_neg named, ih]
          constructor
          · intro ⟨path, member, bare⟩
            exact ⟨path, List.mem_append_right _ member, bare⟩
          · intro ⟨path, member, bare⟩
            rcases List.mem_append.mp member with here | later
            · exact absurd (List.any_eq_true.mpr ⟨path, here, bare⟩) named
            · exact ⟨path, later, bare⟩
    · have paths : derivePaths (attr :: attrs) = derivePaths attrs := by
        unfold derivePaths
        rw [List.filter_cons, if_neg isDerive]
      rw [paths, ← ih, Bool.eq_false_of_not_eq_true isDerive]
      rfl

/-! ### The two readings of a marking -/

/-- The scanner's word for a marking of the derive. -/
def Derive.FieldMarking.scanned : Derive.FieldMarking → Lint.FieldMarking
  | .hash | .reflect => .tracked
  | .skip => .skip
  | .unmarked => .unmarked

/-- **What the derive reads, the scanner reads.** -/
theorem fieldMarking_scanned {attrs : List Attribute} {marking : Derive.FieldMarking}
    (reads : Derive.fieldMarking attrs = .ok marking) :
    Lint.fieldMarking attrs = marking.scanned := by
  induction attrs with
  | nil =>
    cases reads
    rfl
  | cons attr attrs ih =>
    unfold Derive.fieldMarking at reads
    unfold Lint.fieldMarking
    split at reads
    · rename_i other
      rw [if_pos other]
      exact ih reads
    · rename_i foldback
      rw [if_neg foldback]
      rcases word : attr.ident with _ | ident
      · rw [word] at reads
        cases reads
      · simp only [word] at reads ⊢
        by_cases hash : ident = "hash"
        · rw [if_pos hash] at reads
          cases reads
          rw [if_pos (Or.inl hash)]
          rfl
        · by_cases reflect : ident = "reflect"
          · rw [if_neg hash, if_pos reflect] at reads
            cases reads
            rw [if_pos (Or.inr reflect)]
            rfl
          · rw [if_neg hash, if_neg reflect] at reads
            rw [if_neg (not_or.mpr ⟨hash, reflect⟩)]
            split at reads
            · rename_i skip
              cases reads
              rw [if_pos skip]
              rfl
            · cases reads

theorem foldl_trackedAdd {fields : List Field}
    (reads : ∀ field ∈ fields, ∃ marking, Derive.fieldMarking field.attrs = .ok marking)
    (start : TrackedType) :
    fields.foldl TrackedType.add start =
      { start with
        tracked := start.tracked ++ marked Derive.FieldMarking.isTracked fields
        untracked := start.untracked ++ marked (· == .unmarked) fields } := by
  induction fields generalizing start with
  | nil => simp [marked]
  | cons field fields ih =>
    obtain ⟨marking, read⟩ := reads field List.mem_cons_self
    rw [List.foldl_cons, ih fun other member => reads other (List.mem_cons_of_mem _ member),
      TrackedType.add, fieldMarking_scanned read]
    cases marking <;>
      simp [Derive.FieldMarking.scanned, marked, read, Derive.FieldMarking.isTracked,
        Except.toOption]

/-! ### Agreement -/

/-- A struct with named fields, scanned alone. -/
theorem scanned_named (path : String) (modules : List String) (attrs : List Attribute)
    (ident : String) (fields : List Field) :
    Definition.scanned path ⟨modules, attrs, ident, .struct (.named fields)⟩ =
      if derivesFoldbackHash attrs then
        [fields.foldl TrackedType.add ⟨ident, path, [], []⟩]
      else [] := by
  show collectTrackedStructs path [] [.struct attrs ident (.named fields)] = _
  rw [collectTrackedStructs, collectTrackedStructs, collectItem]
  cases derivesFoldbackHash attrs <;> rfl

/-- Any other definition reports nothing. -/
theorem scanned_other (path : String) {found : Definition}
    (other : ∀ fields, found.input.data ≠ .struct (.named fields)) : found.scanned path = [] := by
  obtain ⟨modules, attrs, ident, data⟩ := found
  cases data with
  | struct fields =>
    cases fields with
    | named fields => exact absurd rfl (other fields)
    | unnamed =>
      show (if _ then _ else _) = _
      split <;> rfl
    | unit =>
      show (if _ then _ else _) = _
      split <;> rfl
  | enum => rfl
  | union => rfl

theorem derive_fails {input : DeriveInput}
    (other : ∀ fields, input.data ≠ .struct (.named fields)) :
    ∃ error, deriveFoldbackHash input = .error error := by
  obtain ⟨ident, data⟩ := input
  cases data with
  | struct fields =>
    cases fields with
    | named fields => exact absurd rfl (other fields)
    | unnamed => exact ⟨_, rfl⟩
    | unit => exact ⟨_, rfl⟩
  | enum => exact ⟨_, rfl⟩
  | union => exact ⟨_, rfl⟩

/-- **A definition is reported as it is derived exactly when the two name tests agree on it.** -/
theorem scanned_eq_derived_iff (resolves : List String → SynPath → Bool) (path : String)
    {found : Definition}
    (compiles : found.derives resolves = true →
      ∃ expanded, deriveFoldbackHash found.input = .ok expanded) :
    found.scanned path = found.derived resolves path ↔
      ∀ fields, found.input.data = .struct (.named fields) →
        (derivesFoldbackHash found.attrs = true ↔ found.derives resolves = true) := by
  by_cases named : ∃ fields, found.input.data = .struct (.named fields)
  · obtain ⟨fields, data⟩ := named
    obtain ⟨modules, attrs, ident, _⟩ := found
    subst data
    rw [scanned_named]
    by_cases derives : Definition.derives resolves
        ⟨modules, attrs, ident, .struct (.named fields)⟩ = true
    · obtain ⟨expanded, ok⟩ := compiles derives
      obtain ⟨reads, lists⟩ := Derive.deriveFoldbackHash_named ok
      have derived : Definition.derived resolves path
          ⟨modules, attrs, ident, .struct (.named fields)⟩ =
            [fields.foldl TrackedType.add ⟨ident, path, [], []⟩] := by
        rw [foldl_trackedAdd reads, Definition.derived, if_pos derives, ok, lists]
        rfl
      rw [derived, derives]
      by_cases bare : derivesFoldbackHash attrs = true
      · rw [if_pos bare]
        exact ⟨fun _ _ _ => ⟨fun _ => rfl, fun _ => bare⟩, fun _ => rfl⟩
      · rw [if_neg bare]
        refine ⟨fun same => absurd same (by simp), fun agrees => ?_⟩
        exact absurd ((agrees fields rfl).mpr rfl) bare
    · rw [Definition.derived, if_neg derives]
      by_cases bare : derivesFoldbackHash attrs = true
      · rw [if_pos bare]
        refine ⟨fun same => absurd same (by simp), fun agrees => ?_⟩
        exact absurd ((agrees fields rfl).mp bare) derives
      · rw [if_neg bare]
        exact ⟨fun _ _ _ => ⟨fun here => absurd here bare, fun here => absurd here derives⟩,
          fun _ => rfl⟩
  · have other : ∀ fields, found.input.data ≠ .struct (.named fields) :=
      fun fields data => named ⟨fields, data⟩
    have underived : found.derived resolves path = [] := by
      unfold Definition.derived
      split
      · rename_i derives
        obtain ⟨expanded, ok⟩ := compiles derives
        obtain ⟨error, failed⟩ := derive_fails other
        rw [ok] at failed
        cases failed
      · rfl
    rw [scanned_other path other, underived]
    exact ⟨fun _ fields data => absurd data (other fields), fun _ => rfl⟩

/-- **The scanner reports what the derive generates, definition by definition, exactly when the
macro is derived by its bare name and nothing else is.** -/
theorem scan_agrees_iff (resolves : List String → SynPath → Bool) (path : String)
    (items : List Item) (compiles : Compiles resolves items) :
    collectTrackedStructs path [] items =
        (definitions [] items).flatMap (Definition.scanned path) ∧
      ((∀ found ∈ definitions [] items, found.scanned path = found.derived resolves path) ↔
        DerivedByName resolves items) ∧
      (DerivedByName resolves items → collectTrackedStructs path [] items =
        (definitions [] items).flatMap (Definition.derived resolves path)) := by
  have each : ∀ found ∈ definitions [] items,
      (found.scanned path = found.derived resolves path ↔
        ∀ fields, found.input.data = .struct (.named fields) →
          ((∃ path ∈ derivePaths found.attrs, path.isIdent "FoldbackHash" = true) ↔
            ∃ path ∈ derivePaths found.attrs, resolves found.modules path = true)) := by
    intro found member
    rw [scanned_eq_derived_iff resolves path (compiles found member)]
    simp only [derivesFoldbackHash_iff, Definition.derives, List.any_eq_true]
  have whole := collectTrackedStructs_eq path [] [] items
  rw [List.nil_append] at whole
  refine ⟨whole, forall₂_congr each, fun byName => ?_⟩
  rw [whole]
  exact List.flatMap_congr fun found member => (each found member).mpr (byName found member)

/-- `#[name(argument)]`, the argument being one path. -/
def attributeOf (name : String) (argument : SynPath) : Attribute where
  path := { segments := [{ ident := name }] }
  ident :=
    match argument.segments with
    | [segment] => some segment.ident
    | _ => none
  paths := some [argument]

/-- The struct of the guide: one field is hashed, one is unmarked. -/
def playerState (derivePath : SynPath) : Item :=
  .struct [attributeOf "derive" derivePath] "PlayerState" (.named
    [⟨[attributeOf "foldback" { segments := [{ ident := "hash" }] }], "velocity"⟩,
      ⟨[], "debug_name"⟩])

def barePath : SynPath := { segments := [{ ident := "FoldbackHash" }] }

def qualifiedPath : SynPath where
  segments := [{ ident := "foldback_core" }, { ident := "FoldbackHash" }]

/-- The macro is imported, and so named by both paths. -/
def namesMacro (_ : List String) (path : SynPath) : Bool :=
  decide (path = barePath ∨ path = qualifiedPath)

theorem playerState_compiles (derivePath : SynPath) :
    Compiles namesMacro [.mod "game" [playerState derivePath]] := by
  intro found member _
  rw [show found = _ from List.mem_singleton.mp member]
  exact ⟨_, rfl⟩

theorem scan_agrees_bare :
    collectTrackedStructs "a.rs" [] [.mod "game" [playerState barePath]] =
      [⟨"PlayerState", "a.rs", ["velocity"], ["debug_name"]⟩] := by
  have byName : DerivedByName namesMacro [.mod "game" [playerState barePath]] := by
    intro found member fields _
    rw [show found = _ from List.mem_singleton.mp member]
    exact ⟨fun _ => ⟨barePath, by decide, by decide⟩, fun _ => ⟨barePath, by decide, by decide⟩⟩
  rw [(scan_agrees_iff namesMacro "a.rs" _ (playerState_compiles barePath)).2.2 byName]
  rfl

/-- **Derived by its qualified path, the struct of the guide is not reported.** -/
theorem scan_misses_qualified :
    Compiles namesMacro [.mod "game" [playerState qualifiedPath]] ∧
      (definitions [] [.mod "game" [playerState qualifiedPath]]).flatMap
          (Definition.derived namesMacro "a.rs") =
        [⟨"PlayerState", "a.rs", ["velocity"], ["debug_name"]⟩] ∧
      collectTrackedStructs "a.rs" [] [.mod "game" [playerState qualifiedPath]] = [] :=
  ⟨playerState_compiles qualifiedPath, by decide, by decide⟩

end Foldback
