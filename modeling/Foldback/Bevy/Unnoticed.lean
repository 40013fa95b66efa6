/-
**When a difference between two values is recorded.**

* `hashReflected_faithful`: **two values of one type for which `hash_reflected` records the same fields
  have equal tracked fields**, if renderings end at their brackets and what containers hold shows.
* `unnoticed_differences`: without either, values that differ record the same.
-/

import Foldback.Bevy.Faithful

namespace Foldback.Bevy

open GuardedWalk PrefixCode

variable {τ ω : Type}

section Calls

variable (hashBytes : Bytes → UInt64) (debug : ReflectRef ω → String) (tick entityId : UInt64)
  (typeName : String) (trackedFields : List String) (fieldNamePrefix : String)

/-- On a session whose writes succeed, a call returns and appends the frames of these fields. -/
def Records (root : ReflectRef ω) (recorded : List (String × Bytes)) : Prop :=
  ∀ session : Session, session.Reliable → ∃ preview after,
    hashReflected hashBytes debug tick entityId typeName trackedFields fieldNamePrefix root session =
      .ok preview after ∧
    Appends session
      (schemaFrames session.writtenSchemas typeName trackedFields ++
        fieldFrames hashBytes tick entityId session.localPeerId recorded) after

theorem records_recordedFields {typePath : String} {fields : List (String × ReflectRef ω)}
    (fits : Fits (reflection debug) (defaultMaxDepth + 1)
      (tracked trackedFields (.struct typePath fields))) :
    Records hashBytes debug tick entityId typeName trackedFields fieldNamePrefix
      (.struct typePath fields)
      (recordedFields debug trackedFields fieldNamePrefix (.struct typePath fields)) := by
  intro session reliable
  have none := (walkPlan_none_iff debug (defaultMaxDepth + 1) fieldNamePrefix _).mpr fits
  have returned := (hashReflected_reliable hashBytes debug tick entityId reliable typeName
    trackedFields fieldNamePrefix typePath fields).1 none
  exact ⟨_, _, returned, run_walkerCalls hashBytes tick entityId reliable typeName trackedFields _⟩

/-- The values that a walk of one of two roots comes to. -/
def Reached (root root' value : ReflectRef ω) : Prop :=
  ∃ count, Below (reflection debug) count (tracked trackedFields root) value ∨
    Below (reflection debug) count (tracked trackedFields root') value

theorem Reached.part {root root' value : ReflectRef ω}
    (reached : Reached debug trackedFields root root' value) {part : Step × ReflectRef ω}
    (member : part ∈ parts debug value) : Reached debug trackedFields root root' part.2 := by
  obtain ⟨count, chain⟩ := reached
  have here : Below (reflection debug) 1 value part.2 := .step member (.here _)
  exact ⟨count + 1, chain.imp (fun chain => chain.trans here) (fun chain => chain.trans here)⟩

/-- The tracked part of a typed root is well named. -/
theorem wellNamed_tracked {types : Types τ ω} {ty : τ} {typePath : String}
    {fields : List (String × ReflectRef ω)} {occurs : ReflectRef ω → Prop}
    (tellable : Tellable types debug occurs) (typed : HasType types (.struct typePath fields) ty)
    (occurring : ∀ part ∈ parts debug (tracked trackedFields (.struct typePath fields)),
      occurs part.2) :
    Everywhere debug (WellNamed debug) (tracked trackedFields (.struct typePath fields)) := by
  have legible : Legible debug (.struct typePath fields) (.struct typePath fields) := by
    refine ⟨fun entry member => absurd member List.not_mem_nil,
      fun entry member => absurd member List.not_mem_nil, fun leaf leaf' none => ?_⟩
    cases none
  have names := (typed.wellNamed legible).names
  refine everywhere_iff.mpr ⟨⟨⟨fun field member => names.1 field (List.mem_of_mem_filter member),
    names.2.sublist (List.filter_sublist.map Prod.fst)⟩, .nil⟩, fun part member => ?_⟩
  obtain ⟨field, kept, rfl⟩ := List.mem_map.mp member
  have inParts : (Step.field field.1, field.2) ∈ parts debug (.struct typePath fields) :=
    List.mem_map_of_mem (List.mem_of_mem_filter kept)
  obtain ⟨ty', typedField⟩ := typed.part inParts
  exact tellable.wellNamed (occurring _ member) typedField

/-- **What is recorded determines the tracked fields**, up to the iteration orders of maps and sets,
for two values of one type whose renderings end at their brackets and whose entries show. -/
theorem hashReflected_faithful (types : Types τ ω) (ty : τ) (typePath : String)
    (fields fields' : List (String × ReflectRef ω))
    (typed : HasType types (.struct typePath fields) ty)
    (typed' : HasType types (.struct typePath fields') ty)
    (fits : Fits (reflection debug) (defaultMaxDepth + 1)
      (tracked trackedFields (.struct typePath fields)))
    (fits' : Fits (reflection debug) (defaultMaxDepth + 1)
      (tracked trackedFields (.struct typePath fields')))
    (legible : ∀ value value' ty', Reached debug trackedFields (.struct typePath fields)
      (.struct typePath fields') value → Reached debug trackedFields (.struct typePath fields)
        (.struct typePath fields') value' → HasType types value ty' → HasType types value' ty' →
          Legible debug value value')
    (visible : ∀ value, Reached debug trackedFields (.struct typePath fields)
      (.struct typePath fields') value → Visible debug value) :
    let recorded := fun fields =>
      recordedFields debug trackedFields fieldNamePrefix (.struct typePath fields)
    Records hashBytes debug tick entityId typeName trackedFields fieldNamePrefix
        (.struct typePath fields) (recorded fields) ∧
      Records hashBytes debug tick entityId typeName trackedFields fieldNamePrefix
        (.struct typePath fields') (recorded fields') ∧
      (recorded fields = recorded fields' →
        Reordered (tracked trackedFields (.struct typePath fields))
          (tracked trackedFields (.struct typePath fields'))) := by
  intro recorded
  refine ⟨records_recordedFields hashBytes debug tick entityId typeName trackedFields
    fieldNamePrefix fits, records_recordedFields hashBytes debug tick entityId typeName trackedFields
      fieldNamePrefix fits', fun same => ?_⟩
  have tellable : Tellable types debug
      (Reached debug trackedFields (.struct typePath fields) (.struct typePath fields')) :=
    ⟨fun value reached part member => reached.part debug trackedFields member, legible, visible⟩
  have everything : unlimited debug fieldNamePrefix (tracked trackedFields (.struct typePath fields)) =
      unlimited debug fieldNamePrefix (tracked trackedFields (.struct typePath fields')) := by
    have first : recorded fields = unlimited debug fieldNamePrefix _ :=
      congrArg Prod.fst (walkPlan_records fits)
    have second : recorded fields' = unlimited debug fieldNamePrefix _ :=
      congrArg Prod.fst (walkPlan_records fits')
    exact first.symm.trans (same.trans second)
  have reached : ∀ part ∈ parts debug (tracked trackedFields (.struct typePath fields)),
      Reached debug trackedFields (.struct typePath fields) (.struct typePath fields') part.2 :=
    fun part member => ⟨1, Or.inl (.step member (.here _))⟩
  have reached' : ∀ part ∈ parts debug (tracked trackedFields (.struct typePath fields')),
      Reached debug trackedFields (.struct typePath fields) (.struct typePath fields') part.2 :=
    fun part member => ⟨1, Or.inr (.step member (.here _))⟩
  have well := wellNamed_tracked debug trackedFields tellable typed reached
  have well' := wellNamed_tracked debug trackedFields tellable typed' reached'
  have related : List.Forall₂ (fun a b => a.1 = b.1 ∧ SameType types a.2 b.2) fields fields' := by
    cases typed with
    | struct is names values =>
      cases typed' with
      | struct is' names' values' =>
        cases is.symm.trans is'
        exact reordered_named names names' values values'
  refine .of_fields (forall₂_imp_mem (forall₂_tracked trackedFields related) ?_)
  intro field member field' member' both
  obtain ⟨name, ty', typedField, typedField'⟩ := both
  have inParts : (Step.field field.1, field.2) ∈
      parts debug (tracked trackedFields (.struct typePath fields)) := List.mem_map_of_mem member
  have inParts' : (Step.field field'.1, field'.2) ∈
      parts debug (tracked trackedFields (.struct typePath fields')) := List.mem_map_of_mem member'
  exact ⟨name, reordered_of_unlimited_eq tellable (reached _ inParts) (reached' _ inParts')
    typedField typedField'
    (same_part well well' everything inParts inParts' (congrArg Step.field name))⟩

end Calls

/-! ### A program of nested lists and nested maps -/

/-- `Grid` has rows of cells; `Table` has maps of maps, whose keys are of a type with a `Debug` of
its own. -/
inductive SampleTy
  | grid | rows | row | table | outer | inner | key | cell
  deriving DecidableEq, Repr

def sampleTypes : Types SampleTy String where
  info
    | .grid => .struct "Grid" [("rows", .rows)]
    | .rows => .list .row
    | .row => .list .cell
    | .table => .struct "Table" [("cells", .outer)]
    | .outer => .map .key .inner
    | .inner => .map .key .cell
    | .key => .leaf (.other fun _ => True)
    | .cell => .leaf .bool
  namesOk ty := by
    have identifiers : IsIdentifier "rows" ∧ IsIdentifier "cells" := by
      refine ⟨⟨⟨'r', "ows".toList, rfl, rfl⟩, ?_⟩, ⟨⟨'c', "ells".toList, rfl, rfl⟩, ?_⟩⟩
      all_goals simp [opening]
    cases ty with
    | grid => exact ⟨List.forall_mem_singleton.mpr identifiers.1, List.nodup_singleton _⟩
    | table => exact ⟨List.forall_mem_singleton.mpr identifiers.2, List.nodup_singleton _⟩
    | _ => trivial

/-- A key renders as its text. -/
def keyDebug : ReflectRef String → String
  | .leaf (.other text) => text
  | _ => ""

/-- Different keys of the program render differently. -/
theorem keyDebug_injective {key key' : ReflectRef String} (typed : HasType sampleTypes key .key)
    (typed' : HasType sampleTypes key' .key) (same : keyDebug key = keyDebug key') : key = key' := by
  obtain ⟨leaf, rfl, holds⟩ := typed.shaped
  obtain ⟨leaf', rfl, holds'⟩ := typed'.shaped
  cases leaf with
  | other text =>
    cases leaf' with
    | other text' => exact congrArg (fun text => ReflectRef.leaf (Leaf.other text)) same
    | _ => cases holds'
  | _ => cases holds

theorem Reordered.leaf_eq {leaf leaf' : Leaf ω} (reordered : Reordered (.leaf leaf) (.leaf leaf')) :
    leaf = leaf' := by
  cases reordered
  rfl

def grid (rows : List (ReflectRef String)) : ReflectRef String :=
  .struct "Grid" [("rows", .list rows)]

/-- One cell under a key under a key. -/
def table (outer inner : String) : ReflectRef String :=
  .struct "Table" [("cells", .map [(.leaf (.other outer),
    .map [(.leaf (.other inner), .leaf (.bool true))])])]

theorem hasType_grid {rows : List (ReflectRef String)}
    (typed : ∀ row ∈ rows, HasType sampleTypes row .row) : HasType sampleTypes (grid rows) .grid :=
  .struct rfl rfl (.cons (.list rfl typed) .nil)

/-- A row of one cell. -/
def row : ReflectRef String := .list [.leaf (.bool true)]

theorem row_not_silent : ¬ Silent keyDebug row := by
  intro silent
  have cell := (silent_iff.mp silent).2 (.item 0, .leaf (.bool true)) List.mem_cons_self
  cases (silent_iff.mp cell).1 ""

/-- No keys, no leaves of other types, and what is held shows. -/
def Plain (value : ReflectRef String) : Prop :=
  rendered value = [] ∧ (∀ leaf, value ≠ .leaf (.other leaf)) ∧ Visible keyDebug value

theorem plain_grid {rows : List (ReflectRef String)} (same : ∀ item ∈ rows, item = row) :
    Everywhere keyDebug Plain (tracked ["rows"] (grid rows)) := by
  have cell : Everywhere keyDebug Plain (.leaf (.bool true)) :=
    everywhere_iff.mpr ⟨⟨rfl, fun leaf equal => (by cases equal), trivial⟩, List.forall_mem_nil _⟩
  have whole : Everywhere keyDebug Plain row := by
    refine everywhere_iff.mpr ⟨⟨rfl, fun leaf equal => (by cases equal), fun item last => ?_⟩,
      List.forall_mem_singleton.mpr cell⟩
    intro silent
    cases Option.some.inj last
    cases (silent_iff.mp silent).1 ""
  have all : Everywhere keyDebug Plain (.list rows) := by
    refine everywhere_iff.mpr ⟨⟨rfl, fun leaf equal => (by cases equal), fun item last => ?_⟩, ?_⟩
    · rw [same item (List.mem_of_getLast? last)]
      exact row_not_silent
    · intro part member
      obtain ⟨item, inRows, rfl⟩ := List.mem_map.mp member
      exact (same item.1 (List.fst_mem_of_mem_zipIdx inRows)) ▸ whole
  exact everywhere_iff.mpr ⟨⟨rfl, fun leaf equal => (by cases equal), trivial⟩,
    List.forall_mem_singleton.mpr all⟩

theorem hashReflected_faithful_grid :
    recordedFields keyDebug ["rows"] "" (grid [row]) ≠
      recordedFields keyDebug ["rows"] "" (grid [row, row]) := by
  intro same
  have typedRow : HasType sampleTypes row .row :=
    .list rfl (List.forall_mem_singleton.mpr (.leaf rfl trivial))
  have ones : ∀ item ∈ [row], item = row := List.forall_mem_singleton.mpr rfl
  have twos : ∀ item ∈ [row, row], item = row := List.forall_mem_cons.mpr ⟨rfl, ones⟩
  have plain : ∀ value, Reached keyDebug ["rows"] (grid [row]) (grid [row, row]) value →
      Plain value := by
    intro value reached
    obtain ⟨count, chain | chain⟩ := reached
    · exact plain_grid ones count value chain
    · exact plain_grid twos count value chain
  have equal := (hashReflected_faithful (fun _ => 7) keyDebug 0 0 "Grid" ["rows"] "" sampleTypes .grid
    "Grid" [("rows", .list [row])] [("rows", .list [row, row])]
    (hasType_grid (List.forall_mem_singleton.mpr typedRow))
    (hasType_grid (List.forall_mem_cons.mpr ⟨typedRow, List.forall_mem_singleton.mpr typedRow⟩))
    ((walkPlan_none_iff keyDebug 9 "" _).mp rfl) ((walkPlan_none_iff keyDebug 9 "" _).mp rfl)
    (fun value value' ty' reached reached' typed typed' => by
      obtain ⟨noKeys, noOther, _⟩ := plain value reached
      refine ⟨?_, ?_, fun leaf leaf' is => absurd is (noOther leaf)⟩
      all_goals
        rw [noKeys]
        exact fun entry member => absurd member List.not_mem_nil)
    fun value reached => (plain value reached).2.2).2.2 same
  cases equal with
  | struct names values =>
    cases values with
    | cons rows _ =>
      cases rows with
      | list values =>
        cases values with
        | cons first rest => cases rest

theorem hasType_table (outer inner : String) : HasType sampleTypes (table outer inner) .table := by
  have cell : HasType sampleTypes (.leaf (.bool true)) .cell := .leaf rfl trivial
  have key : ∀ text, HasType sampleTypes (.leaf (.other text)) .key := fun text => .leaf rfl trivial
  have innerMap : HasType sampleTypes (.map [(.leaf (.other inner), .leaf (.bool true))]) .inner :=
    .map rfl (List.forall_mem_singleton.mpr (key inner)) (List.forall_mem_singleton.mpr cell)
      (List.pairwise_singleton _ _)
  exact .struct rfl rfl (.cons (.map rfl (List.forall_mem_singleton.mpr (key outer))
    (List.forall_mem_singleton.mpr innerMap) (List.pairwise_singleton _ _)) .nil)

/-- Two values of a type, within the depth limit, that differ though the same is recorded. -/
structure Unnoticed (ty : SampleTy) (trackedFields : List String) (root root' : ReflectRef String) :
    Prop where
  typed : HasType sampleTypes root ty
  typed' : HasType sampleTypes root' ty
  fits : Fits (reflection keyDebug) (defaultMaxDepth + 1) (tracked trackedFields root)
  fits' : Fits (reflection keyDebug) (defaultMaxDepth + 1) (tracked trackedFields root')
  same : recordedFields keyDebug trackedFields "" root = recordedFields keyDebug trackedFields "" root'
  differ : ¬ Reordered (tracked trackedFields root) (tracked trackedFields root')

/-- **Differences that are not recorded**, though the renderings of keys are injective: an empty row at
the end of a list, and where the path is split between two keys. -/
theorem unnoticed_differences :
    (∀ key key', HasType sampleTypes key .key → HasType sampleTypes key' .key →
      keyDebug key = keyDebug key' → key = key') ∧
    Unnoticed .grid ["rows"] (grid []) (grid [.list []]) ∧
    Unnoticed .table ["cells"] (table "1" "2][3") (table "1][2" "3") := by
  refine ⟨fun key key' => keyDebug_injective, ⟨hasType_grid (List.forall_mem_nil _), hasType_grid
    (List.forall_mem_singleton.mpr (.list rfl (List.forall_mem_nil _))),
      (walkPlan_none_iff keyDebug 9 "" _).mp rfl, (walkPlan_none_iff keyDebug 9 "" _).mp rfl, rfl,
        fun reordered => ?_⟩, ⟨hasType_table _ _, hasType_table _ _,
          (walkPlan_none_iff keyDebug 9 "" _).mp rfl, (walkPlan_none_iff keyDebug 9 "" _).mp rfl,
            by decide, fun reordered => ?_⟩⟩
  · cases reordered with
    | struct names values =>
      cases values with
      | cons rows _ =>
        cases rows with
        | list values => cases values
  · cases reordered with
    | struct names values =>
      cases values with
      | cons outer _ =>
        cases outer with
        | map perm keys values =>
          rw [List.singleton_perm] at perm
          subst perm
          cases keys with
          | cons key _ => exact absurd key.leaf_eq (by simp)

end Foldback.Bevy
