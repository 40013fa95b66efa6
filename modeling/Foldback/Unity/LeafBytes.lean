/-
**What the bytes of a C# leaf tell.**

A tagged member has a declared type, so two values of one type have to be told apart.

* `DeclaredType`, `Holds`: primitives, enums, their nullables, and strings. `recordBytes`: what is
  recorded, `null` as the byte `0xFF`.
* `Confused`: `null` beside the one byte of all ones, or strings that decode to the same.
* `unity_leaf_bytes_iff`: **the bytes tell two values of one type apart exactly where they are not
  confused.**
-/

import Foldback.Unity.Walk

namespace Foldback.Unity

open Radix

/-! ### Declared types -/

/-- The type of a member. -/
inductive DeclaredType
  | bool (nullable : Bool)
  | integral (ty : Integral) (nullable : Bool)
  | float (nullable : Bool)
  | double (nullable : Bool)
  | char (nullable : Bool)
  | enum (name : Text) (underlying : Integral) (nullable : Bool)
  | string
  deriving DecidableEq

def DeclaredType.nullable : DeclaredType → Bool
  | .bool nullable | .integral _ nullable | .float nullable | .double nullable | .char nullable
  | .enum _ _ nullable => nullable
  | .string => true

/-- A value of a type; `none` is `null`. -/
def Holds (ty : DeclaredType) : Option Leaf → Prop
  | none => ty.nullable = true
  | some leaf =>
    match ty, leaf with
    | .bool _, .bool _ | .float _, .float _ | .double _, .double _ | .char _, .char _
    | .string, .string _ => True
    | .integral ty _, .integral ty' _ => ty = ty'
    | .enum name underlying _, .enum name' underlying' _ => name = name' ∧ underlying = underlying'
    | _, _ => False

instance (ty : DeclaredType) (value : Option Leaf) : Decidable (Holds ty value) := by
  unfold Holds
  split
  · exact inferInstance
  · split
    all_goals exact inferInstance

/-- What `Walk` records for a value. -/
def recordBytes : Option Leaf → Bytes
  | none => [0xFF]
  | some leaf => leafBytes leaf

/-- The value that a reference refers to. -/
def valueIn (heap : Heap) : Value → Option (Option Leaf)
  | none => some none
  | some id =>
    match (heap id).shape with
    | .leaf leaf => some (some leaf)
    | _ => none

/-- The walk of a leaf makes its record. -/
theorem walk_leaf (native : List Call → Option Text) (toString : Heap → ObjectId → Option Text)
    {heap : Heap} {value : Value} {content : Option Leaf} (holds : valueIn heap value = some content)
    (path : Text) {depth : ℕ} (shallow : depth ≤ defaultMaxDepth) :
    walk native toString heap path value depth ∅ = record native path (recordBytes content) := by
  rw [walk.eq_def, dif_neg (Nat.not_lt.mpr shallow)]
  cases value with
  | none =>
    cases holds
    rfl
  | some id =>
    have fresh : ¬ ((heap id).isValueType = false ∧ id ∈ (∅ : Finset ObjectId)) :=
      fun both => absurd both.2 (Finset.notMem_empty id)
    simp only [if_neg fresh]
    rw [valueIn] at holds
    split at holds
    · rename_i leaf shape
      cases holds
      simp only [shape]
      rfl
    · cases holds

/-! ### Confusions -/

/-- A byte or an enum over bytes, signed or not, with all bits set. -/
def IsMarker : Leaf → Prop
  | .integral ty value | .enum _ ty value => ty.width = 1 ∧ value = BitVec.allOnes _
  | _ => False

/-- Different values with the same bytes: `null` beside a byte of all ones, or strings that differ in
what is replaced. -/
inductive Confused : Option Leaf → Option Leaf → Prop
  | null {leaf : Leaf} (marker : IsMarker leaf) : Confused none (some leaf)
  | text {first second : Text} (differ : first ≠ second) (same : decode first = decode second) :
      Confused (some (.string first)) (some (.string second))

theorem Confused.ne {first second : Option Leaf} (confused : Confused first second) :
    first ≠ second := by
  cases confused with
  | null marker => simp
  | text differ same => simpa using differ

theorem leBytes_allOnes {ty : Integral} (single : ty.width = 1) :
    leBytes ty.width (BitVec.allOnes (8 * ty.width)).toNat = [0xFF] := by
  rw [single]
  rfl

theorem marker_bytes {leaf : Leaf} (marker : IsMarker leaf) : leafBytes leaf = [0xFF] := by
  cases leaf with
  | integral ty value =>
    obtain ⟨single, rfl⟩ := marker
    exact leBytes_allOnes single
  | enum name underlying value =>
    obtain ⟨single, rfl⟩ := marker
    exact leBytes_allOnes single
  | _ => exact marker.elim

theorem eq_of_integral {ty : Integral} {value value' : BitVec (8 * ty.width)}
    (same : leBytes ty.width value.toNat = leBytes ty.width value'.toNat) : value = value' :=
  eq_of_leBytes (Nat.le_of_eq (pow_mul 2 8 ty.width)) same

/-- Bytes of an integral type that are the one byte of `null`. -/
theorem allOnes_of_bytes {ty : Integral} {value : BitVec (8 * ty.width)}
    (same : leBytes ty.width value.toNat = [0xFF]) :
    ty.width = 1 ∧ value = BitVec.allOnes (8 * ty.width) := by
  have single : ty.width = 1 := by
    rw [← length_leBytes ty.width value.toNat, same]
    rfl
  exact ⟨single, eq_of_integral (same.trans (leBytes_allOnes single).symm)⟩

theorem marker_of_bytes {leaf : Leaf} (same : leafBytes leaf = [0xFF]) : IsMarker leaf := by
  have lengths := congrArg List.length same
  cases leaf with
  | bool value =>
    cases value
    all_goals cases same
  | integral ty value => exact allOnes_of_bytes same
  | enum name underlying value => exact allOnes_of_bytes same
  | string text => exact absurd same (asBytes_ne_marker _)
  | float bits => cases (length_leBytes 4 bits.toNat).symm.trans lengths
  | double bits => cases (length_leBytes 8 bits.toNat).symm.trans lengths
  | char unit => cases (length_leBytes 2 unit.toNat).symm.trans lengths

theorem recordBytes_of_confused {first second : Option Leaf} (confused : Confused first second) :
    recordBytes first = recordBytes second := by
  cases confused with
  | null marker => exact (marker_bytes marker).symm
  | text differ same => exact utf8_eq_iff.mpr same

/-- Leaves of one type with the same bytes are equal or confused. -/
theorem leaf_eq_cases {ty : DeclaredType} {first second : Leaf} (holds : Holds ty (some first))
    (holds' : Holds ty (some second)) (same : leafBytes first = leafBytes second) :
    first = second ∨ Confused (some first) (some second) := by
  cases first with
  | bool value =>
    cases ty <;> cases holds
    cases second <;> cases holds'
    rename_i value'
    cases value
    all_goals cases value'
    all_goals first
      | exact .inl rfl
      | cases same
  | integral integral value =>
    cases ty <;> cases holds
    cases second <;> cases holds'
    exact .inl (congrArg _ (eq_of_integral same))
  | float bits =>
    cases ty <;> cases holds
    cases second <;> cases holds'
    exact .inl (congrArg _ (eq_of_leBytes (by norm_num) same))
  | double bits =>
    cases ty <;> cases holds
    cases second <;> cases holds'
    exact .inl (congrArg _ (eq_of_leBytes (by norm_num) same))
  | char unit =>
    cases ty <;> cases holds
    cases second <;> cases holds'
    rename_i unit'
    have equal : unit.toNat = unit'.toNat :=
      leBytes_injOn unit.toNat_lt unit'.toNat_lt same
    exact .inl (congrArg _ (UInt16.toNat_inj.mp equal))
  | string text =>
    cases ty <;> cases holds
    cases second <;> cases holds'
    rename_i text'
    by_cases differ : text = text'
    · exact .inl (congrArg _ differ)
    · exact .inr (.text differ (utf8_eq_iff.mp same))
  | enum name underlying value =>
    cases ty with
    | enum _ _ nullable =>
      obtain ⟨rfl, rfl⟩ := holds
      cases second with
      | enum name' underlying' value' =>
        obtain ⟨rfl, rfl⟩ := holds'
        exact .inl (congrArg _ (eq_of_integral same))
      | _ => cases holds'
    | _ => cases holds

/-- Values of one type with the same bytes are equal or confused. -/
theorem recordBytes_eq_cases {ty : DeclaredType} {first second : Option Leaf}
    (holds : Holds ty first) (holds' : Holds ty second)
    (same : recordBytes first = recordBytes second) :
    first = second ∨ Confused first second ∨ Confused second first := by
  rcases first with _ | first
  · rcases second with _ | second
    · exact .inl rfl
    · exact .inr (.inl (.null (marker_of_bytes same.symm)))
  · rcases second with _ | second
    · exact .inr (.inr (.null (marker_of_bytes same)))
    · rcases leaf_eq_cases holds holds' same with rfl | confused
      · exact .inl rfl
      · exact .inr (.inl confused)

/-! ### When the bytes tell values apart -/

/-- **The bytes recorded for two values of one declared type tell them apart exactly where they are not
confused**: where they are not `null` and a byte of all ones, or strings that decode to the same. -/
theorem unity_leaf_bytes_iff (ty : DeclaredType) (first second : Option Leaf)
    (holds : Holds ty first) (holds' : Holds ty second) :
    ((recordBytes first = recordBytes second → first = second) ↔
      ¬ (Confused first second ∨ Confused second first)) ∧
    ∀ (native : List Call → Option Text) (toString : Heap → ObjectId → Option Text) (heap : Heap)
      (value : Value) (content : Option Leaf), valueIn heap value = some content → ∀ path,
        walk native toString heap path value 1 ∅ = record native path (recordBytes content) := by
  refine ⟨⟨?_, ?_⟩, ?_⟩
  · rintro faithful (confused | confused)
    · exact confused.ne (faithful (recordBytes_of_confused confused))
    · exact confused.ne (faithful (recordBytes_of_confused confused).symm).symm
  · intro apart same
    exact (recordBytes_eq_cases holds holds' same).resolve_right apart
  · intro native toString heap value content has path
    exact walk_leaf native toString has path (by decide)

theorem unity_leaf_bytes_iff_seven :
    (recordBytes none = recordBytes (some (.integral .byte 7)) →
        none = some (Leaf.integral .byte 7)) ↔
      ¬ (Confused none (some (.integral .byte 7)) ∨ Confused (some (.integral .byte 7)) none) :=
  (unity_leaf_bytes_iff (.integral .byte true) none (some (.integral .byte 7)) (by decide)
    (by decide)).1

/-- `null` and 255 of the type `byte?`, and two halves of surrogate pairs. -/
theorem unity_leaf_bytes_confused :
    (Holds (.integral .byte true) none ∧ Holds (.integral .byte true) (some (.integral .byte 255)) ∧
      recordBytes none = recordBytes (some (.integral .byte 255))) ∧
    recordBytes (some (.string [0xD800])) = recordBytes (some (.string [0xDC00])) ∧
    Leaf.string [0xD800] ≠ .string [0xDC00] := by
  decide

end Foldback.Unity
