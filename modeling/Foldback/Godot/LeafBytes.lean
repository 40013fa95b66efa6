/-
**What the bytes of a Godot leaf tell.**

The walk records no type with a leaf, so values of different types may have the same bytes.

* `words`: a number, a vector or a color is made of words of 32 bits. `singles_injective`: **the bytes
  determine the words.**
* `Coincide`: values of two types, made of the same words or spelled by one string.
* `leafRecord_eq_cases`: leaves of the built-in types with the same bytes are equal or coincide.
* `godot_leaf_bytes_iff`: **the bytes tell two leaves apart exactly where they do not coincide.**
-/

import Foldback.Godot.Paths

namespace Foldback.Godot

open GuardedWalk Radix

variable {ω : Type}

/-! ### Words -/

inductive VariantType
  | nil
  | object
  | array
  | dictionary
  | bool
  | int
  | float
  | string
  | vector2
  | vector3
  | vector4
  | color
  | other
  deriving DecidableEq, Repr

def getType : Variant ω → VariantType
  | .nil => .nil
  | .object _ => .object
  | .array _ => .array
  | .dictionary _ => .dictionary
  | .bool _ => .bool
  | .int _ => .int
  | .float _ => .float
  | .string _ => .string
  | .vector2 .. => .vector2
  | .vector3 .. => .vector3
  | .vector4 .. => .vector4
  | .color .. => .color
  | .other _ => .other

/-- The leaves that `walk` and `leaf_bytes` know. -/
def IsBuiltin (value : Variant ω) : Prop :=
  getType value ∈ [.nil, .bool, .int, .float, .string, .vector2, .vector3, .vector4, .color]

instance (value : Variant ω) : Decidable (IsBuiltin value) :=
  inferInstanceAs (Decidable (getType value ∈ _))

/-- The words that a number, a vector or a color is made of; those of a number from the low one. -/
def words : Variant ω → Option (List (BitVec 32))
  | .int bits | .float bits => some [bits.extractLsb' 0 32, bits.extractLsb' 32 32]
  | .vector2 x y => some [x, y]
  | .vector3 x y z => some [x, y, z]
  | .vector4 x y z w | .color x y z w => some [x, y, z, w]
  | _ => none

theorem singles_cons (word : BitVec 32) (rest : List (BitVec 32)) :
    singles (word :: rest) = leBytes 4 word.toNat ++ singles rest :=
  List.flatMap_cons

theorem length_singles (components : List (BitVec 32)) :
    (singles components).length = 4 * components.length := by
  induction components with
  | nil => rfl
  | cons word rest ih =>
    rw [singles_cons, List.length_append, length_leBytes, ih, List.length_cons]
    omega

/-- **The bytes determine the words.** -/
theorem singles_injective {components components' : List (BitVec 32)}
    (same : singles components = singles components') : components = components' := by
  induction components generalizing components' with
  | nil =>
    have lengths := congrArg List.length same
    rw [length_singles, length_singles, List.length_nil] at lengths
    exact (List.eq_nil_of_length_eq_zero (by omega)).symm
  | cons word rest ih =>
    cases components' with
    | nil => cases same
    | cons word' rest' =>
      rw [singles_cons, singles_cons] at same
      obtain ⟨here, there⟩ := List.append_inj same (by rw [length_leBytes, length_leBytes])
      rw [eq_of_leBytes (by norm_num) here, ih there]

theorem leBytes_eight (bits : BitVec 64) :
    leBytes 8 bits.toNat = singles [bits.extractLsb' 0 32, bits.extractLsb' 32 32] := by
  have low : (bits.extractLsb' 0 32).toNat = bits.toNat % 256 ^ 4 := by
    rw [BitVec.extractLsb'_toNat, Nat.shiftRight_zero]
    norm_num
  have high : (bits.extractLsb' 32 32).toNat = bits.toNat / 256 ^ 4 % 256 ^ 4 := by
    rw [BitVec.extractLsb'_toNat, Nat.shiftRight_eq_div_pow]
    norm_num
  rw [singles_cons, singles_cons, low, high, leBytes_mod, leBytes_mod]
  exact (leBytes_add 4 4 bits.toNat).trans (congrArg _ (List.append_nil _).symm)

/-- Numbers are made of their words. -/
theorem eq_of_words {bits bits' : BitVec 64}
    (same : [bits.extractLsb' 0 32, bits.extractLsb' 32 32] =
      [bits'.extractLsb' 0 32, bits'.extractLsb' 32 32]) : bits = bits' := by
  have bytes := congrArg singles same
  rw [← leBytes_eight, ← leBytes_eight] at bytes
  exact eq_of_leBytes (by norm_num) bytes

/-! ### Leaves that coincide -/

/-- The string is the one byte of the flag, or the bytes of the words. -/
def Spells (text : String) : Variant ω → Prop
  | .bool value => text = if value then "\x01" else "\x00"
  | value => ∃ components, words value = some components ∧ asBytes text = singles components

/-- Values of two types, made of the same words or spelled by the one that is a string. -/
def Coincide (first second : Variant ω) : Prop :=
  getType first ≠ getType second ∧
    ((∃ components, words first = some components ∧ words second = some components) ∨
      (∃ text, first = .string text ∧ Spells text second) ∨
      ∃ text, second = .string text ∧ Spells text first)

theorem Coincide.symm {first second : Variant ω} (coincide : Coincide first second) :
    Coincide second first := by
  obtain ⟨differ, ⟨components, here, there⟩ | spelled | spelled⟩ := coincide
  · exact ⟨differ.symm, .inl ⟨components, there, here⟩⟩
  · exact ⟨differ.symm, .inr (.inr spelled)⟩
  · exact ⟨differ.symm, .inr (.inl spelled)⟩

/-! ### The bytes of a leaf -/

/-- The types with one encoding each: nil, bools, strings, and what is made of words. -/
theorem builtin_cases {value : Variant ω} (builtin : IsBuiltin value) :
    value = .nil ∨ (∃ flag, value = .bool flag) ∨ (∃ text, value = .string text) ∨
      ∃ components, words value = some components := by
  cases value with
  | nil => exact .inl rfl
  | bool flag => exact .inr (.inl ⟨flag, rfl⟩)
  | string text => exact .inr (.inr (.inl ⟨text, rfl⟩))
  | int bits => exact .inr (.inr (.inr ⟨_, rfl⟩))
  | float bits => exact .inr (.inr (.inr ⟨_, rfl⟩))
  | vector2 x y => exact .inr (.inr (.inr ⟨_, rfl⟩))
  | vector3 x y z => exact .inr (.inr (.inr ⟨_, rfl⟩))
  | vector4 x y z w => exact .inr (.inr (.inr ⟨_, rfl⟩))
  | color r g b a => exact .inr (.inr (.inr ⟨_, rfl⟩))
  | _ => simp [IsBuiltin, getType] at builtin

theorem two_le_of_words {value : Variant ω} {components : List (BitVec 32)}
    (made : words value = some components) : 2 ≤ components.length := by
  cases value
  all_goals cases made
  all_goals simp

/-- One type has one way to be made of words. -/
theorem eq_of_getType {first second : Variant ω} {components : List (BitVec 32)}
    (made : words first = some components) (made' : words second = some components)
    (types : getType first = getType second) : first = second := by
  cases first with
  | int bits | float bits =>
    cases made
    cases second with
    | int bits' | float bits' =>
      first
      | exact congrArg _ (eq_of_words (Option.some.inj made').symm)
      | cases types
    | _ => cases types
  | vector2 | vector3 | vector4 | color =>
    cases made
    cases second with
    | vector2 | vector3 | vector4 | color =>
      first
      | cases made'
        rfl
      | cases types
    | _ => cases types
  | _ => cases made

section Bytes

variable {stringify : Variant ω → String} {heap : Heap ω}

theorem leafRecord_of_words {value : Variant ω} {components : List (BitVec 32)}
    (made : words value = some components) :
    leafRecord stringify heap value = some (singles components) := by
  cases value
  all_goals cases made
  all_goals first
    | rfl
    | exact congrArg some (leBytes_eight _)

variable (stringify heap) in
theorem leafRecord_builtin {value : Variant ω} (builtin : IsBuiltin value) :
    ∃ bytes, leafRecord stringify heap value = some bytes := by
  rcases builtin_cases builtin with rfl | ⟨flag, rfl⟩ | ⟨text, rfl⟩ | ⟨components, made⟩
  · exact ⟨_, rfl⟩
  · exact ⟨_, rfl⟩
  · exact ⟨_, rfl⟩
  · exact ⟨_, leafRecord_of_words made⟩

theorem asBytes_flag (flag : Bool) :
    asBytes (if flag then "\x01" else "\x00") = [if flag then 1 else 0] := by
  cases flag
  all_goals decide

theorem asBytes_eq_flag {text : String} {flag : Bool}
    (same : asBytes text = [if flag then 1 else 0]) : text = if flag then "\x01" else "\x00" :=
  asBytes_injective (same.trans (asBytes_flag flag).symm)

/-- Words are at least eight bytes, the marker and a flag are one. -/
theorem singles_ne_singleton {value : Variant ω} {components : List (BitVec 32)}
    (made : words value = some components) (byte : UInt8) : singles components ≠ [byte] := by
  intro same
  have lengths := congrArg List.length same
  have enough := two_le_of_words made
  rw [length_singles, List.length_singleton] at lengths
  omega

/-- What has the bytes of a string is the string or spelled by it. -/
theorem string_cases {text : String} {second : Variant ω} (builtin : IsBuiltin second)
    (same : leafRecord stringify heap second = some (asBytes text)) :
    second = .string text ∨ getType second ≠ .string ∧ Spells text second := by
  rcases builtin_cases builtin with rfl | ⟨flag, rfl⟩ | ⟨text', rfl⟩ | ⟨components, made⟩
  · exact absurd (Option.some.inj same).symm (asBytes_ne_marker text)
  · exact .inr ⟨by simp [getType], asBytes_eq_flag (Option.some.inj same).symm⟩
  · exact .inl (congrArg _ (asBytes_injective (Option.some.inj same)))
  · rw [leafRecord_of_words made] at same
    have bytes := (Option.some.inj same).symm
    cases second with
    | string text' => cases made
    | bool flag => cases made
    | _ => exact .inr ⟨by simp [getType], components, made, bytes⟩

/-- Leaves of the built-in types with the same bytes are equal or coincide. -/
theorem leafRecord_eq_cases {first second : Variant ω} (builtin : IsBuiltin first)
    (builtin' : IsBuiltin second)
    (same : leafRecord stringify heap first = leafRecord stringify heap second) :
    first = second ∨ Coincide first second := by
  by_cases string : ∃ text, first = .string text
  · obtain ⟨text, rfl⟩ := string
    rcases string_cases builtin' same.symm with rfl | ⟨differ, spells⟩
    · exact .inl rfl
    · exact .inr ⟨differ.symm, .inr (.inl ⟨text, rfl, spells⟩)⟩
  by_cases string' : ∃ text, second = .string text
  · obtain ⟨text, rfl⟩ := string'
    rcases string_cases builtin same with rfl | ⟨differ, spells⟩
    · exact .inl rfl
    · exact .inr ⟨differ, .inr (.inr ⟨text, rfl, spells⟩)⟩
  -- No string is left: a marker, a flag and words have three forms.
  rcases builtin_cases builtin with rfl | ⟨flag, rfl⟩ | isString | ⟨components, made⟩
  · rcases builtin_cases builtin' with rfl | ⟨flag', rfl⟩ | isString | ⟨components', made'⟩
    · exact .inl rfl
    · cases flag'
      all_goals exact absurd same (by simp [leafRecord, leafBytes])
    · exact absurd isString string'
    · rw [leafRecord_of_words made'] at same
      exact absurd (Option.some.inj same).symm (singles_ne_singleton made' _)
  · rcases builtin_cases builtin' with rfl | ⟨flag', rfl⟩ | isString | ⟨components', made'⟩
    · cases flag
      all_goals exact absurd same (by simp [leafRecord, leafBytes])
    · refine .inl (congrArg _ ?_)
      cases flag
      all_goals cases flag'
      all_goals first
        | rfl
        | exact absurd same (by simp [leafRecord, leafBytes])
    · exact absurd isString string'
    · rw [leafRecord_of_words made'] at same
      exact absurd (Option.some.inj same).symm (singles_ne_singleton made' _)
  · exact absurd isString string
  · rw [leafRecord_of_words made] at same
    rcases builtin_cases builtin' with rfl | ⟨flag', rfl⟩ | isString | ⟨components', made'⟩
    · exact absurd (Option.some.inj same) (singles_ne_singleton made _)
    · exact absurd (Option.some.inj same) (singles_ne_singleton made _)
    · exact absurd isString string'
    · rw [leafRecord_of_words made'] at same
      obtain rfl := singles_injective (Option.some.inj same)
      by_cases types : getType first = getType second
      · exact .inl (eq_of_getType made made' types)
      · exact .inr ⟨types, .inl ⟨components, made, made'⟩⟩

/-- What a string spells has the bytes of the string. -/
theorem leafRecord_of_spells {text : String} {value : Variant ω} (spells : Spells text value) :
    leafRecord stringify heap value = some (asBytes text) := by
  cases value with
  | bool flag =>
    rw [show text = _ from spells, asBytes_flag]
    rfl
  | _ =>
    obtain ⟨components, made, same⟩ := spells
    rw [leafRecord_of_words made, same]

variable (stringify heap) in
theorem leafRecord_of_coincide {first second : Variant ω} (coincide : Coincide first second) :
    leafRecord stringify heap first = leafRecord stringify heap second := by
  obtain ⟨-, ⟨components, made, made'⟩ | ⟨text, rfl, spells⟩ | ⟨text, rfl, spells⟩⟩ := coincide
  · rw [leafRecord_of_words made, leafRecord_of_words made']
  · exact (leafRecord_of_spells spells).symm
  · exact leafRecord_of_spells spells

/-- The walk of a leaf makes its record. -/
theorem walk_leaf (hashBytes : Bytes → UInt64) (ioText : IoError → String) (tick entityId : UInt64)
    {value : Variant ω} (builtin : IsBuiltin value) {bytes : Bytes}
    (leaf : leafRecord stringify heap value = some bytes) {path : String} {depth : ℕ}
    (shallow : depth ≤ defaultMaxDepth) :
    walk hashBytes ioText stringify heap tick entityId path value depth =
      onRecording (record hashBytes ioText tick entityId path bytes) := by
  rw [walk.eq_def, dif_neg (Nat.not_lt.mpr shallow)]
  cases value with
  | object id => simp [IsBuiltin, getType] at builtin
  | array id => cases leaf
  | dictionary id => cases leaf
  | _ =>
    cases leaf
    rfl

end Bytes

/-! ### When the bytes tell leaves apart -/

/-- **The bytes recorded for two leaves tell them apart exactly where they do not coincide**: where
they are not of two types and made of the same words, or spelled by the one that is a string. -/
theorem godot_leaf_bytes_iff (hashBytes : Bytes → UInt64) (ioText : IoError → String)
    (stringify : Variant ω → String) (heap : Heap ω) (tick entityId : UInt64)
    (first second : Variant ω) (builtin : IsBuiltin first) (builtin' : IsBuiltin second) :
    ∃ bytes bytes',
      (∀ path, ∀ depth ≤ defaultMaxDepth,
        walk hashBytes ioText stringify heap tick entityId path first depth =
            onRecording (record hashBytes ioText tick entityId path bytes) ∧
          walk hashBytes ioText stringify heap tick entityId path second depth =
            onRecording (record hashBytes ioText tick entityId path bytes')) ∧
      leafRecord stringify heap first = some bytes ∧
      leafRecord stringify heap second = some bytes' ∧
      ((bytes = bytes' → first = second) ↔ ¬ Coincide first second) := by
  obtain ⟨bytes, leaf⟩ := leafRecord_builtin stringify heap builtin
  obtain ⟨bytes', leaf'⟩ := leafRecord_builtin stringify heap builtin'
  refine ⟨bytes, bytes', fun path depth shallow => ⟨?_, ?_⟩, leaf, leaf', ?_, ?_⟩
  · exact walk_leaf hashBytes ioText tick entityId builtin leaf shallow
  · exact walk_leaf hashBytes ioText tick entityId builtin' leaf' shallow
  · intro faithful coincide
    have same := leafRecord_of_coincide stringify heap coincide
    rw [leaf, leaf'] at same
    exact coincide.1 (congrArg getType (faithful (Option.some.inj same)))
  · intro apart same
    have records : leafRecord stringify heap first = leafRecord stringify heap second := by
      rw [leaf, leaf', same]
    exact (leafRecord_eq_cases builtin builtin' records).resolve_right apart

theorem godot_leaf_bytes_iff_seven :
    ∃ bytes bytes', leafRecord plainText doors (.int 7) = some bytes ∧
      leafRecord plainText doors (.string "7") = some bytes' ∧
        ((bytes = bytes' → (.int 7 : Variant Unit) = .string "7") ↔
          ¬ Coincide (.int 7 : Variant Unit) (.string "7")) := by
  obtain ⟨bytes, bytes', -, exact⟩ := godot_leaf_bytes_iff (fun _ => 7) (fun _ => "") plainText doors
    0 0 (.int 7) (.string "7") (by decide) (by decide)
  exact ⟨bytes, bytes', exact⟩

/-- An integer and a float of the same bits, a flag and a string of one control character. -/
theorem godot_leaf_bytes_coincide :
    leafRecord plainText doors (.int 0) = leafRecord plainText doors (.float 0) ∧
      leafRecord plainText doors (.bool true) = leafRecord plainText doors (.string "\x01") ∧
        (.int 0 : Variant Unit) ≠ .float 0 ∧ (.bool true : Variant Unit) ≠ .string "\x01" := by
  decide

end Foldback.Godot
