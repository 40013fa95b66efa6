/-
**Canonical field bytes, as `hashable.rs` computes them.**

* `FieldTy shape ordered` is the family of types the `FieldBytes` impls cover; `ordered` says whether
  the type implements `Ord`, which keys and set elements must. Floats, `HashMap` and `HashSet` do not.
* A `Shape` forgets which kind of map or set a type uses. Values of one shape share a `Carrier`:
  integers and floats are bit patterns, a container is the list that its iterator yields.
* `Valid` says which carriers are values of a type: array lengths, the distinct keys of a `HashMap` in
  any order, the ascending keys of a `BTreeMap`. `Value` is the subtype.
* `fieldBytes` is the function, one case for each group of impls; `cmp` is `Ord::cmp`.
* `content` forgets the iteration order: maps become sets of pairs, sets become sets.
-/

import Foldback.Core.Io
import Foldback.Lib.KeyOrder

namespace Foldback

open Radix KeyOrder Std

/-! ### Types -/

inductive IntTy
  | i8 | i16 | i32 | i64 | i128 | u8 | u16 | u32 | u64 | u128
  deriving DecidableEq, Repr

namespace IntTy

def bytes : IntTy → ℕ
  | .i8 | .u8 => 1
  | .i16 | .u16 => 2
  | .i32 | .u32 => 4
  | .i64 | .u64 => 8
  | .i128 | .u128 => 16

def signed : IntTy → Bool
  | .i8 | .i16 | .i32 | .i64 | .i128 => true
  | _ => false

end IntTy

inductive FloatTy
  | f32 | f64
  deriving DecidableEq, Repr

def FloatTy.bytes : FloatTy → ℕ
  | .f32 => 4
  | .f64 => 8

/-- A type up to the kind of its maps and sets. -/
inductive Shape
  | int (ty : IntTy)
  | float (ty : FloatTy)
  | bool
  | array (elem : Shape) (n : ℕ)
  | map (key value : Shape)
  | set (elem : Shape)
  deriving DecidableEq, Repr

/-- The types with a `FieldBytes` impl; the index says whether the type also implements `Ord`. -/
inductive FieldTy : Shape → Bool → Type
  | int (ty : IntTy) : FieldTy (.int ty) true
  | float (ty : FloatTy) : FieldTy (.float ty) false
  | bool : FieldTy .bool true
  | array {elem : Shape} {ordered : Bool} (elemTy : FieldTy elem ordered) (n : ℕ) :
    FieldTy (.array elem n) ordered
  | hashMap {key value : Shape} {ordered : Bool} (keyTy : FieldTy key true)
    (valueTy : FieldTy value ordered) : FieldTy (.map key value) false
  | btreeMap {key value : Shape} {ordered : Bool} (keyTy : FieldTy key true)
    (valueTy : FieldTy value ordered) : FieldTy (.map key value) ordered
  | hashSet {elem : Shape} (elemTy : FieldTy elem true) : FieldTy (.set elem) false
  | btreeSet {elem : Shape} (elemTy : FieldTy elem true) : FieldTy (.set elem) true

/-! ### Values -/

/-- What a value of the shape is made of; a map or set is what its iterator yields, in order. -/
def Carrier : Shape → Type
  | .int ty => BitVec (8 * ty.bytes)
  | .float ty => BitVec (8 * ty.bytes)
  | .bool => Bool
  | .array elem _ => List (Carrier elem)
  | .map key value => List (Carrier key × Carrier value)
  | .set elem => List (Carrier elem)

instance Carrier.decidableEq : (shape : Shape) → DecidableEq (Carrier shape)
  | .int ty => inferInstanceAs (DecidableEq (BitVec (8 * ty.bytes)))
  | .float ty => inferInstanceAs (DecidableEq (BitVec (8 * ty.bytes)))
  | .bool => inferInstanceAs (DecidableEq Bool)
  | .array elem _ =>
    have := decidableEq elem
    inferInstanceAs (DecidableEq (List (Carrier elem)))
  | .map key value =>
    have := decidableEq key
    have := decidableEq value
    inferInstanceAs (DecidableEq (List (Carrier key × Carrier value)))
  | .set elem =>
    have := decidableEq elem
    inferInstanceAs (DecidableEq (List (Carrier elem)))

/-- `Ord::cmp`. Arrays, maps and sets compare as their sequences do. Floats have no `Ord`; their
case, never used, orders the bit patterns. -/
def cmp : (shape : Shape) → Carrier shape → Carrier shape → Ordering
  | .int ty => fun (a b : BitVec (8 * ty.bytes)) =>
    if ty.signed then compare a.toInt b.toInt else compare a.toNat b.toNat
  | .float ty => fun (a b : BitVec (8 * ty.bytes)) => compare a.toNat b.toNat
  | .bool => fun (a b : Bool) => compare a b
  | .array elem _ => List.compareLex (cmp elem)
  | .map key value => List.compareLex (byPair (cmp key) (cmp value))
  | .set elem => List.compareLex (cmp elem)

/-- The carriers that are values of the type. -/
def Valid : {shape : Shape} → {ordered : Bool} → FieldTy shape ordered → Carrier shape → Prop
  | _, _, .int _, _ => True
  | _, _, .float _, _ => True
  | _, _, .bool, _ => True
  | _, _, .array elemTy n, (items : List _) => items.length = n ∧ ∀ item ∈ items, Valid elemTy item
  | _, _, .hashMap keyTy valueTy, (entries : List (_ × _)) =>
    (entries.map Prod.fst).Nodup ∧ ∀ entry ∈ entries, Valid keyTy entry.1 ∧ Valid valueTy entry.2
  | .map key _, _, .btreeMap keyTy valueTy, (entries : List (_ × _)) =>
    Ascending (cmp key) Prod.fst entries ∧
      ∀ entry ∈ entries, Valid keyTy entry.1 ∧ Valid valueTy entry.2
  | _, _, .hashSet elemTy, (items : List _) => items.Nodup ∧ ∀ item ∈ items, Valid elemTy item
  | .set elem, _, .btreeSet elemTy, (items : List _) =>
    Ascending (cmp elem) id items ∧ ∀ item ∈ items, Valid elemTy item

instance Valid.decidable : {shape : Shape} → {ordered : Bool} → (ty : FieldTy shape ordered) →
    DecidablePred (Valid ty)
  | _, _, .int _, _ => inferInstanceAs (Decidable True)
  | _, _, .float _, _ => inferInstanceAs (Decidable True)
  | _, _, .bool, _ => inferInstanceAs (Decidable True)
  | _, _, .array elemTy n, (items : List _) =>
    have := Valid.decidable elemTy
    inferInstanceAs (Decidable (items.length = n ∧ ∀ item ∈ items, Valid elemTy item))
  | _, _, .hashMap keyTy valueTy, (entries : List (_ × _)) =>
    have := Valid.decidable keyTy
    have := Valid.decidable valueTy
    inferInstanceAs (Decidable ((entries.map Prod.fst).Nodup ∧
      ∀ entry ∈ entries, Valid keyTy entry.1 ∧ Valid valueTy entry.2))
  | .map key _, _, .btreeMap keyTy valueTy, (entries : List (_ × _)) =>
    have := Valid.decidable keyTy
    have := Valid.decidable valueTy
    inferInstanceAs (Decidable (Ascending (cmp key) Prod.fst entries ∧
      ∀ entry ∈ entries, Valid keyTy entry.1 ∧ Valid valueTy entry.2))
  | _, _, .hashSet elemTy, (items : List _) =>
    have := Valid.decidable elemTy
    inferInstanceAs (Decidable (items.Nodup ∧ ∀ item ∈ items, Valid elemTy item))
  | .set elem, _, .btreeSet elemTy, (items : List _) =>
    have := Valid.decidable elemTy
    inferInstanceAs (Decidable (Ascending (cmp elem) id items ∧ ∀ item ∈ items, Valid elemTy item))

/-- A value of the type, with its iteration orders. -/
def Value {shape : Shape} {ordered : Bool} (ty : FieldTy shape ordered) : Type :=
  { carrier : Carrier shape // Valid ty carrier }

/-! ### The bytes -/

/-- `FieldBytes::field_bytes`. The two map impls are one case, and so are the two set impls: each
sorts what its iterator yields. -/
def fieldBytes : (shape : Shape) → Carrier shape → Bytes
  | .int ty => fun (a : BitVec (8 * ty.bytes)) => leBytes ty.bytes a.toNat
  | .float ty => fun (a : BitVec (8 * ty.bytes)) => leBytes ty.bytes a.toNat
  | .bool => fun (a : Bool) => [if a then 1 else 0]
  | .array elem _ => fun (items : List (Carrier elem)) => items.flatMap (fieldBytes elem)
  | .map key value => fun (entries : List (Carrier key × Carrier value)) =>
    (sortByKey (cmp key) Prod.fst entries).flatMap fun entry =>
      fieldBytes key entry.1 ++ fieldBytes value entry.2
  | .set elem => fun (items : List (Carrier elem)) =>
    (sortByKey (cmp elem) id items).flatMap (fieldBytes elem)

/-! ### The content -/

/-- The mathematical values of the shape. -/
def Content : Shape → Type
  | .int ty => BitVec (8 * ty.bytes)
  | .float ty => BitVec (8 * ty.bytes)
  | .bool => Bool
  | .array elem _ => List (Content elem)
  | .map key value => Set (Content key × Content value)
  | .set elem => Set (Content elem)

/-- A value without its iteration orders. -/
def content : (shape : Shape) → Carrier shape → Content shape
  | .int _ => fun a => a
  | .float _ => fun a => a
  | .bool => fun a => a
  | .array elem _ => fun (items : List (Carrier elem)) => items.map (content elem)
  | .map key value => fun (entries : List (Carrier key × Carrier value)) =>
    { pair | ∃ entry ∈ entries, pair = (content key entry.1, content value entry.2) }
  | .set elem => fun (items : List (Carrier elem)) => { member | ∃ item ∈ items, member = content elem item }

/-! ### The order is lawful -/

theorem cmp_lawful (shape : Shape) : TransCmp (cmp shape) ∧ LawfulEqCmp (cmp shape) := by
  induction shape with
  | int ty =>
    by_cases signed : ty.signed
    · have same : cmp (.int ty) = onKey (compare (α := ℤ)) (@BitVec.toInt (8 * ty.bytes)) := by
        simp only [cmp, signed, if_true]
        rfl
      rw [same]
      exact ⟨trans_onKey _ _, lawfulEq_onKey _ fun _ _ => BitVec.eq_of_toInt_eq⟩
    · have same : cmp (.int ty) = onKey (compare (α := ℕ)) (@BitVec.toNat (8 * ty.bytes)) := by
        simp only [cmp, signed]
        rfl
      rw [same]
      exact ⟨trans_onKey _ _, lawfulEq_onKey _ fun _ _ => BitVec.eq_of_toNat_eq⟩
  | float ty =>
    have same : cmp (.float ty) = onKey (compare (α := ℕ)) (@BitVec.toNat (8 * ty.bytes)) := rfl
    rw [same]
    exact ⟨trans_onKey _ _, lawfulEq_onKey _ fun _ _ => BitVec.eq_of_toNat_eq⟩
  | bool =>
    exact ⟨inferInstanceAs (TransCmp (compare (α := Bool))),
      inferInstanceAs (LawfulEqCmp (compare (α := Bool)))⟩
  | array elem n ih =>
    obtain ⟨trans, lawful⟩ := ih
    exact ⟨inferInstanceAs (TransCmp (List.compareLex (cmp elem))),
      inferInstanceAs (LawfulEqCmp (List.compareLex (cmp elem)))⟩
  | map key value ihKey ihValue =>
    obtain ⟨transKey, lawfulKey⟩ := ihKey
    obtain ⟨transValue, lawfulValue⟩ := ihValue
    exact ⟨inferInstanceAs (TransCmp (List.compareLex (byPair (cmp key) (cmp value)))),
      inferInstanceAs (LawfulEqCmp (List.compareLex (byPair (cmp key) (cmp value))))⟩
  | set elem ih =>
    obtain ⟨trans, lawful⟩ := ih
    exact ⟨inferInstanceAs (TransCmp (List.compareLex (cmp elem))),
      inferInstanceAs (LawfulEqCmp (List.compareLex (cmp elem)))⟩

instance (shape : Shape) : TransCmp (cmp shape) := (cmp_lawful shape).1

instance (shape : Shape) : LawfulEqCmp (cmp shape) := (cmp_lawful shape).2

end Foldback
