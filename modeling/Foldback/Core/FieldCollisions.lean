/-
**Types whose field bytes do not determine the value, and the exact condition.**

* `low` and `high` are two values that every type has; their bytes are zeros and ones only, so bytes
  of one kind commute with each other (`fieldBytes_low`, `fieldBytes_high`).
* `Collides ty`: two values of the type have the same bytes and different contents. Each way a type
  can fail `Shape.faithful` gives a collision made of `low` and `high` values.
* `fieldBytes_faithful_iff`: **the bytes determine the value exactly for the faithful types.**
* `collision_mapOfSets`: the bytes `[1, 2]` are those of two different maps of sets.
-/

import Foldback.Core.FieldFaithful

namespace Foldback

open KeyOrder Std Radix

/-! ### Two values of every type -/

/-- The value made of zero bytes; a map or set is empty. -/
def low : (shape : Shape) → Carrier shape
  | .int ty => BitVec.ofNat (8 * ty.bytes) 0
  | .float ty => BitVec.ofNat (8 * ty.bytes) 0
  | .bool => false
  | .array elem n => List.replicate n (low elem)
  | .map _ _ => []
  | .set _ => []

/-- The value made of bytes `1`; a map or set has one entry. -/
def high : (shape : Shape) → Carrier shape
  | .int ty => BitVec.ofNat (8 * ty.bytes) (leNat (List.replicate ty.bytes 1))
  | .float ty => BitVec.ofNat (8 * ty.bytes) (leNat (List.replicate ty.bytes 1))
  | .bool => true
  | .array elem n => List.replicate n (high elem)
  | .map key value => [(high key, high value)]
  | .set elem => [high elem]

/-- The number of bytes of `low`. -/
def Shape.lowLen : Shape → ℕ
  | .int ty => ty.bytes
  | .float ty => ty.bytes
  | .bool => 1
  | .array elem n => n * elem.lowLen
  | .map _ _ => 0
  | .set _ => 0

/-- The number of bytes of `high`. -/
def Shape.highLen : Shape → ℕ
  | .int ty => ty.bytes
  | .float ty => ty.bytes
  | .bool => 1
  | .array elem n => n * elem.highLen
  | .map key value => key.highLen + value.highLen
  | .set elem => elem.highLen

/-- An array of one valid item is valid. -/
theorem valid_replicate {elem : Shape} {n : ℕ} {ordered : Bool} (ty : FieldTy (.array elem n) ordered)
    {item : Carrier elem} (valid : ∀ elemTy : FieldTy elem ordered, Valid elemTy item) :
    Valid ty (List.replicate n item) := by
  obtain ⟨elemTy, parts⟩ := array_parts ty
  refine (parts _).mpr ⟨List.length_replicate, fun other member => ?_⟩
  rw [List.eq_of_mem_replicate member]
  exact valid elemTy

theorem valid_low {shape : Shape} {ordered : Bool} (ty : FieldTy shape ordered) :
    Valid ty (low shape) := by
  induction shape generalizing ordered with
  | int _ | float _ | bool =>
    cases ty
    trivial
  | array elem n ih => exact valid_replicate ty ih
  | map key value =>
    obtain ⟨keyTy, _, valueTy, parts⟩ := map_parts ty
    exact (parts []).2 List.Pairwise.nil fun entry member => by cases member
  | set elem =>
    obtain ⟨elemTy, parts⟩ := set_parts ty
    exact (parts []).2 List.Pairwise.nil fun item member => by cases member

theorem valid_high {shape : Shape} {ordered : Bool} (ty : FieldTy shape ordered) :
    Valid ty (high shape) := by
  induction shape generalizing ordered with
  | int _ | float _ | bool =>
    cases ty
    trivial
  | array elem n ih => exact valid_replicate ty ih
  | map key value ihKey ihValue =>
    obtain ⟨keyTy, _, valueTy, parts⟩ := map_parts ty
    refine (parts [(high key, high value)]).2 (List.pairwise_singleton _ _) fun entry member => ?_
    rw [List.mem_singleton.mp member]
    exact ⟨ihKey keyTy, ihValue valueTy⟩
  | set elem ih =>
    obtain ⟨elemTy, parts⟩ := set_parts ty
    refine (parts [high elem]).2 (List.pairwise_singleton _ _) fun item member => ?_
    rw [List.mem_singleton.mp member]
    exact ih elemTy

theorem flatMap_replicate_replicate {α β : Type} (n m : ℕ) {a : α} {byte : β} {f : α → List β}
    (bytes : f a = List.replicate m byte) :
    (List.replicate n a).flatMap f = List.replicate (n * m) byte := by
  induction n with
  | zero => simp
  | succ n ih =>
    rw [List.replicate_succ, List.flatMap_cons, ih, bytes, ← List.replicate_add, Nat.succ_mul,
      Nat.add_comm]

theorem leBytes_zero (width : ℕ) : leBytes width 0 = List.replicate width 0 := by
  induction width with
  | zero => rfl
  | succ width ih =>
    rw [leBytes, digits, Nat.zero_mod, Nat.zero_div, List.map_cons, ← leBytes, ih]
    rfl

theorem fieldBytes_low (shape : Shape) :
    fieldBytes shape (low shape) = List.replicate shape.lowLen 0 := by
  induction shape with
  | int ty => exact (congrArg _ (Nat.zero_mod _)).trans (leBytes_zero _)
  | float ty => exact (congrArg _ (Nat.zero_mod _)).trans (leBytes_zero _)
  | bool => rfl
  | array elem n ih => exact flatMap_replicate_replicate n _ ih
  | map key value => rfl
  | set elem => rfl

theorem fieldBytes_high (shape : Shape) :
    fieldBytes shape (high shape) = List.replicate shape.highLen 1 := by
  induction shape with
  | int ty => cases ty <;> decide
  | float ty => cases ty <;> decide
  | bool => rfl
  | array elem n ih => exact flatMap_replicate_replicate n _ ih
  | map key value ihKey ihValue =>
    have bytes : fieldBytes (.map key value) (high (.map key value)) =
        (fieldBytes key (high key) ++ fieldBytes value (high value)) ++ [] := rfl
    rw [bytes, ihKey, ihValue, List.append_nil, ← List.replicate_add]
    rfl
  | set elem ih =>
    have bytes : fieldBytes (.set elem) (high (.set elem)) = fieldBytes elem (high elem) ++ [] := rfl
    rw [bytes, ih, List.append_nil]
    rfl

/-- `low` comes before `high`, when `high` has bytes. -/
theorem cmp_low_high {shape : Shape} (positive : 0 < shape.highLen) :
    cmp shape (low shape) (high shape) = .lt := by
  induction shape with
  | int ty => cases ty <;> decide
  | float ty => cases ty <;> decide
  | bool => rfl
  | array elem n ih =>
    obtain ⟨many, elemPositive⟩ := Nat.pos_iff_ne_zero.mp positive |> Nat.mul_ne_zero_iff.mp
    obtain ⟨n, rfl⟩ := Nat.exists_eq_succ_of_ne_zero many
    have order : cmp (.array elem (n + 1)) (low (.array elem (n + 1))) (high (.array elem (n + 1))) =
        (cmp elem (low elem) (high elem)).then
          (cmp (.array elem n) (low (.array elem n)) (high (.array elem n))) :=
      List.compareLex_cons_cons
    rw [order, ih (Nat.pos_of_ne_zero elemPositive)]
    rfl
  | map key value => rfl
  | set elem => rfl

/-! ### Widths and contents of the two values -/

theorem lowLen_of_width {shape : Shape} {width : ℕ} (fixed : shape.width = some width) :
    shape.lowLen = width ∧ shape.highLen = width := by
  induction shape generalizing width with
  | int _ | float _ | bool =>
    cases fixed
    exact ⟨rfl, rfl⟩
  | array elem n ih =>
    rw [Shape.width] at fixed
    split at fixed
    · rename_i zero
      cases fixed
      rw [Shape.lowLen, Shape.highLen, zero, Nat.zero_mul, Nat.zero_mul]
      exact ⟨rfl, rfl⟩
    · obtain ⟨elemWidth, elemFixed, rfl⟩ := Option.map_eq_some_iff.mp fixed
      rw [Shape.lowLen, Shape.highLen, (ih elemFixed).1, (ih elemFixed).2]
      exact ⟨rfl, rfl⟩
  | map key value => cases fixed
  | set elem => cases fixed

/-- Without a fixed width, `low` has no bytes and differs from `high`. -/
theorem low_of_no_width {shape : Shape} (free : shape.width = none) :
    shape.lowLen = 0 ∧ content shape (low shape) ≠ content shape (high shape) := by
  induction shape with
  | int _ | float _ | bool => cases free
  | array elem n ih =>
    rw [Shape.width] at free
    split at free
    · cases free
    · rename_i many
      obtain ⟨empty, differs⟩ := ih (Option.map_eq_none_iff.mp free)
      obtain ⟨n, rfl⟩ := Nat.exists_eq_succ_of_ne_zero many
      rw [Shape.lowLen, empty]
      exact ⟨rfl, fun same => differs (List.cons.inj same).1⟩
  | map key value =>
    refine ⟨rfl, fun same => ?_⟩
    obtain ⟨_, member, _⟩ := exists_entry_of_content same.symm (List.mem_singleton_self _)
    cases member
  | set elem =>
    refine ⟨rfl, fun same => ?_⟩
    obtain ⟨_, member, _⟩ := exists_item_of_content same.symm (List.mem_singleton_self _)
    cases member

/-- Values of a key type that compare as less have different contents. -/
theorem content_ne_of_lt {shape : Shape} (ty : FieldTy shape true) {a b : Carrier shape}
    (validA : Valid ty a) (validB : Valid ty b) (order : cmp shape a b = .lt) :
    content shape a ≠ content shape b := by
  intro same
  rw [content_injective ty validA validB same] at order
  exact not_lt_self (cmp shape) b order

theorem replicate_append_comm {α : Type} (n m : ℕ) (a : α) :
    List.replicate n a ++ List.replicate m a = List.replicate m a ++ List.replicate n a := by
  rw [← List.replicate_add, ← List.replicate_add, Nat.add_comm]

/-! ### Collisions -/

/-- Two values of the type have the same bytes and different contents. -/
def Collides {shape : Shape} {ordered : Bool} (ty : FieldTy shape ordered) : Prop :=
  ∃ a b, Valid ty a ∧ Valid ty b ∧ fieldBytes shape a = fieldBytes shape b ∧
    content shape a ≠ content shape b

/-- The bytes of ascending entries are written in that order. -/
theorem fieldBytes_map_ascending {key value : Shape} {entries : List (Carrier key × Carrier value)}
    (ascending : Ascending (cmp key) Prod.fst entries) :
    fieldBytes (.map key value) entries = entries.flatMap fun entry =>
      fieldBytes key entry.1 ++ fieldBytes value entry.2 :=
  congrArg (List.flatMap fun entry : Carrier key × Carrier value =>
    fieldBytes key entry.1 ++ fieldBytes value entry.2) ascending.sortByKey_eq

/-- An item without bytes, in a set or not. -/
theorem collides_set {elem : Shape} {ordered : Bool} (ty : FieldTy (.set elem) ordered)
    (empty : elem.lowLen = 0) : Collides ty := by
  obtain ⟨elemTy, parts⟩ := set_parts ty
  refine ⟨[], [low elem], (parts []).2 List.Pairwise.nil fun item member => (by cases member),
    (parts [low elem]).2 (List.pairwise_singleton _ _) fun item member => ?_, ?_, fun same => ?_⟩
  · rw [List.mem_singleton.mp member]
    exact valid_low elemTy
  · have bytes : fieldBytes (.set elem) [low elem] = fieldBytes elem (low elem) ++ [] := rfl
    rw [bytes, fieldBytes_low, empty]
    rfl
  · obtain ⟨_, member, _⟩ := exists_item_of_content same.symm (List.mem_singleton_self _)
    cases member

/-- An array of one item collides as its item does. -/
theorem collides_array_one {elem : Shape} {ordered : Bool} (ty : FieldTy (.array elem 1) ordered)
    (inner : ∀ elemTy : FieldTy elem ordered, Collides elemTy) : Collides ty := by
  obtain ⟨elemTy, parts⟩ := array_parts ty
  obtain ⟨a, b, validA, validB, same, differs⟩ := inner elemTy
  have single : ∀ item : Carrier elem, Valid elemTy item → Valid ty [item] := by
    refine fun item valid => (parts [item]).mpr ⟨rfl, fun other member => ?_⟩
    rwa [List.mem_singleton.mp member]
  refine ⟨[a], [b], single a validA, single b validB, ?_, fun sameContent => ?_⟩
  · exact congrArg (· ++ []) same
  · exact differs (List.cons.inj sameContent).1

/-- Two neighbours of which one has no bytes can change places. -/
theorem collides_array_two {elem : Shape} {n : ℕ} {ordered : Bool}
    (ty : FieldTy (.array elem (n + 2)) ordered) (free : elem.width = none) : Collides ty := by
  obtain ⟨elemTy, parts⟩ := array_parts ty
  obtain ⟨empty, differs⟩ := low_of_no_width free
  have noBytes : fieldBytes elem (low elem) = [] := by
    rw [fieldBytes_low, empty]
    rfl
  have valid : ∀ first second : Carrier elem, Valid elemTy first → Valid elemTy second →
      Valid ty (first :: second :: List.replicate n (low elem)) := by
    intro first second validFirst validSecond
    refine (parts _).mpr ⟨by simp, fun item member => ?_⟩
    rcases List.mem_cons.mp member with rfl | member
    · exact validFirst
    · rcases List.mem_cons.mp member with rfl | member
      · exact validSecond
      · rw [List.eq_of_mem_replicate member]
        exact valid_low elemTy
  refine ⟨_, _, valid (high elem) (low elem) (valid_high elemTy) (valid_low elemTy),
    valid (low elem) (high elem) (valid_low elemTy) (valid_high elemTy), ?_, fun same => ?_⟩
  · show fieldBytes elem (high elem) ++ (fieldBytes elem (low elem) ++ _) =
      fieldBytes elem (low elem) ++ (fieldBytes elem (high elem) ++ _)
    rw [noBytes]
    rfl
  · exact differs (List.cons.inj same).1.symm

/-- One valid entry is a value of the map type. -/
theorem valid_one {key value : Shape} {ordered valueOrdered : Bool}
    {ty : FieldTy (.map key value) ordered} {keyTy : FieldTy key true}
    {valueTy : FieldTy value valueOrdered}
    (made : ∀ entries : List (Carrier key × Carrier value), Ascending (cmp key) Prod.fst entries →
      (∀ entry ∈ entries, Valid keyTy entry.1 ∧ Valid valueTy entry.2) → Valid ty entries)
    {a : Carrier key} {v : Carrier value} (validKey : Valid keyTy a) (validValue : Valid valueTy v) :
    Valid ty [(a, v)] := by
  refine made _ (List.pairwise_singleton _ _) fun entry member => ?_
  rw [List.mem_singleton.mp member]
  exact ⟨validKey, validValue⟩

/-- Two valid entries in ascending order are a value of the map type. -/
theorem valid_two {key value : Shape} {ordered valueOrdered : Bool}
    {ty : FieldTy (.map key value) ordered} {keyTy : FieldTy key true}
    {valueTy : FieldTy value valueOrdered}
    (made : ∀ entries : List (Carrier key × Carrier value), Ascending (cmp key) Prod.fst entries →
      (∀ entry ∈ entries, Valid keyTy entry.1 ∧ Valid valueTy entry.2) → Valid ty entries)
    {a b : Carrier key} {v w : Carrier value} (order : cmp key a b = .lt) (validA : Valid keyTy a)
    (validB : Valid keyTy b) (validV : Valid valueTy v) (validW : Valid valueTy w) :
    Valid ty [(a, v), (b, w)] := by
  refine made _ (List.pairwise_pair.mpr order) fun entry member => ?_
  simp only [List.mem_cons, List.not_mem_nil, or_false] at member
  rcases member with rfl | rfl
  · exact ⟨validA, validV⟩
  · exact ⟨validB, validW⟩

/-- The bytes of two entries in ascending order. -/
theorem fieldBytes_two {key value : Shape} {a b : Carrier key} (order : cmp key a b = .lt)
    (v w : Carrier value) : fieldBytes (.map key value) [(a, v), (b, w)] =
      fieldBytes key a ++ fieldBytes value v ++ (fieldBytes key b ++ fieldBytes value w) := by
  have ascending : Ascending (cmp key) Prod.fst [(a, v), (b, w)] := List.pairwise_pair.mpr order
  rw [fieldBytes_map_ascending ascending]
  simp

/-- An entry without bytes, in a map or not. -/
theorem collides_map_empty {key value : Shape} {ordered : Bool}
    (ty : FieldTy (.map key value) ordered) (emptyKey : key.lowLen = 0)
    (emptyValue : value.lowLen = 0) : Collides ty := by
  obtain ⟨keyTy, _, valueTy, parts⟩ := map_parts ty
  refine ⟨[], [(low key, low value)],
    (parts []).2 List.Pairwise.nil fun entry member => (by cases member),
    valid_one (fun entries => (parts entries).2) (valid_low keyTy) (valid_low valueTy), ?_,
    fun same => ?_⟩
  · have bytes : fieldBytes (.map key value) [(low key, low value)] =
        (fieldBytes key (low key) ++ fieldBytes value (low value)) ++ [] := rfl
    rw [bytes, fieldBytes_low, fieldBytes_low, emptyKey, emptyValue]
    rfl
  · obtain ⟨_, member, _⟩ := exists_entry_of_content same.symm (List.mem_singleton_self _)
    cases member

/-- Two keys that collide. -/
theorem collides_map_key {key value : Shape} {ordered : Bool} (ty : FieldTy (.map key value) ordered)
    (inner : ∀ keyTy : FieldTy key true, Collides keyTy) : Collides ty := by
  obtain ⟨keyTy, _, valueTy, parts⟩ := map_parts ty
  obtain ⟨a, b, validA, validB, same, differs⟩ := inner keyTy
  refine ⟨[(a, low value)], [(b, low value)],
    valid_one (fun entries => (parts entries).2) validA (valid_low valueTy),
    valid_one (fun entries => (parts entries).2) validB (valid_low valueTy), ?_, fun equal => ?_⟩
  · exact congrArg (fun bytes => (bytes ++ fieldBytes value (low value)) ++ []) same
  · obtain ⟨entry, member, sameKey, _⟩ := exists_entry_of_content equal (List.mem_singleton_self _)
    rw [List.mem_singleton.mp member] at sameKey
    exact differs sameKey

/-- Two values of which one has no bytes can change places, past a key of the other's bytes. -/
theorem collides_map_swap {key value : Shape} {ordered : Bool}
    (ty : FieldTy (.map key value) ordered) (free : value.width = none)
    (positive : 0 < key.highLen) : Collides ty := by
  obtain ⟨keyTy, _, valueTy, parts⟩ := map_parts ty
  obtain ⟨empty, differs⟩ := low_of_no_width free
  have order := cmp_low_high positive
  have noBytes : fieldBytes value (low value) = [] := by
    rw [fieldBytes_low, empty]
    rfl
  refine ⟨[(low key, high value), (high key, low value)],
    [(low key, low value), (high key, high value)],
    valid_two (fun entries => (parts entries).2) order (valid_low keyTy) (valid_high keyTy)
      (valid_high valueTy) (valid_low valueTy),
    valid_two (fun entries => (parts entries).2) order (valid_low keyTy) (valid_high keyTy)
      (valid_low valueTy) (valid_high valueTy), ?_, fun same => ?_⟩
  · rw [fieldBytes_two order, fieldBytes_two order, noBytes, fieldBytes_high, fieldBytes_high,
      List.append_nil, List.append_nil, List.append_assoc, replicate_append_comm]
  · -- The entry at the least key has different values.
    obtain ⟨entry, member, sameKey, sameValue⟩ := exists_entry_of_content same List.mem_cons_self
    simp only [List.mem_cons, List.not_mem_nil, or_false] at member
    rcases member with rfl | rfl
    · exact differs sameValue.symm
    · exact content_ne_of_lt keyTy (valid_low keyTy) (valid_high keyTy) order sameKey

/-- A key whose bytes are those of two smaller keys `a` and `b`, none of them the key `low`. -/
def Splits {shape : Shape} (ty : FieldTy shape true) : Prop :=
  ∃ whole a b, Valid ty whole ∧ Valid ty a ∧ Valid ty b ∧
    fieldBytes shape whole = fieldBytes shape a ++ fieldBytes shape b ∧
    (∃ count, fieldBytes shape a = List.replicate count 0) ∧
    cmp shape (low shape) whole = .lt ∧ cmp shape (low shape) a = .lt ∧ cmp shape a b = .lt

/-- One key that splits, beside the key `low`, against its two halves. -/
theorem collides_map_split {key value : Shape} {ordered : Bool}
    (ty : FieldTy (.map key value) ordered) (empty : key.lowLen = 0)
    (splits : ∀ keyTy : FieldTy key true, Splits keyTy) : Collides ty := by
  obtain ⟨keyTy, _, valueTy, parts⟩ := map_parts ty
  obtain ⟨whole, a, b, validWhole, validA, validB, split, ⟨count, zeros⟩, lowWhole, lowA, order⟩ :=
    splits keyTy
  have lowB := TransCmp.lt_trans lowA order
  have noBytes : fieldBytes key (low key) = [] := by
    rw [fieldBytes_low, empty]
    rfl
  refine ⟨[(low key, low value), (whole, low value)], [(a, low value), (b, low value)],
    valid_two (fun entries => (parts entries).2) lowWhole (valid_low keyTy) validWhole
      (valid_low valueTy) (valid_low valueTy),
    valid_two (fun entries => (parts entries).2) order validA validB (valid_low valueTy)
      (valid_low valueTy), ?_, fun same => ?_⟩
  · rw [fieldBytes_two lowWhole, fieldBytes_two order, noBytes, split, zeros, fieldBytes_low,
      List.nil_append, List.append_assoc, ← List.append_assoc, ← List.append_assoc,
      replicate_append_comm, List.append_assoc]
  · obtain ⟨entry, member, sameKey, _⟩ := exists_entry_of_content same List.mem_cons_self
    simp only [List.mem_cons, List.not_mem_nil, or_false] at member
    rcases member with rfl | rfl
    · exact content_ne_of_lt keyTy (valid_low keyTy) validA lowA sameKey
    · exact content_ne_of_lt keyTy (valid_low keyTy) validB lowB sameKey

/-! ### Keys that split -/

theorem highLen_of_option {shape : Shape} (optional : shape.option.isSome) : 0 < shape.highLen := by
  induction shape with
  | int _ | float _ | bool | set _ => cases optional
  | array elem n ih =>
    rw [Shape.option] at optional
    split at optional
    · rename_i one
      rw [Shape.highLen, one, Nat.one_mul]
      exact ih optional
    · cases optional
  | map key value =>
    obtain ⟨width, optional⟩ := Option.isSome_iff_exists.mp optional
    have positive := option_pos optional
    rw [Shape.option] at optional
    split at optional
    · obtain ⟨valueFixed, _⟩ := Option.filter_eq_some_iff.mp optional
      rw [Shape.highLen, (lowLen_of_width valueFixed).2]
      exact Nat.add_pos_right _ positive
    · cases optional

theorem splits_set {elem : Shape} (ty : FieldTy (.set elem) true) (positive : 0 < elem.highLen) :
    Splits ty := by
  cases ty with
  | btreeSet elemTy =>
    have order := cmp_low_high positive
    have ascending : Ascending (cmp elem) id [low elem, high elem] := List.pairwise_pair.mpr order
    refine ⟨[low elem, high elem], [low elem], [high elem], ⟨ascending, fun item member => ?_⟩,
      ⟨List.pairwise_singleton _ _, fun item member => ?_⟩, valid_high (.btreeSet elemTy), ?_,
      ⟨elem.lowLen, ?_⟩, rfl, rfl, ?_⟩
    · simp only [List.mem_cons, List.not_mem_nil, or_false] at member
      rcases member with rfl | rfl
      · exact valid_low elemTy
      · exact valid_high elemTy
    · rw [List.mem_singleton.mp member]
      exact valid_low elemTy
    · have sorted : fieldBytes (.set elem) [low elem, high elem] =
          [low elem, high elem].flatMap (fieldBytes elem) :=
        congrArg (List.flatMap (fieldBytes elem)) ascending.sortByKey_eq
      rw [sorted, List.flatMap_cons]
      exact congrArg (· ++ _) (List.append_nil (fieldBytes elem (low elem))).symm
    · have bytes : fieldBytes (.set elem) [low elem] = fieldBytes elem (low elem) ++ [] := rfl
      rw [bytes, fieldBytes_low, List.append_nil]
    · have lex : cmp (.set elem) [low elem] [high elem] =
          (cmp elem (low elem) (high elem)).then .eq :=
        List.compareLex_cons_cons
      rw [lex, order]
      rfl

theorem splits_map {key value : Shape} (ty : FieldTy (.map key value) true)
    (positive : 0 < key.highLen) : Splits ty := by
  cases ty with
  | btreeMap keyTy valueTy =>
    have order := cmp_low_high positive
    have made : ∀ entries : List (Carrier key × Carrier value),
        Ascending (cmp key) Prod.fst entries →
        (∀ entry ∈ entries, Valid keyTy entry.1 ∧ Valid valueTy entry.2) →
        Valid (.btreeMap keyTy valueTy) entries := fun _ => And.intro
    refine ⟨[(low key, low value), (high key, low value)], [(low key, low value)],
      [(high key, low value)],
      valid_two made order (valid_low keyTy) (valid_high keyTy) (valid_low valueTy)
        (valid_low valueTy),
      valid_one made (valid_low keyTy) (valid_low valueTy),
      valid_one made (valid_high keyTy) (valid_low valueTy), ?_,
      ⟨key.lowLen + value.lowLen, ?_⟩, rfl, rfl, ?_⟩
    · have one : ∀ a : Carrier key, fieldBytes (.map key value) [(a, low value)] =
          fieldBytes key a ++ fieldBytes value (low value) := fun a => List.append_nil _
      rw [fieldBytes_two order, one, one]
    · have bytes : fieldBytes (.map key value) [(low key, low value)] =
          (fieldBytes key (low key) ++ fieldBytes value (low value)) ++ [] := rfl
      rw [bytes, fieldBytes_low, fieldBytes_low, List.append_nil, ← List.replicate_add]
    · have lex : cmp (.map key value) [(low key, low value)] [(high key, low value)] =
          ((cmp key (low key) (high key)).then (cmp value (low value) (low value))).then .eq :=
        List.compareLex_cons_cons
      rw [lex, order]
      rfl

theorem splits_array {elem : Shape} (ty : FieldTy (.array elem 1) true)
    (inner : ∀ elemTy : FieldTy elem true, Splits elemTy) : Splits ty := by
  cases ty with
  | array elemTy =>
    obtain ⟨whole, a, b, validWhole, validA, validB, split, ⟨count, zeros⟩, lowWhole, lowA, order⟩ :=
      inner elemTy
    have single : ∀ item : Carrier elem, Valid elemTy item → Valid (.array elemTy 1) [item] := by
      refine fun item valid => ⟨rfl, fun other member => ?_⟩
      rwa [List.mem_singleton.mp member]
    have bytes : ∀ item : Carrier elem, fieldBytes (.array elem 1) [item] = fieldBytes elem item :=
      fun item => List.append_nil _
    have lex : ∀ item other : Carrier elem, cmp elem item other = .lt →
        cmp (.array elem 1) [item] [other] = .lt := by
      intro item other less
      have unfolded : cmp (.array elem 1) [item] [other] = (cmp elem item other).then .eq :=
        List.compareLex_cons_cons
      rw [unfolded, less]
      rfl
    refine ⟨[whole], [a], [b], single _ validWhole, single _ validA, single _ validB, ?_,
      ⟨count, ?_⟩, lex _ _ lowWhole, lex _ _ lowA, lex _ _ order⟩
    · rw [bytes, bytes, bytes, split]
    · rw [bytes, zeros]

/-- A faithful key type without a fixed width whose keys are not written as nothing or one value has
a key that splits. -/
theorem splits_of_faithful {shape : Shape} (ty : FieldTy shape true)
    (faithful : shape.faithful = true) (free : shape.width = none)
    (notOptional : shape.option = none) : Splits ty := by
  induction shape with
  | int _ | float _ | bool => cases free
  | array elem n ih =>
    rw [Shape.width] at free
    split at free
    · cases free
    · rename_i many
      have elemFree := Option.map_eq_none_iff.mp free
      rw [Shape.faithful, Bool.or_eq_true, Bool.or_eq_true, Bool.and_eq_true, decide_eq_true_eq,
        decide_eq_true_eq, elemFree] at faithful
      rcases faithful with (zero | ⟨one, elemFaithful⟩) | fixed
      · exact absurd zero many
      · subst one
        rw [Shape.option, if_pos rfl] at notOptional
        exact splits_array ty fun elemTy => ih elemTy elemFaithful elemFree notOptional
      · cases fixed
  | map key value ihKey ihValue =>
    refine splits_map ty ?_
    rw [Shape.faithful] at faithful
    rw [Shape.option] at notOptional
    split at faithful
    · cases faithful
    · rename_i valueWidth keyWidth valueFixed keyFixed
      rw [(lowLen_of_width keyFixed).2]
      refine Nat.pos_of_ne_zero fun zero => ?_
      subst zero
      rw [keyFixed, if_pos rfl, valueFixed, Option.filter_some, if_pos (by simpa using faithful)]
        at notOptional
      cases notOptional
    · exact highLen_of_option (Bool.and_eq_true_iff.mp faithful).1
  | set elem ih =>
    obtain ⟨width, fixed, positive⟩ := (Option.any_eq_true _ _).mp faithful
    refine splits_set ty ?_
    rw [(lowLen_of_width fixed).2]
    exact of_decide_eq_true positive

/-! ### The exact condition -/

/-- **A type that is not faithful collides.** -/
theorem collides_of_not_faithful {shape : Shape} {ordered : Bool} (ty : FieldTy shape ordered)
    (unfaithful : shape.faithful = false) : Collides ty := by
  induction shape generalizing ordered with
  | int _ | float _ | bool => cases unfaithful
  | array elem n ih =>
    rw [Shape.faithful, Bool.or_eq_false_iff, Bool.or_eq_false_iff, decide_eq_false_iff_not]
      at unfaithful
    obtain ⟨⟨many, one⟩, free⟩ := unfaithful
    rw [Option.isSome_eq_false_iff, Option.isNone_iff_eq_none] at free
    rcases n with _ | _ | n
    · exact absurd rfl many
    · exact collides_array_one ty fun elemTy => ih elemTy (by simpa using one)
    · exact collides_array_two ty free
  | map key value ihKey ihValue =>
    rcases valueFixed : value.width with _ | valueWidth
    · rcases Nat.eq_zero_or_pos key.highLen with empty | positive
      · refine collides_map_empty ty ?_ (low_of_no_width valueFixed).1
        rcases keyFixed : key.width with _ | keyWidth
        · exact (low_of_no_width keyFixed).1
        · rw [(lowLen_of_width keyFixed).1, ← (lowLen_of_width keyFixed).2, empty]
      · exact collides_map_swap ty valueFixed positive
    · rcases keyFixed : key.width with _ | keyWidth
      · rw [Shape.faithful, valueFixed, keyFixed] at unfaithful
        rcases Nat.eq_zero_or_pos valueWidth with rfl | positive
        · exact collides_map_empty ty (low_of_no_width keyFixed).1 (lowLen_of_width valueFixed).1
        · rcases keyFaithful : key.faithful with _ | _
          · exact collides_map_key ty fun keyTy => ihKey keyTy keyFaithful
          · have notOptional : key.option = none := by
              simpa [positive] using unfaithful
            exact collides_map_split ty (low_of_no_width keyFixed).1 fun keyTy =>
              splits_of_faithful keyTy keyFaithful keyFixed notOptional
      · rw [Shape.faithful, valueFixed, keyFixed, decide_eq_false_iff_not, Nat.not_lt, Nat.le_zero,
          Nat.add_eq_zero_iff] at unfaithful
        exact collides_map_empty ty ((lowLen_of_width keyFixed).1.trans unfaithful.1)
          ((lowLen_of_width valueFixed).1.trans unfaithful.2)
  | set elem ih =>
    refine collides_set ty ?_
    rcases fixed : elem.width with _ | width
    · exact (low_of_no_width fixed).1
    · rw [Shape.faithful, fixed] at unfaithful
      rw [(lowLen_of_width fixed).1]
      simpa using unfaithful

/-- **The bytes of a field determine its value exactly for the faithful types.** -/
theorem fieldBytes_faithful_iff {shape : Shape} {ordered : Bool} (ty : FieldTy shape ordered) :
    (∀ a b : Value ty, fieldBytes shape a.1 = fieldBytes shape b.1 →
      content shape a.1 = content shape b.1) ↔ shape.faithful = true := by
  constructor
  · intro determined
    by_contra unfaithful
    obtain ⟨a, b, validA, validB, same, differs⟩ :=
      collides_of_not_faithful ty (Bool.not_eq_true _ ▸ unfaithful)
    exact differs (determined ⟨a, validA⟩ ⟨b, validB⟩ same)
  · exact fun faithful a b same => content_eq_of_fieldBytes faithful a.2 b.2 same

/-! ### A map of sets -/

/-- `{1: {2}}`. -/
def oneSet : Carrier (.map (.int .u8) (.set (.int .u8))) := [(1#8, [2#8])]

/-- `{1: {}, 2: {}}`. -/
def twoEmptySets : Carrier (.map (.int .u8) (.set (.int .u8))) := [(1#8, []), (2#8, [])]

/-- **Two different maps of sets with the bytes `[1, 2]`.** -/
theorem collision_mapOfSets :
    let ty : FieldTy (.map (.int .u8) (.set (.int .u8))) false :=
      .hashMap (.int .u8) (.btreeSet (.int .u8))
    Valid ty oneSet ∧ Valid ty twoEmptySets ∧ fieldBytes _ oneSet = [1, 2] ∧
      fieldBytes _ twoEmptySets = [1, 2] ∧ content _ oneSet ≠ content _ twoEmptySets := by
  intro ty
  refine ⟨by decide, by decide, by decide, by decide, fun same => ?_⟩
  have second : (2#8, []) ∈ ([(1#8, []), (2#8, [])] : List (BitVec 8 × List (BitVec 8))) := by decide
  obtain ⟨entry, member, sameKey, _⟩ := exists_entry_of_content same.symm second
  rw [List.mem_singleton.mp member] at sameKey
  exact absurd (show (2#8 : BitVec 8) = 1#8 from sameKey) (by decide)

end Foldback
