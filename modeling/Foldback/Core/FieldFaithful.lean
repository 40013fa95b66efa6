/-
**Types whose field bytes determine the value.**

Containers are written with neither a count nor a separator, so whether the bytes can be read back
depends on the lengths of the parts.

* `Shape.width`: the fixed number of bytes of every value, if there is one.
* `Shape.option`: a map whose only possible key takes no bytes is written as nothing, or as its one
  value; this is that value's positive width.
* `Shape.faithful` says when the bytes determine the value; `content_eq_of_fieldBytes` is that they
  do then.
-/

import Foldback.Core.FieldOrder
import Foldback.Lib.Chunked

namespace Foldback

open KeyOrder Chunked Std Radix

/-- The number of bytes of every value, when it is fixed. -/
def Shape.width : Shape → Option ℕ
  | .int ty => some ty.bytes
  | .float ty => some ty.bytes
  | .bool => some 1
  | .array elem n => if n = 0 then some 0 else elem.width.map (n * ·)
  | .map _ _ => none
  | .set _ => none

/-- The positive width of the one value a map can hold, when its keys take no bytes. -/
def Shape.option : Shape → Option ℕ
  | .map key value => if key.width = some 0 then value.width.filter (0 < ·) else none
  | .array elem n => if n = 1 then elem.option else none
  | _ => none

/-- The bytes determine the value. -/
def Shape.faithful : Shape → Bool
  | .int _ | .float _ | .bool => true
  | .array elem n => n = 0 || (n = 1 && elem.faithful) || elem.width.isSome
  | .map key value =>
    match value.width, key.width with
    | none, _ => false
    | some valueWidth, some keyWidth => 0 < keyWidth + valueWidth
    | some valueWidth, none => key.option.isSome && 0 < valueWidth
  | .set elem => elem.width.any (0 < ·)

/-! ### Fixed widths -/

theorem length_of_width {shape : Shape} {ordered : Bool} {ty : FieldTy shape ordered} {width : ℕ}
    (fixed : shape.width = some width) {a : Carrier shape} (valid : Valid ty a) :
    (fieldBytes shape a).length = width := by
  induction shape generalizing ordered width with
  | int intTy =>
    cases fixed
    exact length_leBytes _ _
  | float floatTy =>
    cases fixed
    exact length_leBytes _ _
  | bool =>
    cases fixed
    rfl
  | array elem n ih =>
    obtain ⟨elemTy, parts⟩ := array_parts ty
    obtain ⟨length, each⟩ := (parts a).mp valid
    rw [Shape.width] at fixed
    split at fixed
    · rename_i zero
      cases fixed
      obtain rfl := List.length_eq_zero_iff.mp (length.trans zero)
      rfl
    · obtain ⟨elemWidth, elemFixed, rfl⟩ := Option.map_eq_some_iff.mp fixed
      have uniform : lengths (fieldBytes elem) a = _ :=
        lengths_of_uniform fun item member => ih elemFixed (each item member)
      have total : (fieldBytes (.array elem n) a).length = (lengths (fieldBytes elem) a).sum :=
        length_flatMap_eq_sum _
      rw [uniform, length, List.sum_replicate] at total
      exact total
  | map key value => cases fixed
  | set elem => cases fixed

theorem faithful_of_width {shape : Shape} (fixed : shape.width.isSome) : shape.faithful = true := by
  cases shape with
  | int _ | float _ | bool => rfl
  | array elem n =>
    rw [Shape.width] at fixed
    rw [Shape.faithful]
    split at fixed
    · rename_i zero
      simp [zero]
    · rw [Option.isSome_map] at fixed
      simp [fixed]
  | map key value => cases fixed
  | set elem => cases fixed

/-! ### Reading back the parts -/

theorem content_eq_of_leBytes {bytes : ℕ} {a b : BitVec (8 * bytes)}
    (same : leBytes bytes a.toNat = leBytes bytes b.toNat) : a = b :=
  eq_of_leBytes (Nat.le_of_eq (pow_mul 2 8 bytes)) same

/-- Maps whose sorted entries have the same contents have the same content. -/
theorem content_eq_of_sorted_map {key value : Shape}
    {entries entries' : List (Carrier key × Carrier value)}
    (same : (sortByKey (cmp key) Prod.fst entries).map
        (fun entry => (content key entry.1, content value entry.2)) =
      (sortByKey (cmp key) Prod.fst entries').map
        fun entry => (content key entry.1, content value entry.2)) :
    content (.map key value) entries = content (.map key value) entries' := by
  refine (content_map entries).trans (Eq.trans ?_ (content_map entries').symm)
  refine Set.ext fun pair => ?_
  have left := ((perm_sortByKey (cmp key) Prod.fst entries).map fun entry =>
    (content key entry.1, content value entry.2)).mem_iff (a := pair)
  have right := ((perm_sortByKey (cmp key) Prod.fst entries').map fun entry =>
    (content key entry.1, content value entry.2)).mem_iff (a := pair)
  rw [same] at left
  exact left.symm.trans right

theorem content_eq_of_sorted_set {elem : Shape} {items items' : List (Carrier elem)}
    (same : (sortByKey (cmp elem) id items).map (content elem) =
      (sortByKey (cmp elem) id items').map (content elem)) :
    content (.set elem) items = content (.set elem) items' := by
  refine (content_set items).trans (Eq.trans ?_ (content_set items').symm)
  refine Set.ext fun member => ?_
  have left := ((perm_sortByKey (cmp elem) id items).map
    (content elem)).mem_iff (a := member)
  have right := ((perm_sortByKey (cmp elem) id items').map
    (content elem)).mem_iff (a := member)
  rw [same] at left
  exact left.symm.trans right

/-- Entries whose bytes and value widths agree have the same content. -/
theorem entry_content_eq {key value : Shape} {valueWidth : ℕ} (fixed : value.width = some valueWidth)
    {valueOrdered valueOrdered' : Bool} {valueTy : FieldTy value valueOrdered}
    {valueTy' : FieldTy value valueOrdered'} {entry entry' : Carrier key × Carrier value}
    (valid : Valid valueTy entry.2) (valid' : Valid valueTy' entry'.2)
    (keyFaithful : fieldBytes key entry.1 = fieldBytes key entry'.1 →
      content key entry.1 = content key entry'.1)
    (valueFaithful : fieldBytes value entry.2 = fieldBytes value entry'.2 →
      content value entry.2 = content value entry'.2)
    (same : fieldBytes key entry.1 ++ fieldBytes value entry.2 =
      fieldBytes key entry'.1 ++ fieldBytes value entry'.2) :
    (content key entry.1, content value entry.2) = (content key entry'.1, content value entry'.2) := by
  obtain ⟨sameKey, sameValue⟩ := List.append_inj' same
    (by rw [length_of_width fixed valid, length_of_width fixed valid'])
  rw [keyFaithful sameKey, valueFaithful sameValue]

/-! ### Keys that are written as nothing or as one value -/

/-- A type whose values take no bytes has one value. -/
theorem content_eq_of_zero_width {shape : Shape} {ordered : Bool} {ty : FieldTy shape ordered}
    (empty : shape.width = some 0) {a b : Carrier shape} (validA : Valid ty a) (validB : Valid ty b) :
    content shape a = content shape b := by
  induction shape generalizing ordered with
  | int intTy => cases intTy <;> cases empty
  | float floatTy => cases floatTy <;> cases empty
  | bool => cases empty
  | array elem n ih =>
    cases ty with
    | array elemTy =>
      rw [Shape.width] at empty
      split at empty
      · rename_i zero
        obtain rfl := List.length_eq_zero_iff.mp (validA.1.trans zero)
        obtain rfl := List.length_eq_zero_iff.mp (validB.1.trans zero)
        rfl
      · rename_i some
        obtain ⟨elemWidth, elemFixed, product⟩ := Option.map_eq_some_iff.mp empty
        rw [(Nat.mul_eq_zero.mp product).resolve_left some] at elemFixed
        refine map_eq_of_map_eq (f := fun _ => ()) (fun item member item' member' _ =>
          ih elemFixed (validA.2 item member) (validB.2 item' member')) ?_
        have units : ∀ items : List (Carrier elem), items.length = n →
            items.map (fun _ => ()) = List.replicate n () :=
          fun items length => by rw [List.map_const', length]
        exact (units a validA.1).trans (units b validB.1).symm
  | map key value => cases empty
  | set elem => cases empty

/-- A key of such a type has the payload's width, or no bytes at all; in that case no other key comes
before it. -/
theorem option_cases {shape : Shape} {width : ℕ} (optional : shape.option = some width)
    (ty : FieldTy shape true) {a : Carrier shape} (valid : Valid ty a) :
    (fieldBytes shape a).length = width ∨
      ((fieldBytes shape a).length = 0 ∧ ∀ b, Valid ty b → cmp shape b a ≠ .lt) := by
  induction shape with
  | int _ | float _ | bool | set _ => cases optional
  | array elem n ih =>
    rw [Shape.option] at optional
    split at optional
    · rename_i one
      subst one
      cases ty with
      | array elemTy =>
        obtain ⟨item, rfl⟩ := List.length_eq_one_iff.mp valid.1
        have itemValid := valid.2 item (List.mem_singleton_self _)
        have bytes : fieldBytes (.array elem 1) [item] = fieldBytes elem item := List.append_nil _
        rw [bytes]
        rcases ih optional elemTy itemValid with full | ⟨none, least⟩
        · exact .inl full
        · refine .inr ⟨none, fun b validB => ?_⟩
          obtain ⟨other, rfl⟩ := List.length_eq_one_iff.mp validB.1
          have order : cmp (.array elem 1) [other] [item] = (cmp elem other item).then .eq :=
            List.compareLex_cons_cons
          rw [order, Ordering.then_eq]
          exact least other (validB.2 other (List.mem_singleton_self _))
    · cases optional
  | map key value ihKey ihValue =>
    rw [Shape.option] at optional
    split at optional
    · rename_i keyFixed
      obtain ⟨valueFixed, _⟩ := Option.filter_eq_some_iff.mp optional
      cases ty with
      | btreeMap keyTy valueTy =>
        rcases a with _ | ⟨entry, _ | ⟨second, rest⟩⟩
        · refine .inr ⟨rfl, fun b validB order => ?_⟩
          rcases b with _ | ⟨other, others⟩ <;> cases order
        · obtain ⟨keyValid, valueValid⟩ := valid.2 entry (List.mem_singleton_self _)
          have bytes : fieldBytes (.map key value) [entry] =
              fieldBytes key entry.1 ++ fieldBytes value entry.2 := List.append_nil _
          rw [bytes, List.length_append, length_of_width keyFixed keyValid,
            length_of_width valueFixed valueValid, zero_add]
          exact .inl rfl
        · -- Two entries would have the same key.
          have ascending : Ascending (cmp key) Prod.fst (entry :: second :: rest) := valid.1
          have keys := ascending.nodup_keys
          obtain ⟨keyValid, _⟩ := valid.2 entry List.mem_cons_self
          obtain ⟨keyValid', _⟩ := valid.2 second (List.mem_cons_of_mem _ List.mem_cons_self)
          have same := content_injective keyTy keyValid keyValid'
            (content_eq_of_zero_width keyFixed keyValid keyValid')
          exact absurd (by simp [same]) (List.nodup_cons.mp keys).1
    · cases optional

theorem option_pos {shape : Shape} {width : ℕ} (optional : shape.option = some width) : 0 < width := by
  induction shape with
  | int _ | float _ | bool | set _ => cases optional
  | array elem n ih =>
    rw [Shape.option] at optional
    split at optional
    · exact ih optional
    · cases optional
  | map key value ihKey ihValue =>
    rw [Shape.option] at optional
    split at optional
    · exact of_decide_eq_true (Option.filter_eq_some_iff.mp optional).2
    · cases optional

theorem faithful_of_option {shape : Shape} (optional : shape.option.isSome) :
    shape.faithful = true := by
  induction shape with
  | int _ | float _ | bool | set _ => cases optional
  | array elem n ih =>
    rw [Shape.option] at optional
    split at optional
    · rename_i one
      simp [Shape.faithful, one, ih optional]
    · cases optional
  | map key value ihKey ihValue =>
    obtain ⟨width, optional⟩ := Option.isSome_iff_exists.mp optional
    rw [Shape.option] at optional
    split at optional
    · rename_i keyFixed
      obtain ⟨valueFixed, positive⟩ := Option.filter_eq_some_iff.mp optional
      simpa [Shape.faithful, keyFixed, valueFixed] using positive
    · cases optional

/-- The chunks of a map whose keys are written as nothing or as one value. -/
theorem firstShort_of_option {key value : Shape} {keyWidth valueWidth : ℕ}
    (optional : key.option = some keyWidth) (fixed : value.width = some valueWidth)
    {keyTy : FieldTy key true} {valueOrdered : Bool} {valueTy : FieldTy value valueOrdered}
    {entries : List (Carrier key × Carrier value)} (ascending : Ascending (cmp key) Prod.fst entries)
    (each : ∀ entry ∈ entries, Valid keyTy entry.1 ∧ Valid valueTy entry.2) :
    FirstShort (fun entry => fieldBytes key entry.1 ++ fieldBytes value entry.2) valueWidth keyWidth
      entries := by
  have lengthOf : ∀ entry ∈ entries, (fieldBytes key entry.1 ++ fieldBytes value entry.2).length =
      (fieldBytes key entry.1).length + valueWidth := fun entry member => by
    rw [List.length_append, length_of_width fixed (each entry member).2]
  cases entries with
  | nil => exact .uniform fun entry member => by cases member
  | cons head rest =>
    -- Every key after the first is greater than it, so it has bytes.
    have later : ∀ entry ∈ rest, (fieldBytes key entry.1 ++ fieldBytes value entry.2).length =
        valueWidth + keyWidth := by
      intro entry member
      have order := (List.pairwise_cons.mp ascending).1 entry member
      rw [lengthOf entry (List.mem_cons_of_mem _ member)]
      rcases option_cases optional keyTy (each entry (List.mem_cons_of_mem _ member)).1 with
        full | ⟨_, least⟩
      · omega
      · exact absurd order (least _ (each head List.mem_cons_self).1)
    rcases option_cases optional keyTy (each head List.mem_cons_self).1 with full | ⟨none, _⟩
    · refine .uniform fun entry member => ?_
      rcases List.mem_cons.mp member with rfl | inRest
      · rw [lengthOf _ List.mem_cons_self]
        omega
      · exact later entry inRest
    · refine .first ?_ later
      rw [lengthOf _ List.mem_cons_self]
      omega

/-! ### Faithful types -/

/-- The sorted entries of a map have equal chunks when the bytes of the maps are equal. -/
theorem sorted_chunks_eq {key value : Shape} (faithful : (Shape.map key value).faithful = true)
    {keyTy : FieldTy key true} {valueOrdered : Bool} {valueTy : FieldTy value valueOrdered}
    {first second : List (Carrier key × Carrier value)}
    (ascending : Ascending (cmp key) Prod.fst first)
    (ascending' : Ascending (cmp key) Prod.fst second)
    (each : ∀ entry ∈ first, Valid keyTy entry.1 ∧ Valid valueTy entry.2)
    (each' : ∀ entry ∈ second, Valid keyTy entry.1 ∧ Valid valueTy entry.2)
    (same : (first.flatMap fun entry => fieldBytes key entry.1 ++ fieldBytes value entry.2) =
      second.flatMap fun entry => fieldBytes key entry.1 ++ fieldBytes value entry.2) :
    (first.map fun entry => fieldBytes key entry.1 ++ fieldBytes value entry.2) =
      second.map fun entry => fieldBytes key entry.1 ++ fieldBytes value entry.2 := by
  rw [Shape.faithful] at faithful
  split at faithful
  · cases faithful
  · rename_i valueWidth keyWidth valueFixed keyFixed
    have uniform : ∀ entry : Carrier key × Carrier value,
        Valid keyTy entry.1 ∧ Valid valueTy entry.2 →
        (fieldBytes key entry.1 ++ fieldBytes value entry.2).length = keyWidth + valueWidth := by
      intro entry both
      rw [List.length_append, length_of_width keyFixed both.1, length_of_width valueFixed both.2]
    exact chunks_eq_of_uniform (of_decide_eq_true faithful)
      (fun entry member => uniform entry (each entry member))
      (fun entry member => uniform entry (each' entry member)) same
  · rename_i valueWidth valueFixed keyFree
    rw [Bool.and_eq_true, decide_eq_true_eq] at faithful
    obtain ⟨keyWidth, optional⟩ := Option.isSome_iff_exists.mp faithful.1
    exact chunks_eq_of_first_short faithful.2 (option_pos optional)
      (firstShort_of_option optional valueFixed ascending each)
      (firstShort_of_option optional valueFixed ascending' each') same

/-- What a faithful map type says about its parts. -/
theorem faithful_map_parts {key value : Shape} (faithful : (Shape.map key value).faithful = true) :
    key.faithful = true ∧ ∃ valueWidth, value.width = some valueWidth := by
  rw [Shape.faithful] at faithful
  split at faithful
  · cases faithful
  · rename_i valueWidth keyWidth valueFixed keyFixed
    exact ⟨faithful_of_width (by rw [keyFixed]; rfl), valueWidth, valueFixed⟩
  · rename_i valueWidth valueFixed keyFree
    exact ⟨faithful_of_option (Bool.and_eq_true_iff.mp faithful).1, valueWidth, valueFixed⟩

/-- **The bytes of a faithful type determine the value.** -/
theorem content_eq_of_fieldBytes {shape : Shape} (faithful : shape.faithful = true) {ordered : Bool}
    {ty : FieldTy shape ordered} {a b : Carrier shape} (validA : Valid ty a) (validB : Valid ty b)
    (same : fieldBytes shape a = fieldBytes shape b) : content shape a = content shape b := by
  induction shape generalizing ordered with
  | int intTy => exact content_eq_of_leBytes same
  | float floatTy => exact content_eq_of_leBytes same
  | bool => cases a <;> cases b <;> first | rfl | cases same
  | array elem n ih =>
    obtain ⟨elemTy, parts⟩ := array_parts ty
    obtain ⟨lengthA, eachA⟩ := (parts a).mp validA
    obtain ⟨lengthB, eachB⟩ := (parts b).mp validB
    rw [Shape.faithful, Bool.or_eq_true, Bool.or_eq_true, Bool.and_eq_true, decide_eq_true_eq,
      decide_eq_true_eq] at faithful
    rcases faithful with (zero | ⟨one, elemFaithful⟩) | fixed
    · obtain rfl := List.length_eq_zero_iff.mp (lengthA.trans zero)
      obtain rfl := List.length_eq_zero_iff.mp (lengthB.trans zero)
      rfl
    · obtain ⟨item, rfl⟩ := List.length_eq_one_iff.mp (lengthA.trans one)
      obtain ⟨item', rfl⟩ := List.length_eq_one_iff.mp (lengthB.trans one)
      have sameItem : fieldBytes elem item ++ [] = fieldBytes elem item' ++ [] := same
      rw [List.append_nil, List.append_nil] at sameItem
      exact congrArg (fun inner => [inner]) (ih elemFaithful (eachA item (List.mem_singleton_self _))
        (eachB item' (List.mem_singleton_self _)) sameItem)
    · obtain ⟨elemWidth, elemFixed⟩ := Option.isSome_iff_exists.mp fixed
      have lengthsOf : ∀ items : List (Carrier elem), items.length = n →
          (∀ item ∈ items, Valid elemTy item) →
          lengths (fieldBytes elem) items = List.replicate n elemWidth := by
        intro items length each
        rw [lengths_of_uniform fun item member => length_of_width elemFixed (each item member), length]
      have chunks : a.map (fieldBytes elem) = b.map (fieldBytes elem) := chunks_eq_of_lengths same
        ((lengthsOf a lengthA eachA).trans (lengthsOf b lengthB eachB).symm)
      exact map_eq_of_map_eq (fun item member item' member' =>
        ih (faithful_of_width fixed) (eachA item member) (eachB item' member')) chunks
  | map key value ihKey ihValue =>
    obtain ⟨keyTy, _, valueTy, parts⟩ := map_parts ty
    obtain ⟨distinctA, eachA⟩ := (parts a).1 validA
    obtain ⟨distinctB, eachB⟩ := (parts b).1 validB
    have sortedA := fun entry member => eachA entry ((mem_sortByKey (cmp key) Prod.fst).mp member)
    have sortedB := fun entry member => eachB entry ((mem_sortByKey (cmp key) Prod.fst).mp member)
    have chunks := sorted_chunks_eq faithful (ascending_sortByKey distinctA)
      (ascending_sortByKey distinctB) sortedA sortedB same
    obtain ⟨keyFaithful, valueWidth, valueFixed⟩ := faithful_map_parts faithful
    have valueFaithful : value.faithful = true := faithful_of_width (by rw [valueFixed]; rfl)
    refine content_eq_of_sorted_map (map_eq_of_map_eq (fun entry member entry' member' =>
      entry_content_eq valueFixed (sortedA entry member).2 (sortedB entry' member').2
        (ihKey keyFaithful (sortedA entry member).1 (sortedB entry' member').1)
        (ihValue valueFaithful (sortedA entry member).2 (sortedB entry' member').2)) chunks)
  | set elem ih =>
    obtain ⟨elemTy, parts⟩ := set_parts ty
    obtain ⟨_, eachA⟩ := (parts a).1 validA
    obtain ⟨_, eachB⟩ := (parts b).1 validB
    have sortedA := fun item member => eachA item ((mem_sortByKey (cmp elem) id).mp member)
    have sortedB := fun item member => eachB item ((mem_sortByKey (cmp elem) id).mp member)
    obtain ⟨elemWidth, elemFixed, positive⟩ := (Option.any_eq_true _ _).mp faithful
    have chunks := chunks_eq_of_uniform (of_decide_eq_true positive)
      (fun item member => length_of_width elemFixed (sortedA item member))
      (fun item member => length_of_width elemFixed (sortedB item member)) same
    exact content_eq_of_sorted_set (map_eq_of_map_eq (fun item member item' member' =>
      ih (faithful_of_width (by rw [elemFixed]; rfl)) (sortedA item member) (sortedB item' member'))
      chunks)

end Foldback
