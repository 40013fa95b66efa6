/-
**Where iteration orders show.**

* `Replaced`: a value with one of its parts replaced by a reordered one. `exists_replaced` and
  `exists_rekeyed` build it, for the value under a part and for what its path renders.
* `Replaced.not_perm`: **what a replaced part changes is not made up for elsewhere.**
* `exists_visible`: a rendering that is not stable shows in some order.
-/

import Foldback.Bevy.StableOrder
import Foldback.Bevy.Steps

namespace Foldback.Bevy

open GuardedWalk KeyOrder

variable {ω : Type}

/-! ### One part replaced -/

section Replaced

variable {debug : ReflectRef ω → String}

/-- The names below some parts. -/
noncomputable def namesBelow (debug : ReflectRef ω → String) (path : String)
    (below : List (Step × ReflectRef ω)) : List String :=
  below.flatMap fun part => names debug (part.1.extend path) part.2

theorem names_perm (path : String) (value : ReflectRef ω) :
    (names debug path value).Perm
      ((own debug path value).map Prod.fst ++ namesBelow debug path (unsorted debug value)) := by
  have split : names debug path value =
      (own debug path value).map Prod.fst ++ namesBelow debug path (parts debug value) := by
    rw [names, unlimited_eq, List.map_append, List.map_flatMap]
    rfl
  rw [split]
  exact ((parts_perm debug value).flatMap_right _).append_left _

/-- The other value is the same with one part replaced. -/
structure Replaced (debug : ReflectRef ω → String) (value other : ReflectRef ω)
    (part part' : Step × ReflectRef ω) : Prop where
  reordered : Reordered value other
  split : ∃ before after, unsorted debug value = before ++ part :: after ∧
    unsorted debug other = before ++ part' :: after

/-- **What a replaced part changes is not made up for elsewhere.** -/
theorem Replaced.not_perm {value other : ReflectRef ω} {part part' : Step × ReflectRef ω}
    (replaced : Replaced debug value other part part') {path : String}
    (differ : ¬ (names debug (part.1.extend path) part.2).Perm
      (names debug (part'.1.extend path) part'.2)) :
    ¬ (names debug path value).Perm (names debug path other) := by
  intro perm
  obtain ⟨before, after, split, split'⟩ := replaced.split
  have below := ((names_perm path value).symm.trans perm).trans (names_perm path other)
  rw [← replaced.reordered.own_eq debug path, List.perm_append_left_iff, split, split', namesBelow,
    namesBelow, List.flatMap_append, List.flatMap_append, List.perm_append_left_iff,
    List.flatMap_cons, List.flatMap_cons, List.perm_append_right_iff] at below
  exact differ below

/-- Names under paths of one length differ where the paths do. -/
theorem not_perm_of_paths {path path' : String} {value value' : ReflectRef ω}
    (length : path.toList.length = path'.toList.length) (differ : path ≠ path')
    (visible : ¬ Silent debug value) :
    ¬ (names debug path value).Perm (names debug path' value') := by
  intro perm
  have some : names debug path value ≠ [] := fun none =>
    visible (silent_of_nil (List.map_eq_nil_iff.mp none))
  obtain ⟨name, member⟩ := List.exists_mem_of_ne_nil _ some
  have starts := prefix_of_name member
  have starts' := prefix_of_name (perm.mem_iff.mp member)
  have same := (List.prefix_of_prefix_length_le starts starts' length.le).eq_of_length length
  exact differ (String.toList_inj.mp same)

theorem mem_split_zipIdx {α : Type} {items : List α} {start : ℕ} {item : α × ℕ}
    (member : item ∈ items.zipIdx start) :
    ∃ before after, items = before ++ item.1 :: after ∧ item.2 = start + before.length := by
  obtain ⟨lower, upper, get⟩ := List.mem_zipIdx member
  have bound : item.2 - start < items.length := by omega
  refine ⟨items.take (item.2 - start), items.drop (item.2 - start + 1), ?_, ?_⟩
  · rw [get, List.getElem_cons_drop, List.take_append_drop]
  · rw [List.length_take]
    omega

theorem map_zipIdx_split {α β : Type} (f : α × ℕ → β) (before : List α) (item : α)
    (after : List α) :
    (before ++ item :: after).zipIdx.map f = before.zipIdx.map f ++
      f (item, before.length) :: (after.zipIdx (before.length + 1)).map f := by
  rw [List.zipIdx_append, List.zipIdx_cons, List.map_append, List.map_cons, Nat.zero_add]

/-- A value made of items with numbers: any of them can be replaced by a reordered one. -/
theorem exists_replaced_item {make : List (ReflectRef ω) → ReflectRef ω} {step : ℕ → Step}
    (parts_make : ∀ items, unsorted debug (make items) =
      items.zipIdx.map fun item => (step item.2, item.1))
    (congr_make : ∀ items items', List.Forall₂ Reordered items items' →
      Reordered (make items) (make items'))
    {items : List (ReflectRef ω)} {value' : ReflectRef ω} {part : Step × ReflectRef ω}
    (member : part ∈ unsorted debug (make items)) (reordered : Reordered part.2 value') :
    ∃ other, Replaced debug (make items) other part (part.1, value') := by
  rw [parts_make] at member
  obtain ⟨⟨item, i⟩, inItems, rfl⟩ := List.mem_map.mp member
  obtain ⟨before, after, rfl, index⟩ := mem_split_zipIdx inItems
  cases index.trans (Nat.zero_add _)
  refine ⟨make (before ++ value' :: after), congr_make _ _ (forall₂_replace _ _ reordered), ?_⟩
  rw [parts_make, parts_make]
  exact ⟨_, _, map_zipIdx_split _ _ _ _, map_zipIdx_split _ _ _ _⟩

/-- **Any part can be replaced by a reordered one.** Only the element of a set renders its own step. -/
theorem exists_replaced {value value' : ReflectRef ω} {part : Step × ReflectRef ω}
    (member : part ∈ unsorted debug value) (reordered : Reordered part.2 value') :
    ∃ other step', Replaced debug value other part (step', value') ∧
      (step' = part.1 ∨
        part.1 = .element (debug part.2) ∧ step' = .element (debug value')) := by
  cases value with
  | struct typePath fields =>
    obtain ⟨⟨name, field⟩, inFields, rfl⟩ := List.mem_map.mp member
    obtain ⟨before, after, rfl⟩ := List.append_of_mem inFields
    refine ⟨.struct typePath (before ++ (name, value') :: after), .field name,
      ⟨.struct ?_ ?_, _, _, List.map_append, List.map_append⟩, Or.inl rfl⟩
    · rw [List.map_append, List.map_append, List.map_cons, List.map_cons]
    · rw [List.map_append, List.map_append]
      exact forall₂_replace _ _ reordered
  | tupleStruct typePath fields =>
    obtain ⟨other, replaced⟩ :=
      exists_replaced_item (fun _ => rfl) (fun _ _ => .tupleStruct) member reordered
    exact ⟨other, part.1, replaced, Or.inl rfl⟩
  | tuple fields =>
    obtain ⟨other, replaced⟩ :=
      exists_replaced_item (fun _ => rfl) (fun _ _ => .tuple) member reordered
    exact ⟨other, part.1, replaced, Or.inl rfl⟩
  | list items =>
    obtain ⟨other, replaced⟩ :=
      exists_replaced_item (fun _ => rfl) (fun _ _ => .list) member reordered
    exact ⟨other, part.1, replaced, Or.inl rfl⟩
  | array items =>
    obtain ⟨other, replaced⟩ :=
      exists_replaced_item (fun _ => rfl) (fun _ _ => .array) member reordered
    exact ⟨other, part.1, replaced, Or.inl rfl⟩
  | map entries =>
    obtain ⟨⟨key, mapped⟩, inEntries, rfl⟩ := List.mem_map.mp member
    obtain ⟨before, after, rfl⟩ := List.append_of_mem inEntries
    refine ⟨.map (before ++ (key, value') :: after), .key (debug key),
      ⟨.map (.refl _) ?_ ?_, _, _, List.map_append, List.map_append⟩, Or.inl rfl⟩
    · rw [List.map_append, List.map_append]
      exact forall₂_replace _ _ (.refl key)
    · rw [List.map_append, List.map_append]
      exact forall₂_replace _ _ reordered
  | set items =>
    obtain ⟨item, inItems, rfl⟩ := List.mem_map.mp member
    obtain ⟨before, after, rfl⟩ := List.append_of_mem inItems
    exact ⟨.set (before ++ value' :: after), .element (debug value'),
      ⟨.set (.refl _) (forall₂_replace _ _ reordered), _, _, List.map_append, List.map_append⟩,
      Or.inr ⟨rfl, rfl⟩⟩
  | enum typePath variantName fields =>
    obtain ⟨⟨⟨name, field⟩, i⟩, inFields, rfl⟩ := List.mem_map.mp member
    obtain ⟨before, after, rfl, index⟩ := mem_split_zipIdx inFields
    cases index.trans (Nat.zero_add _)
    refine ⟨.enum typePath variantName (before ++ (name, value') :: after),
      .payload variantName (name.getD (toString before.length)),
      ⟨.enum ?_ ?_, _, _, map_zipIdx_split _ _ _ _, map_zipIdx_split _ _ _ _⟩, Or.inl rfl⟩
    · rw [List.map_append, List.map_append, List.map_cons, List.map_cons]
    · rw [List.map_append, List.map_append]
      exact forall₂_replace _ _ reordered
  | leaf leaf => cases member

/-- **The key of an entry can be replaced by a reordered one**, and an element of a set alike. -/
theorem exists_rekeyed {value key' : ReflectRef ω} {entry : ReflectRef ω × ReflectRef ω}
    (member : entry ∈ rendered value) (reordered : Reordered entry.1 key') :
    ∃ other bracket mapped', (bracket = Step.key ∨ bracket = Step.element) ∧
      Replaced debug value other (bracket (debug entry.1), entry.2) (bracket (debug key'), mapped') := by
  cases value with
  | map entries =>
    obtain ⟨before, after, rfl⟩ := List.append_of_mem member
    refine ⟨.map (before ++ (key', entry.2) :: after), .key, entry.2, Or.inl rfl,
      .map (.refl _) ?_ ?_, _, _, List.map_append, List.map_append⟩
    · rw [List.map_append, List.map_append]
      exact forall₂_replace _ _ reordered
    · rw [List.map_append, List.map_append]
      exact forall₂_replace _ _ (.refl entry.2)
  | set items =>
    obtain ⟨item, inItems, rfl⟩ := List.mem_map.mp member
    obtain ⟨before, after, rfl⟩ := List.append_of_mem inItems
    exact ⟨.set (before ++ key' :: after), .element, key', Or.inr rfl,
      .set (.refl _) (forall₂_replace _ _ reordered), _, _, List.map_append, List.map_append⟩
  | _ => cases member

end Replaced

/-! ### A rendering that is not stable -/

section Unstable

variable {debug : ReflectRef ω → String}

/-- Reordering does not change how long a rendering is: it shows the same in another order. -/
def KeepsLength (debug : ReflectRef ω → String) : Prop :=
  ∀ key key', Reordered key key' → (debug key).toList.length = (debug key').toList.length

/-- Under two renderings of one key other names are recorded. -/
theorem not_perm_of_renderings (lengths : KeepsLength debug) {bracket : String → Step}
    (which : bracket = .key ∨ bracket = .element) (path : String)
    {key key' shown shown' : ReflectRef ω} (reordered : Reordered key key')
    (differ : debug key ≠ debug key') (visible : ¬ Silent debug shown) :
    ¬ (names debug ((bracket (debug key)).extend path) shown).Perm
      (names debug ((bracket (debug key')).extend path) shown') := by
  have length := lengths key key' reordered
  refine not_perm_of_paths ?_ (fun same => differ ?_) visible
  · rcases which with rfl | rfl
    all_goals simp only [Step.extend, String.toList_append, List.length_append, length]
  · rcases which with rfl | rfl
    all_goals
      simp only [Step.extend, String.append_left_inj, String.append_right_inj] at same
      exact same

/-- **A rendering that is not stable shows**: in some order other names are recorded. -/
theorem exists_visible (lengths : KeepsLength debug) {value : ReflectRef ω}
    (unstable : ¬ Everywhere debug (StableRenderings debug) value) :
    ∃ other, Reordered value other ∧
      ∀ path, ¬ (names debug path value).Perm (names debug path other) := by
  induction value using parts_induction debug with
  | step value ih =>
    by_cases here : StableRenderings debug value
    · have below : ∃ part ∈ parts debug value, ¬ Everywhere debug (StableRenderings debug) part.2 := by
        by_contra none
        push Not at none
        exact unstable (everywhere_iff.mpr ⟨here, none⟩)
      obtain ⟨part, member, unstable⟩ := below
      obtain ⟨value', reordered, differ⟩ := ih part member unstable
      obtain ⟨other, step', replaced, which⟩ :=
        exists_replaced ((parts_perm debug value).mem_iff.mp member) reordered
      refine ⟨other, replaced.reordered, fun path => replaced.not_perm ?_⟩
      by_cases same : step' = part.1
      · rw [same]
        exact differ _
      · obtain ⟨step, rfl⟩ := which.resolve_left same
        rw [step] at same ⊢
        refine not_perm_of_renderings lengths (Or.inr rfl) path reordered (fun text => same ?_)
          fun silent => differ "" ?_
        · rw [text]
        · rw [names, names, silent, reordered.silent_iff.mp silent]
    · unfold StableRenderings at here
      push Not at here
      obtain ⟨entry, member, visible, key', reordered, differ⟩ := here
      obtain ⟨other, bracket, mapped', which, replaced⟩ := exists_rekeyed member reordered
      exact ⟨other, replaced.reordered, fun path => replaced.not_perm
        (not_perm_of_renderings lengths which path reordered (Ne.symm differ) visible)⟩

end Unstable

end Foldback.Bevy
