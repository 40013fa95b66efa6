/-
**Entries grouped by key in an ordered map, and the first key whose group passes a test.**

* `push` is `entry(key).or_default().push(value)`; `group` pushes a list of entries in order.
  `groupOf_pushAll`: **a key's group is extended by that key's values, in order**.
* `firstKey` scans the map in ascending key order and returns the first key that passes.
  `firstKey_eq_some_iff`: it is the least such key; `firstKey_eq_none_iff`: there is none.
-/

import Mathlib

set_option linter.unusedSectionVars false

namespace Grouping

open Std

variable {κ α : Type} [Ord κ] [TransOrd κ] [LawfulEqOrd κ]

/-- Values grouped by key. -/
abbrev Table (κ α : Type) [Ord κ] := ExtTreeMap κ (List α)

/-! ### Pushing -/

/-- Append `value` to the group of `key`, creating the group if it is missing. -/
def push (table : Table κ α) (key : κ) (value : α) : Table κ α :=
  table.alter key fun values => some (values.getD [] ++ [value])

/-- The group of `key`; a missing group is empty. -/
def groupOf (table : Table κ α) (key : κ) : List α := table[key]?.getD []

/-- The entries pushed in order. -/
def pushAll (table : Table κ α) (entries : List (κ × α)) : Table κ α :=
  entries.foldl (fun table entry => push table entry.1 entry.2) table

/-- The entries pushed in order onto an empty table. -/
def group (entries : List (κ × α)) : Table κ α := pushAll ∅ entries

@[simp]
theorem groupOf_empty (key : κ) : groupOf (∅ : Table κ α) key = [] := by
  rw [groupOf, ExtTreeMap.getElem?_empty]
  rfl

theorem groupOf_push_self (table : Table κ α) (key : κ) (value : α) :
    groupOf (push table key value) key = groupOf table key ++ [value] := by
  rw [groupOf, push, ExtTreeMap.getElem?_alter, if_pos compare_self]
  rfl

theorem groupOf_push_of_ne (table : Table κ α) {key other : κ} (different : key ≠ other)
    (value : α) : groupOf (push table key value) other = groupOf table other := by
  rw [groupOf, push, ExtTreeMap.getElem?_alter,
    if_neg fun same => different (LawfulEqOrd.eq_of_compare same)]
  rfl

/-- **A key's group is extended by that key's values, in order.** -/
theorem groupOf_pushAll [DecidableEq κ] (entries : List (κ × α)) (table : Table κ α) (key : κ) :
    groupOf (pushAll table entries) key =
      groupOf table key ++ (entries.filter (fun entry => entry.1 = key)).map Prod.snd := by
  induction entries generalizing table with
  | nil => simp [pushAll]
  | cons entry entries ih =>
    rw [pushAll, List.foldl_cons, ← pushAll, ih]
    by_cases here : entry.1 = key
    · subst here
      simp [groupOf_push_self]
    · simp [groupOf_push_of_ne table here, here]

/-- **A table remembers how many entries were pushed.** -/
theorem length_eq_of_pushAll_eq [DecidableEq κ] {table : Table κ α}
    {entries entries' : List (κ × α)} (same : pushAll table entries = pushAll table entries') :
    entries.length = entries'.length := by
  have keys : (entries.map Prod.fst).Perm (entries'.map Prod.fst) := by
    rw [List.perm_iff_count]
    intro key
    have sizes := congrArg (fun table => (groupOf table key).length) same
    simp only [groupOf_pushAll, List.length_append, List.length_map,
      Nat.add_left_cancel_iff] at sizes
    have counted : ∀ list : List (κ × α),
        (list.map Prod.fst).count key = (list.filter fun entry => entry.1 = key).length := by
      intro list
      rw [List.count, List.countP_map, List.countP_eq_length_filter]
      rfl
    rw [counted, counted, sizes]
  have total := keys.length_eq
  rwa [List.length_map, List.length_map] at total

theorem mem_groupOf_pushAll (table : Table κ α) (entries : List (κ × α)) (key : κ) (value : α) :
    value ∈ groupOf (pushAll table entries) key ↔
      value ∈ groupOf table key ∨ (key, value) ∈ entries := by
  classical
  rw [groupOf_pushAll]
  simp only [List.mem_append, List.mem_map, List.mem_filter, decide_eq_true_eq]
  refine or_congr_right ⟨?_, fun member => ⟨(key, value), ⟨member, rfl⟩, rfl⟩⟩
  rintro ⟨entry, ⟨member, rfl⟩, rfl⟩
  exact member

/-! ### Scanning -/

/-- The first key, in ascending order, whose group passes `test`. -/
def firstKey (test : κ → List α → Bool) (table : Table κ α) : Option κ :=
  (table.toList.find? fun entry => test entry.1 entry.2).map Prod.fst

/-- The keys whose group passes. -/
def Passes (test : κ → List α → Bool) (table : Table κ α) (key : κ) : Prop :=
  ∃ values, table[key]? = some values ∧ test key values = true

/-- A test that fails on the empty group can be read off `groupOf`. -/
theorem passes_iff {test : κ → List α → Bool} (empty : ∀ key, test key [] = false)
    (table : Table κ α) (key : κ) : Passes test table key ↔ test key (groupOf table key) = true := by
  constructor
  · rintro ⟨values, found, passed⟩
    rw [groupOf, found]
    exact passed
  · intro passed
    rcases found : table[key]? with _ | values
    · rw [groupOf, found, Option.getD_none, empty] at passed
      cases passed
    · rw [groupOf, found] at passed
      exact ⟨values, found, passed⟩

theorem firstKey_eq_none_iff (test : κ → List α → Bool) (table : Table κ α) :
    firstKey test table = none ↔ ∀ key, ¬ Passes test table key := by
  rw [firstKey, Option.map_eq_none_iff, List.find?_eq_none]
  constructor
  · rintro none key ⟨values, found, passed⟩
    exact none (key, values) (ExtTreeMap.mem_toList_iff_getElem?_eq_some.mpr found) passed
  · rintro none ⟨key, values⟩ member passed
    exact none key ⟨values, ExtTreeMap.mem_toList_iff_getElem?_eq_some.mp member, passed⟩

/-- A scan that stops at `key` stops at the least passing key. -/
theorem isLeast_of_firstKey [LE κ] [LawfulOrderOrd κ] {test : κ → List α → Bool}
    {table : Table κ α} {key : κ} (first : firstKey test table = some key) :
    IsLeast {key | Passes test table key} key := by
  obtain ⟨⟨key, values⟩, found, rfl⟩ := Option.map_eq_some_iff.mp first
  obtain ⟨passed, before, after, split, earlier⟩ := List.find?_eq_some_iff_append.mp found
  have inTable : (key, values) ∈ table.toList := by
    rw [split]
    exact List.mem_append_right _ List.mem_cons_self
  refine ⟨⟨values, ExtTreeMap.mem_toList_iff_getElem?_eq_some.mp inTable, passed⟩, ?_⟩
  rintro other ⟨values', found', passed'⟩
  have member := ExtTreeMap.mem_toList_iff_getElem?_eq_some.mpr found'
  have ordered := ExtTreeMap.ordered_keys_toList (t := table)
  rw [split] at member ordered
  rcases List.mem_append.mp member with inBefore | inAfter
  · have failed := earlier _ inBefore
    rw [passed'] at failed
    cases failed
  · rcases List.mem_cons.mp inAfter with same | inAfter
    · cases same
      exact isLE_compare.mp (by rw [compare_self]; rfl)
    · have later := (List.pairwise_cons.mp (List.pairwise_append.mp ordered).2.1).1 _ inAfter
      exact isLE_compare.mp (by rw [later]; rfl)

/-- **The scan finds the least passing key.** -/
theorem firstKey_eq_some_iff [LE κ] [LawfulOrderOrd κ] [Antisymm (α := κ) (· ≤ ·)]
    (test : κ → List α → Bool) (table : Table κ α) (key : κ) :
    firstKey test table = some key ↔ IsLeast {key | Passes test table key} key := by
  refine ⟨isLeast_of_firstKey, fun least => ?_⟩
  rcases first : firstKey test table with _ | found
  · exact absurd least.1 ((firstKey_eq_none_iff test table).mp first key)
  · have found := isLeast_of_firstKey first
    exact congrArg some (Antisymm.antisymm _ _ (found.2 least.1) (least.2 found.1))

end Grouping
