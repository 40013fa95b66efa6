/-
**Maps that iterate in order of first insertion.**

* `InsertionMap κ ν`: entries with distinct keys. `set` keeps the place of a key that is present and
  puts a new key last; `upsert` makes sure a key is present and then changes its value.
* `get?_set_self`, `get?_set_of_ne`, `get?_upsert_self`, `get?_upsert_of_ne`: what is found after a
  change.
* `mem_values_iff`: the values listed are those found.
* `group`: items grouped by key. `mem_entries_group`: **a group holds its key's items, in order**.
-/

import Mathlib

structure InsertionMap (κ ν : Type) where
  entries : List (κ × ν)
  nodup : (entries.map Prod.fst).Nodup
  deriving DecidableEq

namespace InsertionMap

variable {κ ν : Type}

/-! ### Operations -/

def empty : InsertionMap κ ν := ⟨[], List.nodup_nil⟩

def size (map : InsertionMap κ ν) : ℕ := map.entries.length

def values (map : InsertionMap κ ν) : List ν := map.entries.map Prod.snd

theorem length_values (map : InsertionMap κ ν) : map.values.length = map.size :=
  List.length_map _

variable [DecidableEq κ]

def get? (map : InsertionMap κ ν) (key : κ) : Option ν := map.entries.lookup key

def has (map : InsertionMap κ ν) (key : κ) : Bool := (map.get? key).isSome

/-- The entries after `key` was given `value`. -/
def setEntry (key : κ) (value : ν) : List (κ × ν) → List (κ × ν)
  | [] => [(key, value)]
  | entry :: entries =>
    if entry.1 = key then (key, value) :: entries else entry :: setEntry key value entries

theorem mem_keys_setEntry (key : κ) (value : ν) (entries : List (κ × ν)) (other : κ) :
    other ∈ (setEntry key value entries).map Prod.fst ↔
      other = key ∨ other ∈ entries.map Prod.fst := by
  induction entries with
  | nil => simp [setEntry]
  | cons entry entries ih =>
    unfold setEntry
    by_cases here : entry.1 = key
    · rw [if_pos here, List.map_cons, List.map_cons, List.mem_cons, List.mem_cons, here]
      tauto
    · rw [if_neg here, List.map_cons, List.map_cons, List.mem_cons, List.mem_cons, ih]
      tauto

/-- A key that is present keeps its place. -/
theorem keys_setEntry (key : κ) (value : ν) (entries : List (κ × ν)) :
    (setEntry key value entries).map Prod.fst =
      if key ∈ entries.map Prod.fst then entries.map Prod.fst else entries.map Prod.fst ++ [key] := by
  induction entries with
  | nil => rfl
  | cons entry entries ih =>
    unfold setEntry
    by_cases here : entry.1 = key
    · have present : key ∈ (entry :: entries).map Prod.fst := by simp [here]
      rw [if_pos here, if_pos present, List.map_cons, List.map_cons, here]
    · rw [if_neg here, List.map_cons, ih]
      by_cases later : key ∈ entries.map Prod.fst
      · have present : key ∈ (entry :: entries).map Prod.fst := List.mem_cons_of_mem _ later
        rw [if_pos later, if_pos present]
        rfl
      · have absent : key ∉ (entry :: entries).map Prod.fst := by
          rw [List.map_cons, List.mem_cons]
          rintro (same | member)
          · exact here same.symm
          · exact later member
        rw [if_neg later, if_neg absent]
        rfl

theorem nodup_keys_setEntry (key : κ) (value : ν) {entries : List (κ × ν)}
    (nodup : (entries.map Prod.fst).Nodup) : ((setEntry key value entries).map Prod.fst).Nodup := by
  induction entries with
  | nil => exact List.nodup_singleton key
  | cons entry entries ih =>
    obtain ⟨fresh, rest⟩ := List.nodup_cons.mp nodup
    unfold setEntry
    by_cases here : entry.1 = key
    · rw [if_pos here]
      exact List.nodup_cons.mpr ⟨here ▸ fresh, rest⟩
    · rw [if_neg here]
      refine List.nodup_cons.mpr ⟨fun member => ?_, ih rest⟩
      rcases (mem_keys_setEntry key value entries entry.1).mp member with same | inside
      · exact here same
      · exact fresh inside

def set (map : InsertionMap κ ν) (key : κ) (value : ν) : InsertionMap κ ν :=
  ⟨setEntry key value map.entries, nodup_keys_setEntry key value map.nodup⟩

/-- If `key` is missing, `start` becomes its value; then its value is changed. -/
def upsert (map : InsertionMap κ ν) (key : κ) (start : ν) (change : ν → ν) : InsertionMap κ ν :=
  let ensured := if map.has key then map else map.set key start
  match ensured.get? key with
  | some value => ensured.set key (change value)
  | none => ensured

/-! ### What is found -/

theorem lookup_setEntry_self (key : κ) (value : ν) (entries : List (κ × ν)) :
    (setEntry key value entries).lookup key = some value := by
  induction entries with
  | nil => exact List.lookup_cons_self
  | cons entry entries ih =>
    unfold setEntry
    by_cases here : entry.1 = key
    · rw [if_pos here]
      exact List.lookup_cons_self
    · have differs : (key == entry.1) = false := beq_false_of_ne (Ne.symm here)
      rw [if_neg here, List.lookup_cons, differs]
      exact ih

theorem lookup_setEntry_of_ne {key other : κ} (different : other ≠ key) (value : ν)
    (entries : List (κ × ν)) : (setEntry key value entries).lookup other = entries.lookup other := by
  have differs : (other == key) = false := beq_false_of_ne different
  induction entries with
  | nil => rw [setEntry, List.lookup_cons, differs]
  | cons entry entries ih =>
    unfold setEntry
    by_cases here : entry.1 = key
    · rw [if_pos here, List.lookup_cons, List.lookup_cons, here, differs]
    · rw [if_neg here, List.lookup_cons, List.lookup_cons, ih]

theorem get?_set_self (map : InsertionMap κ ν) (key : κ) (value : ν) :
    (map.set key value).get? key = some value := lookup_setEntry_self key value map.entries

theorem get?_set_of_ne (map : InsertionMap κ ν) {key other : κ} (different : other ≠ key)
    (value : ν) : (map.set key value).get? other = map.get? other :=
  lookup_setEntry_of_ne different value map.entries

/-- **The changed value of the key.** -/
theorem get?_upsert_self (map : InsertionMap κ ν) (key : κ) (start : ν) (change : ν → ν) :
    (map.upsert key start change).get? key = some (change ((map.get? key).getD start)) := by
  unfold upsert has
  rcases found : map.get? key with _ | value
  · simp [get?_set_self]
  · simp [found, get?_set_self]

theorem get?_upsert_of_ne (map : InsertionMap κ ν) {key other : κ} (different : other ≠ key)
    (start : ν) (change : ν → ν) : (map.upsert key start change).get? other = map.get? other := by
  unfold upsert has
  rcases found : map.get? key with _ | value
  · simp [get?_set_self, get?_set_of_ne _ different]
  · simp [found, get?_set_of_ne _ different]

/-! ### Values -/

theorem mem_entries_iff (map : InsertionMap κ ν) (key : κ) (value : ν) :
    (key, value) ∈ map.entries ↔ map.get? key = some value := by
  obtain ⟨entries, nodup⟩ := map
  show _ ↔ entries.lookup key = some value
  induction entries with
  | nil => simp
  | cons entry entries ih =>
    obtain ⟨fresh, rest⟩ := List.nodup_cons.mp nodup
    rw [List.mem_cons, ih rest, List.lookup_cons]
    by_cases here : key = entry.1
    · have same : (key == entry.1) = true := beq_iff_eq.mpr here
      have missing : entries.lookup key = none := by
        rw [List.lookup_eq_none_iff]
        intro other member
        refine bne_iff_ne.mpr fun equal => fresh ?_
        rw [← here, equal]
        exact List.mem_map_of_mem member
      rw [same, missing]
      constructor
      · rintro (rfl | absent)
        · rfl
        · cases absent
      · intro found
        left
        rw [← Option.some.inj found, here]
    · have differs : (key == entry.1) = false := beq_false_of_ne here
      rw [differs]
      constructor
      · rintro (rfl | found)
        · exact absurd rfl here
        · exact found
      · exact Or.inr

/-- **The values listed are those found.** -/
theorem mem_values_iff (map : InsertionMap κ ν) (value : ν) :
    value ∈ map.values ↔ ∃ key, map.get? key = some value := by
  rw [values, List.mem_map]
  constructor
  · rintro ⟨⟨key, found⟩, member, rfl⟩
    exact ⟨key, (map.mem_entries_iff key found).mp member⟩
  · rintro ⟨key, found⟩
    exact ⟨(key, value), (map.mem_entries_iff key value).mpr found, rfl⟩

/-! ### Grouping -/

variable {α : Type}

/-- The items grouped by key; the keys are in the order of their first items. -/
def group (key : α → κ) (items : List α) : InsertionMap κ (List α) :=
  items.foldl (fun groups item => groups.upsert (key item) [] fun group => group ++ [item]) empty

theorem group_concat (key : α → κ) (items : List α) (item : α) :
    group key (items ++ [item]) =
      (group key items).upsert (key item) [] fun group => group ++ [item] := by
  rw [group, List.foldl_append]
  rfl

/-- A key without items has no group. -/
theorem get?_group (key : α → κ) (items : List α) (wanted : κ) :
    (group key items).get? wanted =
      if items.filter (fun item => key item = wanted) = [] then none
      else some (items.filter fun item => key item = wanted) := by
  induction items using List.reverseRecOn with
  | nil => rfl
  | append_singleton items item ih =>
    rw [group_concat, List.filter_append]
    by_cases here : wanted = key item
    · subst here
      rw [get?_upsert_self, ih]
      by_cases fresh : items.filter (fun other => key other = key item) = []
      · simp [fresh]
      · simp [fresh]
    · rw [get?_upsert_of_ne _ here, ih]
      simp [Ne.symm here]

/-- What is looked up with `|| []`. -/
theorem getD_group (key : α → κ) (items : List α) (wanted : κ) :
    ((group key items).get? wanted).getD [] = items.filter fun item => key item = wanted := by
  rw [get?_group]
  split
  · rename_i missing
    exact missing.symm
  · rfl

/-- **A group holds its key's items, in order.** -/
theorem mem_entries_group (key : α → κ) (items : List α) (wanted : κ) (found : List α) :
    (wanted, found) ∈ (group key items).entries ↔
      found ≠ [] ∧ found = items.filter fun item => key item = wanted := by
  rw [mem_entries_iff, get?_group]
  split
  · rename_i missing
    rw [missing]
    refine iff_of_false (fun none => by cases none) ?_
    rintro ⟨some, none⟩
    exact some none
  · rename_i present
    rw [Option.some_inj]
    constructor
    · rintro rfl
      exact ⟨present, rfl⟩
    · exact fun both => both.2.symm

end InsertionMap
