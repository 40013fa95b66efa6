/-
**The most frequent value of a list.**

* `tally` counts the values, in the order in which they first occur (`pairwise_keys_tally`).
* `mostCommon` takes the first entry of the counts, the highest count first.
* `mostCommon_eq_some_iff`: **it is the value that occurs most often, of several the one that occurs
  first** (`MostCommon`). A value with more than half of the occurrences is it
  (`mostCommon_of_majority`).
-/

import Foldback.Lib.InsertionMap

namespace Plurality

variable {α : Type}

/-! ### The first of the best -/

/-- No earlier entry has its count, and no later one exceeds it. -/
def FirstBest (entries : List (α × ℕ)) (best : α × ℕ) : Prop :=
  ∃ before after, entries = before ++ best :: after ∧ (∀ entry ∈ before, entry.2 < best.2) ∧
    ∀ entry ∈ after, entry.2 ≤ best.2

/-- **A stable sort, the highest count first, starts with the first of the best.** -/
theorem head?_insertionSort (entries : List (α × ℕ)) (best : α × ℕ)
    (first : (entries.insertionSort fun one other => other.2 ≤ one.2).head? = some best) :
    FirstBest entries best := by
  induction entries generalizing best with
  | nil => cases first
  | cons entry entries ih =>
    rw [List.insertionSort_cons] at first
    rcases sorted : entries.insertionSort (fun one other => other.2 ≤ one.2) with _ | ⟨top, rest⟩
    · rw [sorted] at first
      cases first
      have none : entries = [] := by
        have length := congrArg List.length sorted
        rwa [List.length_insertionSort, List.length_nil, List.length_eq_zero_iff] at length
      rw [none]
      exact ⟨[], [], rfl, by simp, by simp⟩
    · have topped := ih top (by rw [sorted]; rfl)
      rw [sorted, List.orderedInsert_cons] at first
      obtain ⟨before, after, split, less, most⟩ := topped
      split at first
      · rename_i beats
        cases first
        refine ⟨[], entries, rfl, by simp, fun other member => ?_⟩
        rw [split] at member
        rcases List.mem_append.mp member with early | late
        · exact (less other early).le.trans beats
        · rcases List.mem_cons.mp late with rfl | late
          · exact beats
          · exact (most other late).trans beats
      · rename_i beaten
        cases first
        refine ⟨entry :: before, after, by rw [split]; rfl, fun other member => ?_, most⟩
        rcases List.mem_cons.mp member with rfl | early
        · exact not_le.mp beaten
        · exact less other early

variable [DecidableEq α]

/-! ### Counting -/

/-- How often each value occurs. -/
def tally (values : List α) : InsertionMap α ℕ :=
  values.foldl (fun counts value => counts.set value ((counts.get? value).getD 0 + 1)) .empty

theorem tally_concat (values : List α) (value : α) :
    tally (values ++ [value]) =
      (tally values).set value (((tally values).get? value).getD 0 + 1) := by
  rw [tally, List.foldl_append]
  rfl

theorem get?_tally (values : List α) (value : α) :
    (tally values).get? value = if value ∈ values then some (values.count value) else none := by
  induction values using List.reverseRecOn with
  | nil => rfl
  | append_singleton values last ih =>
    rw [tally_concat]
    by_cases here : value = last
    · subst here
      have member : value ∈ values ++ [value] := List.mem_append_right _ (List.mem_singleton_self _)
      rw [InsertionMap.get?_set_self, ih, if_pos member, List.count_append, List.count_singleton_self]
      by_cases before : value ∈ values
      · rw [if_pos before]
        rfl
      · rw [if_neg before, List.count_eq_zero_of_not_mem before]
        rfl
    · have count : (values ++ [last]).count value = values.count value := by
        have apart : (last == value) = false := beq_false_of_ne (Ne.symm here)
        rw [List.count_append, List.count_singleton, apart]
        rfl
      have member : value ∈ values ++ [last] ↔ value ∈ values := by simp [here]
      rw [InsertionMap.get?_set_of_ne _ here, ih, count]
      simp only [member]

theorem mem_entries_tally (values : List α) (value : α) (count : ℕ) :
    (value, count) ∈ (tally values).entries ↔ value ∈ values ∧ count = values.count value := by
  rw [InsertionMap.mem_entries_iff, get?_tally]
  by_cases member : value ∈ values
  · rw [if_pos member, Option.some_inj]
    exact ⟨fun same => ⟨member, same.symm⟩, fun both => both.2.symm⟩
  · rw [if_neg member]
    exact iff_of_false (by simp) fun both => member both.1

/-- **The values are counted in the order of their first occurrences.** -/
theorem pairwise_keys_tally (values : List α) :
    ((tally values).entries.map Prod.fst).Pairwise fun one other =>
      values.idxOf one < values.idxOf other := by
  induction values using List.reverseRecOn with
  | nil => exact List.Pairwise.nil
  | append_singleton values last ih =>
    have keys : ∀ value ∈ (tally values).entries.map Prod.fst, value ∈ values := by
      intro value member
      obtain ⟨⟨_, count⟩, entry, rfl⟩ := List.mem_map.mp member
      exact ((mem_entries_tally values _ count).mp entry).1
    have kept : ((tally values).entries.map Prod.fst).Pairwise fun one other =>
        (values ++ [last]).idxOf one < (values ++ [last]).idxOf other := by
      refine ih.imp_of_mem fun {one other} member member' less => ?_
      rwa [List.idxOf_append_of_mem (keys one member), List.idxOf_append_of_mem (keys other member')]
    rw [tally_concat]
    show ((InsertionMap.setEntry last _ (tally values).entries).map Prod.fst).Pairwise _
    rw [InsertionMap.keys_setEntry]
    split
    · exact kept
    · rename_i absent
      have fresh : last ∉ values := fun member =>
        absent (List.mem_map.mpr ⟨(last, values.count last),
          (mem_entries_tally values last _).mpr ⟨member, rfl⟩, rfl⟩)
      refine List.pairwise_append.mpr ⟨kept, List.pairwise_singleton _ _, fun one member other same => ?_⟩
      rw [List.mem_singleton.mp same, List.idxOf_append_of_mem (keys one member),
        List.idxOf_append_of_notMem fresh]
      exact (List.idxOf_lt_length_iff.mpr (keys one member)).trans_le (Nat.le_add_right _ _)

/-! ### The most frequent value -/

/-- Nothing is most frequent in an empty list. -/
def mostCommon (values : List α) : Option α :=
  (((tally values).entries.insertionSort fun one other => other.2 ≤ one.2).head?).map Prod.fst

theorem mostCommon_isSome_iff (values : List α) : (mostCommon values).isSome ↔ values ≠ [] := by
  rw [mostCommon, Option.isSome_map, List.isSome_head?, ne_eq, ← List.length_eq_zero_iff,
    List.length_insertionSort, List.length_eq_zero_iff, not_iff_not]
  rcases values with _ | ⟨value, values⟩
  · exact iff_of_true rfl rfl
  · refine iff_of_false (fun none => ?_) (List.cons_ne_nil _ _)
    have entry := (mem_entries_tally (value :: values) value _).mpr ⟨List.mem_cons_self, rfl⟩
    rw [none] at entry
    cases entry

/-- **The value that occurs most often**, of several the one that occurs first. -/
def MostCommon (values : List α) (value : α) : Prop :=
  value ∈ values ∧ ∀ other ∈ values, values.count other < values.count value ∨
    values.count other = values.count value ∧ values.idxOf value ≤ values.idxOf other

theorem MostCommon.of_eq {values : List α} {value : α} (found : mostCommon values = some value) :
    MostCommon values value := by
  obtain ⟨⟨value, count⟩, head, rfl⟩ := Option.map_eq_some_iff.mp found
  obtain ⟨before, after, split, less, most⟩ := head?_insertionSort _ _ head
  have order := pairwise_keys_tally values
  rw [split, List.map_append, List.map_cons, List.pairwise_append] at order
  obtain ⟨member, counted⟩ := (mem_entries_tally values value count).mp (by rw [split]; simp)
  dsimp only at less most
  refine ⟨member, fun other present => ?_⟩
  have entry := (mem_entries_tally values other _).mpr ⟨present, rfl⟩
  rw [split] at entry
  rcases List.mem_append.mp entry with early | late
  · exact .inl (counted ▸ less _ early)
  · rcases List.mem_cons.mp late with same | late
    · cases same
      exact .inr ⟨counted, le_rfl⟩
    · rcases (most _ late).lt_or_eq with lower | same
      · exact .inl (counted ▸ lower)
      · refine .inr ⟨same.trans counted, le_of_lt ?_⟩
        exact (List.pairwise_cons.mp order.2.1).1 other (List.mem_map_of_mem late)

/-- **The first entry of the counts is that value.** -/
theorem mostCommon_eq_some_iff (values : List α) (value : α) :
    mostCommon values = some value ↔ MostCommon values value := by
  refine ⟨MostCommon.of_eq, fun ⟨member, best⟩ => ?_⟩
  obtain ⟨found, is⟩ := Option.isSome_iff_exists.mp
    ((mostCommon_isSome_iff values).mpr (List.ne_nil_of_mem member))
  obtain ⟨present, beats⟩ := MostCommon.of_eq is
  rw [is, Option.some_inj]
  rcases best found present with less | ⟨same, first⟩
  · rcases beats value member with less' | ⟨same', -⟩
    · omega
    · omega
  · rcases beats value member with less' | ⟨-, first'⟩
    · omega
    · exact List.idxOf_inj present |>.mp (le_antisymm first' first)

/-- **A value with more than half of the occurrences is the most frequent one.** -/
theorem mostCommon_of_majority {values : List α} {value : α}
    (majority : values.length < 2 * values.count value) : mostCommon values = some value := by
  have member : value ∈ values := by
    by_contra absent
    rw [List.count_eq_zero_of_not_mem absent] at majority
    omega
  refine (mostCommon_eq_some_iff values value).mpr ⟨member, fun other present => ?_⟩
  by_cases same : other = value
  · exact .inr ⟨by rw [same], by rw [same]⟩
  · left
    have whole := List.length_eq_countP_add_countP (fun item => item == value) (l := values)
    have within : values.count other ≤ values.countP fun item => ¬ (item == value) = true :=
      List.countP_mono_left fun item _ is => by
        rw [beq_iff_eq.mp is]
        simpa using same
    have counted : values.countP (fun item => item == value) = values.count value := rfl
    omega

end Plurality
