/-
**Records that differ, and records of several sources that do.**

* `Differ value records`: two records carry different values. `DifferAcross source value records`:
  two records of different sources do. `FromOne source records`: all records have one source.
* `differAcross_iff`: **values differ across sources** when they differ and the sources are several.
* `one_lt_card_iff`: the set of the values has two members when they differ.
* `differ_filter`, `differAcross_filter`, `fromOne_filter`: the same of records that pass a test.
-/

import Mathlib

namespace Agreement

variable {α β γ : Type} (source : α → β) (value : α → γ) (records : List α)

def Differ : Prop := ∃ first ∈ records, ∃ second ∈ records, value first ≠ value second

def DifferAcross : Prop :=
  ∃ first ∈ records, ∃ second ∈ records, source first ≠ source second ∧ value first ≠ value second

def FromOne : Prop := ∀ first ∈ records, ∀ second ∈ records, source first = source second

instance [DecidableEq γ] : Decidable (Differ value records) :=
  inferInstanceAs (Decidable (∃ first ∈ records, ∃ second ∈ records, value first ≠ value second))

instance [DecidableEq β] : Decidable (FromOne source records) :=
  inferInstanceAs (Decidable (∀ first ∈ records, ∀ second ∈ records, source first = source second))

/-! ### Several sources -/

variable {source value records}

/-- With several sources there is one besides any given source. -/
theorem exists_other_source (several : ¬ FromOne source records) (home : β) :
    ∃ other ∈ records, source other ≠ home := by
  by_contra none
  push Not at none
  refine several fun first member second member' => ?_
  rw [none first member, none second member']

/-- **Values differ across sources** when they differ and there are several sources. -/
theorem differAcross_iff :
    DifferAcross source value records ↔ Differ value records ∧ ¬ FromOne source records := by
  constructor
  · rintro ⟨first, member, second, member', apart, differs⟩
    exact ⟨⟨first, member, second, member', differs⟩,
      fun one => apart (one first member second member')⟩
  · rintro ⟨⟨first, member, second, member', differs⟩, several⟩
    by_cases apart : source first = source second
    · -- A record of another source carries a value unlike one of the two.
      obtain ⟨other, memberOther, elsewhere⟩ := exists_other_source several (source first)
      by_cases same : value other = value first
      · exact ⟨other, memberOther, second, member', apart ▸ elsewhere, same ▸ differs⟩
      · exact ⟨other, memberOther, first, member, elsewhere, same⟩
    · exact ⟨first, member, second, member', apart, differs⟩

/-! ### Sets of values -/

theorem one_lt_card_iff [DecidableEq γ] :
    1 < (records.map value).toFinset.card ↔ Differ value records := by
  rw [Finset.one_lt_card]
  constructor
  · rintro ⟨first, member, second, member', differs⟩
    rw [List.mem_toFinset, List.mem_map] at member member'
    obtain ⟨one, memberOne, rfl⟩ := member
    obtain ⟨other, memberOther, rfl⟩ := member'
    exact ⟨one, memberOne, other, memberOther, differs⟩
  · rintro ⟨one, memberOne, other, memberOther, differs⟩
    refine ⟨value one, ?_, value other, ?_, differs⟩
    · exact List.mem_toFinset.mpr (List.mem_map_of_mem memberOne)
    · exact List.mem_toFinset.mpr (List.mem_map_of_mem memberOther)

/-! ### The records that pass a test -/

section Filter

variable (test : α → Prop) [DecidablePred test]

/-- Two related records among those that pass. -/
theorem exists_pair_filter (related : α → α → Prop) :
    (∃ first ∈ records.filter fun record => test record,
        ∃ second ∈ records.filter fun record => test record, related first second) ↔
      ∃ first ∈ records, ∃ second ∈ records, test first ∧ test second ∧ related first second := by
  simp only [List.mem_filter, decide_eq_true_iff]
  constructor
  · rintro ⟨first, ⟨member, passes⟩, second, ⟨member', passes'⟩, holds⟩
    exact ⟨first, member, second, member', passes, passes', holds⟩
  · rintro ⟨first, member, second, member', passes, passes', holds⟩
    exact ⟨first, ⟨member, passes⟩, second, ⟨member', passes'⟩, holds⟩

theorem differ_filter : Differ value (records.filter fun record => test record) ↔
    ∃ first ∈ records, ∃ second ∈ records, test first ∧ test second ∧
      value first ≠ value second := exists_pair_filter test _

theorem differAcross_filter :
    DifferAcross source value (records.filter fun record => test record) ↔
      ∃ first ∈ records, ∃ second ∈ records, test first ∧ test second ∧
        source first ≠ source second ∧ value first ≠ value second := exists_pair_filter test _

theorem fromOne_filter : FromOne source (records.filter fun record => test record) ↔
    ∀ first ∈ records, ∀ second ∈ records, test first → test second →
      source first = source second := by
  unfold FromOne
  simp only [List.mem_filter, decide_eq_true_iff]
  constructor
  · intro one first member second member' passes passes'
    exact one first ⟨member, passes⟩ second ⟨member', passes'⟩
  · rintro one first ⟨member, passes⟩ second ⟨member', passes'⟩
    exact one first member second member' passes passes'

end Filter

end Agreement
