/-
**The longest run of consecutive elements with a property.**

A loop that passes over elements by calling itself nests one call for each of them, so what bounds
its depth is the longest run of consecutive elements it passes over.

* `le_longestRun` and `exists_run`: `longestRun` is the greatest length of a run.
* `longestRun_lt_iff`: every run is shorter than a bound exactly when the run at the front is and
  every run after the first other element is. This is the recursion of such a loop.
-/

import Mathlib

namespace Runs

variable {α : Type} (skip : α → Bool)

/-- The length of the longest run of consecutive elements with `skip`. -/
def longestRun : List α → ℕ
  | [] => 0
  | a :: list => max ((a :: list).takeWhile skip).length (longestRun list)

/-- What stands after the first element without `skip`. -/
def afterRun (list : List α) : List α := (list.dropWhile skip).tail

variable {skip}

theorem longestRun_cons_of_not {a : α} (kept : skip a = false) (list : List α) :
    longestRun skip (a :: list) = longestRun skip list := by
  rw [longestRun, List.takeWhile_cons_of_neg (by simp [kept]), List.length_nil, Nat.zero_max]

/-- No run is longer. -/
theorem le_longestRun {run list : List α} (inside : run <:+: list)
    (skipped : ∀ a ∈ run, skip a = true) : run.length ≤ longestRun skip list := by
  induction list with
  | nil =>
    rw [List.infix_nil.mp inside]
    exact Nat.le_refl 0
  | cons a list ih =>
    rcases List.infix_cons_iff.mp inside with front | later
    · have kept : run <+: (a :: list).takeWhile skip := by
        obtain ⟨rest, split⟩ := front
        rw [← split, List.takeWhile_append_of_pos skipped]
        exact List.prefix_append _ _
      exact kept.length_le.trans (le_max_left _ _)
    · exact (ih later).trans (le_max_right _ _)

variable (skip) in
/-- A run of that length is there. -/
theorem exists_run (list : List α) :
    ∃ run, run <:+: list ∧ (∀ a ∈ run, skip a = true) ∧ run.length = longestRun skip list := by
  induction list with
  | nil => exact ⟨[], List.infix_rfl, nofun, rfl⟩
  | cons a list ih =>
    rcases le_total (longestRun skip list) ((a :: list).takeWhile skip).length with front | later
    · refine ⟨(a :: list).takeWhile skip, (List.takeWhile_prefix skip).isInfix, ?_, ?_⟩
      · exact fun _ member => List.mem_takeWhile_imp member
      · rw [longestRun, max_eq_left front]
    · obtain ⟨run, inside, skipped, length⟩ := ih
      refine ⟨run, inside.trans (List.suffix_cons a list).isInfix, skipped, ?_⟩
      rw [longestRun, max_eq_right later, length]

/-- A part has no longer runs than the whole. -/
theorem longestRun_mono {part list : List α} (inside : part <:+: list) :
    longestRun skip part ≤ longestRun skip list := by
  obtain ⟨run, within, skipped, length⟩ := exists_run skip part
  rw [← length]
  exact le_longestRun (within.trans inside) skipped

/-- **A loop over the runs**: the run at the front, then the runs after the element that ends it. -/
theorem longestRun_lt_iff {list : List α} {bound : ℕ} :
    longestRun skip list < bound ↔
      (list.takeWhile skip).length < bound ∧ longestRun skip (afterRun skip list) < bound := by
  induction list with
  | nil => exact ⟨fun room => ⟨room, room⟩, fun both => both.1⟩
  | cons a list ih =>
    rcases skipped : skip a with _ | _
    · rw [longestRun_cons_of_not skipped, List.takeWhile_cons_of_neg (by simp [skipped]), afterRun,
        List.dropWhile_cons_of_neg (by simp [skipped]), List.tail_cons, List.length_nil]
      omega
    · have length : ((a :: list).takeWhile skip).length = (list.takeWhile skip).length + 1 := by
        rw [List.takeWhile_cons_of_pos skipped, List.length_cons]
      have after : afterRun skip (a :: list) = afterRun skip list := by
        rw [afterRun, List.dropWhile_cons_of_pos skipped, afterRun]
      rw [longestRun, length, after, max_lt_iff, ih]
      omega

/-- Elements that are all passed over are one run. -/
theorem longestRun_of_all {list : List α} (skipped : ∀ a ∈ list, skip a = true) :
    longestRun skip list = list.length := by
  apply le_antisymm
  · obtain ⟨run, inside, _, length⟩ := exists_run skip list
    rw [← length]
    exact inside.length_le
  · exact le_longestRun List.infix_rfl skipped

theorem takeWhile_map {β : Type} {f : β → α} {other : β → Bool} {list : List β}
    (agree : ∀ b ∈ list, skip (f b) = other b) :
    (list.map f).takeWhile skip = (list.takeWhile other).map f := by
  induction list with
  | nil => rfl
  | cons b list ih =>
    have rest := ih fun c member => agree c (List.mem_cons_of_mem b member)
    have here := agree b List.mem_cons_self
    rw [List.map_cons, List.takeWhile_cons, List.takeWhile_cons, here, rest]
    split
    · rw [List.map_cons]
    · rfl

/-- Runs are kept by a map that keeps what is passed over. -/
theorem longestRun_map {β : Type} {f : β → α} {other : β → Bool} {list : List β}
    (agree : ∀ b ∈ list, skip (f b) = other b) :
    longestRun skip (list.map f) = longestRun other list := by
  induction list with
  | nil => rfl
  | cons b list ih =>
    rw [List.map_cons, longestRun, longestRun, ← List.map_cons, takeWhile_map agree, List.length_map,
      ih fun c member => agree c (List.mem_cons_of_mem b member)]

end Runs
