/-
**The first event of a history.**

`FirstEvent happens history item`: `item` is the first item of the history at which `happens` holds
of what came before it and of itself. `firstEvent_concat` extends a history by one item: this is the
step of any search that runs along.
-/

import Mathlib

variable {α : Type}

/-- `item` is where `happens` holds for the first time along `history`. -/
def FirstEvent (happens : List α → α → Prop) (history : List α) (item : α) : Prop :=
  ∃ before after, history = before ++ item :: after ∧ happens before item ∧
    ∀ earlier other later, before = earlier ++ other :: later → ¬ happens earlier other

namespace FirstEvent

variable {happens : List α → α → Prop} {history : List α} {item : α}

theorem not_nil : ¬ FirstEvent happens [] item := by
  rintro ⟨before, after, split, -⟩
  exact absurd split.symm (List.append_ne_nil_of_right_ne_nil _ (List.cons_ne_nil _ _))

theorem concat (first : FirstEvent happens history item) (last : α) :
    FirstEvent happens (history ++ [last]) item := by
  obtain ⟨before, after, rfl, here, earlier⟩ := first
  exact ⟨before, after ++ [last], by rw [List.append_assoc, List.cons_append], here, earlier⟩

/-- If it happens anywhere, it happens first somewhere. -/
theorem exists_of_happens : ∀ before : List α, happens before item → ∀ after : List α,
    ∃ first, FirstEvent happens (before ++ item :: after) first := by
  intro before
  induction length : before.length using Nat.strong_induction_on generalizing before item with
  | _ size ih =>
    subst length
    intro here after
    by_cases first : ∀ earlier other later, before = earlier ++ other :: later →
        ¬ happens earlier other
    · exact ⟨item, before, after, rfl, here, first⟩
    · push Not at first
      obtain ⟨earlier, other, later, rfl, sooner⟩ := first
      have shorter : earlier.length < (earlier ++ other :: later).length := by
        rw [List.length_append, List.length_cons]
        omega
      obtain ⟨first, found⟩ := ih _ shorter earlier rfl sooner (later ++ item :: after)
      refine ⟨first, ?_⟩
      rw [List.append_assoc, List.cons_append]
      exact found

/-- **One more item** changes nothing once the event has happened; otherwise it is the event exactly
when the event happens there. -/
theorem concat_iff (last : α) : FirstEvent happens (history ++ [last]) item ↔
    FirstEvent happens history item ∨
      ((∀ other, ¬ FirstEvent happens history other) ∧ happens history last ∧ item = last) := by
  constructor
  · rintro ⟨before, after, split, here, earlier⟩
    rcases List.eq_nil_or_concat after with rfl | ⟨front, final, rfl⟩
    · obtain ⟨rfl, same⟩ := List.append_inj' split rfl
      obtain ⟨rfl, -⟩ := List.cons.inj same
      refine Or.inr ⟨?_, here, rfl⟩
      rintro other ⟨before, after, split, sooner, -⟩
      exact earlier before other after split sooner
    · rw [List.concat_eq_append, ← List.cons_append, ← List.append_assoc] at split
      obtain ⟨rfl, -⟩ := List.append_inj' split rfl
      exact Or.inl ⟨before, front, rfl, here, earlier⟩
  · rintro (first | ⟨none, here, rfl⟩)
    · exact first.concat last
    · refine ⟨history, [], rfl, here, ?_⟩
      rintro earlier other later rfl sooner
      obtain ⟨first, found⟩ := exists_of_happens earlier sooner later
      exact none first found

end FirstEvent
