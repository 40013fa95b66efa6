/-
**Deterministic machines: runs, traces, and induction over what has happened so far.**

A machine answers each input with an output and a next state. `run` keeps both.

* `run_append`, `run_snoc`, `run_split`: runs compose, and come apart at an entry of the trace.
* `exists_repeat`: repeating one input stops when a measure falls.
* `reflTransGen_of_foldlM`: a run of a machine that may refuse is a chain of its steps.
* `history_rule`: **a relation between the trace so far and the state** that holds at the start and
  is preserved by every step holds after every run.
* `attempt` keeps the trace of a machine that may refuse an input; `attempt_history_rule` is its rule.
* `attempt_simulates`: **a machine that matches a specification step by step never refuses**, and its
  runs are those of the specification. `attempt_refines`: the same, if both refuse the same inputs.
-/

import Mathlib

namespace Machine

variable {σ ι ω : Type}

/-- The trace of a run, each input with its output, and the final state. -/
def run (step : σ → ι → ω × σ) (state : σ) : List ι → List (ι × ω) × σ
  | [] => ([], state)
  | input :: inputs =>
    let answer := step state input
    let rest := run step answer.2 inputs
    ((input, answer.1) :: rest.1, rest.2)

variable (step : σ → ι → ω × σ)

theorem run_append (state : σ) (first second : List ι) :
    run step state (first ++ second) =
      ((run step state first).1 ++ (run step (run step state first).2 second).1,
        (run step (run step state first).2 second).2) := by
  induction first generalizing state with
  | nil => rfl
  | cons input first ih => simp only [List.cons_append, run, ih]

theorem run_snoc (state : σ) (inputs : List ι) (input : ι) :
    run step state (inputs ++ [input]) =
      ((run step state inputs).1 ++ [(input, (step (run step state inputs).2 input).1)],
        (step (run step state inputs).2 input).2) := by
  rw [run_append]
  rfl

theorem map_fst_run (state : σ) (inputs : List ι) :
    (run step state inputs).1.map Prod.fst = inputs := by
  induction inputs generalizing state with
  | nil => rfl
  | cons input inputs ih => rw [run, List.map_cons, ih]

/-- An entry of a trace is the step taken after the entries before it. -/
theorem run_split {state : σ} {inputs : List ι} {before after : List (ι × ω)} {input : ι} {output : ω}
    (split : (run step state inputs).1 = before ++ (input, output) :: after) :
    (run step state (before.map Prod.fst)).1 = before ∧
      (step (run step state (before.map Prod.fst)).2 input).1 = output := by
  induction before generalizing state inputs with
  | nil =>
    cases inputs with
    | nil => cases split
    | cons first inputs =>
      simp only [run, List.nil_append, List.cons.injEq, Prod.mk.injEq] at split
      obtain ⟨⟨rfl, answer⟩, _⟩ := split
      exact ⟨rfl, answer⟩
  | cons entry before ih =>
    cases inputs with
    | nil => cases split
    | cons first inputs =>
      simp only [run, List.cons_append, List.cons.injEq] at split
      obtain ⟨rfl, rest⟩ := split
      obtain ⟨earlier, answer⟩ := ih rest
      exact ⟨congrArg _ earlier, answer⟩

/-- **Repeating an input stops**, if every answer that is not a stop lowers a measure. -/
theorem exists_repeat (input : ι) (stop : ω → Prop) (holds : σ → Prop) (measure : σ → ℕ)
    (keeps : ∀ state, holds state → holds (step state input).2)
    (lowers : ∀ state, holds state → ¬ stop (step state input).1 →
      measure (step state input).2 < measure state)
    {state : σ} (start : holds state) :
    ∃ count, stop (step (run step state (List.replicate count input)).2 input).1 := by
  induction bound : measure state using Nat.strong_induction_on generalizing state with
  | _ bound ih =>
    by_cases stopped : stop (step state input).1
    · exact ⟨0, stopped⟩
    · obtain ⟨count, stops⟩ := ih _ (bound ▸ lowers state start stopped) (keeps state start) rfl
      exact ⟨count + 1, stops⟩

/-- **Induction over the trace so far.** -/
theorem history_rule (invariant : List (ι × ω) → σ → Prop) {start : σ} (initial : invariant [] start)
    (preserved : ∀ trace state input, invariant trace state →
      invariant (trace ++ [(input, (step state input).1)]) (step state input).2)
    (inputs : List ι) :
    invariant (run step start inputs).1 (run step start inputs).2 := by
  induction inputs using List.reverseRecOn with
  | nil => exact initial
  | append_singleton inputs input ih =>
    rw [run_snoc]
    exact preserved _ _ input ih

/-- A run of a machine that may refuse is a chain of its steps. -/
theorem reflTransGen_of_foldlM {step : σ → ι → Option σ} {related : σ → σ → Prop}
    (steps : ∀ before input after, step before input = some after → related before after)
    {inputs : List ι} {start final : σ} (ran : inputs.foldlM step start = some final) :
    Relation.ReflTransGen related start final := by
  induction inputs generalizing start with
  | nil =>
    cases ran
    exact .refl
  | cons input inputs ih =>
    rw [List.foldlM_cons] at ran
    obtain ⟨middle, first, rest⟩ := Option.bind_eq_some_iff.mp ran
    exact .head (steps start input middle first) (ih rest)

/-- The same, for a run whose inputs are all allowed. -/
theorem reflTransGen_of_allowed {step : σ → ι → Option σ} {related : σ → σ → Prop}
    {allowed : ι → Prop} (steps : ∀ before input after, allowed input →
      step before input = some after → related before after)
    {inputs : List ι} (all : ∀ input ∈ inputs, allowed input) {start final : σ}
    (ran : inputs.foldlM step start = some final) : Relation.ReflTransGen related start final := by
  induction inputs generalizing start with
  | nil =>
    cases ran
    exact .refl
  | cons input inputs ih =>
    rw [List.foldlM_cons] at ran
    obtain ⟨middle, first, rest⟩ := Option.bind_eq_some_iff.mp ran
    exact .head (steps start input middle (all input List.mem_cons_self) first)
      (ih (fun other member => all other (List.mem_cons_of_mem _ member)) rest)

/-! ### Traces of machines that may refuse -/

/-- The trace and the final state, if no input is refused. -/
def attempt (step : σ → ι → Option (ω × σ)) (state : σ) : List ι → Option (List (ι × ω) × σ)
  | [] => some ([], state)
  | input :: inputs =>
    (step state input).bind fun answer =>
      (attempt step answer.2 inputs).map fun rest => ((input, answer.1) :: rest.1, rest.2)

section Attempt

variable {step : σ → ι → Option (ω × σ)}

theorem attempt_cons {state final : σ} {input : ι} {inputs : List ι} {trace : List (ι × ω)}
    (ran : attempt step state (input :: inputs) = some (trace, final)) :
    ∃ output middle rest, step state input = some (output, middle) ∧
      attempt step middle inputs = some (rest, final) ∧ trace = (input, output) :: rest := by
  rw [attempt] at ran
  obtain ⟨⟨output, middle⟩, stepped, rest⟩ := Option.bind_eq_some_iff.mp ran
  obtain ⟨⟨trace', final'⟩, ran', same⟩ := Option.map_eq_some_iff.mp rest
  cases same
  exact ⟨output, middle, trace', stepped, ran', rfl⟩

theorem attempt_snoc {start state final : σ} {inputs : List ι} {input : ι} {output : ω}
    {trace : List (ι × ω)} (ran : attempt step start inputs = some (trace, state))
    (stepped : step state input = some (output, final)) :
    attempt step start (inputs ++ [input]) = some (trace ++ [(input, output)], final) := by
  induction inputs generalizing start trace with
  | nil =>
    cases ran
    rw [List.nil_append, attempt, stepped, Option.bind_some]
    rfl
  | cons first inputs ih =>
    obtain ⟨output', middle, rest, made, ran', rfl⟩ := attempt_cons ran
    rw [List.cons_append, attempt, made, Option.bind_some, ih ran']
    rfl

/-- **Induction over the trace so far**, when no input was refused. -/
theorem attempt_history_rule (invariant : List (ι × ω) → σ → Prop) {start : σ}
    (initial : invariant [] start)
    (preserved : ∀ trace state input output after, invariant trace state →
      step state input = some (output, after) → invariant (trace ++ [(input, output)]) after)
    {inputs : List ι} {trace : List (ι × ω)} {final : σ}
    (ran : attempt step start inputs = some (trace, final)) : invariant trace final := by
  have continued : ∀ (inputs : List ι) (before after : List (ι × ω)) (state : σ),
      invariant before state → attempt step state inputs = some (after, final) →
      invariant (before ++ after) final := by
    intro inputs
    induction inputs with
    | nil =>
      intro before after state holds ran
      cases ran
      rwa [List.append_nil]
    | cons input inputs ih =>
      intro before after state holds ran
      obtain ⟨output, middle, rest, stepped, ran', rfl⟩ := attempt_cons ran
      have next := ih _ rest middle (preserved before state input output middle holds stepped) ran'
      rwa [List.append_assoc] at next
  exact continued inputs [] trace start initial ran

/-- **Simulation.** If every step is possible, answers as the specification does and keeps the states
related, then so does every run. -/
theorem attempt_simulates {τ : Type} {spec : τ → ι → ω × τ} (related : σ → τ → Prop)
    (steps : ∀ state abstract input, related state abstract →
      ∃ after, step state input = some ((spec abstract input).1, after) ∧
        related after (spec abstract input).2)
    {state : σ} {abstract : τ} (start : related state abstract) (inputs : List ι) :
    ∃ final, attempt step state inputs = some ((run spec abstract inputs).1, final) ∧
      related final (run spec abstract inputs).2 := by
  induction inputs generalizing state abstract with
  | nil => exact ⟨state, rfl, start⟩
  | cons input inputs ih =>
    obtain ⟨middle, stepped, holds⟩ := steps state abstract input start
    obtain ⟨final, ran, related⟩ := ih holds
    refine ⟨final, ?_, related⟩
    rw [attempt, stepped, Option.bind_some, ran]
    rfl

/-- **Refinement.** If a machine and its specification refuse the same inputs, give the same answers and
stay related, then so do their runs. -/
theorem attempt_refines {τ : Type} {spec : τ → ι → Option (ω × τ)} (related : σ → τ → Prop)
    (steps : ∀ state abstract input, related state abstract →
      (step state input = none ∧ spec abstract input = none) ∨
        ∃ output after after', step state input = some (output, after) ∧
          spec abstract input = some (output, after') ∧ related after after')
    {state : σ} {abstract : τ} (start : related state abstract) (inputs : List ι) :
    (attempt step state inputs = none ∧ attempt spec abstract inputs = none) ∨
      ∃ trace final final', attempt step state inputs = some (trace, final) ∧
        attempt spec abstract inputs = some (trace, final') ∧ related final final' := by
  induction inputs generalizing state abstract with
  | nil => exact .inr ⟨[], state, abstract, rfl, rfl, start⟩
  | cons input inputs ih =>
    simp only [attempt]
    rcases steps state abstract input start with ⟨refused, refused'⟩ | ⟨output, after, after',
      stepped, stepped', holds⟩
    · rw [refused, refused']
      exact .inl ⟨rfl, rfl⟩
    · rw [stepped, stepped', Option.bind_some, Option.bind_some]
      rcases ih holds with ⟨refused, refused'⟩ | ⟨trace, final, final', ran, ran', related⟩
      · rw [refused, refused']
        exact .inl ⟨rfl, rfl⟩
      · rw [ran, ran']
        exact .inr ⟨_, final, final', rfl, rfl, related⟩

end Attempt

end Machine
