/-
**Calls that take time, on a machine of whole calls.**

A machine says what one whole call does. Here calls begin and end, and several run at a time, each on a
thread of its own. A call takes effect when it ends. It is undefined if the machine refuses it where it
begins, or if it begins next to a call that it clashes with.

* `Sound`: the running calls are on different threads, do not clash, and are all possible.
* `ran_in_order`: **if calls that do not clash leave each other possible, a run is the run of its whole
  calls in the order in which they ended**.
* `momentStep_eq_none_iff`: then nothing is undefined but a call where it begins.
-/

import Foldback.Lib.Machine

namespace Overlap

open Machine

variable {σ ι ω : Type}

/-- What happens next: a thread begins a call, or ends the one it is in. -/
inductive Moment (ι : Type)
  | begins (thread : ℕ) (input : ι)
  | ends (thread : ℕ)

/-- The state, and the calls that have begun and not ended, each with its thread. -/
structure Busy (σ ι : Type) where
  state : σ
  running : List (ℕ × ι) := []

/-- The thread is inside of a call. -/
def Busy.inside (busy : Busy σ ι) (thread : ℕ) : Bool :=
  busy.running.any fun call => call.1 = thread

variable (step : σ → ℕ × ι → Option (ω × σ)) (clash : ι → ι → Bool)

/-- One moment: the call that ended with its answer, if one did. A thread that is inside of a call
begins no other, and one that is not ends none. -/
def momentStep (busy : Busy σ ι) : Moment ι → Option (Option ((ℕ × ι) × ω) × Busy σ ι)
  | .begins thread input =>
    if busy.inside thread then some (none, busy)
    else if (step busy.state (thread, input)).isNone ||
        busy.running.any fun call => clash call.2 input then none
    else some (none, { busy with running := (thread, input) :: busy.running })
  | .ends thread =>
    match busy.running.find? fun call => call.1 = thread with
    | none => some (none, busy)
    | some call =>
      (step busy.state call).map fun answer =>
        (some (call, answer.1),
          { state := answer.2, running := busy.running.filter fun other => other.1 ≠ thread })

/-- A run of moments, if none is undefined. -/
def overlapped (start : σ) (moments : List (Moment ι)) :
    Option (List (Moment ι × Option ((ℕ × ι) × ω)) × Busy σ ι) :=
  attempt (momentStep step clash) { state := start } moments

/-- The calls that ended, in this order, with their answers. -/
def ended (trace : List (Moment ι × Option ((ℕ × ι) × ω))) : List ((ℕ × ι) × ω) :=
  trace.filterMap Prod.snd

/-- In the states that the machine reaches, a call leaves those possible that it does not clash with. -/
structure Independent (reached : σ → Prop) : Prop where
  symm : ∀ input other, clash input other = clash other input
  keeps : ∀ state call answer, reached state → step state call = some answer → reached answer.2
  apart : ∀ state call other answer, reached state → step state call = some answer →
    call.1 ≠ other.1 → clash call.2 other.2 = false → step state other ≠ none →
    step answer.2 other ≠ none

/-- **The invariant of overlapping calls.** -/
structure Sound (reached : σ → Prop) (busy : Busy σ ι) : Prop where
  reached : reached busy.state
  apart : busy.running.Pairwise fun call other =>
    call.1 ≠ other.1 ∧ clash call.2 other.2 = false
  possible : ∀ call ∈ busy.running, step busy.state call ≠ none

section Runs

variable {step clash} {reached : σ → Prop}

theorem Sound.start {state : σ} (initial : reached state) : Sound step clash reached { state } :=
  ⟨initial, .nil, fun _ member => absurd member List.not_mem_nil⟩

theorem inside_eq_false {busy : Busy σ ι} {thread : ℕ} :
    busy.inside thread = false ↔ ∀ call ∈ busy.running, call.1 ≠ thread := by
  simp [Busy.inside]

/-- The running call of a thread is apart from the others. -/
theorem Sound.others (independent : Independent step clash reached) {busy : Busy σ ι}
    (sound : Sound step clash reached busy) {call other : ℕ × ι} (member : call ∈ busy.running)
    (member' : other ∈ busy.running) (differ : other.1 ≠ call.1) :
    clash call.2 other.2 = false := by
  have symmetric : Std.Symm fun call other : ℕ × ι =>
      call.1 ≠ other.1 ∧ clash call.2 other.2 = false :=
    ⟨fun call other both => ⟨both.1.symm, (independent.symm _ _).trans both.2⟩⟩
  exact (sound.apart.forall member member' fun same => differ (congrArg Prod.fst same).symm).2

/-- **A moment keeps the invariant**, and makes at most one step of the machine. -/
theorem Sound.moment (independent : Independent step clash reached) {busy after : Busy σ ι}
    (sound : Sound step clash reached busy) {moment : Moment ι} {answered : Option ((ℕ × ι) × ω)}
    (stepped : momentStep step clash busy moment = some (answered, after)) :
    Sound step clash reached after ∧
      (answered = none ∧ after.state = busy.state ∨ ∃ call output, answered = some (call, output) ∧
        step busy.state call = some (output, after.state)) := by
  cases moment with
  | begins thread input =>
    rw [momentStep] at stepped
    rcases inside : busy.inside thread with _ | _
    · rw [inside, if_neg Bool.false_ne_true] at stepped
      split at stepped
      · cases stepped
      · rename_i defined
        cases stepped
        rw [Bool.or_eq_true, not_or] at defined
        obtain ⟨possible, free⟩ := defined
        refine ⟨⟨sound.reached, .cons (fun call member => ⟨?_, ?_⟩) sound.apart,
          fun call member => ?_⟩, .inl ⟨rfl, rfl⟩⟩
        · exact (inside_eq_false.mp inside call member).symm
        · rw [independent.symm]
          refine Bool.eq_false_iff.mpr fun clashes => free ?_
          exact List.any_eq_true.mpr ⟨call, member, clashes⟩
        · rcases List.mem_cons.mp member with rfl | older
          · exact fun none => possible (by rw [none]; rfl)
          · exact sound.possible call older
    · rw [inside, if_pos rfl] at stepped
      cases stepped
      exact ⟨sound, .inl ⟨rfl, rfl⟩⟩
  | ends thread =>
    rw [momentStep] at stepped
    split at stepped
    · cases stepped
      exact ⟨sound, .inl ⟨rfl, rfl⟩⟩
    · rename_i call found
      obtain ⟨answer, made, same⟩ := Option.map_eq_some_iff.mp stepped
      cases same
      have member := List.mem_of_find?_eq_some found
      have isIts := List.find?_some found
      have own : call.1 = thread := of_decide_eq_true isIts
      refine ⟨⟨independent.keeps _ _ _ sound.reached made, sound.apart.filter _,
        fun other rest => ?_⟩, .inr ⟨call, answer.1, rfl, made⟩⟩
      obtain ⟨running, elsewhere⟩ := List.mem_filter.mp rest
      have differ : other.1 ≠ call.1 := by
        rw [own]
        exact of_decide_eq_true elsewhere
      exact independent.apart _ _ _ _ sound.reached made differ.symm
        (sound.others independent member running differ) (sound.possible other running)

/-- **Overlapping calls are whole calls in the order in which they ended.** -/
theorem ran_in_order (independent : Independent step clash reached) {start : σ}
    (initial : reached start) {moments : List (Moment ι)} {trace : List (Moment ι × Option ((ℕ × ι) × ω))} {busy : Busy σ ι}
    (ran : overlapped step clash start moments = some (trace, busy)) :
    attempt step start ((ended trace).map Prod.fst) = some (ended trace, busy.state) ∧
      Sound step clash reached busy := by
  refine attempt_history_rule (fun trace busy =>
    attempt step start ((ended trace).map Prod.fst) = some (ended trace, busy.state) ∧
      Sound step clash reached busy) ⟨rfl, .start initial⟩ ?_ ran
  rintro trace busy moment answered after ⟨earlier, sound⟩ stepped
  obtain ⟨still, ⟨rfl, same⟩ | ⟨call, output, rfl, made⟩⟩ := sound.moment independent stepped
  · have unended : ended (trace ++ [(moment, none)]) = ended trace := by
      rw [ended, List.filterMap_append]
      exact List.append_nil _
    rw [unended, same]
    exact ⟨earlier, still⟩
  · have one : ended (trace ++ [(moment, some (call, output))]) = ended trace ++ [(call, output)] := by
      rw [ended, List.filterMap_append]
      rfl
    rw [one, List.map_append]
    exact ⟨attempt_snoc earlier made, still⟩

/-- **What is undefined**: a call that the machine refuses, or that begins next to one it clashes
with. -/
theorem momentStep_eq_none_iff {busy : Busy σ ι} (sound : Sound step clash reached busy)
    {moment : Moment ι} :
    momentStep step clash busy moment = none ↔
      ∃ thread input, moment = .begins thread input ∧ (∀ call ∈ busy.running, call.1 ≠ thread) ∧
        (step busy.state (thread, input) = none ∨
          ∃ call ∈ busy.running, clash call.2 input = true) := by
  cases moment with
  | begins thread input =>
    have here : ∀ thread' input', Moment.begins thread input = .begins thread' input' ↔
        thread' = thread ∧ input' = input := by
      intro thread' input'
      rw [Moment.begins.injEq, eq_comm, @eq_comm _ input]
    simp only [here, ← inside_eq_false]
    rw [momentStep]
    rcases inside : busy.inside thread with _ | _
    · simp [inside, Option.isNone_iff_eq_none, or_iff_not_imp_left]
    · simp [inside]
  | ends thread =>
    refine iff_of_false (fun undefined => ?_) fun ⟨_, _, same, _⟩ => by cases same
    rw [momentStep] at undefined
    split at undefined
    · cases undefined
    · rename_i call found
      exact sound.possible call (List.mem_of_find?_eq_some found)
        (Option.map_eq_none_iff.mp undefined)

end Runs

end Overlap
