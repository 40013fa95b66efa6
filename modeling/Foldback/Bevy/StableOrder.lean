/-
**Where iteration orders do not show.**

The walk sorts the entries of a map or set by their renderings. A rendering shows what is inside of a
key or element, in iteration order again.

* `DistinctRenderings`, `StableRenderings`: the renderings in a map or set differ; those of entries
  that record something do not depend on orders inside.
* `Reordered.unlimited_eq`: **with both, reordered values record the same.**
-/

import Foldback.Bevy.Reordered

namespace Foldback.Bevy

open GuardedWalk KeyOrder

variable {ω : Type}

/-- The renderings of the keys of a map, or the elements of a set, are pairwise distinct. -/
def DistinctRenderings (debug : ReflectRef ω → String) (value : ReflectRef ω) : Prop :=
  ((rendered value).map fun entry => debug entry.1).Nodup

/-- The renderings under which something is recorded do not depend on iteration orders. -/
def StableRenderings (debug : ReflectRef ω → String) (value : ReflectRef ω) : Prop :=
  ∀ entry ∈ rendered value, ¬ Silent debug entry.2 →
    ∀ key, Reordered entry.1 key → debug key = debug entry.1

section Canonical

variable {debug : ReflectRef ω → String}

/-- An entry of a map or set as its rendering and what is recorded under it. -/
noncomputable def image (debug : ReflectRef ω → String) (path : String) (step : String → Step)
    (entry : String × ReflectRef ω) : String × List (String × Bytes) :=
  (entry.1, unlimited debug ((step entry.1).extend path) entry.2)

/-- Something is recorded under the rendering. -/
def shows (image : String × List (String × Bytes)) : Bool := !image.2.isEmpty

/-- The records of a map or set are those of the entries that show. -/
theorem flatMap_sortedParts (path : String) (step : String → Step)
    (entries : List (ReflectRef ω × ReflectRef ω)) :
    ((sortedParts debug step entries).flatMap fun part =>
        unlimited debug (part.1.extend path) part.2) =
      ((((sortByText (entries.map fun entry => (debug entry.1, entry.2))).map
        (image debug path step)).filter shows).flatMap Prod.snd) := by
  rw [sortedParts]
  generalize sortByText (entries.map fun entry => (debug entry.1, entry.2)) = sorted
  induction sorted with
  | nil => rfl
  | cons entry sorted ih =>
    rw [List.map_cons, List.flatMap_cons, ih, List.map_cons, List.filter_cons]
    split
    · rfl
    · rename_i hidden
      have nothing : unlimited debug ((step entry.1).extend path) entry.2 = [] := by
        simpa [shows, image] using hidden
      show unlimited debug ((step entry.1).extend path) entry.2 ++ _ = _
      rw [nothing, List.nil_append]

/-- Lists whose entries have the same images where they show. -/
theorem filter_map_eq {α β : Type} {R : α → α → Prop} {passes : β → Bool} {f : α → β}
    {first second : List α} (related : List.Forall₂ R first second)
    (same : ∀ a ∈ first, ∀ b, R a b →
      passes (f a) = passes (f b) ∧ (passes (f a) = true → f a = f b)) :
    (first.map f).filter passes = (second.map f).filter passes := by
  induction related with
  | nil => rfl
  | @cons a b first second here _ ih =>
    have rest := ih fun c member => same c (List.mem_cons_of_mem _ member)
    obtain ⟨alike, equal⟩ := same a List.mem_cons_self b here
    rw [List.map_cons, List.map_cons, List.filter_cons, List.filter_cons, ← alike, rest]
    split
    · rename_i shown
      rw [equal shown]
    · rfl

theorem flatMap_forall₂ {α β : Type} {R : α → α → Prop} {f : α → List β} {first second : List α}
    (related : List.Forall₂ R first second) (same : ∀ a ∈ first, ∀ b, R a b → f a = f b) :
    first.flatMap f = second.flatMap f := by
  induction related with
  | nil => rfl
  | @cons a b first second here _ ih =>
    rw [List.flatMap_cons, List.flatMap_cons, same a List.mem_cons_self b here,
      ih fun c member => same c (List.mem_cons_of_mem _ member)]

theorem shows_iff (path : String) (step : String → Step) (entry : String × ReflectRef ω) :
    shows (image debug path step entry) = true ↔ ¬ Silent debug entry.2 := by
  rw [shows, image, Bool.not_eq_true', ← Bool.not_eq_true, List.isEmpty_iff]
  exact not_congr ⟨fun none => silent_of_nil none, fun silent => silent _⟩

/-- **With distinct and stable renderings, reordered values record the same.** -/
theorem Reordered.unlimited_eq {value value' : ReflectRef ω} (reordered : Reordered value value')
    (distinct : Everywhere debug (DistinctRenderings debug) value)
    (stable : Everywhere debug (StableRenderings debug) value) (path : String) :
    unlimited debug path value = unlimited debug path value' := by
  induction value using parts_induction debug generalizing value' path with
  | step value ih =>
    rw [Bevy.unlimited_eq, Bevy.unlimited_eq debug path value', reordered.own_eq debug]
    congr 1
    rcases reordered.parts_cases debug with
      same | ⟨step, _, sorted, sorted', middle, perm, related⟩
    · refine flatMap_forall₂ same fun part member part' both => ?_
      rw [← both.1]
      exact ih part member both.2 (distinct.part member) (stable.part member) _
    · rw [sorted, sorted', flatMap_sortedParts, flatMap_sortedParts]
      congr 1
      have member : ∀ entry ∈ rendered value,
          (step (debug entry.1), entry.2) ∈ parts debug value := by
        intro entry member
        rw [sorted]
        exact List.mem_map.mpr ⟨_, (mem_sortByKey _ _).mpr (List.mem_map_of_mem member), rfl⟩
      refine filter_map_sortByKey_eq Prod.fst (fun entry => rfl) ?_ ?_
      · refine (((perm.map _).map _).filter _).trans (List.Perm.of_eq ?_)
        rw [List.map_map, List.map_map]
        refine filter_map_eq related fun entry inMiddle entry' both => ?_
        have inRendered := perm.mem_iff.mpr inMiddle
        have alike : Silent debug entry.2 ↔ Silent debug entry'.2 := both.2.silent_iff
        refine ⟨?_, fun shown => ?_⟩
        · rw [Bool.eq_iff_iff]
          exact (shows_iff path step (debug entry.1, entry.2)).trans ((not_congr alike).trans
            (shows_iff path step (debug entry'.1, entry'.2)).symm)
        · have rendering := stable.here entry inRendered ((shows_iff path step _).mp shown) _ both.1
          have inParts := member entry inRendered
          have below := ih _ inParts both.2 (distinct.part inParts) (stable.part inParts)
            ((step (debug entry.1)).extend path)
          simp only [Function.comp, image, rendering, below]
      · have keys : ((rendered value).map fun entry => debug entry.1) =
            (((rendered value).map fun entry => (debug entry.1, entry.2)).map
              (image debug path step)).map Prod.fst := by
          rw [List.map_map, List.map_map]
          rfl
        have nodup := distinct.here
        rw [DistinctRenderings, keys] at nodup
        exact nodup.sublist (List.filter_sublist.map _)

end Canonical

end Foldback.Bevy
