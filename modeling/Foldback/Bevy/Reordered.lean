/-
**Values up to the iteration orders of their maps and sets.**

* `Reordered value other`: the same value, each map and set at every depth yielding its entries in
  some other order.
* `rendered`: the entries whose order the walk fixes by their renderings. `Everywhere debug P value`:
  `P` holds of the value and of all that is walked below it.
* `Reordered.parts_cases`: **the parts of reordered values correspond**, one by one, or as the entries
  of a map or set.
* `Silent`: nothing is recorded. It depends on neither the path nor the orders (`silent_iff`,
  `Reordered.silent_iff`).
-/

import Foldback.Bevy.Walk

namespace Foldback.Bevy

open GuardedWalk KeyOrder

variable {ω : Type}

/-- Equal but for the iteration orders. -/
inductive Reordered : ReflectRef ω → ReflectRef ω → Prop
  | struct {typePath : String} {fields fields' : List (String × ReflectRef ω)}
      (names : fields.map Prod.fst = fields'.map Prod.fst)
      (values : List.Forall₂ Reordered (fields.map Prod.snd) (fields'.map Prod.snd)) :
      Reordered (.struct typePath fields) (.struct typePath fields')
  | tupleStruct {typePath : String} {fields fields' : List (ReflectRef ω)}
      (values : List.Forall₂ Reordered fields fields') :
      Reordered (.tupleStruct typePath fields) (.tupleStruct typePath fields')
  | tuple {fields fields' : List (ReflectRef ω)} (values : List.Forall₂ Reordered fields fields') :
      Reordered (.tuple fields) (.tuple fields')
  | list {items items' : List (ReflectRef ω)} (values : List.Forall₂ Reordered items items') :
      Reordered (.list items) (.list items')
  | array {items items' : List (ReflectRef ω)} (values : List.Forall₂ Reordered items items') :
      Reordered (.array items) (.array items')
  | map {entries middle entries' : List (ReflectRef ω × ReflectRef ω)} (perm : entries.Perm middle)
      (keys : List.Forall₂ Reordered (middle.map Prod.fst) (entries'.map Prod.fst))
      (values : List.Forall₂ Reordered (middle.map Prod.snd) (entries'.map Prod.snd)) :
      Reordered (.map entries) (.map entries')
  | set {items middle items' : List (ReflectRef ω)} (perm : items.Perm middle)
      (values : List.Forall₂ Reordered middle items') : Reordered (.set items) (.set items')
  | enum {typePath variantName : String} {fields fields' : List (Option String × ReflectRef ω)}
      (names : fields.map Prod.fst = fields'.map Prod.fst)
      (values : List.Forall₂ Reordered (fields.map Prod.snd) (fields'.map Prod.snd)) :
      Reordered (.enum typePath variantName fields) (.enum typePath variantName fields')
  | leaf (leaf : Leaf ω) : Reordered (.leaf leaf) (.leaf leaf)

theorem Reordered.refl (value : ReflectRef ω) : Reordered value value := by
  induction value using subvalues_induction with
  | step value ih =>
    have all : ∀ {items : List (ReflectRef ω)}, (∀ item ∈ items, item ∈ subvalues value) →
        List.Forall₂ Reordered items items :=
      fun inside => List.forall₂_same.mpr fun item member => ih item (inside item member)
    cases value with
    | struct typePath fields => exact .struct rfl (all fun _ member => member)
    | tupleStruct typePath fields => exact .tupleStruct (all fun _ member => member)
    | tuple fields => exact .tuple (all fun _ member => member)
    | list items => exact .list (all fun _ member => member)
    | array items => exact .array (all fun _ member => member)
    | map entries =>
      exact .map (.refl _) (all fun _ => List.mem_append_left _) (all fun _ => List.mem_append_right _)
    | set items => exact .set (.refl _) (all fun _ member => member)
    | enum typePath variantName fields => exact .enum rfl (all fun _ member => member)
    | leaf leaf => exact .leaf leaf

/-- One value of a list replaced. -/
theorem forall₂_replace (before after : List (ReflectRef ω)) {value other : ReflectRef ω}
    (reordered : Reordered value other) :
    List.Forall₂ Reordered (before ++ value :: after) (before ++ other :: after) :=
  List.rel_append (List.forall₂_same.mpr fun item _ => .refl item)
    (.cons reordered (List.forall₂_same.mpr fun item _ => .refl item))

/-! ### What is rendered -/

/-- The keys of a map with their values, the elements of a set with themselves: what is rendered
with what is walked under the rendering. -/
def rendered : ReflectRef ω → List (ReflectRef ω × ReflectRef ω)
  | .map entries => entries
  | .set items => items.map fun item => (item, item)
  | _ => []

/-- `P` holds of the value and of all that is walked below it. -/
def Everywhere (debug : ReflectRef ω → String) (P : ReflectRef ω → Prop) (value : ReflectRef ω) :
    Prop :=
  ∀ count target, Below (reflection debug) count value target → P target

section Everywhere

variable {debug : ReflectRef ω → String} {P : ReflectRef ω → Prop} {value : ReflectRef ω}

theorem Everywhere.here (everywhere : Everywhere debug P value) : P value :=
  everywhere 0 value (.here value)

theorem Everywhere.part (everywhere : Everywhere debug P value) {part : Step × ReflectRef ω}
    (member : part ∈ parts debug value) : Everywhere debug P part.2 :=
  fun count target below => everywhere (count + 1) target (.step member below)

theorem everywhere_iff : Everywhere debug P value ↔
    P value ∧ ∀ part ∈ parts debug value, Everywhere debug P part.2 :=
  forall_below_iff

end Everywhere

/-! ### Parts of reordered values -/

/-- A part under its step, and the same part reordered. -/
def SameStep (part part' : Step × ReflectRef ω) : Prop :=
  part.1 = part'.1 ∧ Reordered part.2 part'.2

/-- The parts of a map or set: its entries by their renderings. -/
def sortedParts (debug : ReflectRef ω → String) (step : String → Step)
    (entries : List (ReflectRef ω × ReflectRef ω)) : List (Step × ReflectRef ω) :=
  (sortByText (entries.map fun entry => (debug entry.1, entry.2))).map fun entry =>
    (step entry.1, entry.2)

theorem parts_set (debug : ReflectRef ω → String) (items : List (ReflectRef ω)) :
    parts debug (.set items) = sortedParts debug .element (rendered (.set items)) := by
  rw [sortedParts, rendered, List.map_map]
  rfl

theorem forall₂_components {α β : Type} {R : β → β → Prop} {first second : List (α × β)}
    (names : first.map Prod.fst = second.map Prod.fst)
    (values : List.Forall₂ R (first.map Prod.snd) (second.map Prod.snd)) :
    List.Forall₂ (fun a b => a.1 = b.1 ∧ R a.2 b.2) first second := by
  induction first generalizing second with
  | nil =>
    cases second with
    | nil => exact .nil
    | cons b second => cases names
  | cons a first ih =>
    cases second with
    | nil => cases names
    | cons b second =>
      obtain ⟨name, names⟩ := List.cons.inj names
      cases values with
      | cons value values => exact .cons ⟨name, value⟩ (ih names values)

theorem forall₂_zipIdx {α : Type} {R : α → α → Prop} {first second : List α}
    (values : List.Forall₂ R first second) (start : ℕ) :
    List.Forall₂ (fun a b => a.2 = b.2 ∧ R a.1 b.1) (first.zipIdx start) (second.zipIdx start) := by
  induction values generalizing start with
  | nil => exact .nil
  | cons value values ih => exact .cons ⟨rfl, value⟩ (ih (start + 1))

theorem forall₂_map {α β : Type} {R : α → α → Prop} {S : β → β → Prop} {first second : List α}
    {f : α → β} (maps : ∀ a b, R a b → S (f a) (f b)) (related : List.Forall₂ R first second) :
    List.Forall₂ S (first.map f) (second.map f) :=
  List.forall₂_map_left_iff.mpr (List.forall₂_map_right_iff.mpr (related.imp fun {a b} => maps a b))

theorem forall₂_both {α β : Type} {R S : α → β → Prop} {first : List α} {second : List β}
    (one : List.Forall₂ R first second) (other : List.Forall₂ S first second) :
    List.Forall₂ (fun a b => R a b ∧ S a b) first second := by
  induction one with
  | nil => exact .nil
  | cons here _ ih =>
    cases other with
    | cons there rest => exact .cons ⟨here, there⟩ (ih rest)

theorem names_of_components {α β : Type} {R : β → β → Prop} {first second : List (α × β)}
    (related : List.Forall₂ (fun a b => a.1 = b.1 ∧ R a.2 b.2) first second) :
    first.map Prod.fst = second.map Prod.fst := by
  rw [← List.forall₂_eq_eq_eq]
  exact forall₂_map (fun _ _ both => both.1) related

/-- Fields that correspond make structs that do. -/
theorem Reordered.of_fields {typePath : String} {fields fields' : List (String × ReflectRef ω)}
    (related : List.Forall₂ (fun a b => a.1 = b.1 ∧ Reordered a.2 b.2) fields fields') :
    Reordered (.struct typePath fields) (.struct typePath fields') :=
  .struct (names_of_components related) (forall₂_map (fun _ _ both => both.2) related)

/-- Of fields that correspond, the tracked ones do. -/
theorem forall₂_tracked {R : ReflectRef ω → ReflectRef ω → Prop} (trackedFields : List String)
    {fields fields' : List (String × ReflectRef ω)}
    (related : List.Forall₂ (fun a b => a.1 = b.1 ∧ R a.2 b.2) fields fields') :
    List.Forall₂ (fun a b => a.1 = b.1 ∧ R a.2 b.2)
      (fields.filter fun field => field.1 ∈ trackedFields)
      (fields'.filter fun field => field.1 ∈ trackedFields) := by
  refine List.rel_filter ?_ related
  intro field field' both
  simp only [both.1]

/-- **The parts of reordered values correspond.** -/
theorem Reordered.parts_cases (debug : ReflectRef ω → String) {value value' : ReflectRef ω}
    (reordered : Reordered value value') :
    List.Forall₂ SameStep (parts debug value) (parts debug value') ∨
      ∃ step, (step = .key ∨ step = .element) ∧
        parts debug value = sortedParts debug step (rendered value) ∧
        parts debug value' = sortedParts debug step (rendered value') ∧
        ∃ middle, (rendered value).Perm middle ∧
          List.Forall₂ (fun entry entry' => Reordered entry.1 entry'.1 ∧ Reordered entry.2 entry'.2)
            middle (rendered value') := by
  have indexed : ∀ (step : ℕ → Step) {items items' : List (ReflectRef ω)},
      List.Forall₂ Reordered items items' →
        List.Forall₂ SameStep (items.zipIdx.map fun item => (step item.2, item.1))
          (items'.zipIdx.map fun item => (step item.2, item.1)) := by
    intro step items items' values
    exact forall₂_map (fun a b both => ⟨congrArg step both.1, both.2⟩) (forall₂_zipIdx values 0)
  cases reordered with
  | struct names values =>
    refine Or.inl (forall₂_map (fun a b both => ?_) (forall₂_components names values))
    exact ⟨congrArg Step.field both.1, both.2⟩
  | tupleStruct values => exact Or.inl (indexed .index values)
  | tuple values => exact Or.inl (indexed .index values)
  | list values => exact Or.inl (indexed .item values)
  | array values => exact Or.inl (indexed .item values)
  | @map entries middle entries' perm keys values =>
    refine Or.inr ⟨.key, Or.inl rfl, rfl, rfl, middle, perm, ?_⟩
    show List.Forall₂ _ middle entries'
    rw [List.forall₂_map_left_iff, List.forall₂_map_right_iff] at keys values
    exact forall₂_both keys values
  | @set items middle items' perm values =>
    refine Or.inr ⟨.element, Or.inr rfl, parts_set debug _, parts_set debug _,
      middle.map fun item => (item, item), perm.map _, ?_⟩
    exact forall₂_map (fun a b one => ⟨one, one⟩) values
  | enum names values =>
    refine Or.inl (forall₂_map (fun a b both => ?_)
      (forall₂_zipIdx (forall₂_components names values) 0))
    obtain ⟨index, name, value⟩ := both
    exact ⟨by rw [index, name], value⟩
  | leaf leaf => exact Or.inl .nil

theorem Reordered.own_eq (debug : ReflectRef ω → String) {value value' : ReflectRef ω}
    (reordered : Reordered value value') (path : String) :
    own debug path value = own debug path value' := by
  cases reordered <;> rfl

/-- Every part has its reordered counterpart. -/
theorem Reordered.exists_part (debug : ReflectRef ω → String) {value value' : ReflectRef ω}
    (reordered : Reordered value value') :
    (∀ part ∈ parts debug value, ∃ part' ∈ parts debug value', Reordered part.2 part'.2) ∧
      ∀ part' ∈ parts debug value', ∃ part ∈ parts debug value, Reordered part.2 part'.2 := by
  have correspond : ∀ {α : Type} {R : α → α → Prop} {first second : List α},
      List.Forall₂ R first second →
        (∀ a ∈ first, ∃ b ∈ second, R a b) ∧ ∀ b ∈ second, ∃ a ∈ first, R a b := by
    intro α R first second related
    induction related with
    | nil => exact ⟨fun a member => absurd member List.not_mem_nil,
        fun b member => absurd member List.not_mem_nil⟩
    | @cons a b first second here _ ih =>
      refine ⟨List.forall_mem_cons.mpr ⟨⟨b, List.mem_cons_self, here⟩, fun a member => ?_⟩,
        List.forall_mem_cons.mpr ⟨⟨a, List.mem_cons_self, here⟩, fun b member => ?_⟩⟩
      · obtain ⟨b, member, related⟩ := ih.1 a member
        exact ⟨b, List.mem_cons_of_mem _ member, related⟩
      · obtain ⟨a, member, related⟩ := ih.2 b member
        exact ⟨a, List.mem_cons_of_mem _ member, related⟩
  have inSorted : ∀ (step : String → Step) {entries : List (ReflectRef ω × ReflectRef ω)}
      {part : Step × ReflectRef ω}, part ∈ sortedParts debug step entries ↔
        ∃ entry ∈ entries, (step (debug entry.1), entry.2) = part := by
    intro step entries part
    simp only [sortedParts, sortByText, List.mem_map, mem_sortByKey, exists_exists_and_eq_and]
  rcases reordered.parts_cases debug with same | ⟨step, _, sorted, sorted', middle, perm, related⟩
  · obtain ⟨right, left⟩ := correspond same
    exact ⟨fun part member => (right part member).imp fun _ both => ⟨both.1, both.2.2⟩,
      fun part member => (left part member).imp fun _ both => ⟨both.1, both.2.2⟩⟩
  · obtain ⟨right, left⟩ := correspond related
    rw [sorted, sorted']
    refine ⟨fun part inParts => ?_, fun part' inParts => ?_⟩
    · obtain ⟨entry, member, rfl⟩ := (inSorted step).mp inParts
      obtain ⟨entry', member', both⟩ := right entry (perm.mem_iff.mp member)
      exact ⟨_, (inSorted step).mpr ⟨entry', member', rfl⟩, both.2⟩
    · obtain ⟨entry', member', rfl⟩ := (inSorted step).mp inParts
      obtain ⟨entry, member, both⟩ := left entry' member'
      exact ⟨_, (inSorted step).mpr ⟨entry, perm.mem_iff.mpr member, rfl⟩, both.2⟩

/-- Reordering keeps the depth. -/
theorem Reordered.fits_iff {debug : ReflectRef ω → String} {value value' : ReflectRef ω}
    (reordered : Reordered value value') {left : ℕ} :
    Fits (reflection debug) left value ↔ Fits (reflection debug) left value' := by
  induction left generalizing value value' with
  | zero => exact Iff.rfl
  | succ left ih =>
    obtain ⟨right, back⟩ := reordered.exists_part debug
    constructor
    · intro fits part' member'
      obtain ⟨part, member, related⟩ := back part' member'
      exact (ih related).mp (fits part member)
    · intro fits part member
      obtain ⟨part', member', related⟩ := right part member
      exact (ih related).mpr (fits part' member')

/-! ### Values that record nothing -/

/-- Nothing is recorded. -/
def Silent (debug : ReflectRef ω → String) (value : ReflectRef ω) : Prop :=
  ∀ path, unlimited debug path value = []

section Silent

variable {debug : ReflectRef ω → String} {value value' : ReflectRef ω}

theorem own_eq_nil (path path' : String) (none : own debug path value = []) :
    own debug path' value = [] := by
  cases value <;> first | rfl | cases none

/-- What is recorded under one path is recorded under another. -/
theorem silent_of_nil {path : String} (none : unlimited debug path value = []) :
    Silent debug value := by
  induction value using parts_induction debug generalizing path with
  | step value ih =>
    intro path'
    rw [unlimited_eq] at none ⊢
    obtain ⟨noOwn, noParts⟩ := List.append_eq_nil_iff.mp none
    rw [own_eq_nil path path' noOwn, List.nil_append, List.flatMap_eq_nil_iff]
    exact fun part member => ih part member (List.flatMap_eq_nil_iff.mp noParts part member) _

theorem silent_iff : Silent debug value ↔
    (∀ path, own debug path value = []) ∧ ∀ part ∈ parts debug value, Silent debug part.2 := by
  constructor
  · intro silent
    have both := fun path => List.append_eq_nil_iff.mp ((unlimited_eq debug path value) ▸ silent path)
    refine ⟨fun path => (both path).1, fun part member => ?_⟩
    exact silent_of_nil (List.flatMap_eq_nil_iff.mp (both "").2 part member)
  · rintro ⟨noOwn, noParts⟩ path
    rw [unlimited_eq, noOwn, List.nil_append, List.flatMap_eq_nil_iff]
    exact fun part member => noParts part member _

theorem Reordered.silent_iff (reordered : Reordered value value') :
    Silent debug value ↔ Silent debug value' := by
  induction value using parts_induction debug generalizing value' with
  | step value ih =>
    rw [Bevy.silent_iff, Bevy.silent_iff]
    obtain ⟨right, left⟩ := reordered.exists_part debug
    simp only [reordered.own_eq debug]
    refine and_congr_right fun _ => ⟨fun silent part' member' => ?_, fun silent part member => ?_⟩
    · obtain ⟨part, member, related⟩ := left part' member'
      exact (ih part member related).mp (silent part member)
    · obtain ⟨part', member', related⟩ := right part member
      exact (ih part member related).mpr (silent part' member')

end Silent

end Foldback.Bevy
