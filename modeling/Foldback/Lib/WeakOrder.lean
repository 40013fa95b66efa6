/-
**Sorting by a comparison that need not be an order.**

A sort that is given a comparison, as a library gives it. Nothing is promised for a comparison that is
no strict weak order on what is sorted.

* `StrictWeakOn`: the comparison is one on the members of a list. `Sorts`: what a sort promises.
* `strictWeakOn_of_agrees`: a comparison that agrees with an order of keys is one.
* `Sorts.eq_of_perm`: **what is sorted does not depend on the order**, if the comparison tells
  different members apart.
* `sorts_insertionSorter`: insertion is such a sort.
-/

import Mathlib

namespace WeakOrder

variable {α : Type}

/-- A strict weak order on the members: members that are not told apart are alike. -/
structure StrictWeakOn (less : α → α → Bool) (items : List α) : Prop where
  irrefl : ∀ a ∈ items, less a a = false
  asymm : ∀ a ∈ items, ∀ b ∈ items, less a b = true → less b a = false
  trans : ∀ a ∈ items, ∀ b ∈ items, ∀ c ∈ items, less a b = true → less b c = true → less a c = true
  weak : ∀ a ∈ items, ∀ b ∈ items, ∀ c ∈ items, less a c = true → less a b = true ∨ less b c = true

/-- The comparison tells members apart. -/
def TellsApart (less : α → α → Bool) (items : List α) : Prop :=
  ∀ a ∈ items, ∀ b ∈ items, less a b = false → less b a = false → a = b

theorem StrictWeakOn.mono {less : α → α → Bool} {items more : List α}
    (order : StrictWeakOn less more) (sub : ∀ item ∈ items, item ∈ more) :
    StrictWeakOn less items where
  irrefl a inA := order.irrefl a (sub a inA)
  asymm a inA b inB := order.asymm a (sub a inA) b (sub b inB)
  trans a inA b inB c inC := order.trans a (sub a inA) b (sub b inB) c (sub c inC)
  weak a inA b inB c inC := order.weak a (sub a inA) b (sub b inB) c (sub c inC)

/-- **A comparison of keys that agrees with an order is a strict weak order.** -/
theorem strictWeakOn_of_agrees {κ : Type} {cmp : κ → κ → Ordering} [Std.TransCmp cmp] {key : α → κ}
    {less : α → α → Bool} {items : List α}
    (agrees : ∀ a ∈ items, ∀ b ∈ items, less a b = true ↔ cmp (key a) (key b) = .lt) :
    StrictWeakOn less items where
  irrefl a inA := by
    refine Bool.eq_false_of_not_eq_true fun smaller => ?_
    have self : cmp (key a) (key a) = .eq := Std.ReflCmp.compare_self
    rw [(agrees a inA a inA).mp smaller] at self
    cases self
  asymm a inA b inB smaller := by
    refine Bool.eq_false_of_not_eq_true fun larger => ?_
    have below := (agrees a inA b inB).mp smaller
    have above : cmp (key a) (key b) = .gt :=
      Std.OrientedCmp.gt_of_lt ((agrees b inB a inA).mp larger)
    rw [below] at above
    cases above
  trans a inA b inB c inC first second :=
    (agrees a inA c inC).mpr (Std.TransCmp.lt_trans ((agrees a inA b inB).mp first)
      ((agrees b inB c inC).mp second))
  weak a inA b inB c inC smaller := by
    have below := (agrees a inA c inC).mp smaller
    cases order : cmp (key a) (key b) with
    | lt => exact .inl ((agrees a inA b inB).mpr order)
    | eq =>
      refine .inr ((agrees b inB c inC).mpr ?_)
      rwa [← Std.TransCmp.congr_left order]
    | gt =>
      have first : cmp (key b) (key a) = .lt := Std.OrientedCmp.lt_of_gt order
      exact .inr ((agrees b inB c inC).mpr (Std.TransCmp.lt_trans first below))

/-- It tells apart what has different keys. -/
theorem tellsApart_of_agrees {κ : Type} {cmp : κ → κ → Ordering} [Std.LawfulEqCmp cmp]
    [Std.OrientedCmp cmp] {key : α → κ} {less : α → α → Bool} {items : List α}
    (agrees : ∀ a ∈ items, ∀ b ∈ items, less a b = true ↔ cmp (key a) (key b) = .lt)
    (determines : ∀ a ∈ items, ∀ b ∈ items, key a = key b → a = b) : TellsApart less items := by
  intro a inA b inB notLess notGreater
  refine determines a inA b inB ?_
  cases order : cmp (key a) (key b) with
  | lt => exact absurd ((agrees a inA b inB).mpr order) (by rw [notLess]; decide)
  | eq => exact Std.LawfulEqCmp.eq_of_compare order
  | gt =>
    have greater : cmp (key b) (key a) = .lt := Std.OrientedCmp.lt_of_gt order
    exact absurd ((agrees b inB a inA).mpr greater) (by rw [notGreater]; decide)

/-- A sort, given the type, the comparison and the items. -/
abbrev Sorter := (α : Type) → (α → α → Bool) → List α → List α

/-- No item is put behind a smaller one. -/
def Sorted (less : α → α → Bool) (items : List α) : Prop :=
  items.Pairwise fun a b => less b a = false

/-- What a sort promises: to lose nothing, and to sort by a strict weak order. -/
structure Sorts (sort : Sorter) : Prop where
  perm : ∀ (α : Type) (less : α → α → Bool) (items : List α), (sort α less items).Perm items
  sorted : ∀ (α : Type) (less : α → α → Bool) (items : List α), StrictWeakOn less items →
    Sorted less (sort α less items)

/-- **What is sorted does not depend on the order** in which it is given. -/
theorem Sorts.eq_of_perm {sort : Sorter} (sorts : Sorts sort) {less : α → α → Bool}
    {items other : List α} (order : StrictWeakOn less items) (apart : TellsApart less items)
    (perm : items.Perm other) : sort α less other = sort α less items := by
  have order' := order.mono fun item member => perm.mem_iff.mpr member
  have inside : ∀ item, item ∈ sort α less items ↔ item ∈ items := fun item =>
    (sorts.perm α less items).mem_iff
  have inside' : ∀ item, item ∈ sort α less other ↔ item ∈ items := fun item =>
    (sorts.perm α less other).mem_iff.trans perm.mem_iff.symm
  refine List.Perm.eq_of_pairwise (fun a b inA inB one other => ?_) (sorts.sorted α less other order')
    (sorts.sorted α less items order) ((sorts.perm α less other).trans (perm.symm.trans
      (sorts.perm α less items).symm))
  exact apart a ((inside' a).mp inA) b ((inside b).mp inB) other one

/-! ### Insertion -/

/-- Insertion sort: an item is put behind those that it is not smaller than. -/
def insertionSorter : Sorter := fun _ less items =>
  items.insertionSort fun a b => less b a = false

theorem sorted_orderedInsert {less : α → α → Bool} {a : α} {items : List α}
    (order : StrictWeakOn less (a :: items)) (sorted : Sorted less items) :
    Sorted less (items.orderedInsert (fun a b => less b a = false) a) := by
  induction items with
  | nil => exact List.pairwise_singleton _ a
  | cons b items ih =>
    obtain ⟨least, rest⟩ := List.pairwise_cons.mp sorted
    have inB : b ∈ a :: b :: items := List.mem_cons_of_mem a List.mem_cons_self
    have others : ∀ c ∈ items, c ∈ a :: b :: items := fun c member =>
      List.mem_cons_of_mem a (List.mem_cons_of_mem b member)
    by_cases before : less b a = false
    · rw [List.orderedInsert, if_pos before]
      refine List.pairwise_cons.mpr ⟨fun c member => ?_, sorted⟩
      rcases List.mem_cons.mp member with rfl | member
      · exact before
      · -- Otherwise `c` is before `b`, or `b` is before `a`.
        by_contra smaller
        have smaller := Bool.eq_true_of_not_eq_false smaller
        rcases order.weak c (others c member) b inB a List.mem_cons_self smaller with below | below
        · exact Bool.false_ne_true ((least c member).symm.trans below)
        · exact Bool.false_ne_true (before.symm.trans below)
    · rw [List.orderedInsert, if_neg before]
      have smaller := Bool.eq_true_of_not_eq_false before
      refine List.pairwise_cons.mpr ⟨fun c member => ?_, ih (order.mono fun c member => ?_) rest⟩
      · rcases (List.mem_orderedInsert _).mp member with rfl | member
        · exact order.asymm b inB c List.mem_cons_self smaller
        · exact least c member
      · rcases List.mem_cons.mp member with rfl | member
        · exact List.mem_cons_self
        · exact others c member

/-- **Insertion sorts.** -/
theorem sorts_insertionSorter : Sorts insertionSorter where
  perm _ _ items := List.perm_insertionSort _ items
  sorted α less items order := by
    induction items with
    | nil => exact .nil
    | cons a items ih =>
      have same := List.perm_insertionSort (fun a b => less b a = false) items
      refine sorted_orderedInsert (order.mono fun item member => ?_)
        (ih (order.mono fun item member => List.mem_cons_of_mem a member))
      rcases List.mem_cons.mp member with rfl | member
      · exact List.mem_cons_self
      · exact List.mem_cons_of_mem a (same.mem_iff.mp member)

end WeakOrder
