/-
**Entries in ascending key order: the canonical order of an unordered container.**

* `onKey` and `byPair` build comparisons from comparisons; they keep the lawfulness of their parts.
* `Ascending` lists have strictly ascending keys; two of them with the same members are equal
  (`Ascending.eq_of_mem_iff`).
* `sortByKey` sorts by key. With distinct keys the result is ascending (`ascending_sortByKey`), so
  **it depends on the members alone** (`map_sortByKey_eq`).
* With keys that are not distinct, what is concatenated in the sorted order depends on the members
  alone **exactly if entries with one key commute** (`flatMap_sortByKey_eq_iff`).
-/

import Mathlib

namespace KeyOrder

open Std

variable {κ α β : Type}

/-! ### Comparisons -/

/-- Compare by key. -/
def onKey (cmp : κ → κ → Ordering) (key : α → κ) (a b : α) : Ordering := cmp (key a) (key b)

/-- Compare the first components, then the second ones. -/
def byPair (first : α → α → Ordering) (second : β → β → Ordering) : α × β → α × β → Ordering :=
  compareLex (onKey first Prod.fst) (onKey second Prod.snd)

instance trans_onKey (cmp : κ → κ → Ordering) (key : α → κ) [TransCmp cmp] :
    TransCmp (onKey cmp key) where
  eq_swap {a b} := by
    show cmp (key a) (key b) = (cmp (key b) (key a)).swap
    exact OrientedCmp.eq_swap
  isLE_trans {a b c} first second := by
    show (cmp (key a) (key c)).isLE = true
    exact TransCmp.isLE_trans first second

theorem lawfulEq_onKey (cmp : κ → κ → Ordering) [LawfulEqCmp cmp] {key : α → κ}
    (injective : Function.Injective key) : LawfulEqCmp (onKey cmp key) where
  compare_self {a} := by
    show cmp (key a) (key a) = .eq
    exact ReflCmp.compare_self
  eq_of_compare same := injective (LawfulEqCmp.eq_of_compare same)

instance (first : α → α → Ordering) (second : β → β → Ordering) [TransCmp first] [TransCmp second] :
    TransCmp (byPair first second) :=
  inferInstanceAs (TransCmp (compareLex _ _))

instance (first : α → α → Ordering) (second : β → β → Ordering) [LawfulEqCmp first]
    [LawfulEqCmp second] : LawfulEqCmp (byPair first second) where
  compare_self := by simp [byPair, compareLex, onKey, ReflCmp.compare_self]
  eq_of_compare {a b} same := by
    obtain ⟨sameFirst, sameSecond⟩ := compareLex_eq_eq.mp same
    exact Prod.ext (LawfulEqCmp.eq_of_compare sameFirst) (LawfulEqCmp.eq_of_compare sameSecond)

theorem not_lt_self (cmp : κ → κ → Ordering) [ReflCmp cmp] (a : κ) : cmp a a ≠ .lt := by
  have same : cmp a a = .eq := ReflCmp.compare_self
  rw [same]
  decide

/-! ### Elementwise images -/

/-- Two lists with equal images under one map have equal images under another that it determines. -/
theorem map_eq_of_map_eq {γ : Type} {f : α → β} {g : α → γ} {first second : List α}
    (determines : ∀ a ∈ first, ∀ b ∈ second, f a = f b → g a = g b)
    (same : first.map f = second.map f) : first.map g = second.map g := by
  induction first generalizing second with
  | nil =>
    rw [List.map_nil, eq_comm, List.map_eq_nil_iff] at same
    rw [same]
  | cons a first ih =>
    cases second with
    | nil => cases same
    | cons b second =>
      obtain ⟨here, rest⟩ := List.cons.inj same
      rw [List.map_cons, List.map_cons, determines a List.mem_cons_self b List.mem_cons_self here,
        ih (fun a member b member' => determines a (List.mem_cons_of_mem _ member) b
          (List.mem_cons_of_mem _ member')) rest]

/-- Images of a permutation, under maps that agree on the members. -/
theorem perm_map {items items' : List α} {f g : α → β} (perm : items.Perm items')
    (agree : ∀ item ∈ items, g item = f item) : (items.map f).Perm (items'.map g) := by
  refine (perm.map f).trans (List.Perm.of_eq (List.map_congr_left fun item member => ?_))
  exact (agree item (perm.mem_iff.mpr member)).symm

/-- A list that is a permutation of images is the images of a permutation. -/
theorem exists_perm_of_map {f : α → β} {items : List α} {images : List β}
    (perm : (items.map f).Perm images) : ∃ items', items.Perm items' ∧ images = items'.map f := by
  generalize before : items.map f = mapped at perm
  induction perm generalizing items with
  | nil => exact ⟨items, .refl _, before.symm⟩
  | cons image _ ih =>
    obtain ⟨first, rest, rfl, rfl, rfl⟩ := List.map_eq_cons_iff.mp before
    obtain ⟨rest', perm, rfl⟩ := ih rfl
    exact ⟨first :: rest', perm.cons first, rfl⟩
  | swap image image' images =>
    obtain ⟨first, others, rfl, rfl, tail⟩ := List.map_eq_cons_iff.mp before
    obtain ⟨second, rest', rfl, rfl, rfl⟩ := List.map_eq_cons_iff.mp tail
    exact ⟨second :: first :: rest', .swap second first rest', rfl⟩
  | trans _ _ ih ih' =>
    obtain ⟨middle, perm, rfl⟩ := ih before
    obtain ⟨last, perm', rfl⟩ := ih' rfl
    exact ⟨last, perm.trans perm', rfl⟩

/-! ### Ascending lists -/

variable (cmp : κ → κ → Ordering) (key : α → κ)

/-- The keys are strictly ascending. -/
def Ascending (entries : List α) : Prop := entries.Pairwise fun a b => cmp (key a) (key b) = .lt

instance (entries : List α) : Decidable (Ascending cmp key entries) :=
  inferInstanceAs (Decidable (entries.Pairwise _))

/-- Sort by key. -/
def sortByKey (entries : List α) : List α :=
  entries.insertionSort fun a b => (cmp (key a) (key b)).isLE = true

theorem mem_sortByKey {entries : List α} {entry : α} :
    entry ∈ sortByKey cmp key entries ↔ entry ∈ entries :=
  List.mem_insertionSort _

theorem perm_sortByKey (entries : List α) : (sortByKey cmp key entries).Perm entries :=
  List.perm_insertionSort _ _

variable {cmp key}

/-- An ascending list is already sorted. -/
theorem Ascending.sortByKey_eq {entries : List α} (ascending : Ascending cmp key entries) :
    sortByKey cmp key entries = entries := by
  refine List.Pairwise.insertionSort_eq (ascending.imp fun {a b} lt => ?_)
  rw [lt]
  rfl

/-- Replacing what is not the key. -/
theorem Ascending.map {entries : List α} (ascending : Ascending cmp key entries) {key' : β → κ}
    {f : α → β} (same : ∀ entry, key' (f entry) = key entry) :
    Ascending cmp key' (entries.map f) := by
  refine List.Pairwise.map f (fun a b lt => ?_) ascending
  rw [same, same, lt]

variable [TransCmp cmp]

theorem Ascending.nodup_keys {entries : List α} (ascending : Ascending cmp key entries) :
    (entries.map key).Nodup := by
  refine List.Pairwise.map key (fun a b lt same => ?_) ascending
  rw [same] at lt
  exact not_lt_self cmp _ lt

/-- **Ascending lists with the same members are equal.** -/
theorem Ascending.eq_of_mem_iff {first second : List α} (ascending : Ascending cmp key first)
    (ascending' : Ascending cmp key second) (same : ∀ entry, entry ∈ first ↔ entry ∈ second) :
    first = second := by
  have antisymm : Antisymm fun a b => cmp (key a) (key b) = .lt := ⟨fun a b one other =>
    absurd (TransCmp.lt_trans one other) (not_lt_self cmp _)⟩
  have irrefl : Irrefl fun a b => cmp (key a) (key b) = .lt := ⟨fun a =>
    not_lt_self cmp (key a)⟩
  exact List.Pairwise.eq_of_mem_iff ascending ascending' same

variable [LawfulEqCmp cmp]

omit [TransCmp cmp] in
/-- Sorted entries with distinct keys are ascending. -/
theorem Ascending.of_sorted {entries : List α}
    (sorted : entries.Pairwise fun a b => (cmp (key a) (key b)).isLE = true)
    (distinct : (entries.map key).Nodup) : Ascending cmp key entries := by
  refine (sorted.and (List.pairwise_map.mp distinct)).imp fun {a b} both => ?_
  rcases order : cmp (key a) (key b) with _ | _ | _
  · rfl
  · exact absurd (LawfulEqCmp.eq_of_compare order) both.2
  · rw [order] at both
    cases both.1

omit [LawfulEqCmp cmp] in
theorem sorted_sortByKey (entries : List α) :
    (sortByKey cmp key entries).Pairwise fun a b => (cmp (key a) (key b)).isLE = true := by
  have total : Std.Total fun a b => (cmp (key a) (key b)).isLE = true := ⟨fun a b => by
    have swapped : cmp (key b) (key a) = (cmp (key a) (key b)).swap := OrientedCmp.eq_swap
    rw [swapped]
    cases cmp (key a) (key b) <;> simp⟩
  have trans : IsTrans α fun a b => (cmp (key a) (key b)).isLE = true :=
    ⟨fun _ _ _ => TransCmp.isLE_trans⟩
  exact List.pairwise_insertionSort _ _

omit [LawfulEqCmp cmp] in
/-- **Entries with one key stay in their order.** -/
theorem filter_sortByKey [DecidableEq κ] (entries : List α) (k : κ) :
    (sortByKey cmp key entries).filter (fun entry => key entry = k) =
      entries.filter fun entry => key entry = k := by
  have perm := (perm_sortByKey cmp key entries).filter fun entry => key entry = k
  have tied : (entries.filter fun entry => key entry = k).Pairwise fun a b =>
      (cmp (key a) (key b)).isLE = true := by
    refine List.pairwise_of_forall_mem_list fun a member b member' => ?_
    have self : cmp k k = .eq := ReflCmp.compare_self
    rw [of_decide_eq_true (List.mem_filter.mp member).2,
      of_decide_eq_true (List.mem_filter.mp member').2, self]
    rfl
  have inside : (entries.filter fun entry => key entry = k).Sublist (sortByKey cmp key entries) :=
    List.sublist_insertionSort tied List.filter_sublist
  have kept := inside.filter fun entry => key entry = k
  rw [List.filter_filter] at kept
  simp only [Bool.and_self] at kept
  exact (kept.eq_of_length perm.length_eq.symm).symm

/-- Sorting entries with distinct keys makes them ascending. -/
theorem ascending_sortByKey {entries : List α} (distinct : (entries.map key).Nodup) :
    Ascending cmp key (sortByKey cmp key entries) :=
  .of_sorted (sorted_sortByKey entries)
    (((perm_sortByKey cmp key entries).map key).nodup_iff.mpr distinct)

/-- Sorted distinct items depend on the members alone. -/
theorem sortByKey_id_eq {first second : List κ} (distinct : first.Nodup) (distinct' : second.Nodup)
    (same : ∀ item, item ∈ first ↔ item ∈ second) :
    sortByKey cmp id first = sortByKey cmp id second := by
  refine (ascending_sortByKey ?_).eq_of_mem_iff (ascending_sortByKey ?_) fun item => ?_
  · rwa [List.map_id]
  · rwa [List.map_id]
  · rw [mem_sortByKey, mem_sortByKey]
    exact same item

/-- **Sorted entries, seen through a map that keeps their keys, depend on the members alone.** -/
theorem map_sortByKey_eq {first second : List α} (distinct : (first.map key).Nodup)
    (distinct' : (second.map key).Nodup) (key' : β → κ) {f : α → β}
    (keeps : ∀ entry, key' (f entry) = key entry)
    (same : ∀ image, image ∈ first.map f ↔ image ∈ second.map f) :
    (sortByKey cmp key first).map f = (sortByKey cmp key second).map f := by
  refine ((ascending_sortByKey distinct).map keeps).eq_of_mem_iff
    ((ascending_sortByKey distinct').map keeps) fun image => ?_
  simp only [List.mem_map, mem_sortByKey] at same ⊢
  exact same image

/-- **The entries of a sorted list that pass a test, seen through a map that keeps their keys, depend
on their images alone**, if the keys of those that pass are distinct. -/
theorem filter_map_sortByKey_eq {first second : List α} (key' : β → κ) {f : α → β}
    (keeps : ∀ entry, key' (f entry) = key entry) {passes : β → Bool}
    (same : ((first.map f).filter passes).Perm ((second.map f).filter passes))
    (distinct : (((first.map f).filter passes).map key').Nodup) :
    ((sortByKey cmp key first).map f).filter passes =
      ((sortByKey cmp key second).map f).filter passes := by
  have images : ∀ entries : List α, (((sortByKey cmp key entries).map f).filter passes).Perm
      ((entries.map f).filter passes) :=
    fun entries => ((perm_sortByKey cmp key entries).map f).filter passes
  have ascending : ∀ entries : List α, (((entries.map f).filter passes).map key').Nodup →
      Ascending cmp key' (((sortByKey cmp key entries).map f).filter passes) := by
    intro entries nodup
    refine .of_sorted (List.Pairwise.filter _ (List.pairwise_map.mpr ?_))
      (((images entries).map key').nodup_iff.mpr nodup)
    refine (sorted_sortByKey entries).imp fun {a b} le => ?_
    rw [keeps, keeps]
    exact le
  refine (ascending first distinct).eq_of_mem_iff
    (ascending second ((same.map key').nodup_iff.mp distinct)) fun image => ?_
  rw [(images first).mem_iff, (images second).mem_iff, same.mem_iff]

/-! ### Entries with one key -/

section Ties

omit [LawfulEqCmp cmp]

variable {f : α → List β}

/-- An entry moves past those that it commutes with. -/
theorem flatMap_middle {a : α} {before after : List α}
    (commutes : ∀ b ∈ before, f a ++ f b = f b ++ f a) :
    (before ++ a :: after).flatMap f = f a ++ (before ++ after).flatMap f := by
  induction before with
  | nil => rfl
  | cons b before ih =>
    have rest := ih fun c member => commutes c (List.mem_cons_of_mem _ member)
    rw [List.cons_append, List.flatMap_cons, rest, ← List.append_assoc,
      ← commutes b List.mem_cons_self, List.append_assoc]
    rfl

/-- **Sorted lists of the same entries have the same concatenation**, if entries with one key
commute. -/
theorem flatMap_eq_of_sorted {first second : List α} (perm : first.Perm second)
    (sorted : first.Pairwise fun a b => (cmp (key a) (key b)).isLE = true)
    (sorted' : second.Pairwise fun a b => (cmp (key a) (key b)).isLE = true)
    (ties : ∀ a ∈ first, ∀ b ∈ first, cmp (key a) (key b) = .eq → f a ++ f b = f b ++ f a) :
    first.flatMap f = second.flatMap f := by
  induction first generalizing second with
  | nil => rw [List.nil_perm.mp perm]
  | cons a first ih =>
    obtain ⟨before, after, rfl⟩ := List.append_of_mem (perm.mem_iff.mp List.mem_cons_self)
    obtain ⟨least, rest⟩ := List.pairwise_cons.mp sorted
    obtain ⟨-, fromA, across⟩ := List.pairwise_append.mp sorted'
    have perm' : first.Perm (before ++ after) :=
      List.perm_cons a |>.mp (perm.trans List.perm_middle)
    have sorted'' := sorted'.sublist ((List.Sublist.refl before).append (List.sublist_cons_self a after))
    have commutes : ∀ b ∈ before, f a ++ f b = f b ++ f a := by
      intro b member
      have inFirst := perm'.mem_iff.mpr (List.mem_append_left after member)
      refine ties a List.mem_cons_self b (List.mem_cons_of_mem _ inFirst) ?_
      -- In the one list `a` is before `b`, in the other after it.
      exact OrientedCmp.isLE_antisymm (least b inFirst) (across b member a List.mem_cons_self)
    rw [List.flatMap_cons, flatMap_middle commutes, ih perm' rest sorted'' fun b member c member' =>
      ties b (List.mem_cons_of_mem _ member) c (List.mem_cons_of_mem _ member')]

/-- Entries with one key stay in the order in which they are given. -/
theorem sortByKey_tied {a b : α} (tie : cmp (key a) (key b) = .eq) (rest : List α) :
    ∃ low high, sortByKey cmp key (a :: b :: rest) = low ++ a :: b :: high ∧
      sortByKey cmp key (b :: a :: rest) = low ++ b :: a :: high := by
  let passed (c : α) (d : α) : Bool := decide ¬ (cmp (key c) (key d)).isLE = true
  have alike : passed b = passed a := by
    funext d
    simp only [passed, TransCmp.congr_left tie]
  have insert : ∀ (c : α) (entries : List α),
      entries.orderedInsert (fun a b => (cmp (key a) (key b)).isLE = true) c =
        entries.takeWhile (passed c) ++ c :: entries.dropWhile (passed c) :=
    fun c entries => List.orderedInsert_eq_take_drop _ c entries
  -- The second of the two is put right before the first.
  have twice : ∀ c d : α, passed c = passed a → passed d = passed a → passed a d = false →
      sortByKey cmp key (c :: d :: rest) =
        (sortByKey cmp key rest).takeWhile (passed a) ++
          c :: d :: (sortByKey cmp key rest).dropWhile (passed a) := by
    intro c d likeC likeD stays
    rw [sortByKey, List.insertionSort_cons, List.insertionSort_cons, insert d, insert c, likeC, likeD]
    have taken : ∀ e ∈ ((sortByKey cmp key rest).takeWhile (passed a)), passed a e = true :=
      fun e member => List.mem_takeWhile_imp member
    show ((sortByKey cmp key rest).takeWhile (passed a) ++ d :: _).takeWhile (passed a) ++
      c :: ((sortByKey cmp key rest).takeWhile (passed a) ++ d :: _).dropWhile (passed a) = _
    rw [List.takeWhile_append_of_pos taken, List.dropWhile_append_of_pos taken,
      List.takeWhile_cons_of_neg (by simp [stays]), List.dropWhile_cons_of_neg (by simp [stays]),
      List.append_nil]
    rfl
  have self : ∀ c : α, passed c c = false := by
    intro c
    have same : cmp (key c) (key c) = .eq := ReflCmp.compare_self
    simp [passed, same]
  refine ⟨_, _, twice a b rfl alike ?_, twice b a alike rfl (self a)⟩
  rw [← alike]
  exact self b

/-- **What is sorted does not depend on the order exactly if entries with one key commute.** -/
theorem flatMap_sortByKey_eq_iff {entries : List α} :
    (∀ other, entries.Perm other →
      (sortByKey cmp key other).flatMap f = (sortByKey cmp key entries).flatMap f) ↔
    entries.Pairwise fun a b => cmp (key a) (key b) = .eq → f a ++ f b = f b ++ f a := by
  constructor
  · intro same
    rw [List.pairwise_iff_forall_sublist]
    intro a b sublist tie
    obtain ⟨rest, perm⟩ := sublist.exists_perm_append
    obtain ⟨low, high, first, second⟩ := sortByKey_tied tie rest
    have swapped : entries.Perm (b :: a :: rest) := perm.trans (.swap b a rest)
    have equal := (same _ perm).trans (same _ swapped).symm
    rw [List.cons_append, List.cons_append, List.nil_append, first, second] at equal
    simp only [List.flatMap_append, List.flatMap_cons] at equal
    have middle := List.append_cancel_left equal
    rw [← List.append_assoc, ← List.append_assoc] at middle
    exact List.append_cancel_right middle
  · intro ties other perm
    have symm : Std.Symm fun a b : α => cmp (key a) (key b) = .eq → f a ++ f b = f b ++ f a :=
      ⟨fun a b commutes tie => (commutes (OrientedCmp.eq_comm.mp tie)).symm⟩
    have all := ties.forall_of_forall fun _ _ _ => rfl
    refine (flatMap_eq_of_sorted ((perm_sortByKey cmp key entries).trans (perm.trans
      (perm_sortByKey cmp key other).symm)) (sorted_sortByKey entries) (sorted_sortByKey other)
      fun a member b member' => ?_).symm
    exact all ((mem_sortByKey cmp key).mp member) ((mem_sortByKey cmp key).mp member')

end Ties

end KeyOrder
