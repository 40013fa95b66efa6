/-
**Walks of a tree or a graph that stop at a guard.**

A `Hierarchy` says what a node records of its own, and which nodes are below it, each under a label
that extends the path. It may have cycles; every walk has a limit.

* `preorder`: what a walk records that is cut at the limit. `Fits`: no chain of nodes reaches the
  limit (`fits_iff`), and then a larger limit records the same (`preorder_eq`).
* `Located` and `Separated`: what a node records is under its path, and that of one child is apart
  from that of another. Then no key is recorded twice (`Separated.nodup`), and a child's records are
  those under its path (`Separated.filter_child`).
* `plan`: what a walk records that stops at the first node over the limit, or that `blocked` refuses
  on its trail, and where it stops. **It stops nowhere exactly when the hierarchy fits**, if only a
  node of the trail is refused (`plan_stop_iff`), and a refused node lies on a cycle
  (`cycle_of_blocked`); what it records is a front of what a walk with any larger limit does
  (`plan_isPrefix`).
* `perform`: a plan carried out in a monad; `perform_plan` is the walk as a recursive program.
-/

import Mathlib

namespace GuardedWalk

/-- Paths are `π`, labels `ℓ`, records `ρ`. -/
structure Hierarchy (ν ℓ π ρ : Type) where
  extend : π → ℓ → π
  own : π → ν → List ρ
  children : ν → List (ℓ × ν)

variable {ν ℓ π ρ : Type} (H : Hierarchy ν ℓ π ρ)

/-! ### Unfolding -/

/-- The records of the nodes less than `left` steps below, in preorder. -/
def preorder : ℕ → π → ν → List ρ
  | 0, _, _ => []
  | left + 1, path, node =>
    H.own path node ++
      (H.children node).flatMap fun child => preorder left (H.extend path child.1) child.2

/-- Every node below is less than `left` steps away. -/
def Fits : ℕ → ν → Prop
  | 0, _ => False
  | left + 1, node => ∀ child ∈ H.children node, Fits left child.2

instance decidableFits : (left : ℕ) → (node : ν) → Decidable (Fits H left node)
  | 0, _ => inferInstanceAs (Decidable False)
  | left + 1, node =>
    have := decidableFits left
    inferInstanceAs (Decidable (∀ child ∈ H.children node, Fits H left child.2))

/-- A chain of so many steps leads from one node to the other. -/
inductive Below : ℕ → ν → ν → Prop
  | here (node : ν) : Below 0 node node
  | step {count : ℕ} {node : ν} {child : ℓ × ν} {target : ν} (member : child ∈ H.children node)
      (below : Below count child.2 target) : Below (count + 1) node target

variable {H}

theorem fits_iff {left : ℕ} {node : ν} :
    Fits H left node ↔ ∀ count target, Below H count node target → count < left := by
  induction left generalizing node with
  | zero =>
    constructor
    · intro fits
      exact fits.elim
    · intro short
      exact absurd (short 0 node (.here node)) (Nat.lt_irrefl 0)
  | succ left ih =>
    constructor
    · intro fits count target below
      cases below with
      | here => exact Nat.succ_pos left
      | step member below => exact Nat.succ_lt_succ (ih.mp (fits _ member) _ _ below)
    · intro short child member
      refine ih.mpr fun count target below => ?_
      exact Nat.lt_of_succ_lt_succ (short _ _ (.step member below))

/-- No chain is longer than the limit. -/
theorem fits_succ_iff {limit : ℕ} {node : ν} :
    Fits H (limit + 1) node ↔ ∀ count target, Below H count node target → count ≤ limit := by
  rw [fits_iff]
  exact forall₃_congr fun count target below => Nat.lt_succ_iff

theorem Fits.mono {left more : ℕ} {node : ν} (fits : Fits H left node) (le : left ≤ more) :
    Fits H more node :=
  fits_iff.mpr fun count target below => Nat.lt_of_lt_of_le (fits_iff.mp fits count target below) le

/-- **Where the hierarchy fits, a larger limit records the same.** -/
theorem preorder_eq {left more : ℕ} {path : π} {node : ν} (fits : Fits H left node)
    (le : left ≤ more) : preorder H more path node = preorder H left path node := by
  induction left generalizing more path node with
  | zero => exact fits.elim
  | succ left ih =>
    obtain ⟨more, rfl⟩ := Nat.exists_eq_add_of_le' (Nat.lt_of_lt_of_le (Nat.succ_pos left) le)
    rw [preorder, preorder]
    congr 1
    exact List.flatMap_congr fun child member => ih (fits child member) (Nat.le_of_succ_le_succ le)

theorem Below.trans {first second : ℕ} {node middle target : ν} (one : Below H first node middle)
    (other : Below H second middle target) : Below H (first + second) node target := by
  induction one with
  | here node =>
    rw [Nat.zero_add]
    exact other
  | step member below ih =>
    rw [Nat.succ_add]
    exact .step member (ih other)

/-- What holds of every node that is reached holds of the node itself and below each child. -/
theorem forall_below_iff {P : ν → Prop} {node : ν} :
    (∀ count target, Below H count node target → P target) ↔
      P node ∧ ∀ child ∈ H.children node, ∀ count target, Below H count child.2 target → P target := by
  constructor
  · intro all
    refine ⟨all 0 node (.here node), fun child member count target below => ?_⟩
    exact all (count + 1) target (.step member below)
  · rintro ⟨here, children⟩ count target below
    cases below with
    | here => exact here
    | step member below => exact children _ member _ _ below

variable (H) in
/-- The nodes less than `left` steps below. -/
def nodes : ℕ → ν → List ν
  | 0, _ => []
  | left + 1, node => node :: (H.children node).flatMap fun child => nodes left child.2

/-- **Where the hierarchy fits, what holds of the nodes holds of all that is reached.** -/
theorem forall_below_of_nodes {P : ν → Prop} (left : ℕ) {node : ν} (fits : Fits H left node)
    (all : ∀ target ∈ nodes H left node, P target) :
    ∀ count target, Below H count node target → P target := by
  induction left generalizing node with
  | zero => exact fits.elim
  | succ left ih =>
    obtain ⟨here, below⟩ := List.forall_mem_cons.mp all
    refine forall_below_iff.mpr ⟨here, fun child member => ih (fits child member) ?_⟩
    exact fun target inside => below target (List.mem_flatMap.mpr ⟨child, member, inside⟩)

/-- Nothing fits over a cycle. -/
theorem not_fits_of_cycle {left count : ℕ} {node : ν} (cycle : Below H (count + 1) node node) :
    ¬ Fits H left node := by
  intro fits
  have around : ∀ turns : ℕ, ∃ length, turns ≤ length ∧ Below H length node node := by
    intro turns
    induction turns with
    | zero => exact ⟨0, Nat.le_refl 0, .here node⟩
    | succ turns ih =>
      obtain ⟨length, le, below⟩ := ih
      exact ⟨count + 1 + length, by omega, cycle.trans below⟩
  obtain ⟨length, le, below⟩ := around left
  have := fits_iff.mp fits length node below
  omega

/-! ### Records under their paths -/

section Located

variable {κ : Type} {key : ρ → κ} {under : π → κ → Prop} {good : π → ν → Prop}

/-- The keys of what a node records are under its path, and so are those of the nodes below. -/
structure Located (H : Hierarchy ν ℓ π ρ) (key : ρ → κ) (under : π → κ → Prop)
    (good : π → ν → Prop) : Prop where
  own : ∀ path node, good path node → ∀ r ∈ H.own path node, under path (key r)
  child : ∀ path node, good path node → ∀ c ∈ H.children node, good (H.extend path c.1) c.2
  widen : ∀ path node, good path node → ∀ c ∈ H.children node, ∀ k,
    under (H.extend path c.1) k → under path k

theorem Located.under_of_mem (located : Located H key under good) {left : ℕ} {path : π} {node : ν}
    (is : good path node) {r : ρ} (member : r ∈ preorder H left path node) : under path (key r) := by
  induction left generalizing path node with
  | zero => cases member
  | succ left ih =>
    rw [preorder, List.mem_append, List.mem_flatMap] at member
    rcases member with ofOwn | ⟨c, inChildren, below⟩
    · exact located.own path node is r ofOwn
    · exact located.widen path node is c inChildren _
        (ih (located.child path node is c inChildren) below)

/-- What a node and each of its children record is told apart by the keys. -/
structure Separated (H : Hierarchy ν ℓ π ρ) (key : ρ → κ) (under : π → κ → Prop)
    (good : π → ν → Prop) : Prop extends Located H key under good where
  ownNodup : ∀ path node, good path node → ((H.own path node).map key).Nodup
  ownApart : ∀ path node, good path node → ∀ r ∈ H.own path node, ∀ c ∈ H.children node,
    ¬ under (H.extend path c.1) (key r)
  apart : ∀ path node, good path node → (H.children node).Pairwise fun c d => ∀ k,
    under (H.extend path c.1) k → ¬ under (H.extend path d.1) k

/-- **No key is recorded twice.** -/
theorem Separated.nodup (separated : Separated H key under good) {left : ℕ} {path : π} {node : ν}
    (is : good path node) : ((preorder H left path node).map key).Nodup := by
  induction left generalizing path node with
  | zero => exact List.nodup_nil
  | succ left ih =>
    have located := separated.toLocated
    have below : ∀ c ∈ H.children node, ∀ k ∈ (preorder H left (H.extend path c.1) c.2).map key,
        under (H.extend path c.1) k := by
      intro c member k recorded
      obtain ⟨r, inside, rfl⟩ := List.mem_map.mp recorded
      exact located.under_of_mem (located.child path node is c member) inside
    rw [preorder, List.map_append, List.map_flatMap, List.nodup_append']
    refine ⟨separated.ownNodup path node is, List.nodup_flatMap.mpr ⟨fun c member => ?_, ?_⟩, ?_⟩
    · exact ih (located.child path node is c member)
    · refine (List.Pairwise.and_mem.mp (separated.apart path node is)).imp ?_
      intro c d both k inC inD
      exact both.2.2 k (below c both.1 k inC) (below d both.2.1 k inD)
    · intro k ofOwn ofChildren
      obtain ⟨r, member, rfl⟩ := List.mem_map.mp ofOwn
      obtain ⟨c, inChildren, inside⟩ := List.mem_flatMap.mp ofChildren
      exact separated.ownApart path node is r member c inChildren (below c inChildren _ inside)

/-- Nothing recorded is under a path that neither the node itself nor a child shares a key with. -/
theorem Located.filter_none (located : Located H key under good) {left : ℕ} {path other : π}
    {node : ν} [DecidablePred (under other)] (is : good path node)
    (noOwn : ∀ r ∈ H.own path node, ¬ under other (key r))
    (noChild : ∀ c ∈ H.children node, ∀ k, under (H.extend path c.1) k → ¬ under other k) :
    (preorder H (left + 1) path node).filter (fun r => under other (key r)) = [] := by
  refine List.filter_eq_nil_iff.mpr fun r member => ?_
  rw [decide_eq_true_eq]
  rw [preorder, List.mem_append, List.mem_flatMap] at member
  rcases member with ofOwn | ⟨c, inChildren, below⟩
  · exact noOwn r ofOwn
  · exact noChild c inChildren _ (located.under_of_mem (located.child path node is c inChildren) below)

/-- **What is recorded under a child's path is what the child records.** -/
theorem Separated.filter_child (separated : Separated H key under good) {left : ℕ} {path : π}
    {node : ν} {c : ℓ × ν} [DecidablePred (under (H.extend path c.1))] (is : good path node)
    (member : c ∈ H.children node) :
    (preorder H (left + 1) path node).filter (fun r => under (H.extend path c.1) (key r)) =
      preorder H left (H.extend path c.1) c.2 := by
  have located := separated.toLocated
  have inside : ∀ d ∈ H.children node, ∀ r ∈ preorder H left (H.extend path d.1) d.2,
      under (H.extend path d.1) (key r) :=
    fun d inChildren r below => located.under_of_mem (located.child path node is d inChildren) below
  have own : (H.own path node).filter (fun r => under (H.extend path c.1) (key r)) = [] := by
    refine List.filter_eq_nil_iff.mpr fun r ofOwn => ?_
    rw [decide_eq_true_eq]
    exact separated.ownApart path node is r ofOwn c member
  have self : (preorder H left (H.extend path c.1) c.2).filter
      (fun r => under (H.extend path c.1) (key r)) = preorder H left (H.extend path c.1) c.2 :=
    List.filter_eq_self.mpr fun r below => decide_eq_true (inside c member r below)
  have others : ∀ d ∈ H.children node, (∀ k, under (H.extend path d.1) k →
      ¬ under (H.extend path c.1) k) → (preorder H left (H.extend path d.1) d.2).filter
        (fun r => under (H.extend path c.1) (key r)) = [] := by
    intro d inChildren away
    refine List.filter_eq_nil_iff.mpr fun r below => ?_
    rw [decide_eq_true_eq]
    exact away _ (inside d inChildren r below)
  obtain ⟨before, after, split⟩ := List.append_of_mem member
  have apart := separated.apart path node is
  rw [split, List.pairwise_append, List.pairwise_cons] at apart
  rw [split] at others
  rw [preorder, List.filter_append, own, List.nil_append, List.filter_flatMap, split,
    List.flatMap_append, List.flatMap_cons, self]
  have noneBefore : (before.flatMap fun d => (preorder H left (H.extend path d.1) d.2).filter
      (fun r => under (H.extend path c.1) (key r))) = [] := by
    refine List.flatMap_eq_nil_iff.mpr fun d inBefore => ?_
    exact others d (List.mem_append_left _ inBefore) fun k =>
      apart.2.2 d inBefore c List.mem_cons_self k
  have noneAfter : (after.flatMap fun d => (preorder H left (H.extend path d.1) d.2).filter
      (fun r => under (H.extend path c.1) (key r))) = [] := by
    refine List.flatMap_eq_nil_iff.mpr fun d inAfter => ?_
    exact others d (List.mem_append_right _ (List.mem_cons_of_mem _ inAfter)) fun k inD inC =>
      apart.2.1.1 d inAfter k inC inD
  rw [noneBefore, noneAfter, List.nil_append, List.append_nil]

end Located

/-! ### The guarded walk -/

/-- Where a walk stops: at a node too deep, or at a refused one. -/
inductive Stop (π : Type)
  | deep (path : π)
  | blocked (path : π)
  deriving DecidableEq, Repr

def Stop.path : Stop π → π
  | .deep path | .blocked path => path

/-- The nodes one after another, up to the first stop. -/
def planAll {α : Type} (planOf : α → List ρ × Option (Stop π)) :
    List α → List ρ × Option (Stop π)
  | [] => ([], none)
  | item :: items =>
    match planOf item with
    | (records, some stop) => (records, some stop)
    | (records, none) => (records ++ (planAll planOf items).1, (planAll planOf items).2)

variable (H)

/-- What is recorded, and where the walk stops; `trail` are the nodes above. -/
def plan (blocked : List ν → ν → Bool) :
    ℕ → List ν → π → ν → List ρ × Option (Stop π)
  | 0, _, path, _ => ([], some (.deep path))
  | left + 1, trail, path, node =>
    if blocked trail node then ([], some (.blocked path))
    else
      let below := planAll (fun child : ℓ × ν =>
        plan blocked left (node :: trail) (H.extend path child.1) child.2) (H.children node)
      (H.own path node ++ below.1, below.2)

variable {H} {blocked : List ν → ν → Bool}

theorem planAll_stop {α : Type} {planOf : α → List ρ × Option (Stop π)} {item : α} {items : List α}
    {stop : Stop π} (stops : (planOf item).2 = some stop) :
    planAll planOf (item :: items) = planOf item := by
  rw [planAll]
  rcases planned : planOf item with ⟨records, _ | other⟩
  · rw [planned] at stops
    cases stops
  · rfl

theorem planAll_go {α : Type} {planOf : α → List ρ × Option (Stop π)} {item : α} {items : List α}
    (goes : (planOf item).2 = none) :
    planAll planOf (item :: items) =
      ((planOf item).1 ++ (planAll planOf items).1, (planAll planOf items).2) := by
  rw [planAll]
  rcases planned : planOf item with ⟨records, _ | stop⟩
  · rfl
  · rw [planned] at goes
    cases goes

theorem planAll_none_iff {α : Type} {planOf : α → List ρ × Option (Stop π)} {items : List α} :
    (planAll planOf items).2 = none ↔ ∀ item ∈ items, (planOf item).2 = none := by
  induction items with
  | nil => exact ⟨fun _ item member => absurd member List.not_mem_nil, fun _ => rfl⟩
  | cons item items ih =>
    rw [List.forall_mem_cons, ← ih]
    rcases goes : (planOf item).2 with _ | stop
    · rw [planAll_go goes]
      exact ⟨fun rest => ⟨rfl, rest⟩, fun both => both.2⟩
    · rw [planAll_stop goes, goes]
      exact ⟨fun none => absurd none (by simp), fun both => absurd both.1 (by simp)⟩

/-- Where several nodes stop, one of them does. -/
theorem exists_stop_of_planAll {α : Type} {planOf : α → List ρ × Option (Stop π)} {items : List α}
    {stop : Stop π} (stops : (planAll planOf items).2 = some stop) :
    ∃ item ∈ items, (planOf item).2 = some stop := by
  induction items with
  | nil => cases stops
  | cons item items ih =>
    rcases goes : (planOf item).2 with _ | other
    · rw [planAll_go goes] at stops
      obtain ⟨later, member, stopped⟩ := ih stops
      exact ⟨later, List.mem_cons_of_mem _ member, stopped⟩
    · rw [planAll_stop goes] at stops
      exact ⟨item, List.mem_cons_self, stops⟩

theorem planAll_records {α : Type} {planOf : α → List ρ × Option (Stop π)} {items : List α}
    (none : (planAll planOf items).2 = none) :
    (planAll planOf items).1 = items.flatMap fun item => (planOf item).1 := by
  induction items with
  | nil => rfl
  | cons item items ih =>
    have goes := planAll_none_iff.mp none item List.mem_cons_self
    rw [planAll_go goes] at none ⊢
    rw [List.flatMap_cons]
    exact congrArg _ (ih none)

/-- What a plan records up to its stop is a front of what is recorded without one. -/
theorem planAll_isPrefix {α : Type} {planOf : α → List ρ × Option (Stop π)} {whole : α → List ρ}
    {items : List α} (front : ∀ item ∈ items, (planOf item).1 <+: whole item)
    (all : ∀ item ∈ items, (planOf item).2 = none → (planOf item).1 = whole item) :
    (planAll planOf items).1 <+: items.flatMap whole := by
  induction items with
  | nil => exact List.prefix_refl _
  | cons item items ih =>
    rw [List.flatMap_cons]
    rcases goes : (planOf item).2 with _ | stop
    · have rest := ih (fun other member => front other (List.mem_cons_of_mem _ member))
        fun other member => all other (List.mem_cons_of_mem _ member)
      rw [planAll_go goes, ← all item List.mem_cons_self goes]
      exact (List.prefix_append_right_inj _).mpr rest
    · rw [planAll_stop goes]
      exact (front item List.mem_cons_self).trans (List.prefix_append _ _)

/-- **A walk that stops nowhere records the preorder.** -/
theorem plan_records {left : ℕ} {trail : List ν} {path : π} {node : ν}
    (none : (plan H blocked left trail path node).2 = none) :
    (plan H blocked left trail path node).1 = preorder H left path node := by
  induction left generalizing trail path node with
  | zero => cases none
  | succ left ih =>
    rw [plan] at none ⊢
    split at none
    · cases none
    · rename_i free
      rw [if_neg free, preorder]
      have children := planAll_none_iff.mp none
      show H.own path node ++ (planAll _ _).1 = _
      rw [planAll_records none]
      congr 1
      exact List.flatMap_congr fun child member => ih (children child member)

/-- Where a walk stops nowhere, the hierarchy fits. -/
theorem fits_of_plan {left : ℕ} {trail : List ν} {path : π} {node : ν}
    (none : (plan H blocked left trail path node).2 = none) : Fits H left node := by
  induction left generalizing trail path node with
  | zero => cases none
  | succ left ih =>
    rw [plan] at none
    split at none
    · cases none
    · exact fun child member => ih (planAll_none_iff.mp none child member)

/-- **What a walk records is a front of what any walk with a larger limit does.** -/
theorem plan_isPrefix {left more : ℕ} (le : left ≤ more) {trail : List ν} {path : π} {node : ν} :
    (plan H blocked left trail path node).1 <+: preorder H more path node := by
  induction left generalizing more trail path node with
  | zero => exact List.nil_prefix
  | succ left ih =>
    obtain ⟨more, rfl⟩ := Nat.exists_eq_add_of_le' (Nat.lt_of_lt_of_le (Nat.succ_pos left) le)
    have le := Nat.le_of_succ_le_succ le
    rw [plan, preorder]
    split
    · exact List.nil_prefix
    · refine (List.prefix_append_right_inj _).mpr (planAll_isPrefix (fun child _ => ih le) ?_)
      intro child _ none
      rw [plan_records none, preorder_eq (fits_of_plan none) le]

/-- What leads to a node leads to its children. -/
theorem above_child {trail : List ν} {node : ν} {child : ℓ × ν} (member : child ∈ H.children node)
    (above : ∀ ancestor ∈ trail, ∃ count, Below H (count + 1) ancestor node) :
    ∀ ancestor ∈ node :: trail, ∃ count, Below H (count + 1) ancestor child.2 := by
  intro ancestor onTrail
  have below : Below H 1 node child.2 := .step member (.here _)
  rcases List.mem_cons.mp onTrail with rfl | further
  · exact ⟨0, below⟩
  · obtain ⟨count, chain⟩ := above ancestor further
    exact ⟨count + 1, chain.trans below⟩

/-- **A walk stops nowhere exactly when the hierarchy fits**, if only nodes of the trail are refused:
such a node lies on a cycle. -/
theorem plan_stop_iff (sound : ∀ trail node, blocked trail node = true → node ∈ trail) {left : ℕ}
    {trail : List ν} {path : π} {node : ν}
    (above : ∀ ancestor ∈ trail, ∃ count, Below H (count + 1) ancestor node) :
    (plan H blocked left trail path node).2 = none ↔ Fits H left node := by
  refine ⟨fits_of_plan, fun fits => ?_⟩
  induction left generalizing trail path node with
  | zero => exact fits.elim
  | succ left ih =>
    rw [plan]
    split
    · rename_i refused
      obtain ⟨count, cycle⟩ := above node (sound trail node refused)
      exact absurd fits (not_fits_of_cycle cycle)
    · refine planAll_none_iff.mpr fun child member => ?_
      exact ih (above_child member above) (fits child member)

/-- **A refused node lies on a cycle**, if only nodes of the trail are refused. -/
theorem cycle_of_blocked (sound : ∀ trail node, blocked trail node = true → node ∈ trail)
    {left : ℕ} {trail : List ν} {path stopPath : π} {node : ν}
    (above : ∀ ancestor ∈ trail, ∃ count, Below H (count + 1) ancestor node)
    (stops : (plan H blocked left trail path node).2 = some (.blocked stopPath)) :
    ∃ refused count turn, Below H count node refused ∧ Below H (turn + 1) refused refused := by
  induction left generalizing trail path node with
  | zero => cases stops
  | succ left ih =>
    rw [plan] at stops
    split at stops
    · rename_i refused
      obtain ⟨turn, cycle⟩ := above node (sound trail node refused)
      exact ⟨node, 0, turn, .here node, cycle⟩
    · obtain ⟨child, member, stopped⟩ := exists_stop_of_planAll stops
      obtain ⟨refused, count, turn, below, cycle⟩ := ih (above_child member above) stopped
      exact ⟨refused, count + 1, turn, .step member below, cycle⟩

/-! ### Carrying a plan out -/

section Perform

variable {m : Type → Type} [Monad m] [LawfulMonad m] (emit : ρ → m Unit) (halt : Stop π → m Unit)

/-- Record, then stop where the plan does. -/
def perform (planned : List ρ × Option (Stop π)) : m Unit := do
  forM planned.1 emit
  match planned.2 with
  | none => pure ()
  | some stop => halt stop

/-- Nothing runs after a stop. -/
def Halts : Prop := ∀ (stop : Stop π) (next : m Unit), (halt stop >>= fun _ => next) = halt stop

variable {emit halt}

theorem perform_none {planned : List ρ × Option (Stop π)} (goes : planned.2 = none) :
    perform emit halt planned = forM planned.1 emit := by
  rw [perform, goes, bind_pure_unit]

omit [LawfulMonad m] in
theorem perform_some {planned : List ρ × Option (Stop π)} {stop : Stop π}
    (stops : planned.2 = some stop) :
    perform emit halt planned = (forM planned.1 emit >>= fun _ => halt stop) := by
  rw [perform, stops]

theorem perform_append (records : List ρ) (planned : List ρ × Option (Stop π)) :
    perform emit halt (records ++ planned.1, planned.2) =
      (forM records emit >>= fun _ => perform emit halt planned) := by
  simp only [perform, List.forM_append, bind_assoc]

theorem perform_planAll (halts : Halts halt) {α : Type} (planOf : α → List ρ × Option (Stop π))
    (items : List α) :
    perform emit halt (planAll planOf items) =
      forM items fun item => perform emit halt (planOf item) := by
  induction items with
  | nil =>
    show (pure () >>= fun _ => pure ()) = (pure () : m Unit)
    rw [pure_bind]
  | cons item items ih =>
    rw [List.forM_cons, ← ih]
    rcases goes : (planOf item).2 with _ | stop
    · rw [planAll_go goes, perform_append]
      simp only [perform, goes, bind_assoc, pure_bind]
    · rw [planAll_stop goes]
      simp only [perform, goes, bind_assoc]
      congr 1
      funext _
      rw [halts]

/-- **The walk as a program**: refuse, or record and walk what is below. -/
theorem perform_plan (halts : Halts halt) (left : ℕ) (trail : List ν) (path : π) (node : ν) :
    perform emit halt (plan H blocked (left + 1) trail path node) =
      if blocked trail node then halt (.blocked path)
      else
        forM (H.own path node) emit >>= fun _ =>
          forM (H.children node) fun child => perform emit halt
            (plan H blocked left (node :: trail) (H.extend path child.1) child.2) := by
  rw [plan]
  split
  · show (pure () >>= fun _ => halt _) = _
    rw [pure_bind]
  · rw [← perform_planAll halts]
    exact perform_append _ _

/-- Passing over the items that are not kept. -/
theorem forM_filter {α : Type} (keep : α → Bool) (items : List α) (run : α → m Unit) :
    (forM items fun item => if keep item = false then pure () else run item) =
      forM (items.filter keep) run := by
  induction items with
  | nil => rfl
  | cons item items ih =>
    rw [List.forM_cons, ih]
    by_cases kept : keep item = true
    · rw [List.filter_cons_of_pos kept, List.forM_cons, if_neg (by simp [kept])]
    · rw [List.filter_cons_of_neg kept, if_pos (by simpa using kept), pure_bind]

end Perform

end GuardedWalk
