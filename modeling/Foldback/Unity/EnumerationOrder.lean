/-
**Where the enumeration order of sets and dictionaries shows.**

The walk sorts the entries of a set or dictionary by their texts. The sort is stable, so entries with
one text stay as they are enumerated.

* `SameContent`: two heaps that differ in enumeration orders. `TextsStable`: no text shows one.
* `TiesCommute`: what is recorded below entries with one text may be swapped.
* `unity_order_independent_iff`: with stable texts, **the calls do not depend on enumeration orders
  exactly if ties commute.**
-/

import Foldback.Unity.Walk

namespace Foldback.Unity

open GuardedWalk KeyOrder

/-! ### Enumeration orders -/

inductive SameShape : Shape → Shape → Prop
  | same (shape : Shape) : SameShape shape shape
  | set {items items' : List Value} (perm : items.Perm items') : SameShape (.set items) (.set items')
  | dictionary {entries entries' : List (Value × Value)} (perm : entries.Perm entries') :
      SameShape (.dictionary entries) (.dictionary entries')

/-- The same objects, enumerating in other orders. -/
def SameContent (heap heap' : Heap) : Prop :=
  ∀ id, (heap' id).isValueType = (heap id).isValueType ∧ SameShape (heap id).shape (heap' id).shape

/-- The elements of a set, the keys of a dictionary. -/
def keysOf (heap : Heap) : Value → List Value
  | none => []
  | some id =>
    match (heap id).shape with
    | .set items => items
    | .dictionary entries => entries.map Prod.fst
    | _ => []

/-- The entries of a set or dictionary by their texts, as they are enumerated. -/
def entriesOf (toString : Heap → ObjectId → Option Text) (heap : Heap) : Value → List (Text × Value)
  | none => []
  | some id =>
    match (heap id).shape with
    | .set items => items.map fun item => (renderKey toString heap item, item)
    | .dictionary entries => entries.map fun entry => (renderKey toString heap entry.1, entry.2)
    | _ => []

/-- The records below a value, with the paths from there. -/
def below (toString : Heap → ObjectId → Option Text) (heap : Heap) (value : Value) :
    List (Text × Bytes) :=
  preorder (graph toString heap) defaultMaxDepth [] value

/-- What the walk comes to. -/
def Reached (toString : Heap → ObjectId → Option Text) (heap : Heap) (root : Root) (value : Value) :
    Prop :=
  ∃ member ∈ root.members, ∃ count, Below (graph toString heap) count member.2 value

/-- **The text of an element or key that is reached shows no enumeration order.** -/
def TextsStable (toString : Heap → ObjectId → Option Text) (heap : Heap) (root : Root) : Prop :=
  ∀ heap', SameContent heap heap' → ∀ value, Reached toString heap root value →
    ∀ key ∈ keysOf heap value, renderKey toString heap' key = renderKey toString heap key

/-- **Entries with one text record sequences that commute**, in every set and dictionary reached. -/
def TiesCommute (toString : Heap → ObjectId → Option Text) (heap : Heap) (root : Root) : Prop :=
  ∀ value, Reached toString heap root value →
    (entriesOf toString heap value).Pairwise fun entry other => entry.1 = other.1 →
      below toString heap entry.2 ++ below toString heap other.2 =
        below toString heap other.2 ++ below toString heap entry.2

/-! ### Paths -/

def prefixed (path : Text) (records : List (Text × Bytes)) : List (Text × Bytes) :=
  records.map fun field => (path ++ field.1, field.2)

theorem prefixed_append (path path' : Text) (records : List (Text × Bytes)) :
    prefixed (path ++ path') records = prefixed path (prefixed path' records) := by
  unfold prefixed
  rw [List.map_map]
  exact List.map_congr_left fun field _ => by simp

theorem prefixed_injective (path : Text) {records records' : List (Text × Bytes)}
    (same : prefixed path records = prefixed path records') : records = records' := by
  refine List.map_injective_iff.mpr ?_ same
  rintro ⟨name, bytes⟩ ⟨name', bytes'⟩ equal
  simpa using equal

section Graph

variable {toString : Heap → ObjectId → Option Text} {heap heap' : Heap}

theorem own_prefixed (path : Text) (value : Value) :
    own heap path value = prefixed path (own heap [] value) := by
  cases value with
  | none => simp [own, prefixed]
  | some id =>
    cases shape : (heap id).shape with
    | leaf leaf => simp [own, shape, prefixed]
    | _ => simp [own, shape, prefixed]

/-- A path in front is in front of every path. -/
theorem preorder_prefixed (left : ℕ) (path : Text) (value : Value) :
    preorder (graph toString heap) left path value =
      prefixed path (preorder (graph toString heap) left [] value) := by
  induction left generalizing path value with
  | zero => rfl
  | succ left ih =>
    have inside : ∀ child : Step × Value,
        preorder (graph toString heap) left (path ++ child.1.label) child.2 =
          prefixed path (preorder (graph toString heap) left ([] ++ child.1.label) child.2) := by
      intro child
      rw [ih (path ++ child.1.label), ih ([] ++ child.1.label), prefixed_append, List.nil_append]
    have flat : ∀ children : List (Step × Value),
        (children.flatMap fun child =>
          preorder (graph toString heap) left (path ++ child.1.label) child.2) =
          prefixed path (children.flatMap fun child =>
            preorder (graph toString heap) left ([] ++ child.1.label) child.2) := by
      intro children
      unfold prefixed
      rw [List.map_flatMap]
      exact List.flatMap_congr fun child _ => inside child
    show own heap path value ++ _ = prefixed path (own heap [] value ++ _)
    rw [own_prefixed, prefixed, prefixed, List.map_append]
    exact congrArg _ (flat _)

/-! ### What a set or dictionary holds -/

/-- The object is a set or a dictionary. -/
def IsUnordered (heap : Heap) (id : ObjectId) : Prop :=
  (∃ items, (heap id).shape = .set items) ∨ ∃ entries, (heap id).shape = .dictionary entries

/-- The object in both heaps. -/
theorem sameShape_cases {id : ObjectId} (same : SameShape (heap id).shape (heap' id).shape) :
    (∃ items items', items.Perm items' ∧ (heap id).shape = .set items ∧
        (heap' id).shape = .set items') ∨
      (∃ entries entries', entries.Perm entries' ∧ (heap id).shape = .dictionary entries ∧
        (heap' id).shape = .dictionary entries') ∨
      ¬ IsUnordered heap id ∧ (heap' id).shape = (heap id).shape := by
  unfold IsUnordered
  generalize (heap id).shape = shape at same ⊢
  generalize (heap' id).shape = shape' at same ⊢
  cases same with
  | set perm => exact .inl ⟨_, _, perm, rfl, rfl⟩
  | dictionary perm => exact .inr (.inl ⟨_, _, perm, rfl, rfl⟩)
  | same =>
    cases shape with
    | set items => exact .inl ⟨items, items, .refl items, rfl, rfl⟩
    | dictionary entries => exact .inr (.inl ⟨entries, entries, .refl entries, rfl, rfl⟩)
    | _ => exact .inr (.inr ⟨by simp, rfl⟩)

/-- The step of an entry with the text. -/
def stepOf (heap : Heap) (id : ObjectId) (text : Text) : Step :=
  match (heap id).shape with
  | .set _ => .element text
  | _ => .entry text

theorem held_unordered {id : ObjectId} (unordered : IsUnordered heap id) :
    held toString heap (some id) =
      (orderByText (entriesOf toString heap (some id))).map fun entry =>
        (stepOf heap id entry.1, entry.2) := by
  rcases unordered with ⟨items, shape⟩ | ⟨entries, shape⟩
  all_goals simp only [held, entriesOf, stepOf, shape]

/-- What is not a set or dictionary has no entries. -/
theorem entriesOf_ordered {id : ObjectId} (ordered : ¬ IsUnordered heap id) :
    entriesOf toString heap (some id) = [] := by
  unfold IsUnordered at ordered
  rw [entriesOf]
  cases shape : (heap id).shape with
  | set items => exact absurd (.inl ⟨items, shape⟩) ordered
  | dictionary entries => exact absurd (.inr ⟨entries, shape⟩) ordered
  | _ => rfl

/-- With the same texts, the entries are permuted. -/
theorem entriesOf_perm {id : ObjectId} (same : SameShape (heap id).shape (heap' id).shape)
    (texts : ∀ key ∈ keysOf heap (some id),
      renderKey toString heap' key = renderKey toString heap key) :
    (entriesOf toString heap (some id)).Perm (entriesOf toString heap' (some id)) := by
  rcases sameShape_cases same with ⟨items, items', perm, shape, shape'⟩ |
    ⟨entries, entries', perm, shape, shape'⟩ | ⟨ordered, shape'⟩
  · simp only [keysOf, shape] at texts
    simp only [entriesOf, shape, shape']
    exact perm_map perm fun item member => by rw [texts item member]
  · simp only [keysOf, shape] at texts
    simp only [entriesOf, shape, shape']
    exact perm_map perm fun entry member => by rw [texts entry.1 (List.mem_map_of_mem member)]
  · have ordered' : ¬ IsUnordered heap' id := by
      unfold IsUnordered at ordered ⊢
      rwa [shape']
    rw [entriesOf_ordered ordered, entriesOf_ordered ordered']

theorem stepOf_sameShape {id : ObjectId} (same : SameShape (heap id).shape (heap' id).shape) :
    stepOf heap' id = stepOf heap id := by
  funext text
  unfold stepOf
  rcases sameShape_cases same with ⟨items, items', -, shape, shape'⟩ |
    ⟨entries, entries', -, shape, shape'⟩ | ⟨-, shape'⟩
  · rw [shape, shape']
  · rw [shape, shape']
  · rw [shape']

theorem unordered_sameShape {id : ObjectId} (same : SameShape (heap id).shape (heap' id).shape) :
    IsUnordered heap' id ↔ IsUnordered heap id := by
  unfold IsUnordered
  rcases sameShape_cases same with ⟨items, items', -, shape, shape'⟩ |
    ⟨entries, entries', -, shape, shape'⟩ | ⟨-, shape'⟩
  · rw [shape, shape']
    simp
  · rw [shape, shape']
    simp
  · rw [shape']

/-- What is not a set or dictionary is the same in both heaps. -/
theorem ordered_sameShape {id : ObjectId} (same : SameShape (heap id).shape (heap' id).shape)
    (ordered : ¬ IsUnordered heap id) :
    held toString heap' (some id) = held toString heap (some id) := by
  rcases sameShape_cases same with ⟨items, items', -, shape, -⟩ |
    ⟨entries, entries', -, shape, -⟩ | ⟨-, shape'⟩
  · exact absurd (.inl ⟨items, shape⟩) ordered
  · exact absurd (.inr ⟨entries, shape⟩) ordered
  · unfold held
    simp only [shape']
    cases shape : (heap id).shape with
    | set items => exact absurd (.inl ⟨items, shape⟩) ordered
    | dictionary entries => exact absurd (.inr ⟨entries, shape⟩) ordered
    | _ => rfl

theorem own_sameShape {id : ObjectId} (same : SameShape (heap id).shape (heap' id).shape)
    (path : Text) : own heap' path (some id) = own heap path (some id) := by
  unfold own
  rcases sameShape_cases same with ⟨items, items', -, shape, shape'⟩ |
    ⟨entries, entries', -, shape, shape'⟩ | ⟨-, shape'⟩
  · simp only [shape, shape']
  · simp only [shape, shape']
  · simp only [shape']

/-! ### The same records in every order -/

/-- The texts below a value are the same in the other heap. -/
def TextsKept (toString : Heap → ObjectId → Option Text) (heap heap' : Heap) (value : Value) : Prop :=
  ∀ count target, Below (graph toString heap) count value target →
    ∀ key ∈ keysOf heap target, renderKey toString heap' key = renderKey toString heap key

theorem TextsKept.here {value : Value} (kept : TextsKept toString heap heap' value) :
    ∀ key ∈ keysOf heap value, renderKey toString heap' key = renderKey toString heap key :=
  (forall_below_iff.mp kept).1

theorem TextsKept.child {value : Value} (kept : TextsKept toString heap heap' value)
    {child : Step × Value} (member : child ∈ held toString heap value) :
    TextsKept toString heap heap' child.2 :=
  (forall_below_iff.mp kept).2 child member

/-- With the same texts, the same is held in another order. -/
theorem held_perm (same : SameContent heap heap') {value : Value}
    (kept : TextsKept toString heap heap' value) :
    (held toString heap value).Perm (held toString heap' value) := by
  cases value with
  | none => exact .refl _
  | some id =>
    by_cases unordered : IsUnordered heap id
    · rw [held_unordered unordered, held_unordered ((unordered_sameShape (same id).2).mpr unordered),
        stepOf_sameShape (same id).2]
      refine List.Perm.map _ ?_
      exact (perm_sortByKey compare Prod.fst _).trans ((entriesOf_perm (same id).2 kept.here).trans
        (perm_sortByKey compare Prod.fst _).symm)
    · rw [ordered_sameShape (same id).2 unordered]

theorem own_sameContent (same : SameContent heap heap') (path : Text) (value : Value) :
    own heap' path value = own heap path value := by
  cases value with
  | none => rfl
  | some id => exact own_sameShape (same id).2 path

theorem fits_sameContent (same : SameContent heap heap') {left : ℕ} {value : Value}
    (kept : TextsKept toString heap heap' value) (fits : Fits (graph toString heap) left value) :
    Fits (graph toString heap') left value := by
  induction left generalizing value with
  | zero => exact fits
  | succ left ih =>
    intro child member
    have member' := (held_perm same kept).mem_iff.mpr member
    exact ih (kept.child member') (fits child member')

/-- In every order as much is recorded. -/
theorem length_preorder (same : SameContent heap heap') {left : ℕ} {path path' : Text}
    {value : Value} (kept : TextsKept toString heap heap' value) :
    (preorder (graph toString heap') left path value).length =
      (preorder (graph toString heap) left path' value).length := by
  induction left generalizing path path' value with
  | zero => rfl
  | succ left ih =>
    have own : (own heap' path value).length = (own heap path' value).length := by
      rw [own_sameContent same, own_prefixed path, own_prefixed path', prefixed, prefixed,
        List.length_map, List.length_map]
    rw [preorder, preorder, List.length_append, List.length_append, List.length_flatMap,
      List.length_flatMap]
    refine congrArg₂ (· + ·) own ?_
    refine (((held_perm same kept).symm.map _).sum_eq).trans ?_
    exact congrArg List.sum (List.map_congr_left fun child member => ih (kept.child member))

/-- An entry is held under its step. -/
theorem held_of_entry {id : ObjectId} (unordered : IsUnordered heap id) {entry : Text × Value}
    (member : entry ∈ entriesOf toString heap (some id)) :
    (stepOf heap id entry.1, entry.2) ∈ held toString heap (some id) := by
  rw [held_unordered unordered]
  exact List.mem_map.mpr ⟨entry, (mem_sortByKey compare Prod.fst).mpr member, rfl⟩

/-- What an entry records, with the paths from the set or dictionary. -/
def inside (toString : Heap → ObjectId → Option Text) (heap : Heap) (id : ObjectId)
    (entry : Text × Value) : List (Text × Bytes) :=
  prefixed (stepOf heap id entry.1).label (below toString heap entry.2)

/-- Entries with one text commute exactly if they do without the text. -/
theorem inside_commute_iff {id : ObjectId} {entry other : Text × Value} (tie : entry.1 = other.1) :
    inside toString heap id entry ++ inside toString heap id other =
        inside toString heap id other ++ inside toString heap id entry ↔
      below toString heap entry.2 ++ below toString heap other.2 =
        below toString heap other.2 ++ below toString heap entry.2 := by
  unfold inside
  rw [← tie]
  constructor
  · intro same
    refine prefixed_injective (stepOf heap id entry.1).label ?_
    simpa only [prefixed, List.map_append] using same
  · intro same
    have mapped := congrArg (prefixed (stepOf heap id entry.1).label) same
    simpa only [prefixed, List.map_append] using mapped

/-- The records of entries by their texts. -/
theorem flatMap_entries {left : ℕ} (small : left ≤ defaultMaxDepth) {id : ObjectId}
    {entries : List (Text × Value)}
    (fits : ∀ entry ∈ entries, Fits (graph toString heap) left entry.2) (path : Text) :
    ((orderByText entries).map fun entry => (stepOf heap id entry.1, entry.2)).flatMap (fun child =>
        preorder (graph toString heap) left (path ++ child.1.label) child.2) =
      prefixed path ((orderByText entries).flatMap (inside toString heap id)) := by
  have each : ∀ entry ∈ orderByText entries,
      preorder (graph toString heap) left (path ++ (stepOf heap id entry.1).label) entry.2 =
        prefixed path (inside toString heap id entry) := by
    intro entry member
    rw [preorder_prefixed, prefixed_append,
      ← preorder_eq (fits entry ((mem_sortByKey compare Prod.fst).mp member)) small]
    rfl
  rw [List.flatMap_map, List.flatMap_congr each, prefixed, List.map_flatMap]
  rfl

/-- **If ties commute, the same is recorded in every order.** -/
theorem preorder_sameContent (same : SameContent heap heap') {left : ℕ}
    (small : left ≤ defaultMaxDepth) {value : Value} (kept : TextsKept toString heap heap' value)
    (fits : Fits (graph toString heap) left value)
    (ties : ∀ count target, Below (graph toString heap) count value target →
      (entriesOf toString heap target).Pairwise fun entry other => entry.1 = other.1 →
        below toString heap entry.2 ++ below toString heap other.2 =
          below toString heap other.2 ++ below toString heap entry.2) (path : Text) :
    preorder (graph toString heap') left path value =
      preorder (graph toString heap) left path value := by
  induction left generalizing value path with
  | zero => exact fits.elim
  | succ left ih =>
    have smaller := Nat.le_of_succ_le small
    have children : ∀ child ∈ held toString heap value,
        preorder (graph toString heap') left (path ++ child.1.label) child.2 =
          preorder (graph toString heap) left (path ++ child.1.label) child.2 :=
      fun child member => ih smaller (kept.child member) (fits child member)
        ((forall_below_iff.mp ties).2 child member) _
    have own : own heap' path value = own heap path value := own_sameContent same path value
    have below : (held toString heap' value).flatMap (fun child =>
          preorder (graph toString heap') left (path ++ child.1.label) child.2) =
        (held toString heap value).flatMap (fun child =>
          preorder (graph toString heap) left (path ++ child.1.label) child.2) := by
      rw [List.flatMap_congr fun child member =>
        children child ((held_perm same kept).mem_iff.mpr member)]
      cases value with
      | none => rfl
      | some id =>
        by_cases unordered : IsUnordered heap id
        · have perm := entriesOf_perm (same id).2 kept.here
          have inTime : ∀ entry ∈ entriesOf toString heap (some id),
              Fits (graph toString heap) left entry.2 :=
            fun entry member => fits _ (held_of_entry unordered member)
          have unordered' := (unordered_sameShape (same id).2).mpr unordered
          rw [held_unordered unordered, held_unordered unordered', stepOf_sameShape (same id).2, flatMap_entries smaller inTime, flatMap_entries smaller
              fun entry member => inTime entry (perm.mem_iff.mpr member)]
          refine congrArg (prefixed path) (flatMap_sortByKey_eq_iff.mpr ?_ _ perm)
          refine (ties 0 _ (.here _)).imp fun commutes tie => ?_
          have text := Std.LawfulEqCmp.eq_of_compare tie
          exact (inside_commute_iff text).mpr (commutes text)
        · rw [ordered_sameShape (same id).2 unordered]
    exact congrArg₂ (· ++ ·) own below

/-! ### Another order in one place -/

/-- Equal concatenations of pieces of equal lengths have equal pieces. -/
theorem pieces_eq {α β : Type} {f g : α → List β} {items : List α}
    (lengths : ∀ item ∈ items, (f item).length = (g item).length)
    (same : items.flatMap f = items.flatMap g) : ∀ item ∈ items, f item = g item := by
  induction items with
  | nil => exact fun item member => absurd member List.not_mem_nil
  | cons first items ih =>
    rw [List.flatMap_cons, List.flatMap_cons] at same
    obtain ⟨here, rest⟩ := List.append_inj same (lengths first List.mem_cons_self)
    refine List.forall_mem_cons.mpr ⟨here, ih (fun item member => ?_) rest⟩
    exact lengths item (List.mem_cons_of_mem first member)

/-- A node that is the same in both heaps holds the same. -/
theorem held_of_eq {id : ObjectId} (equal : heap' id = heap id)
    (texts : ∀ key ∈ keysOf heap (some id),
      renderKey toString heap' key = renderKey toString heap key) :
    held toString heap' (some id) = held toString heap (some id) := by
  have shapes : SameShape (heap id).shape (heap' id).shape := by
    rw [equal]
    exact .same _
  by_cases unordered : IsUnordered heap id
  · have entries : entriesOf toString heap' (some id) = entriesOf toString heap (some id) := by
      rcases unordered with ⟨items, shape⟩ | ⟨entries, shape⟩
      · simp only [keysOf, shape] at texts
        simp only [entriesOf, equal, shape]
        exact List.map_congr_left fun item member => by rw [texts item member]
      · simp only [keysOf, shape] at texts
        simp only [entriesOf, equal, shape]
        refine List.map_congr_left fun entry member => ?_
        rw [texts entry.1 (List.mem_map_of_mem member)]
    have unordered' := (unordered_sameShape shapes).mpr unordered
    rw [held_unordered unordered, held_unordered unordered', entries, stepOf_sameShape shapes]
  · exact ordered_sameShape shapes unordered

/-- The heaps differ at one object. -/
def DifferAt (heap heap' : Heap) (id : ObjectId) : Prop := ∀ other ≠ id, heap' other = heap other

theorem held_of_ne {id : ObjectId} (differ : DifferAt heap heap' id) {value : Value}
    (ne : value ≠ some id) (kept : TextsKept toString heap heap' value) :
    held toString heap' value = held toString heap value := by
  cases value with
  | none => rfl
  | some other => exact held_of_eq (differ other fun same => ne (congrArg some same)) kept.here

/-- What does not lead to the object records the same. -/
theorem preorder_of_apart {id : ObjectId} (same : SameContent heap heap')
    (differ : DifferAt heap heap' id) {left : ℕ} {path : Text} {value : Value}
    (kept : TextsKept toString heap heap' value)
    (apart : ∀ count target, Below (graph toString heap) count value target → target ≠ some id) :
    preorder (graph toString heap') left path value =
      preorder (graph toString heap) left path value := by
  induction left generalizing path value with
  | zero => rfl
  | succ left ih =>
    obtain ⟨here, children⟩ := forall_below_iff.mp apart
    have held : (graph toString heap').children value = (graph toString heap).children value :=
      held_of_ne differ here kept
    rw [preorder, preorder, held]
    refine congrArg₂ (· ++ ·) (own_sameContent same path value) ?_
    exact List.flatMap_congr fun child member => ih (kept.child member) (children child member)

/-- **Equal records are equal below the object**, wherever it is reached. -/
theorem preorder_eq_of_below {id : ObjectId} (same : SameContent heap heap')
    (differ : DifferAt heap heap' id) {count left : ℕ} {path : Text} {value : Value}
    (reached : Below (graph toString heap) count value (some id))
    (kept : TextsKept toString heap heap' value) (fits : Fits (graph toString heap) left value)
    (equal : preorder (graph toString heap') left path value =
      preorder (graph toString heap) left path value) :
    ∃ left' ≤ left, ∃ path', Fits (graph toString heap) left' (some id) ∧
      TextsKept toString heap heap' (some id) ∧
      preorder (graph toString heap') left' path' (some id) =
        preorder (graph toString heap) left' path' (some id) := by
  induction left generalizing count path value with
  | zero => exact fits.elim
  | succ left ih =>
    by_cases is : value = some id
    · subst is
      exact ⟨left + 1, Nat.le_refl _, path, fits, kept, equal⟩
    · cases reached with
      | here => exact absurd rfl is
      | @step _ _ child _ member below =>
        have held : (graph toString heap').children value = (graph toString heap).children value :=
          held_of_ne differ is kept
        rw [preorder, preorder, held] at equal
        have own : own heap' path value = own heap path value := own_sameContent same path value
        have rest := (List.append_inj equal (congrArg List.length own)).2
        have inside := pieces_eq (fun child member => length_preorder same (kept.child member)) rest
        obtain ⟨left', le, found⟩ := ih below (kept.child member) (fits child member)
          (inside child member)
        exact ⟨left', Nat.le_succ_of_le le, found⟩

/-- The heap with the entries of one set or dictionary in another order. -/
theorem exists_reordered {id : ObjectId} (unordered : IsUnordered heap id)
    {other : List (Text × Value)} (perm : (entriesOf toString heap (some id)).Perm other) :
    ∃ heap', SameContent heap heap' ∧ DifferAt heap heap' id ∧
      ((∀ key ∈ keysOf heap (some id), renderKey toString heap' key = renderKey toString heap key) →
        entriesOf toString heap' (some id) = other) := by
  have updated : ∀ shape, SameShape (heap id).shape shape →
      SameContent heap (Function.update heap id ⟨(heap id).isValueType, shape⟩) ∧
        DifferAt heap (Function.update heap id ⟨(heap id).isValueType, shape⟩) id := by
    intro shape same
    refine ⟨fun other => ?_, fun other ne => Function.update_of_ne ne _ _⟩
    by_cases is : other = id
    · subst is
      rw [Function.update_self]
      exact ⟨rfl, same⟩
    · rw [Function.update_of_ne is]
      exact ⟨rfl, .same _⟩
  rcases unordered with ⟨items, shape⟩ | ⟨entries, shape⟩
  · simp only [entriesOf, shape] at perm
    obtain ⟨items', perm', rfl⟩ := exists_perm_of_map perm
    obtain ⟨same, differ⟩ := updated (.set items') (by rw [shape]; exact .set perm')
    refine ⟨_, same, differ, fun texts => ?_⟩
    simp only [keysOf, shape] at texts
    simp only [entriesOf, Function.update_self]
    exact List.map_congr_left fun item member => by rw [texts item (perm'.mem_iff.mpr member)]
  · simp only [entriesOf, shape] at perm
    obtain ⟨entries', perm', rfl⟩ := exists_perm_of_map perm
    obtain ⟨same, differ⟩ := updated (.dictionary entries') (by rw [shape]; exact .dictionary perm')
    refine ⟨_, same, differ, fun texts => ?_⟩
    simp only [keysOf, shape] at texts
    simp only [entriesOf, Function.update_self]
    refine List.map_congr_left fun entry member => ?_
    rw [texts entry.1 (List.mem_map_of_mem (perm'.mem_iff.mpr member))]

/-- Nothing that an object holds leads back to it. -/
theorem apart_of_fits {id : ObjectId} {left : ℕ} (fits : Fits (graph toString heap) left (some id))
    {child : Step × Value} (member : child ∈ held toString heap (some id)) :
    ∀ count target, Below (graph toString heap) count child.2 target → target ≠ some id := by
  rintro count target below rfl
  exact not_fits_of_cycle (.step member below) fits

/-- Equal records of a set or dictionary in two orders are equal records of its entries. -/
theorem entries_of_preorder {id : ObjectId} {other : List (Text × Value)}
    (unordered : IsUnordered heap id) (perm : (entriesOf toString heap (some id)).Perm other)
    {left : ℕ} (small : left ≤ defaultMaxDepth) {path : Text} (same : SameContent heap heap')
    (differ : DifferAt heap heap' id) (kept : TextsKept toString heap heap' (some id))
    (reordered : entriesOf toString heap' (some id) = other)
    (fits : Fits (graph toString heap) left (some id))
    (equal : preorder (graph toString heap') left path (some id) =
      preorder (graph toString heap) left path (some id)) :
    (orderByText other).flatMap (inside toString heap id) =
      (orderByText (entriesOf toString heap (some id))).flatMap (inside toString heap id) := by
  obtain _ | left := left
  · exact fits.elim
  · have smaller := Nat.le_of_succ_le small
    have inTime : ∀ entry ∈ entriesOf toString heap (some id),
        Fits (graph toString heap) left entry.2 :=
      fun entry member => fits _ (held_of_entry unordered member)
    have children : ∀ child ∈ held toString heap (some id),
        preorder (graph toString heap') left (path ++ child.1.label) child.2 =
          preorder (graph toString heap) left (path ++ child.1.label) child.2 :=
      fun child member =>
        preorder_of_apart same differ (kept.child member) (apart_of_fits fits member)
    have own : own heap' path (some id) = own heap path (some id) := own_sameContent same path _
    have below : (held toString heap' (some id)).flatMap (fun child =>
          preorder (graph toString heap') left (path ++ child.1.label) child.2) =
        (held toString heap (some id)).flatMap (fun child =>
          preorder (graph toString heap) left (path ++ child.1.label) child.2) :=
      (List.append_inj equal (congrArg List.length own)).2
    rw [List.flatMap_congr fun child member =>
        children child ((held_perm same kept).mem_iff.mpr member), held_unordered unordered,
      held_unordered ((unordered_sameShape (same id).2).mpr unordered), stepOf_sameShape (same id).2,
      reordered, flatMap_entries smaller inTime, flatMap_entries smaller fun entry member =>
        inTime entry (perm.mem_iff.mpr member)] at below
    exact prefixed_injective path below

end Graph

/-! ### A whole call -/

section Root

variable {toString : Heap → ObjectId → Option Text} {heap heap' : Heap} {root : Root}

theorem TextsStable.kept (stable : TextsStable toString heap root) (same : SameContent heap heap')
    {member : Text × Value} (tracked : member ∈ root.members) :
    TextsKept toString heap heap' member.2 :=
  fun count target below => stable heap' same target ⟨member, tracked, count, below⟩

/-- **If ties commute, a call records the same in every order.** -/
theorem recordsOf_sameContent (stable : TextsStable toString heap root)
    (ties : TiesCommute toString heap root) (fits : RootFits toString heap root)
    (same : SameContent heap heap') (fieldNamePrefix : Text) :
    recordsOf toString heap' fieldNamePrefix root = recordsOf toString heap fieldNamePrefix root := by
  refine List.flatMap_congr fun member tracked => ?_
  have kept := stable.kept same tracked
  refine preorder_sameContent same (Nat.le_refl _) kept (fits member tracked) ?_ _
  exact fun count target below => ties target ⟨member, tracked, count, below⟩

/-- **If the same is recorded in every order, ties commute.** -/
theorem tiesCommute_of_recordsOf (stable : TextsStable toString heap root)
    (fits : RootFits toString heap root) (fieldNamePrefix : Text)
    (equal : ∀ heap', SameContent heap heap' →
      recordsOf toString heap' fieldNamePrefix root = recordsOf toString heap fieldNamePrefix root) :
    TiesCommute toString heap root := by
  rintro value ⟨member, tracked, count, reached⟩
  have none : ∀ {P : Text × Value → Text × Value → Prop}, entriesOf toString heap value = [] →
      (entriesOf toString heap value).Pairwise P := by
    intro P empty
    rw [empty]
    exact .nil
  cases value with
  | none => exact none rfl
  | some id =>
    by_cases unordered : IsUnordered heap id
    · have commute : (entriesOf toString heap (some id)).Pairwise fun entry other =>
          compare entry.1 other.1 = .eq →
            inside toString heap id entry ++ inside toString heap id other =
              inside toString heap id other ++ inside toString heap id entry := by
        refine flatMap_sortByKey_eq_iff.mp fun other perm => ?_
        obtain ⟨heap', same, differ, reordered⟩ := exists_reordered unordered perm
        have pieces := pieces_eq (fun member tracked =>
          length_preorder same (stable.kept same tracked)) (equal heap' same) member tracked
        obtain ⟨left, small, path, fitsThere, kept, there⟩ := preorder_eq_of_below same differ reached
          (stable.kept same tracked) (fits member tracked) pieces
        exact entries_of_preorder unordered perm small same differ kept (reordered kept.here) fitsThere
          there
      refine commute.imp fun {entry other} commutes tie => (inside_commute_iff tie).mp (commutes ?_)
      rw [tie]
      exact Std.ReflCmp.compare_self
    · exact none (entriesOf_ordered unordered)

/-- **With stable texts, the calls do not depend on enumeration orders exactly if ties commute.** -/
theorem unity_order_independent_iff (native : List Call → Option Text)
    (toString : Heap → ObjectId → Option Text) (heap : Heap) (fieldNamePrefix : Text) (root : Root)
    (recording after : Recording) (preview : List (Text × UInt64))
    (ok : hashReflected native toString heap fieldNamePrefix root recording = .ok preview after)
    (stable : TextsStable toString heap root) :
    (∀ heap', SameContent heap heap' → ∃ preview' after',
        hashReflected native toString heap' fieldNamePrefix root recording = .ok preview' after' ∧
          fieldCalls after'.calls = fieldCalls after.calls) ↔
      TiesCommute toString heap root := by
  have fits := fits_of_ok ok
  have made := ok
  rw [hashReflected_of_fits _ _ _ _ _ fits] at made
  constructor
  · intro same
    refine tiesCommute_of_recordsOf stable fits fieldNamePrefix ?_
    intro heap' content
    obtain ⟨preview', after', ok', calls⟩ := same heap' content
    rw [hashReflected_of_fits _ _ _ _ _ (fits_of_ok ok')] at ok'
    rw [fieldCalls_of_ok ok', fieldCalls_of_ok made] at calls
    exact List.append_cancel_left calls
  · intro ties heap' content
    have fits' : RootFits toString heap' root := fun member tracked =>
      fits_sameContent content (stable.kept content tracked) (fits member tracked)
    refine ⟨preview, after, ?_, rfl⟩
    rw [hashReflected_of_fits _ _ _ _ _ fits',
      recordsOf_sameContent stable ties fits content fieldNamePrefix]
    exact made

end Root

/-- A set of units at 0 that enumerates in some order; the units have the health 3 and 4. -/
def squad (order : List Value) : Heap
  | 0 => ⟨false, .set order⟩
  | 1 => ⟨false, .compound [(units "Health", some 3)]⟩
  | 2 => ⟨false, .compound [(units "Health", some 4)]⟩
  | 3 => ⟨true, .leaf (.integral .int 3)⟩
  | _ => ⟨true, .leaf (.integral .int 4)⟩

/-- A player with a squad. -/
def player : Root := ⟨units "Player", [(units "Squad", some 0)]⟩

theorem squad_sameContent {order order' : List Value} (perm : order.Perm order') :
    SameContent (squad order) (squad order') := by
  intro id
  unfold squad
  split
  · exact ⟨rfl, .set perm⟩
  all_goals exact ⟨rfl, .same _⟩

/-- Healths render as numbers, units all alike. -/
def plainText (_ : Heap) (id : ObjectId) : Option Text :=
  if id ≤ 2 then some (units "Unit") else some (units id.repr)

theorem squad_accepted {order : List Value} (fits : RootFits plainText (squad order) player) :
    ∃ preview after, hashReflected (fun _ => none) plainText (squad order) [] player ⟨[], [], []⟩ =
        .ok preview after ∧
      fieldCalls after.calls = recordsOf plainText (squad order) [] player := by
  obtain ⟨preview, after, ok⟩ := hashReflected_accepted ⟨[], [], []⟩ [] fits
  have made := ok
  rw [hashReflected_of_fits _ _ _ _ _ fits] at made
  exact ⟨preview, after, ok, fieldCalls_of_ok made⟩

theorem unity_order_independent_iff_healths :
    ∃ preview after, hashReflected (fun _ => none) plainText (squad [some 4, some 3]) [] player
        ⟨[], [], []⟩ = .ok preview after ∧
      fieldCalls after.calls =
        [(units "Squad\x7b3\x7d", [3, 0, 0, 0]), (units "Squad\x7b4\x7d", [4, 0, 0, 0])] := by
  obtain ⟨preview, after, ok, calls⟩ :=
    squad_accepted (show RootFits plainText (squad [some 3, some 4]) player by decide)
  have ties : TiesCommute plainText (squad [some 3, some 4]) player := by
    rintro value ⟨member, tracked, count, reached⟩
    obtain rfl := List.mem_singleton.mp tracked
    cases reached with
    | here => decide
    | @step _ _ child _ member below =>
      have leaves : ∀ child ∈ held plainText (squad [some 3, some 4]) (some 0),
          child.2 = some 3 ∨ child.2 = some 4 := by decide
      rcases leaves child member with leaf | leaf
      all_goals
        rw [leaf] at below
        cases below with
        | here => exact .nil
        | step member => cases member
  obtain ⟨preview', after', ok', same⟩ := (unity_order_independent_iff _ _ _ _ _ _ _ _ ok
    fun _ _ _ _ _ _ => rfl).mpr ties _ (squad_sameContent (.swap _ _ _))
  refine ⟨preview', after', ok', same.trans (calls.trans ?_)⟩
  decide

/-- Two units that render alike, in two orders. -/
theorem unity_order_shows_squad :
    ∃ preview after preview' after', SameContent (squad [some 1, some 2]) (squad [some 2, some 1]) ∧
      hashReflected (fun _ => none) plainText (squad [some 1, some 2]) [] player ⟨[], [], []⟩ =
        .ok preview after ∧
      hashReflected (fun _ => none) plainText (squad [some 2, some 1]) [] player ⟨[], [], []⟩ =
        .ok preview' after' ∧
      fieldCalls after.calls = [(units "Squad\x7bUnit\x7d.Health", [3, 0, 0, 0]),
        (units "Squad\x7bUnit\x7d.Health", [4, 0, 0, 0])] ∧
      fieldCalls after'.calls = [(units "Squad\x7bUnit\x7d.Health", [4, 0, 0, 0]),
        (units "Squad\x7bUnit\x7d.Health", [3, 0, 0, 0])] := by
  obtain ⟨preview, after, ok, calls⟩ :=
    squad_accepted (show RootFits plainText (squad [some 1, some 2]) player by decide)
  obtain ⟨preview', after', ok', calls'⟩ :=
    squad_accepted (show RootFits plainText (squad [some 2, some 1]) player by decide)
  refine ⟨preview, after, preview', after', squad_sameContent (.swap _ _ _), ok, ok',
    calls.trans ?_, calls'.trans ?_⟩
  · decide
  · decide

end Foldback.Unity
