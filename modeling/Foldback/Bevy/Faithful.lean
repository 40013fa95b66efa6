/-
**What the recorded fields say of the value.**

Only leaves and variants are recorded. Of a list the walk shows the indices of elements that record
something, of a map or set the renderings of such entries.

* `Visible`: the presence of what a container holds shows.
* `same_part`, `silent_part`: **two values that record the same do so part by part**; a part that the
  other value does not have records nothing.
* `Alike`: two values that record the same, with what tells their parts apart; there is one lemma for
  each kind of value.
* `reordered_of_unlimited_eq`: **typed values that record the same are equal**, up to the iteration
  orders of maps and sets.
-/

import Foldback.Bevy.Typed
import Foldback.Core.FieldFaithful

namespace Foldback.Bevy

open GuardedWalk PrefixCode

variable {τ ω : Type}

/-! ### Part by part -/

section Parts

variable {debug : ReflectRef ω → String} {value value' : ReflectRef ω} {path : String}

open Classical in
/-- What is recorded below a step. -/
noncomputable def below (debug : ReflectRef ω → String) (path : String) (step : Step)
    (value : ReflectRef ω) : List (String × Bytes) :=
  (unlimited debug path value).filter fun field => under (step.extend path) field.1

theorem below_part (well : Everywhere debug (WellNamed debug) value) {part : Step × ReflectRef ω}
    (member : part ∈ parts debug value) :
    below debug path part.1 value = unlimited debug (part.1.extend path) part.2 := by
  classical
  have kept : (preorder (reflection debug) (sizeOf value + 1) path value).filter
      (fun field => under (part.1.extend path) field.1) =
        preorder (reflection debug) (sizeOf value) (part.1.extend path) part.2 :=
    (separated_reflection debug).filter_child well member
  refine Eq.trans ?_ (kept.trans (preorder_unlimited (fits_sizeOf debug value part member)))
  unfold below unlimited
  congr

theorem below_none (well : Everywhere debug (WellNamed debug) value) {step : Step}
    (some : step.extend path ≠ "")
    (noOwn : ∀ field ∈ own debug path value, ¬ under (step.extend path) field.1)
    (apart : ∀ part ∈ parts debug value, StepsApart path part.1 step) :
    below debug path step value = [] := by
  classical
  have noPart : ∀ part ∈ parts debug value, ∀ name, under (part.1.extend path) name →
      ¬ under (step.extend path) name := fun part member name =>
    not_under_of_apart (apart part member)
      (extend_ne_empty well.here.names ((parts_perm debug value).mem_iff.mp member)) some
  have none : (preorder (reflection debug) (sizeOf value + 1) path value).filter
      (fun field => under (step.extend path) field.1) = [] :=
    (separated_reflection debug).toLocated.filter_none well noOwn noPart
  refine Eq.trans ?_ none
  unfold below unlimited
  congr

/-- **Parts under the same step record the same.** -/
theorem same_part (well : Everywhere debug (WellNamed debug) value)
    (well' : Everywhere debug (WellNamed debug) value')
    (same : unlimited debug path value = unlimited debug path value')
    {part part' : Step × ReflectRef ω} (member : part ∈ parts debug value)
    (member' : part' ∈ parts debug value') (step : part.1 = part'.1) :
    unlimited debug (part.1.extend path) part.2 = unlimited debug (part.1.extend path) part'.2 := by
  have records : below debug path part.1 value = unlimited debug (part.1.extend path) part.2 :=
    below_part well member
  rw [below, same, step] at records
  rw [step, ← records]
  exact below_part well' member'

/-- **A part that the other value does not have records nothing.** -/
theorem silent_part (well : Everywhere debug (WellNamed debug) value)
    (well' : Everywhere debug (WellNamed debug) value')
    (same : unlimited debug path value = unlimited debug path value')
    {part : Step × ReflectRef ω} (member : part ∈ parts debug value)
    (noOwn : own debug path value' = [])
    (apart : ∀ part' ∈ parts debug value', StepsApart path part'.1 part.1) :
    Silent debug part.2 := by
  have some : part.1.extend path ≠ "" :=
    extend_ne_empty well.here.names ((parts_perm debug value).mem_iff.mp member)
  have none := below_none well' some
    (fun field inOwn => absurd (noOwn ▸ inOwn) List.not_mem_nil) apart
  have records : below debug path part.1 value = unlimited debug (part.1.extend path) part.2 :=
    below_part well member
  rw [below, same] at records
  exact silent_of_nil (records.symm.trans none)

end Parts

/-! ### Lists that correspond -/

section Lists

theorem forall₂_imp_mem {α β : Type} {R S : α → β → Prop} {first : List α} {second : List β}
    (related : List.Forall₂ R first second) (all : ∀ a ∈ first, ∀ b ∈ second, R a b → S a b) :
    List.Forall₂ S first second := by
  induction related with
  | nil => exact .nil
  | @cons a b first second here _ ih =>
    refine .cons (all a List.mem_cons_self b List.mem_cons_self here) (ih fun c member d member' => ?_)
    exact all c (List.mem_cons_of_mem _ member) d (List.mem_cons_of_mem _ member')

theorem forall₂_meet {α β γ : Type} {R : α → γ → Prop} {S : β → γ → Prop} {first : List α}
    {second : List β} {middle : List γ} (one : List.Forall₂ R first middle)
    (other : List.Forall₂ S second middle) :
    List.Forall₂ (fun a b => ∃ c, R a c ∧ S b c) first second := by
  induction one generalizing second with
  | nil =>
    cases other
    exact .nil
  | cons here _ ih =>
    cases other with
    | cons there rest => exact .cons ⟨_, here, there⟩ (ih rest)

theorem forall₂_of_length {α β : Type} {R : α → β → Prop} {first : List α} {second : List β}
    (length : first.length = second.length) (all : ∀ a ∈ first, ∀ b ∈ second, R a b) :
    List.Forall₂ R first second := by
  induction first generalizing second with
  | nil =>
    cases second with
    | nil => exact .nil
    | cons b second => cases length
  | cons a first ih =>
    cases second with
    | nil => cases length
    | cons b second =>
      refine .cons (all a List.mem_cons_self b List.mem_cons_self)
        (ih (Nat.succ.inj length) fun c member d member' => ?_)
      exact all c (List.mem_cons_of_mem _ member) d (List.mem_cons_of_mem _ member')

/-- Lists with the same distinct texts: one of them reordered corresponds to the other. -/
theorem exists_middle {α : Type} {text : α → String} {first second : List α}
    (nodup : (first.map text).Nodup) (nodup' : (second.map text).Nodup)
    (right : ∀ a ∈ first, ∃ b ∈ second, text a = text b)
    (left : ∀ b ∈ second, ∃ a ∈ first, text a = text b) :
    ∃ middle, first.Perm middle ∧ List.Forall₂ (fun a b => text a = text b) middle second := by
  have perm : (first.map text).Perm (second.map text) := by
    refine (List.perm_ext_iff_of_nodup nodup nodup').mpr fun name => ?_
    rw [List.mem_map, List.mem_map]
    constructor
    · rintro ⟨a, member, rfl⟩
      obtain ⟨b, member', same⟩ := right a member
      exact ⟨b, member', same.symm⟩
    · rintro ⟨b, member', rfl⟩
      exact left b member'
  have texts : List.Forall₂ (fun a name => text a = name) first (first.map text) :=
    List.forall₂_map_right_iff.mpr (List.forall₂_same.mpr fun _ _ => rfl)
  have both : Relation.Comp (List.Forall₂ fun a name => text a = name) List.Perm first
      (second.map text) := ⟨_, texts, perm⟩
  rw [List.forall₂_comp_perm_eq_perm_comp_forall₂] at both
  obtain ⟨middle, reordered, related⟩ := both
  exact ⟨middle, reordered, List.forall₂_map_right_iff.mp related⟩

end Lists

/-! ### Values of one type -/

section Typed

variable {types : Types τ ω} {debug : ReflectRef ω → String} {occurs : ReflectRef ω → Prop}

/-- What a container holds shows: the last element of a list, the entries of a map or set. -/
def Visible (debug : ReflectRef ω → String) : ReflectRef ω → Prop
  | .list items => ∀ item ∈ items.getLast?, ¬ Silent debug item
  | .map entries => ∀ entry ∈ entries, ¬ Silent debug entry.2
  | .set items => ∀ item ∈ items, ¬ Silent debug item
  | _ => True

/-- Values whose renderings can be told apart and whose entries show, with all their parts. -/
structure Tellable (types : Types τ ω) (debug : ReflectRef ω → String)
    (occurs : ReflectRef ω → Prop) : Prop where
  closed : ∀ value, occurs value → ∀ part ∈ parts debug value, occurs part.2
  legible : ∀ value value' ty, occurs value → occurs value' → HasType types value ty →
    HasType types value' ty → Legible debug value value'
  visible : ∀ value, occurs value → Visible debug value

theorem Tellable.wellNamed (tellable : Tellable types debug occurs) {value : ReflectRef ω} {ty : τ}
    (occurring : occurs value) (typed : HasType types value ty) :
    Everywhere debug (WellNamed debug) value := by
  induction value using parts_induction debug generalizing ty with
  | step value ih =>
    refine everywhere_iff.mpr ⟨?_, fun part member => ?_⟩
    · exact typed.wellNamed (tellable.legible value value ty occurring occurring typed typed)
    · obtain ⟨ty', typedPart⟩ := typed.part member
      exact ih part member (tellable.closed value occurring part member) typedPart

/-- Two values of some type. -/
def SameType (types : Types τ ω) (value value' : ReflectRef ω) : Prop :=
  ∃ ty, HasType types value ty ∧ HasType types value' ty

/-- Under the same step, parts of one type are equal. -/
def PartsEqual (types : Types τ ω) (debug : ReflectRef ω → String) (value value' : ReflectRef ω) :
    Prop :=
  ∀ part ∈ parts debug value, ∀ part' ∈ parts debug value', part.1 = part'.1 →
    SameType types part.2 part'.2 → Reordered part.2 part'.2

variable {value value' : ReflectRef ω}

/-- Parts numbered one by one. -/
theorem reordered_indexed {f : ℕ → Step} {items items' : List (ReflectRef ω)}
    (equal : PartsEqual types debug value value')
    (inParts : ∀ item ∈ items.zipIdx, (f item.2, item.1) ∈ parts debug value)
    (inParts' : ∀ item ∈ items'.zipIdx, (f item.2, item.1) ∈ parts debug value')
    (related : List.Forall₂ (SameType types) items items') : List.Forall₂ Reordered items items' := by
  have numbered : List.Forall₂ (fun a b => Reordered a.1 b.1) items.zipIdx items'.zipIdx := by
    refine forall₂_imp_mem (forall₂_zipIdx related 0) fun item member item' member' both => ?_
    exact equal _ (inParts item member) _ (inParts' item' member') (congrArg f both.1) both.2
  have firsts : ∀ items : List (ReflectRef ω), items.zipIdx.map Prod.fst = items :=
    fun items => List.zipIdx_map_fst 0 items
  rw [← firsts items, ← firsts items', List.forall₂_map_left_iff, List.forall₂_map_right_iff]
  exact numbered

/-- Parts with names. -/
theorem reordered_named {ν : Type} {fields fields' : List (ν × ReflectRef ω)}
    {fieldTypes : List (ν × τ)} (names : fields.map Prod.fst = fieldTypes.map Prod.fst)
    (names' : fields'.map Prod.fst = fieldTypes.map Prod.fst)
    (values : List.Forall₂ (HasType types) (fields.map Prod.snd) (fieldTypes.map Prod.snd))
    (values' : List.Forall₂ (HasType types) (fields'.map Prod.snd) (fieldTypes.map Prod.snd)) :
    List.Forall₂ (fun a b => a.1 = b.1 ∧ SameType types a.2 b.2) fields fields' :=
  forall₂_components (names.trans names'.symm) (forall₂_meet values values')

/-- The last element of a list shows how long the list is. -/
theorem length_le_of_visible {path : String} {items items' : List (ReflectRef ω)}
    (well : Everywhere debug (WellNamed debug) (.list items))
    (well' : Everywhere debug (WellNamed debug) (.list items'))
    (same : unlimited debug path (.list items) = unlimited debug path (.list items'))
    (visible : Visible debug (.list items)) : items.length ≤ items'.length := by
  by_contra longer
  rw [Nat.not_le] at longer
  have some : items ≠ [] := by
    rintro rfl
    exact absurd longer (Nat.not_lt_zero _)
  have numbered : (items.getLast some, items.length - 1) ∈ items.zipIdx := by
    rw [List.mem_zipIdx_iff_getElem?, List.getLast_eq_getElem, List.getElem?_eq_getElem]
  have member : (Step.item (items.length - 1), items.getLast some) ∈ parts debug (.list items) :=
    List.mem_map.mpr ⟨_, numbered, rfl⟩
  refine visible _ (List.getLast?_eq_some_getLast some) (silent_part well well' same member rfl ?_)
  intro part' member'
  obtain ⟨item', inItems', rfl⟩ := List.mem_map.mp member'
  have bound := (List.mem_zipIdx inItems').2.1
  exact item_apart path (by omega)

/-- A map or a set: its parts are its entries under their renderings. -/
structure Bracketed (debug : ReflectRef ω → String) (bracket : String → Step) (close : Char)
    (value : ReflectRef ω) : Prop where
  closing : closing value = close
  own : ∀ path, own debug path value = []
  mem_parts : ∀ part, part ∈ parts debug value ↔
    ∃ entry ∈ rendered value, (bracket (debug entry.1), entry.2) = part
  apart : ∀ path text text', ClosedApart close text text' →
    StepsApart path (bracket text) (bracket text')

theorem bracketed_map (debug : ReflectRef ω → String) (entries : List (ReflectRef ω × ReflectRef ω)) :
    Bracketed debug .key ']' (.map entries) where
  closing := rfl
  own _ := rfl
  mem_parts _ := (parts_perm debug _).mem_iff.trans List.mem_map
  apart path _ _ apart := key_apart path apart

theorem bracketed_set (debug : ReflectRef ω → String) (items : List (ReflectRef ω)) :
    Bracketed debug .element '}' (.set items) where
  closing := rfl
  own _ := rfl
  mem_parts part := by
    refine (parts_perm debug _).mem_iff.trans (List.mem_map.trans ?_)
    simp only [rendered, List.mem_map, exists_exists_and_eq_and]
  apart path _ _ apart := element_apart path apart

/-- **The renderings of entries that show are found in the other value.** -/
theorem exists_rendering {bracket : String → Step} {close : Char} {path : String}
    (bracketed : Bracketed debug bracket close value)
    (bracketed' : Bracketed debug bracket close value')
    (well : Everywhere debug (WellNamed debug) value)
    (well' : Everywhere debug (WellNamed debug) value')
    (same : unlimited debug path value = unlimited debug path value')
    (legible : Legible debug value' value)
    (visible : ∀ entry ∈ rendered value, ¬ Silent debug entry.2) :
    ∀ entry ∈ rendered value, ∃ entry' ∈ rendered value', debug entry.1 = debug entry'.1 := by
  intro entry inRendered
  by_contra none
  push Not at none
  have member := (bracketed.mem_parts _).mpr ⟨entry, inRendered, rfl⟩
  refine visible entry inRendered (silent_part well well' same member (bracketed'.own path) ?_)
  intro part' member'
  obtain ⟨entry', inRendered', rfl⟩ := (bracketed'.mem_parts part').mp member'
  refine bracketed.apart path _ _ ?_
  rw [← bracketed'.closing]
  exact legible.delimited entry' inRendered' entry inRendered (none entry' inRendered').symm

/-- **The entries of two such values correspond**, in some order. -/
theorem exists_corresponding {bracket : String → Step} {close : Char} {path : String}
    (bracketed : Bracketed debug bracket close value)
    (bracketed' : Bracketed debug bracket close value')
    (well : Everywhere debug (WellNamed debug) value)
    (well' : Everywhere debug (WellNamed debug) value')
    (same : unlimited debug path value = unlimited debug path value')
    (legible : Legible debug value value') (legible' : Legible debug value' value)
    (visible : ∀ entry ∈ rendered value, ¬ Silent debug entry.2)
    (visible' : ∀ entry ∈ rendered value', ¬ Silent debug entry.2)
    (equal : PartsEqual types debug value value')
    (typed : ∀ entry ∈ rendered value, ∀ entry' ∈ rendered value',
      SameType types entry.2 entry'.2) :
    ∃ middle, (rendered value).Perm middle ∧
      List.Forall₂ (fun entry entry' => Reordered entry.1 entry'.1 ∧ Reordered entry.2 entry'.2)
        middle (rendered value') := by
  have nodup : ∀ {value : ReflectRef ω}, WellNamed debug value →
      ((rendered value).map fun entry => debug entry.1).Nodup := by
    intro value well
    refine List.pairwise_map.mpr (well.renderings.imp fun apart text => ?_)
    rw [text] at apart
    exact apart [] [] rfl
  obtain ⟨middle, perm, related⟩ := exists_middle (nodup well.here) (nodup well'.here)
    (exists_rendering bracketed bracketed' well well' same legible' visible) fun entry' member' => by
      obtain ⟨entry, member, text⟩ :=
        exists_rendering bracketed' bracketed well' well same.symm legible visible' entry' member'
      exact ⟨entry, member, text.symm⟩
  refine ⟨middle, perm, forall₂_imp_mem related fun entry inMiddle entry' member' text => ?_⟩
  have member := perm.mem_iff.mpr inMiddle
  refine ⟨legible.injective entry member entry' member' text, ?_⟩
  exact equal _ ((bracketed.mem_parts _).mpr ⟨entry, member, rfl⟩) _
    ((bracketed'.mem_parts _).mpr ⟨entry', member', rfl⟩) (congrArg bracket text)
    (typed entry member entry' member')

/-- Leaves of one type are told apart by their bytes. -/
theorem leaf_eq {kind : LeafKind ω} {leaf leaf' : Leaf ω} (holds : kind.Holds leaf)
    (holds' : kind.Holds leaf') (legible : Legible debug (.leaf leaf) (.leaf leaf'))
    (same : leafBytes debug leaf = leafBytes debug leaf') : leaf = leaf' := by
  cases kind with
  | int ty =>
    cases leaf <;> cases holds
    cases leaf' <;> cases holds'
    exact congrArg _ (content_eq_of_leBytes same)
  | size signed =>
    cases leaf <;> cases holds
    cases leaf' <;> cases holds'
    exact congrArg _ (@content_eq_of_leBytes 8 _ _ same)
  | float ty =>
    cases leaf <;> cases holds
    cases leaf' <;> cases holds'
    exact congrArg _ (content_eq_of_leBytes same)
  | bool =>
    cases leaf <;> cases holds
    cases leaf' <;> cases holds'
    rename_i value value'
    cases value <;> cases value' <;> first | rfl | cases same
  | string =>
    cases leaf <;> cases holds
    cases leaf' <;> cases holds'
    exact congrArg _ (asBytes_injective same)
  | other holdsOf =>
    cases leaf with
    | other value =>
      cases leaf' with
      | other value' => exact congrArg _ (legible.leaves value value' rfl rfl (asBytes_injective same))
      | _ => cases holds'
    | _ => cases holds

/-! ### Two values that record the same -/

/-- Two values that record the same, whose parts of one type are equal under the same step. -/
structure Alike (types : Types τ ω) (debug : ReflectRef ω → String) (path : String)
    (value value' : ReflectRef ω) : Prop where
  well : Everywhere debug (WellNamed debug) value
  well' : Everywhere debug (WellNamed debug) value'
  same : unlimited debug path value = unlimited debug path value'
  legible : Legible debug value value'
  legible' : Legible debug value' value
  visible : Visible debug value
  visible' : Visible debug value'
  equal : PartsEqual types debug value value'

namespace Alike

variable {path : String}

theorem reordered_struct {typePath : String} {fields fields' : List (String × ReflectRef ω)}
    (alike : Alike types debug path (.struct typePath fields) (.struct typePath fields'))
    (related : List.Forall₂ (fun a b => a.1 = b.1 ∧ SameType types a.2 b.2) fields fields') :
    Reordered (.struct typePath fields) (.struct typePath fields') := by
  refine .of_fields (forall₂_imp_mem related fun field member field' member' both => ?_)
  refine ⟨both.1, ?_⟩
  exact alike.equal (.field field.1, field.2) (List.mem_map_of_mem member)
    (.field field'.1, field'.2) (List.mem_map_of_mem member') (congrArg Step.field both.1) both.2

theorem reordered_list {items items' : List (ReflectRef ω)}
    (alike : Alike types debug path (.list items) (.list items'))
    (typed : ∀ item ∈ items, ∀ item' ∈ items', SameType types item item') :
    Reordered (.list items) (.list items') := by
  have length : items.length = items'.length :=
    Nat.le_antisymm (length_le_of_visible alike.well alike.well' alike.same alike.visible)
      (length_le_of_visible alike.well' alike.well alike.same.symm alike.visible')
  exact .list (reordered_indexed alike.equal (fun _ => List.mem_map_of_mem)
    (fun _ => List.mem_map_of_mem) (forall₂_of_length length typed))

theorem reordered_map {entries entries' : List (ReflectRef ω × ReflectRef ω)}
    (alike : Alike types debug path (.map entries) (.map entries'))
    (typed : ∀ entry ∈ entries, ∀ entry' ∈ entries', SameType types entry.2 entry'.2) :
    Reordered (.map entries) (.map entries') := by
  obtain ⟨middle, perm, related⟩ := exists_corresponding (bracketed_map debug entries)
    (bracketed_map debug entries') alike.well alike.well' alike.same alike.legible alike.legible'
    alike.visible alike.visible' alike.equal typed
  exact .map perm (forall₂_map (fun _ _ both => both.1) related)
    (forall₂_map (fun _ _ both => both.2) related)

theorem reordered_set {items items' : List (ReflectRef ω)}
    (alike : Alike types debug path (.set items) (.set items'))
    (typed : ∀ item ∈ items, ∀ item' ∈ items', SameType types item item') :
    Reordered (.set items) (.set items') := by
  have unpaired : ∀ items : List (ReflectRef ω), (rendered (.set items)).map Prod.fst = items := by
    intro items
    rw [rendered, List.map_map]
    exact List.map_id items
  obtain ⟨middle, perm, related⟩ := exists_corresponding (bracketed_set debug items)
    (bracketed_set debug items') alike.well alike.well' alike.same alike.legible alike.legible'
    (List.forall_mem_map.mpr alike.visible) (List.forall_mem_map.mpr alike.visible') alike.equal
    (List.forall_mem_map.mpr fun item member => List.forall_mem_map.mpr (typed item member))
  refine .set ((unpaired items) ▸ perm.map Prod.fst) ?_
  rw [← unpaired items']
  exact forall₂_map (fun _ _ both => both.1) related

/-- The variant is recorded first. -/
theorem variantName_eq {typePath variantName variantName' : String}
    {fields fields' : List (Option String × ReflectRef ω)}
    (alike : Alike types debug path (.enum typePath variantName fields)
      (.enum typePath variantName' fields')) : variantName = variantName' := by
  have first := alike.same
  rw [unlimited_eq, unlimited_eq] at first
  exact asBytes_injective (congrArg Prod.snd (List.cons.inj first).1)

theorem reordered_enum {typePath variantName : String}
    {fields fields' : List (Option String × ReflectRef ω)}
    (alike : Alike types debug path (.enum typePath variantName fields)
      (.enum typePath variantName fields'))
    (related : List.Forall₂ (fun a b => a.1 = b.1 ∧ SameType types a.2 b.2) fields fields') :
    Reordered (.enum typePath variantName fields) (.enum typePath variantName fields') := by
  let label := fun field : (Option String × ReflectRef ω) × ℕ =>
    Step.payload variantName (field.1.1.getD (toString field.2))
  have numbered : List.Forall₂ (fun a b => Reordered a.1.2 b.1.2) fields.zipIdx fields'.zipIdx := by
    refine forall₂_imp_mem (forall₂_zipIdx related 0) fun field member field' member' both => ?_
    have step : label field = label field' := by
      show Step.payload _ _ = Step.payload _ _
      rw [both.1, both.2.1]
    exact alike.equal (label field, field.1.2) (List.mem_map_of_mem member)
      (label field', field'.1.2) (List.mem_map_of_mem member') step both.2.2
  have values : ∀ fields : List (Option String × ReflectRef ω),
      fields.map Prod.snd = fields.zipIdx.map fun field => field.1.2 := by
    intro fields
    rw [← List.zipIdx_map_fst 0 fields, List.map_map, List.zipIdx_map_fst]
    rfl
  refine .enum (names_of_components related) ?_
  rw [values fields, values fields']
  exact forall₂_map (fun _ _ both => both) numbered

theorem reordered_leaf {kind : LeafKind ω} {leaf leaf' : Leaf ω}
    (alike : Alike types debug path (.leaf leaf) (.leaf leaf')) (holds : kind.Holds leaf)
    (holds' : kind.Holds leaf') : Reordered (.leaf leaf) (.leaf leaf') := by
  have same := alike.same
  rw [unlimited_eq, unlimited_eq] at same
  rw [leaf_eq holds holds' alike.legible (congrArg Prod.snd (List.cons.inj same).1)]
  exact .leaf leaf'

end Alike

/-- Values of one type that record the same are alike, if their parts are told apart. -/
theorem Tellable.alike (tellable : Tellable types debug occurs) {path : String} {ty : τ}
    (occurring : occurs value) (occurring' : occurs value') (typed : HasType types value ty)
    (typed' : HasType types value' ty)
    (same : unlimited debug path value = unlimited debug path value')
    (parts_equal : ∀ part ∈ parts debug value, ∀ (path : String) (part' : ReflectRef ω) (ty : τ),
      occurs part.2 → occurs part' → HasType types part.2 ty → HasType types part' ty →
        unlimited debug path part.2 = unlimited debug path part' → Reordered part.2 part') :
    Alike types debug path value value' where
  well := tellable.wellNamed occurring typed
  well' := tellable.wellNamed occurring' typed'
  same := same
  legible := tellable.legible value value' ty occurring occurring' typed typed'
  legible' := tellable.legible value' value ty occurring' occurring typed' typed
  visible := tellable.visible value occurring
  visible' := tellable.visible value' occurring'
  equal := by
    intro part member part' member' step both
    obtain ⟨ty', typedPart, typedPart'⟩ := both
    exact parts_equal part member _ part'.2 ty' (tellable.closed value occurring part member)
      (tellable.closed value' occurring' part' member') typedPart typedPart'
      (same_part (tellable.wellNamed occurring typed) (tellable.wellNamed occurring' typed') same
        member member' step)

/-- **Typed values that record the same are equal**, up to iteration orders. -/
theorem reordered_of_unlimited_eq (tellable : Tellable types debug occurs) {path : String} {ty : τ}
    (occurring : occurs value) (occurring' : occurs value') (typed : HasType types value ty)
    (typed' : HasType types value' ty)
    (same : unlimited debug path value = unlimited debug path value') : Reordered value value' := by
  induction value using parts_induction debug generalizing value' ty path with
  | step value ih =>
    have alike := tellable.alike occurring occurring' typed typed' same
      fun part member _ _ _ one other typed typed' => ih part member one other typed typed'
    have shaped := typed.shaped
    have shaped' := typed'.shaped
    rcases info : types.info ty with
      ⟨typePath, fieldTypes⟩ | ⟨typePath, fieldTypes⟩ | fieldTypes | item | ⟨item, capacity⟩ |
        ⟨keyType, valueType⟩ | item | ⟨typePath, variants⟩ | kind
    all_goals rw [info] at shaped shaped'
    · obtain ⟨fields, rfl, names, values⟩ := shaped
      obtain ⟨fields', rfl, names', values'⟩ := shaped'
      exact alike.reordered_struct (reordered_named names names' values values')
    · obtain ⟨fields, rfl, values⟩ := shaped
      obtain ⟨fields', rfl, values'⟩ := shaped'
      exact .tupleStruct (reordered_indexed alike.equal (fun _ => List.mem_map_of_mem)
        (fun _ => List.mem_map_of_mem) (forall₂_meet values values'))
    · obtain ⟨fields, rfl, values⟩ := shaped
      obtain ⟨fields', rfl, values'⟩ := shaped'
      exact .tuple (reordered_indexed alike.equal (fun _ => List.mem_map_of_mem)
        (fun _ => List.mem_map_of_mem) (forall₂_meet values values'))
    · obtain ⟨items, rfl, values⟩ := shaped
      obtain ⟨items', rfl, values'⟩ := shaped'
      exact alike.reordered_list fun value member value' member' =>
        ⟨item, values value member, values' value' member'⟩
    · obtain ⟨items, rfl, length, values⟩ := shaped
      obtain ⟨items', rfl, length', values'⟩ := shaped'
      exact .array (reordered_indexed alike.equal (fun _ => List.mem_map_of_mem)
        (fun _ => List.mem_map_of_mem) (forall₂_of_length (length.trans length'.symm)
          fun value member value' member' => ⟨item, values value member, values' value' member'⟩))
    · obtain ⟨entries, rfl, keys, values, distinct⟩ := shaped
      obtain ⟨entries', rfl, keys', values', distinct'⟩ := shaped'
      exact alike.reordered_map fun entry member entry' member' =>
        ⟨valueType, values entry member, values' entry' member'⟩
    · obtain ⟨items, rfl, values, distinct⟩ := shaped
      obtain ⟨items', rfl, values', distinct'⟩ := shaped'
      exact alike.reordered_set fun value member value' member' =>
        ⟨item, values value member, values' value' member'⟩
    · obtain ⟨variantName, fields, fieldTypes, rfl, variant, names, values⟩ := shaped
      obtain ⟨variantName', fields', fieldTypes', rfl, variant', names', values'⟩ := shaped'
      obtain rfl := alike.variantName_eq
      have ok := types.namesOk ty
      rw [info] at ok
      cases List.inj_on_of_nodup_map ok.1 variant variant' rfl
      exact alike.reordered_enum (reordered_named names names' values values')
    · obtain ⟨leaf, rfl, holds⟩ := shaped
      obtain ⟨leaf', rfl, holds'⟩ := shaped'
      exact alike.reordered_leaf holds holds'

end Typed

end Foldback.Bevy
