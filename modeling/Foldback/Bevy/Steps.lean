/-
**Field paths and their steps.**

Paths are joined from texts, with dots, colons and brackets between.

* `Step.label`: what a step adds to a path. `under path name`: the name is the path, followed by
  nothing or by what opens a step.
* `WellNamed`: fields and variants are named by identifiers, and renderings end at their brackets.
* `stepsApart_parts`: **then no name is under two steps of one value.**
-/

import Foldback.Bevy.Reordered
import Foldback.Lib.PrefixCode

namespace Foldback.Bevy

open GuardedWalk PrefixCode

variable {ω : Type}

/-! ### Names -/

/-- The symbols that open a step. -/
def opening (c : Char) : Prop := c ∈ ['.', '[', '{', ':']

/-- What every identifier of Rust is: not empty, no digit first, and without any of these symbols. -/
structure IsIdentifier (text : String) : Prop where
  starts : ∃ c rest, text.toList = c :: rest ∧ c.isDigit = false
  free : ∀ c ∈ text.toList, ¬ opening c

theorem IsIdentifier.ne_empty {text : String} (identifier : IsIdentifier text) : text ≠ "" := by
  rintro rfl
  obtain ⟨c, rest, cons, _⟩ := identifier.starts
  cases cons

theorem not_opening_of_isDigit {c : Char} (digit : c.isDigit = true) : ¬ opening c := by
  intro opens
  simp only [opening, List.mem_cons, List.not_mem_nil, or_false] at opens
  rcases opens with rfl | rfl | rfl | rfl
  all_goals cases digit

theorem IsIdentifier.ne_toString {text : String} (identifier : IsIdentifier text) (i : ℕ) :
    text ≠ toString i := by
  rintro rfl
  obtain ⟨c, rest, cons, noDigit⟩ := identifier.starts
  have digit := isDigit_of_mem (i := i) (c := c) (by rw [cons]; exact List.mem_cons_self)
  rw [digit] at noDigit
  cases noDigit

/-! ### Labels -/

/-- What a step adds to a path. -/
def Step.label (path : String) : Step → List Char
  | .field name => if path.isEmpty then name.toList else '.' :: name.toList
  | .index i => '.' :: (toString i).toList
  | .item i => '[' :: ((toString i).toList ++ [']'])
  | .key text => '[' :: (text.toList ++ [']'])
  | .element text => '{' :: (text.toList ++ ['}'])
  | .payload variantName fieldLabel =>
    ':' :: ':' :: (variantName.toList ++ '.' :: fieldLabel.toList)

theorem toList_extend (path : String) (step : Step) :
    (step.extend path).toList = path.toList ++ step.label path := by
  cases step with
  | field name =>
    show (joinPath path name).toList = _
    rw [joinPath, Step.label]
    split
    · rename_i empty
      rw [String.isEmpty_iff.mp empty]
      rfl
    · rw [String.toList_append, String.toList_append, List.append_assoc]
      rfl
  | _ =>
    simp only [Step.extend, Step.label, String.toList_append, List.append_assoc]
    rfl

/-- The names of what is recorded. -/
noncomputable def names (debug : ReflectRef ω → String) (path : String) (value : ReflectRef ω) :
    List String :=
  (unlimited debug path value).map Prod.fst

/-- Every name starts with the path. -/
theorem prefix_of_name {debug : ReflectRef ω → String} {path name : String} {value : ReflectRef ω}
    (recorded : name ∈ names debug path value) : path.toList <+: name.toList := by
  induction value using parts_induction debug generalizing path with
  | step value ih =>
    obtain ⟨field, member, rfl⟩ := List.mem_map.mp recorded
    rw [unlimited_eq, List.mem_append] at member
    rcases member with ofOwn | ofPart
    · cases value with
      | enum typePath variantName fields =>
        cases List.mem_singleton.mp ofOwn
        simp only [String.toList_append, List.append_assoc]
        exact List.prefix_append _ _
      | leaf leaf =>
        cases List.mem_singleton.mp ofOwn
        exact List.prefix_refl _
      | _ => cases ofOwn
    · obtain ⟨part, inParts, below⟩ := List.mem_flatMap.mp ofPart
      have longer := ih part inParts (List.mem_map_of_mem below)
      rw [toList_extend] at longer
      exact (List.prefix_append _ _).trans longer

/-- The name is the path, followed by nothing or by an opening symbol. -/
def under (path name : String) : Prop :=
  path = "" ∨ ∃ rest, Opens opening rest ∧ name.toList = path.toList ++ rest

/-- No name is under both steps. -/
def StepsApart (path : String) (step step' : Step) : Prop :=
  Apart (Opens opening) (step.label path) (step'.label path)

theorem not_under_of_apart {path name : String} {step step' : Step}
    (apart : StepsApart path step step') (some : step.extend path ≠ "")
    (some' : step'.extend path ≠ "") (inStep : under (step.extend path) name) :
    ¬ under (step'.extend path) name := by
  intro inStep'
  obtain ⟨rest, opens, split⟩ := inStep.resolve_left some
  obtain ⟨rest', opens', split'⟩ := inStep'.resolve_left some'
  rw [toList_extend, List.append_assoc] at split split'
  exact apart rest rest' opens opens' (List.append_cancel_left (split.symm.trans split'))

/-! ### Well-named values -/

/-- The symbol that closes a rendering. -/
def closing : ReflectRef ω → Char
  | .set _ => '}'
  | _ => ']'

/-- Neither rendering, with the symbol that closes it, begins the other. -/
def ClosedApart (close : Char) (first second : String) : Prop :=
  ∀ s t, first.toList ++ close :: s ≠ second.toList ++ close :: t

/-- Fields and variants have names, as Rust makes sure. -/
def NamesOk : ReflectRef ω → Prop
  | .struct _ fields => (∀ field ∈ fields, IsIdentifier field.1) ∧ (fields.map Prod.fst).Nodup
  | .enum _ variantName fields =>
    IsIdentifier variantName ∧ (∀ field ∈ fields, ∀ name ∈ field.1, IsIdentifier name) ∧
      (fields.filterMap Prod.fst).Nodup
  | _ => True

/-- Names are in order, and the renderings of different entries stay apart. -/
structure WellNamed (debug : ReflectRef ω → String) (value : ReflectRef ω) : Prop where
  names : NamesOk value
  renderings : (rendered value).Pairwise fun entry entry' =>
    ClosedApart (closing value) (debug entry.1) (debug entry'.1)

/-! ### The steps of one value -/

section Siblings

variable {debug : ReflectRef ω → String} {value : ReflectRef ω} (path : String)

theorem pairwise_zipIdx {α : Type} {R : α → α → Prop} {items : List α} (pairwise : items.Pairwise R)
    (start : ℕ) : (items.zipIdx start).Pairwise fun a b => R a.1 b.1 ∧ a.2 ≠ b.2 := by
  induction pairwise generalizing start with
  | nil => exact .nil
  | @cons item items first _ ih =>
    rw [List.zipIdx_cons]
    refine .cons (fun entry member => ⟨first entry.1 (List.fst_mem_of_mem_zipIdx member), ?_⟩)
      (ih (start + 1))
    have := (List.mem_zipIdx member).1
    show start ≠ entry.2
    omega

theorem field_apart {name name' : String} (identifier : IsIdentifier name)
    (identifier' : IsIdentifier name') (differ : name ≠ name') :
    StepsApart path (.field name) (.field name') := by
  have apart := apart_of_free identifier.free identifier'.free fun same =>
    differ (String.toList_inj.mp same)
  rw [StepsApart, Step.label, Step.label]
  split
  · exact apart
  · exact apart.prepend ['.']

theorem index_apart {i j : ℕ} (differ : i ≠ j) : StepsApart path (.index i) (.index j) :=
  (apart_of_free (fun _ member => not_opening_of_isDigit (isDigit_of_mem member))
    (fun _ member => not_opening_of_isDigit (isDigit_of_mem member))
    fun same => differ (toString_injective same)).prepend ['.']

theorem closed_apart {follows : List Char → Prop} {close : Char} {text text' : String}
    (apart : ClosedApart close text text') :
    Apart follows (text.toList ++ [close]) (text'.toList ++ [close]) := by
  intro s t _ _ same
  rw [List.append_assoc, List.append_assoc] at same
  exact apart s t same

theorem closedApart_toString {i j : ℕ} (differ : i ≠ j) :
    ClosedApart ']' (toString i) (toString j) :=
  fun _ _ same => differ (numeral_eq_of_closed rfl same)

theorem item_apart {i j : ℕ} (differ : i ≠ j) : StepsApart path (.item i) (.item j) :=
  (closed_apart (closedApart_toString differ)).prepend ['[']

theorem key_apart {text text' : String} (apart : ClosedApart ']' text text') :
    StepsApart path (.key text) (.key text') :=
  (closed_apart apart).prepend ['[']

theorem element_apart {text text' : String} (apart : ClosedApart '}' text text') :
    StepsApart path (.element text) (.element text') :=
  (closed_apart apart).prepend ['{']

theorem payload_apart (variantName : String) {fieldLabel fieldLabel' : String}
    (free : ∀ c ∈ fieldLabel.toList, ¬ opening c) (free' : ∀ c ∈ fieldLabel'.toList, ¬ opening c)
    (differ : fieldLabel ≠ fieldLabel') :
    StepsApart path (.payload variantName fieldLabel) (.payload variantName fieldLabel') := by
  have apart := apart_of_free free free' fun same => differ (String.toList_inj.mp same)
  have fronted := apart.prepend (':' :: ':' :: (variantName.toList ++ ['.']))
  simp only [List.cons_append, List.append_assoc] at fronted
  exact fronted

/-- The label of a field in a variant: its name, or its index if it has none. -/
theorem payloadLabel_free {name : Option String} (identifiers : ∀ text ∈ name, IsIdentifier text)
    (i : ℕ) : ∀ c ∈ (name.getD (toString i)).toList, ¬ opening c := by
  cases name with
  | none => exact fun c member => not_opening_of_isDigit (isDigit_of_mem member)
  | some text => exact (identifiers text rfl).free

theorem payloadLabel_ne {name name' : Option String} {i j : ℕ}
    (identifiers : ∀ text ∈ name, IsIdentifier text) (identifiers' : ∀ text ∈ name', IsIdentifier text)
    (names : ∀ text ∈ name, ∀ text' ∈ name', text ≠ text') (differ : i ≠ j) :
    name.getD (toString i) ≠ name'.getD (toString j) := by
  rcases name with _ | text
  · rcases name' with _ | text'
    · exact fun same => differ (toString_injective (congrArg String.toList same))
    · exact Ne.symm ((identifiers' text' rfl).ne_toString i)
  · rcases name' with _ | text'
    · exact (identifiers text rfl).ne_toString j
    · exact names text rfl text' rfl

/-- **No name is under two steps of one value.** -/
theorem stepsApart_parts (well : WellNamed debug value) :
    (parts debug value).Pairwise fun part part' => StepsApart path part.1 part'.1 := by
  have indexed : ∀ {α : Type} (items : List α), (items.zipIdx).Pairwise fun a b => a.2 ≠ b.2 :=
    fun items => (pairwise_zipIdx (List.pairwise_of_forall fun _ _ => trivial) 0).imp And.right
  refine ((parts_perm debug value).pairwise_iff fun apart => Apart.symm apart).mpr ?_
  cases value with
  | struct typePath fields =>
    obtain ⟨identifiers, nodup⟩ := well.names
    refine List.pairwise_map.mpr ((List.Pairwise.and_mem.mp (List.pairwise_map.mp nodup)).imp ?_)
    intro field field' both
    exact field_apart path (identifiers field both.1) (identifiers field' both.2.1) both.2.2
  | tupleStruct typePath fields =>
    exact List.pairwise_map.mpr ((indexed fields).imp fun differ => index_apart path differ)
  | tuple fields =>
    exact List.pairwise_map.mpr ((indexed fields).imp fun differ => index_apart path differ)
  | list items =>
    exact List.pairwise_map.mpr ((indexed items).imp fun differ => item_apart path differ)
  | array items =>
    exact List.pairwise_map.mpr ((indexed items).imp fun differ => item_apart path differ)
  | map entries =>
    exact List.pairwise_map.mpr (well.renderings.imp fun apart => key_apart path apart)
  | set items =>
    exact List.pairwise_map.mpr ((List.pairwise_map.mp well.renderings).imp fun apart =>
      element_apart path apart)
  | enum typePath variantName fields =>
    obtain ⟨_, identifiers, nodup⟩ := well.names
    refine List.pairwise_map.mpr ((List.Pairwise.and_mem.mp
      (pairwise_zipIdx (List.pairwise_filterMap.mp nodup) 0)).imp ?_)
    rintro ⟨field, i⟩ ⟨field', j⟩ ⟨member, member', names, differ⟩
    have known := identifiers field (List.fst_mem_of_mem_zipIdx member)
    have known' := identifiers field' (List.fst_mem_of_mem_zipIdx member')
    exact payload_apart path variantName (payloadLabel_free known i) (payloadLabel_free known' j)
      (payloadLabel_ne known known' names differ)
  | leaf leaf => exact .nil

end Siblings

/-! ### Records under their paths -/

section Located

variable {debug : ReflectRef ω → String} {value : ReflectRef ω} {path : String}

theorem extend_ne_empty (names : NamesOk value) {part : Step × ReflectRef ω}
    (member : part ∈ unsorted debug value) : part.1.extend path ≠ "" := by
  have labelled : part.1.label path ≠ [] → part.1.extend path ≠ "" := by
    intro some empty
    have split := toList_extend path part.1
    rw [empty] at split
    exact some (List.append_eq_nil_iff.mp split.symm).2
  apply labelled
  cases value with
  | struct typePath fields =>
    obtain ⟨field, inFields, rfl⟩ := List.mem_map.mp member
    show (if path.isEmpty then field.1.toList else '.' :: field.1.toList) ≠ []
    split
    · exact fun none => (names.1 field inFields).ne_empty (String.toList_eq_nil_iff.mp none)
    · exact List.cons_ne_nil _ _
  | leaf leaf => cases member
  | _ =>
    obtain ⟨entry, _, rfl⟩ := List.mem_map.mp member
    exact List.cons_ne_nil _ _

theorem opens_label (some : path ≠ "") (step : Step) (rest : List Char) :
    Opens opening (step.label path ++ rest) := by
  have opens : ∀ c rest, opening c → Opens opening (c :: rest) := by
    intro c rest opens a head
    cases head
    exact opens
  cases step with
  | field name =>
    rw [Step.label, if_neg (by rwa [String.isEmpty_iff])]
    exact opens '.' _ (by simp [opening])
  | _ => exact opens _ _ (by simp [opening])

/-- What a value records of its own is under its path. -/
theorem own_under {field : String × Bytes} (member : field ∈ own debug path value) :
    under path field.1 := by
  cases value with
  | enum typePath variantName fields =>
    cases List.mem_singleton.mp member
    refine Or.inr ⟨':' :: ':' :: (variantName.toList ++ "#variant".toList), ?_, ?_⟩
    · intro a head
      cases head
      simp [opening]
    · simp only [String.toList_append, List.append_assoc]
      rfl
  | leaf leaf =>
    cases List.mem_singleton.mp member
    exact Or.inr ⟨[], fun a head => absurd head (Option.not_mem_none a), (List.append_nil _).symm⟩
  | _ => cases member

/-- What is under a longer path is under the path. -/
theorem under_widen (step : Step) {name : String} (inPart : under (step.extend path) name) :
    under path name := by
  by_cases empty : path = ""
  · exact Or.inl empty
  · have longer : step.extend path ≠ "" := by
      intro none
      have split := toList_extend path step
      rw [none] at split
      exact empty (String.toList_eq_nil_iff.mp (List.append_eq_nil_iff.mp split.symm).1)
    obtain ⟨rest, _, split⟩ := inPart.resolve_left longer
    rw [toList_extend, List.append_assoc] at split
    exact Or.inr ⟨_, opens_label empty step rest, split⟩

/-- The name of a variant is not under its payload. -/
theorem own_apart (names : NamesOk value) {field : String × Bytes}
    (member : field ∈ own debug path value) {part : Step × ReflectRef ω}
    (inParts : part ∈ parts debug value) : ¬ under (part.1.extend path) field.1 := by
  intro inPart
  cases value with
  | enum typePath variantName fields =>
    cases List.mem_singleton.mp member
    have some : part.1.extend path ≠ "" :=
      extend_ne_empty names ((parts_perm debug _).mem_iff.mp inParts)
    obtain ⟨rest, _, split⟩ := inPart.resolve_left some
    obtain ⟨entry, _, rfl⟩ := List.mem_map.mp inParts
    simp only [toList_extend, String.toList_append, List.append_assoc,
      List.append_right_inj] at split
    have behind : variantName.toList ++ '#' :: "variant".toList = variantName.toList ++
        '.' :: ((entry.1.1.getD (toString entry.2)).toList ++ rest) := by
      rw [← List.cons_append, ← List.append_assoc]
      exact (List.cons.inj (List.cons.inj split).2).2
    cases (List.cons.inj (List.append_cancel_left behind)).1
  | leaf leaf => cases inParts
  | _ => cases member

/-- **What a well-named value records is told apart by its names.** -/
theorem separated_reflection (debug : ReflectRef ω → String) :
    Separated (reflection debug) Prod.fst under fun _ value =>
      Everywhere debug (WellNamed debug) value where
  own _ _ _ _ member := own_under member
  child _ _ well part member := well.part member
  widen _ _ _ part _ _ inPart := under_widen part.1 inPart
  ownNodup path value _ := by
    cases value with
    | enum typePath variantName fields => exact List.nodup_singleton _
    | leaf leaf => exact List.nodup_singleton _
    | _ => exact List.nodup_nil
  ownApart _ _ well _ member _ inParts := own_apart well.here.names member inParts
  apart path value well := by
    refine (List.Pairwise.and_mem.mp (stepsApart_parts path well.here)).imp ?_
    intro part part' both name
    have member := (parts_perm debug value).mem_iff.mp both.1
    have member' := (parts_perm debug value).mem_iff.mp both.2.1
    exact not_under_of_apart both.2.2 (extend_ne_empty well.here.names member)
      (extend_ne_empty well.here.names member')

/-- **No name is recorded twice.** -/
theorem names_nodup (well : Everywhere debug (WellNamed debug) value) (path : String) :
    (names debug path value).Nodup :=
  (separated_reflection debug).nodup well

end Located

end Foldback.Bevy
