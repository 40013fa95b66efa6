/-
**The drill-down of the selected tick, as `renderDrilldown` fills it.**

* `Page.renderDrilldown` groups the tick's entity hashes by entity, and by field name the field
  hashes of each entity whose hashes differ. `Page.selectTick` is a click on the timeline.
* `SessionData.diverging`: the fields whose hashes from two peers differ.
* `mem_markedFields_iff`: a field is marked when its hashes differ and its entity's hashes differ.
* `drilldown_marks_iff`: **the drill-down marks the diverging fields exactly when, for every field
  whose hashes differ, its entity's hashes differ if and only if several peers report the field**.
-/

import Foldback.Lib.Agreement
import Foldback.Ui.Page

namespace Foldback

open Agreement
open InsertionMap (group getD_group mem_entries_group)

/-! ### The rows -/

/-- The size of the `Set` of the hashes. -/
def distinct (hashes : List String) : ℕ := hashes.toFinset.card

/-- A field's row; a row that is not `diverged` shows `match` in place of the values. -/
structure FieldRow where
  name : String
  diverged : Bool
  diffValues : List String
  deriving DecidableEq

/-- An entity's row with the field rows below it. -/
structure EntityRow where
  entityId : ℕ
  agrees : Bool
  fields : List FieldRow
  deriving DecidableEq

inductive Tree
  | hint (text : String)
  | rows (rows : List EntityRow)
  deriving DecidableEq

/-- `named` is the field that the crumbs and the verdict name. -/
structure Drilldown where
  tick : ℕ
  tree : Tree
  named : Option (ℕ × String)
  deriving DecidableEq

/-- The text below the crumbs of a tick without entity hashes. -/
def noHashesHint : String :=
  "No entity- or field-level hashes recorded for this tick. Level 2/3 bisection (per-entity, " ++
    "per-field) lands in Phase 2 — this session only has Level 1 (per-tick) data."

/-- `P` and the peer, then the raw value, or the hash where the value is empty. -/
def FieldHashEntry.diffValue (entry : FieldHashEntry ℕ) : String :=
  "P" ++ toString entry.peerId ++ ":" ++
    if entry.valueHex = "" then entry.hash else entry.valueHex

def fieldRow (name : String) (vals : List (FieldHashEntry ℕ)) : FieldRow :=
  let diverged := 1 < distinct (vals.map FieldHashEntry.hash)
  let sorted := vals.insertionSort fun a b => a.peerId ≤ b.peerId
  { name, diverged, diffValues := if diverged then sorted.map FieldHashEntry.diffValue else [] }

def entityRow (fieldsByEntity : InsertionMap ℕ (List (FieldHashEntry ℕ))) (entityId : ℕ)
    (hashes : List (EntityHashEntry ℕ)) : EntityRow :=
  let agrees := distinct (hashes.map EntityHashEntry.hash) ≤ 1
  let entFields := (fieldsByEntity.get? entityId).getD []
  let byName := group FieldHashEntry.fieldName entFields
  { entityId, agrees
    fields := if agrees then [] else byName.entries.map fun (name, vals) => fieldRow name vals }

/-- The marked fields of the rows, from the top. -/
def divergedRows (rows : List EntityRow) : List (ℕ × String) :=
  rows.flatMap fun row =>
    (row.fields.filter FieldRow.diverged).map fun field => (row.entityId, field.name)

def Drilldown.marked (drilldown : Drilldown) : List (ℕ × String) :=
  match drilldown.tree with
  | .hint _ => []
  | .rows rows => divergedRows rows

namespace Page

/-- `renderDrilldown`; `null` is no selected tick, on which it throws. Every marked field is
written over the crumbs and the verdict of the one before. -/
def renderDrilldown (page : Page) : Option Drilldown :=
  page.selectedTick.map fun selectedTick =>
    let entities := (page.entityByTick.get? selectedTick).getD []
    if entities = [] then { tick := selectedTick, tree := .hint noHashesHint, named := none }
    else
      let byEntity := group EntityHashEntry.entityId entities
      let fields := (page.fieldByTick.get? selectedTick).getD []
      let fieldsByEntity := group FieldHashEntry.entityId fields
      let rows := byEntity.entries.map fun (entityId, hashes) =>
        entityRow fieldsByEntity entityId hashes
      { tick := selectedTick, tree := .rows rows, named := (divergedRows rows).getLast? }

/-- A click on the timeline, which does nothing without a session. -/
def selectTick (tick : ℕ) (page : Page) : Page :=
  match page.session with
  | none => page
  | some session =>
    { page with
      selectedTick := some (max session.minTick (min session.maxTick tick))
      followLatest := if page.isLive then false else page.followLatest }

/-- The `(entity_id, field_name)` pairs that the drill-down marks. -/
def markedFields (page : Page) : List (ℕ × String) :=
  (page.renderDrilldown.map Drilldown.marked).getD []

end Page

/-! ### The diverging fields -/

namespace SessionData

variable {ν : Type} [DecidableEq ν]

/-- The entity hashes of an entity at a tick. -/
def entityRecords (data : SessionData ν) (tick entityId : ν) : List (EntityHashEntry ν) :=
  data.entityHashes.filter fun entry => entry.tick = tick ∧ entry.entityId = entityId

/-- The field hashes of a field at a tick. -/
def fieldRecords (data : SessionData ν) (tick : ν) (field : ν × String) :
    List (FieldHashEntry ν) :=
  data.fieldHashes.filter fun entry =>
    entry.tick = tick ∧ entry.entityId = field.1 ∧ entry.fieldName = field.2

/-- **The diverging fields**: two field hashes of different peers differ. -/
def diverging (data : SessionData ν) (tick : ν) : Set (ν × String) :=
  {field | DifferAcross FieldHashEntry.peerId FieldHashEntry.hash (data.fieldRecords tick field)}

end SessionData

/-! ### The marked fields -/

theorem one_lt_distinct_iff {α : Type} (hash : α → String) (records : List α) :
    1 < distinct (records.map hash) ↔ Differ hash records := one_lt_card_iff

theorem filter_filter_and {α : Type} (first second : α → Prop) [DecidablePred first]
    [DecidablePred second] (records : List α) :
    ((records.filter fun record => first record).filter fun record => second record) =
      records.filter fun record => first record ∧ second record := by
  rw [List.filter_filter]
  refine List.filter_congr fun record _ => ?_
  rw [Bool.decide_and, Bool.and_comm]

theorem mem_divergedRows {rows : List EntityRow} {field : ℕ × String} :
    field ∈ divergedRows rows ↔ ∃ row ∈ rows, row.entityId = field.1 ∧
      ∃ shown ∈ row.fields, shown.name = field.2 ∧ shown.diverged = true := by
  rw [divergedRows, List.mem_flatMap]
  refine exists_congr fun row => and_congr_right fun _ => ?_
  rw [List.mem_map]
  constructor
  · rintro ⟨shown, member, rfl⟩
    rw [List.mem_filter] at member
    exact ⟨rfl, shown, member.1, rfl, member.2⟩
  · rintro ⟨sameEntity, shown, member, sameName, diverged⟩
    refine ⟨shown, List.mem_filter.mpr ⟨member, diverged⟩, ?_⟩
    rw [sameEntity, sameName]

theorem fieldRow_diverged (name : String) (vals : List (FieldHashEntry ℕ)) :
    (fieldRow name vals).diverged = true ↔ Differ FieldHashEntry.hash vals := by
  rw [← one_lt_distinct_iff]
  exact decide_eq_true_iff

theorem mem_entityRow_fields {fieldsByEntity : InsertionMap ℕ (List (FieldHashEntry ℕ))}
    {entityId : ℕ} {hashes : List (EntityHashEntry ℕ)} {row : FieldRow} :
    row ∈ (entityRow fieldsByEntity entityId hashes).fields ↔
      Differ EntityHashEntry.hash hashes ∧ ∃ entry ∈ (group FieldHashEntry.fieldName
        ((fieldsByEntity.get? entityId).getD [])).entries, fieldRow entry.1 entry.2 = row := by
  show row ∈ (if distinct (hashes.map EntityHashEntry.hash) ≤ 1 then [] else
    (group FieldHashEntry.fieldName ((fieldsByEntity.get? entityId).getD [])).entries.map
      fun entry => fieldRow entry.1 entry.2) ↔ _
  rw [← one_lt_distinct_iff]
  by_cases agrees : distinct (hashes.map EntityHashEntry.hash) ≤ 1
  · rw [if_pos agrees]
    exact iff_of_false List.not_mem_nil fun marked => not_lt.mpr agrees marked.1
  · rw [if_neg agrees, List.mem_map]
    exact (and_iff_right (not_le.mp agrees)).symm

/-- The marked rows below an entity's row. -/
theorem marked_entityRow (fields : List (FieldHashEntry ℕ)) (entityId : ℕ)
    (hashes : List (EntityHashEntry ℕ)) (name : String) :
    (∃ shown ∈ (entityRow (group FieldHashEntry.entityId fields) entityId hashes).fields,
        shown.name = name ∧ shown.diverged = true) ↔
      Differ EntityHashEntry.hash hashes ∧ Differ FieldHashEntry.hash
        (fields.filter fun entry => entry.entityId = entityId ∧ entry.fieldName = name) := by
  simp only [mem_entityRow_fields, getD_group]
  rw [← filter_filter_and]
  constructor
  · rintro ⟨_, ⟨differ, ⟨shownName, vals⟩, member, rfl⟩, same, diverged⟩
    obtain rfl : shownName = name := same
    obtain ⟨-, rfl⟩ := (mem_entries_group _ _ _ _).mp member
    exact ⟨differ, (fieldRow_diverged _ _).mp diverged⟩
  · rintro ⟨differ, fieldsDiffer⟩
    refine ⟨_, ⟨differ, ⟨name, _⟩, (mem_entries_group _ _ _ _).mpr ⟨?_, rfl⟩, rfl⟩, rfl,
      (fieldRow_diverged _ _).mpr fieldsDiffer⟩
    obtain ⟨first, member, -⟩ := fieldsDiffer
    exact List.ne_nil_of_mem member

/-- The hint stands where there would be no row. -/
theorem markedFields_eq {page : Page} {tick : ℕ} (selected : page.selectedTick = some tick) :
    page.markedFields = divergedRows
      ((group EntityHashEntry.entityId ((page.entityByTick.get? tick).getD [])).entries.map
        fun entry => entityRow (group FieldHashEntry.entityId
          ((page.fieldByTick.get? tick).getD [])) entry.1 entry.2) := by
  unfold Page.markedFields Page.renderDrilldown
  rw [selected]
  by_cases empty : (page.entityByTick.get? tick).getD [] = []
  · simp only [Option.map_some, Option.getD_some, empty]
    rfl
  · simp only [Option.map_some, Option.getD_some, if_neg empty]
    rfl

/-- **A field is marked** when its hashes differ and its entity's hashes differ. -/
theorem mem_markedFields_iff {page : Page} {data : SessionData ℕ} {tick : ℕ}
    (selected : page.selectedTick = some tick)
    (entities : page.entityByTick = group EntityHashEntry.tick data.entityHashes)
    (fields : page.fieldByTick = group FieldHashEntry.tick data.fieldHashes) (field : ℕ × String) :
    field ∈ page.markedFields ↔
      Differ EntityHashEntry.hash (data.entityRecords tick field.1) ∧
        Differ FieldHashEntry.hash (data.fieldRecords tick field) := by
  rw [markedFields_eq selected, entities, fields, getD_group, getD_group, mem_divergedRows,
    SessionData.entityRecords, SessionData.fieldRecords, ← filter_filter_and, ← filter_filter_and]
  constructor
  · rintro ⟨row, inside, same, marked⟩
    obtain ⟨⟨entityId, hashes⟩, member, rfl⟩ := List.mem_map.mp inside
    obtain rfl : entityId = field.1 := same
    obtain ⟨-, rfl⟩ := (mem_entries_group _ _ _ _).mp member
    exact (marked_entityRow _ _ _ _).mp marked
  · rintro ⟨entityDiffers, fieldDiffers⟩
    refine ⟨_, List.mem_map_of_mem ((mem_entries_group _ _ field.1 _).mpr ⟨?_, rfl⟩), rfl,
      (marked_entityRow _ _ _ _).mpr ⟨entityDiffers, fieldDiffers⟩⟩
    obtain ⟨first, member, -⟩ := entityDiffers
    exact List.ne_nil_of_mem member

/-- **The marked fields are the diverging ones** when every field whose hashes differ has several
peers exactly when its entity's hashes differ. -/
theorem markedFields_eq_iff {page : Page} {data : SessionData ℕ} {tick : ℕ}
    (selected : page.selectedTick = some tick)
    (entities : page.entityByTick = group EntityHashEntry.tick data.entityHashes)
    (fields : page.fieldByTick = group FieldHashEntry.tick data.fieldHashes) :
    {field | field ∈ page.markedFields} = data.diverging tick ↔
      ∀ field, Differ FieldHashEntry.hash (data.fieldRecords tick field) →
        (Differ EntityHashEntry.hash (data.entityRecords tick field.1) ↔
          ¬ FromOne FieldHashEntry.peerId (data.fieldRecords tick field)) := by
  rw [Set.ext_iff]
  refine forall_congr' fun field => ?_
  have across : field ∈ data.diverging tick ↔ _ := differAcross_iff
  rw [across]
  show (field ∈ page.markedFields ↔ _) ↔ _
  rw [mem_markedFields_iff selected entities fields]
  tauto

/-! ### Loaded sessions -/

/-- The ticks and ids of the entity and field hashes are below `2 ^ 53`. -/
structure SessionData.Exact (data : SessionData UInt64) : Prop where
  entities : ∀ entry ∈ data.entityHashes, entry.tick.toNat < 2 ^ 53 ∧ entry.entityId.toNat < 2 ^ 53
  fields : ∀ entry ∈ data.fieldHashes, entry.tick.toNat < 2 ^ 53 ∧ entry.entityId.toNat < 2 ^ 53

theorem SessionData.Exact.entityHashes {data : SessionData UInt64} (exact : data.Exact) :
    (data.map jsNumber).entityHashes = (data.map UInt64.toNat).entityHashes := by
  refine List.map_congr_left fun entry member => ?_
  obtain ⟨tick, entityId⟩ := exact.entities entry member
  unfold EntityHashEntry.map
  rw [jsNumber_of_lt tick, jsNumber_of_lt entityId]

theorem SessionData.Exact.fieldHashes {data : SessionData UInt64} (exact : data.Exact) :
    (data.map jsNumber).fieldHashes = (data.map UInt64.toNat).fieldHashes := by
  refine List.map_congr_left fun entry member => ?_
  obtain ⟨tick, entityId⟩ := exact.fields entry member
  unfold FieldHashEntry.map
  rw [jsNumber_of_lt tick, jsNumber_of_lt entityId]

/-- **The drill-down marks exactly the diverging fields** of the selected tick when, for every field
whose hashes differ there, its entity's hashes differ if and only if several peers report it. -/
theorem drilldown_marks_iff {data : SessionData UInt64} (exact : data.Exact) (page : Page)
    (tick : ℕ) :
    {field | field ∈
        Page.markedFields { page.loadPath (.ok data) with selectedTick := some tick }} =
        (data.map UInt64.toNat).diverging tick ↔
      ∀ field, Differ FieldHashEntry.hash ((data.map UInt64.toNat).fieldRecords tick field) →
        (Differ EntityHashEntry.hash ((data.map UInt64.toNat).entityRecords tick field.1) ↔
          ¬ FromOne FieldHashEntry.peerId ((data.map UInt64.toNat).fieldRecords tick field)) := by
  refine markedFields_eq_iff rfl ?_ ?_
  · rw [← exact.entityHashes]
    rfl
  · rw [← exact.fieldHashes]
    rfl

/-- Two peers differ on an entity and on one of its two fields. -/
theorem drilldown_marks_sample :
    let entityHashes : List (EntityHashEntry UInt64) := [⟨5, 0, 7, "1"⟩, ⟨5, 1, 7, "2"⟩]
    let fieldHashes : List (FieldHashEntry UInt64) :=
      [⟨5, 0, 7, "hp", "a", "0a"⟩, ⟨5, 1, 7, "hp", "b", "0b"⟩, ⟨5, 0, 7, "x", "c", "01"⟩,
        ⟨5, 1, 7, "x", "c", "01"⟩]
    let data : SessionData UInt64 :=
      { fileName := "session.foldback", tickRateHz := 60, peerCount := 2, buildId := ""
        minTick := 5, maxTick := 5, endedCleanly := true, tickHashes := []
        entityHashes, fieldHashes, snapshotTicks := [], metadataCount := 0, divergenceTick := none }
    {field | field ∈
        Page.markedFields { ({} : Page).loadPath (.ok data) with selectedTick := some 5 }} =
      (data.map UInt64.toNat).diverging 5 := by
  intro entityHashes fieldHashes data
  refine (@drilldown_marks_iff data ⟨by decide, by decide⟩ {} 5).mpr ?_
  rintro ⟨entityId, name⟩ ⟨first, member, second, member', differs⟩
  have only : ∀ one ∈ (data.map UInt64.toNat).fieldHashes,
      ∀ two ∈ (data.map UInt64.toNat).fieldHashes,
      one.entityId = two.entityId ∧ one.fieldName = two.fieldName → one.hash ≠ two.hash →
        one.entityId = 7 ∧ one.fieldName = "hp" := by decide
  rw [SessionData.fieldRecords, List.mem_filter, decide_eq_true_iff] at member member'
  obtain ⟨inside, -, sameEntity, sameName⟩ := member
  obtain ⟨inside', -, sameEntity', sameName'⟩ := member'
  obtain ⟨seven, hp⟩ := only first inside second inside'
    ⟨sameEntity.trans sameEntity'.symm, sameName.trans sameName'.symm⟩ differs
  obtain rfl : entityId = 7 := sameEntity.symm.trans seven
  obtain rfl : name = "hp" := sameName.symm.trans hp
  decide

/-- **A recording with field hashes only**: two peers differ at the divergence tick, and the page
says that no field hashes were recorded for it. -/
theorem field_only_unmarked :
    let header := Header.new 60 2 (Vector.replicate 16 7)
    let frames : List Frame := [.tickHash 5 0 1, .tickHash 5 1 2, .fieldHash 5 0 7 "hp" 10 [100],
      .fieldHash 5 1 7 "hp" 11 [99]]
    ∃ data, load "session.foldback" none (.ok (header.encode ++ encodeFrames frames)) = .ok data ∧
      data.Exact ∧ (({} : Page).loadPath (.ok data)).selectedTick = some 5 ∧
      (({} : Page).loadPath (.ok data)).renderDrilldown =
        some { tick := 5, tree := .hint noHashesHint, named := none } ∧
      {field | field ∈ (({} : Page).loadPath (.ok data)).markedFields} ≠
        (data.map UInt64.toNat).diverging 5 := by
  intro header frames
  have fits : ∀ frame ∈ frames, frame.Fits := by decide
  have hint : (({} : Page).loadPath (.ok ((Loading.ofFrames frames).finish "session.foldback"
      header))).renderDrilldown =
        some { tick := 5, tree := .hint noHashesHint, named := none } := rfl
  refine ⟨_, load_holds "session.foldback" none (holds_encode header fits), ⟨?_, ?_⟩, ?_, hint, ?_⟩
  · decide
  · decide
  · decide
  · intro same
    have diverges : (7, "hp") ∈ (((Loading.ofFrames frames).finish "session.foldback"
        header).map UInt64.toNat).diverging 5 := by
      refine ⟨⟨5, 0, 7, "hp", hex 10, hexBytes [100]⟩, ?_, ⟨5, 1, 7, "hp", hex 11, hexBytes [99]⟩,
        ?_, ?_, ?_⟩
      · decide
      · decide
      · decide
      · decide
    have marked : (7, "hp") ∈ Page.markedFields _ := same.symm.subset diverges
    rw [Page.markedFields, Option.getD_none, hint] at marked
    exact List.not_mem_nil marked

/-- One peer alone that reports a field twice is marked as well. -/
example :
    let entityHashes : List (EntityHashEntry ℕ) := [⟨5, 0, 7, "1"⟩, ⟨5, 1, 7, "2"⟩]
    let fieldHashes : List (FieldHashEntry ℕ) :=
      [⟨5, 0, 7, "hp", "a", "0a"⟩, ⟨5, 0, 7, "hp", "b", "0b"⟩]
    let page : Page :=
      { selectedTick := some 5
        entityByTick := group EntityHashEntry.tick entityHashes
        fieldByTick := group FieldHashEntry.tick fieldHashes }
    page.markedFields = [(7, "hp")] ∧ FromOne FieldHashEntry.peerId fieldHashes := by
  decide

end Foldback
