/-
**The Level 1 bisection engine, as `bisect.rs` computes it.**

`findFirstDivergence` groups the reports by tick and returns the first tick, in ascending order, at
which not all reported hashes are equal.

* `Contradicted reports tick`: two reports of the tick carry different hashes. This is what the code
  looks at (`findFirstDivergence_eq_some_iff`).
* `CrossDivergent reports tick`: two *peers* report different hashes for the tick. This is what a
  divergence is.
* `SelfContradicted reports tick`: the tick is contradicted, and by one peer alone. The two notions
  differ exactly there (`crossDivergent_or_selfContradicted`).
-/

import Foldback.Core.Io
import Foldback.Lib.Agreement
import Foldback.Lib.Grouping

namespace Foldback

open Agreement Grouping

/-- The first tick at which not all reporting peers agree. -/
structure DivergenceTick where
  tick : UInt64
  deriving DecidableEq, Repr

/-- One peer's hash for one tick. -/
structure TickHashRecord where
  tick : UInt64
  peerId : UInt16
  hash : UInt64
  deriving DecidableEq, Repr

/-- The reports of one tick, `(peer_id, hash)`, in order of arrival. -/
abbrev PeerHashes := List (UInt16 × UInt64)

/-- The scan's test at one tick: fewer than two reports are skipped, otherwise every hash is compared
with the first one. -/
def disagree : PeerHashes → Bool
  | [] => false
  | [_] => false
  | first :: second :: rest => (first :: second :: rest).any fun report => report.2 != first.2

/-- The entry a record adds to the per-tick table. -/
def TickHashRecord.entry (record : TickHashRecord) : UInt64 × UInt16 × UInt64 :=
  (record.tick, record.peerId, record.hash)

/-- `by_tick`. -/
def byTick (records : List TickHashRecord) : Table UInt64 (UInt16 × UInt64) :=
  group (records.map TickHashRecord.entry)

def findFirstDivergence (records : List TickHashRecord) : Option DivergenceTick :=
  (firstKey (fun _ => disagree) (byTick records)).map DivergenceTick.mk

/-! ### What the scan looks at -/

theorem disagree_iff (peerHashes : PeerHashes) :
    disagree peerHashes = true ↔ ∃ one ∈ peerHashes, ∃ other ∈ peerHashes, one.2 ≠ other.2 := by
  match peerHashes with
  | [] => simp [disagree]
  | [_] => simp [disagree]
  | first :: second :: rest =>
    rw [disagree, List.any_eq_true]
    constructor
    · rintro ⟨report, member, differs⟩
      exact ⟨report, member, first, List.mem_cons_self, by simpa using differs⟩
    · rintro ⟨one, memberOne, other, memberOther, differs⟩
      by_cases same : one.2 = first.2
      · exact ⟨other, memberOther, by simpa [← same] using differs.symm⟩
      · exact ⟨one, memberOne, by simpa using same⟩

/-- Two reports of the tick carry different hashes. -/
def Contradicted (reports : List TickHashRecord) (tick : UInt64) : Prop :=
  ∃ one ∈ reports, ∃ other ∈ reports, one.tick = tick ∧ other.tick = tick ∧ one.hash ≠ other.hash

/-- Two different peers report different hashes for the tick. -/
def CrossDivergent (reports : List TickHashRecord) (tick : UInt64) : Prop :=
  ∃ one ∈ reports, ∃ other ∈ reports, one.tick = tick ∧ other.tick = tick ∧
    one.peerId ≠ other.peerId ∧ one.hash ≠ other.hash

/-- Two reports of the tick carry different hashes, and all its reports come from one peer. -/
def SelfContradicted (reports : List TickHashRecord) (tick : UInt64) : Prop :=
  Contradicted reports tick ∧ ∀ one ∈ reports, ∀ other ∈ reports, one.tick = tick →
    other.tick = tick → one.peerId = other.peerId

theorem CrossDivergent.contradicted {reports : List TickHashRecord} {tick : UInt64}
    (cross : CrossDivergent reports tick) : Contradicted reports tick := by
  obtain ⟨one, memberOne, other, memberOther, atOne, atOther, _, differs⟩ := cross
  exact ⟨one, memberOne, other, memberOther, atOne, atOther, differs⟩

theorem Contradicted.mono {reports more : List TickHashRecord} (sub : reports ⊆ more)
    {tick : UInt64} (both : Contradicted reports tick) : Contradicted more tick := by
  obtain ⟨one, memberOne, other, memberOther, facts⟩ := both
  exact ⟨one, sub memberOne, other, sub memberOther, facts⟩

theorem CrossDivergent.mono {reports more : List TickHashRecord} (sub : reports ⊆ more)
    {tick : UInt64} (cross : CrossDivergent reports tick) : CrossDivergent more tick := by
  obtain ⟨one, memberOne, other, memberOther, facts⟩ := cross
  exact ⟨one, sub memberOne, other, sub memberOther, facts⟩

/-- The reports of a tick. -/
def reportsAt (reports : List TickHashRecord) (tick : UInt64) : List TickHashRecord :=
  reports.filter fun report => report.tick = tick

theorem contradicted_iff (reports : List TickHashRecord) (tick : UInt64) :
    Contradicted reports tick ↔ Differ TickHashRecord.hash (reportsAt reports tick) :=
  (differ_filter _).symm

theorem crossDivergent_iff (reports : List TickHashRecord) (tick : UInt64) :
    CrossDivergent reports tick ↔
      DifferAcross TickHashRecord.peerId TickHashRecord.hash (reportsAt reports tick) :=
  (differAcross_filter _).symm

theorem selfContradicted_iff (reports : List TickHashRecord) (tick : UInt64) :
    SelfContradicted reports tick ↔ Contradicted reports tick ∧
      FromOne TickHashRecord.peerId (reportsAt reports tick) :=
  and_congr_right fun _ => (fromOne_filter _).symm

/-- **A contradicted tick is divergent, or one peer contradicts itself there alone.** -/
theorem crossDivergent_or_selfContradicted {reports : List TickHashRecord} {tick : UInt64}
    (contradicted : Contradicted reports tick) :
    CrossDivergent reports tick ∨ SelfContradicted reports tick := by
  rw [crossDivergent_iff, selfContradicted_iff, differAcross_iff, ← contradicted_iff]
  by_cases one : FromOne TickHashRecord.peerId (reportsAt reports tick)
  · exact Or.inr ⟨contradicted, one⟩
  · exact Or.inl ⟨contradicted, one⟩

/-- At a tick where one peer contradicts itself alone, no two peers diverge. -/
theorem SelfContradicted.not_crossDivergent {reports : List TickHashRecord} {tick : UInt64}
    (self : SelfContradicted reports tick) : ¬ CrossDivergent reports tick := by
  rintro ⟨one, memberOne, other, memberOther, atOne, atOther, peers, _⟩
  exact peers (self.2 one memberOne other memberOther atOne atOther)

/-! ### The table of a list of reports -/

/-- A table holds, at each tick, exactly the reports of the list. -/
def Tabulates (table : Table UInt64 (UInt16 × UInt64)) (reports : List TickHashRecord) : Prop :=
  ∀ tick peerId hash, (peerId, hash) ∈ groupOf table tick ↔
    ({ tick, peerId, hash } : TickHashRecord) ∈ reports

/-- Pushing reports onto a table. -/
theorem Tabulates.pushAll {table : Table UInt64 (UInt16 × UInt64)} {reports : List TickHashRecord}
    (tabulates : Tabulates table reports) (more : List TickHashRecord) :
    Tabulates (pushAll table (more.map TickHashRecord.entry)) (reports ++ more) := by
  intro tick peerId hash
  rw [mem_groupOf_pushAll, tabulates, List.mem_append, List.mem_map]
  refine or_congr_right ⟨?_, fun member => ⟨_, member, rfl⟩⟩
  rintro ⟨record, member, same⟩
  cases same
  exact member

theorem tabulates_empty : Tabulates ∅ [] := by
  intro tick peerId hash
  simp

theorem tabulates_byTick (records : List TickHashRecord) : Tabulates (byTick records) records :=
  tabulates_empty.pushAll records

theorem disagree_groupOf_iff {table : Table UInt64 (UInt16 × UInt64)}
    {reports : List TickHashRecord} (tabulates : Tabulates table reports) (tick : UInt64) :
    disagree (groupOf table tick) = true ↔ Contradicted reports tick := by
  rw [disagree_iff]
  constructor
  · rintro ⟨⟨peer, hash⟩, member, ⟨peer', hash'⟩, member', differs⟩
    exact ⟨_, (tabulates tick peer hash).mp member, _, (tabulates tick peer' hash').mp member', rfl,
      rfl, differs⟩
  · rintro ⟨one, memberOne, other, memberOther, rfl, sameTick, differs⟩
    refine ⟨(one.peerId, one.hash), (tabulates _ _ _).mpr memberOne,
      (other.peerId, other.hash), (tabulates _ _ _).mpr ?_, differs⟩
    rw [← sameTick]
    exact memberOther

theorem passes_disagree_iff {table : Table UInt64 (UInt16 × UInt64)}
    {reports : List TickHashRecord} (tabulates : Tabulates table reports) (tick : UInt64) :
    Passes (fun _ => disagree) table tick ↔ Contradicted reports tick :=
  (passes_iff (fun _ => rfl) table tick).trans (disagree_groupOf_iff tabulates tick)

/-- **The scan finds the least contradicted tick.** -/
theorem findFirstDivergence_eq_some_iff (records : List TickHashRecord) (tick : UInt64) :
    findFirstDivergence records = some ⟨tick⟩ ↔ IsLeast {tick | Contradicted records tick} tick := by
  have same : {tick | Passes (fun _ => disagree) (byTick records) tick} =
      {tick | Contradicted records tick} :=
    Set.ext fun tick => passes_disagree_iff (tabulates_byTick records) tick
  rw [← same, ← firstKey_eq_some_iff, findFirstDivergence, Option.map_eq_some_iff]
  simp

theorem findFirstDivergence_eq_none_iff (records : List TickHashRecord) :
    findFirstDivergence records = none ↔ ∀ tick, ¬ Contradicted records tick := by
  rw [findFirstDivergence, Option.map_eq_none_iff, firstKey_eq_none_iff]
  exact forall_congr' fun tick => not_congr (passes_disagree_iff (tabulates_byTick records) tick)

end Foldback
