/-
**The retention window of a session.**

* `Session.retainedTicks` is `retained_ticks()`. Every report enters the ring, also when its write
  fails (`step_ring`), so the ring holds the last `retention` reports (`retainedTicks_run`).
* `TickByTick`: the peers report the ticks `0, 1, …` once each, a whole tick before the next.
* `reports_from`: **the reports from a tick on are what is left once those of the earlier ticks are
  dropped**, `peers.card` for each tick.
* `retention_covers_iff`: the ring keeps the last ticks whole exactly with one peer, or while it
  has room for every report of the run.
-/

import Foldback.Core.FailedReports

namespace Foldback

def Session.retainedTicks (session : Session) : List (UInt64 × UInt64) := session.ring.items

/-- What the ring keeps of a report. -/
def TickHashRecord.retained (record : TickHashRecord) : UInt64 × UInt64 :=
  (record.tick, record.hash)

/-! ### What the ring holds -/

section Ring

variable (hashBytes : Bytes → UInt64)

/-- **A call pushes its reports**, whatever becomes of its frame. -/
theorem step_ring (session : Session) (call : Call) :
    (step hashBytes session call).2.ring =
      ((call.reports hashBytes session.localPeerId).map TickHashRecord.retained).foldl
        RingBuffer.push session.ring := by
  cases call with
  | hashTick tick stateBytes =>
    rw [step_hashTick]
    show (if _ then _ else _ : Session).ring = _
    split <;> rfl
  | recordPeerHash tick peerId hash =>
    rw [step_recordPeerHash]
    rfl
  | hashEntity tick entityId stateBytes =>
    rw [step_hashEntity, step_recordPeerEntityHash]
    rfl
  | recordPeerEntityHash tick peerId entityId hash =>
    rw [step_recordPeerEntityHash]
    rfl
  | hashField tick entityId fieldName valueBytes =>
    rw [step_hashField, step_recordPeerFieldHash]
    rfl
  | recordPeerFieldHash tick peerId entityId fieldName hash valueBytes =>
    rw [step_recordPeerFieldHash]
    rfl
  | recordSchema typeName trackedFields =>
    by_cases seen : typeName ∈ session.writtenSchemas
    · rw [step_recordSchema_seen hashBytes session seen]
      rfl
    · rw [step_recordSchema_new hashBytes session seen]
      rfl
  | takePendingHashes => rfl
  | takePendingHashesUpTo max => rfl
  | checkDivergence =>
    simp only [step, Session.checkDivergence]
    split <;> rfl
  | finishRecording =>
    rw [step_finishRecording]
    rfl

/-- **The invariant of the ring**: it holds the last `retention` reports of the trace. -/
structure Retains (localPeerId : UInt16) (retention : ℕ) (trace : List (Call × Response))
    (session : Session) : Prop where
  peer : session.localPeerId = localPeerId
  capacity : session.ring.capacity = retention
  items : session.ring.items =
    ((reportsIn hashBytes localPeerId trace).map TickHashRecord.retained).rtake retention

variable {hashBytes}

theorem Retains.step {localPeerId : UInt16} {retention : ℕ} {trace : List (Call × Response)}
    {session : Session} (retains : Retains hashBytes localPeerId retention trace session)
    (call : Call) :
    Retains hashBytes localPeerId retention
      (trace ++ [(call, (step hashBytes session call).1)]) (step hashBytes session call).2 := by
  obtain ⟨rfl, rfl, items⟩ := retains
  obtain ⟨held, capacity⟩ := RingBuffer.items_foldl_push items
    ((call.reports hashBytes session.localPeerId).map TickHashRecord.retained)
  refine ⟨(step_effect hashBytes session call).localPeerId, ?_, ?_⟩
  · rw [step_ring, capacity]
  · rw [step_ring, held, ← List.map_append]
    simp only [reportsIn, List.flatMap_append, List.flatMap_singleton]

/-- **The ring holds the last reports of the run**, as many as the retention says. -/
theorem retainedTicks_run {builder : SessionBuilder} {session : Session}
    (built : builder.build = .ok session) (calls : List Call) :
    (run hashBytes session calls).2.retainedTicks =
      ((calls.flatMap (Call.reports hashBytes builder.localPeerId)).map
        TickHashRecord.retained).rtake builder.retention := by
  obtain ⟨writer, rfl⟩ := SessionBuilder.build_eq built
  have retains : Retains hashBytes builder.localPeerId builder.retention
      (run hashBytes (builder.session writer) calls).1
      (run hashBytes (builder.session writer) calls).2 := by
    refine Machine.history_rule (Foldback.step hashBytes)
      (Retains hashBytes builder.localPeerId builder.retention) ?_
      (fun trace session call retains => retains.step call) calls
    exact ⟨rfl, rfl, (List.rtake_nil _).symm⟩
  rw [← reportsIn_run hashBytes builder.localPeerId (builder.session writer) calls]
  exact retains.items

end Ring

/-! ### Tick by tick -/

/-- How a peer reports a tick: the local one hashes its state, another one sent its hash. -/
inductive ReportsTick (localPeerId : UInt16) (tick : UInt64) : UInt16 → Call → Prop
  | hashTick (stateBytes : Bytes) :
      ReportsTick localPeerId tick localPeerId (.hashTick tick stateBytes)
  | recordPeerHash (peerId : UInt16) (hash : UInt64) (other : peerId ≠ localPeerId) :
      ReportsTick localPeerId tick peerId (.recordPeerHash tick peerId hash)

/-- The peers report one tick, each once and in any order; other calls may come between. -/
def Round (localPeerId : UInt16) (peers : Finset UInt16) (tick : UInt64) (calls : List Call) :
    Prop :=
  ∃ order : List UInt16, order.Nodup ∧ order.toFinset = peers ∧
    List.Forall₂ (ReportsTick localPeerId tick) order (calls.filter Call.isReport)

/-- The peers report the first `ticks` ticks, tick by tick. -/
inductive TickByTick (localPeerId : UInt16) (peers : Finset UInt16) : ℕ → List Call → Prop
  | start : TickByTick localPeerId peers 0 []
  | next {ticks : ℕ} {calls more : List Call} (earlier : TickByTick localPeerId peers ticks calls)
      (fits : ticks < UInt64.size)
      (round : Round localPeerId peers (UInt64.ofNat ticks) more) :
      TickByTick localPeerId peers (ticks + 1) (calls ++ more)

section Rounds

variable (hashBytes : Bytes → UInt64) {localPeerId : UInt16} {peers : Finset UInt16}

theorem flatMap_reports_filter (calls : List Call) :
    (calls.filter Call.isReport).flatMap (Call.reports hashBytes localPeerId) =
      calls.flatMap (Call.reports hashBytes localPeerId) := by
  induction calls with
  | nil => rfl
  | cons call calls ih =>
    by_cases reporting : call.isReport = true
    · rw [List.filter_cons_of_pos reporting, List.flatMap_cons, List.flatMap_cons, ih]
    · have silent : call.reports hashBytes localPeerId = [] := by
        rw [← List.length_eq_zero_iff, length_callReports, Bool.eq_false_of_not_eq_true reporting]
        rfl
      rw [List.filter_cons_of_neg reporting, List.flatMap_cons, silent, ih]
      rfl

/-- A round makes one report for each peer, all of them of its tick. -/
theorem Round.reports {tick : UInt64} {calls : List Call}
    (round : Round localPeerId peers tick calls) :
    (calls.flatMap (Call.reports hashBytes localPeerId)).length = peers.card ∧
      ∀ report ∈ calls.flatMap (Call.reports hashBytes localPeerId), report.tick = tick := by
  obtain ⟨order, nodup, rfl, made⟩ := round
  rw [← flatMap_reports_filter, List.toFinset_card_of_nodup nodup]
  clear nodup
  generalize calls.filter Call.isReport = reporting at made ⊢
  induction made with
  | nil => exact ⟨rfl, fun report member => absurd member List.not_mem_nil⟩
  | @cons peerId call order calls reports rest ih =>
    obtain ⟨length, ticks⟩ := ih
    have one : ∃ report : TickHashRecord, report.tick = tick ∧
        call.reports hashBytes localPeerId = [report] := by
      cases reports with
      | hashTick stateBytes => exact ⟨_, rfl, rfl⟩
      | recordPeerHash peerId hash other => exact ⟨_, rfl, rfl⟩
    obtain ⟨report, atTick, single⟩ := one
    rw [List.flatMap_cons, single]
    refine ⟨?_, fun found member => ?_⟩
    · rw [List.length_append, length, List.length_singleton, List.length_cons, Nat.add_comm]
    · rcases List.mem_append.mp member with here | later
      · rw [List.mem_singleton.mp here, atTick]
      · exact ticks found later

/-- **The reports from a tick on are what is left once those of the earlier ticks are dropped.** -/
theorem TickByTick.reports_from {ticks : ℕ} {calls : List Call}
    (scheduled : TickByTick localPeerId peers ticks calls) :
    (calls.flatMap (Call.reports hashBytes localPeerId)).length = peers.card * ticks ∧
      ∀ first ≤ ticks, (calls.flatMap (Call.reports hashBytes localPeerId)).filter
          (fun report => first ≤ report.tick.toNat) =
        (calls.flatMap (Call.reports hashBytes localPeerId)).drop (peers.card * first) := by
  induction scheduled with
  | start => exact ⟨by rw [Nat.mul_zero]; rfl, fun first le => by rw [List.flatMap_nil]; simp⟩
  | @next ticks calls more earlier fits round ih =>
    obtain ⟨length, before⟩ := ih
    obtain ⟨size, sameTick⟩ := round.reports hashBytes
    have tick : (UInt64.ofNat ticks).toNat = ticks := UInt64.toNat_ofNat_of_lt' fits
    have total : ((calls ++ more).flatMap (Call.reports hashBytes localPeerId)).length =
        peers.card * (ticks + 1) := by
      rw [List.flatMap_append, List.length_append, length, size, Nat.mul_succ]
    refine ⟨total, fun first le => ?_⟩
    rcases Nat.lt_or_ge ticks first with beyond | within
    · -- no report is that late
      have last : first = ticks + 1 := by omega
      subst last
      rw [← total, List.drop_length, List.filter_eq_nil_iff]
      intro report member
      rw [decide_eq_true_eq, Nat.not_le]
      rw [List.flatMap_append] at member
      rcases List.mem_append.mp member with early | late
      · have none := before ticks le_rfl
        rw [← length, List.drop_length, List.filter_eq_nil_iff] at none
        have := none report early
        rw [decide_eq_true_eq] at this
        omega
      · rw [sameTick report late, tick]
        exact Nat.lt_succ_self ticks
    · have all : (more.flatMap (Call.reports hashBytes localPeerId)).filter
          (fun report => first ≤ report.tick.toNat) =
          more.flatMap (Call.reports hashBytes localPeerId) := by
        rw [List.filter_eq_self]
        intro report member
        rw [decide_eq_true_eq, sameTick report member, tick]
        exact within
      rw [List.flatMap_append, List.filter_append, before first within, all,
        List.drop_append_of_le_length]
      rw [length]
      exact Nat.mul_le_mul_left _ within

end Rounds

/-! ### Whether the last ticks are kept -/

/-- Each report made for the last `ticks` of `total` ticks has an entry of its own. -/
def KeepsLast (ticks total : ℕ) (reports : List TickHashRecord)
    (retained : List (UInt64 × UInt64)) : Prop :=
  ((reports.filter fun report => total - ticks ≤ report.tick.toNat).map
    TickHashRecord.retained).Subperm retained

/-- **The window counts reports**: the last ticks are kept whole exactly when one peer reports, or
all reports of the run fit. -/
theorem retention_covers_iff (hashBytes : Bytes → UInt64) (builder : SessionBuilder)
    (session : Session) (built : builder.build = .ok session) (window : 1 ≤ builder.retention)
    (peers : Finset UInt16) (present : builder.localPeerId ∈ peers) (ticks : ℕ) (calls : List Call)
    (scheduled : TickByTick builder.localPeerId peers ticks calls) :
    KeepsLast (min builder.retention ticks) ticks
        (calls.flatMap (Call.reports hashBytes builder.localPeerId))
        (run hashBytes session calls).2.retainedTicks ↔
      peers.card = 1 ∨ peers.card * ticks ≤ builder.retention := by
  obtain ⟨length, suffix⟩ := scheduled.reports_from hashBytes
  have some_peer : 1 ≤ peers.card := Finset.card_pos.mpr ⟨_, present⟩
  rw [KeepsLast, retainedTicks_run built, suffix _ (Nat.sub_le _ _), List.map_drop, List.rtake,
    List.length_map, length]
  constructor
  · intro kept
    have fits := kept.length_le
    rw [List.length_drop, List.length_drop, List.length_map, length] at fits
    rcases Nat.le_total ticks builder.retention with young | old
    · rw [Nat.min_eq_right young, Nat.sub_self, Nat.mul_zero] at fits
      exact Or.inr (by omega)
    · rw [Nat.min_eq_left old, Nat.mul_sub] at fits
      have inside := Nat.mul_le_mul_left peers.card old
      have narrow : peers.card * builder.retention ≤ 1 * builder.retention := by omega
      exact Or.inl (Nat.le_antisymm (Nat.le_of_mul_le_mul_right narrow window) some_peer)
  · intro condition
    rcases condition with single | room
    · have same : peers.card * (ticks - min builder.retention ticks) =
          peers.card * ticks - builder.retention := by
        rw [single, Nat.one_mul, Nat.one_mul]
        omega
      rw [same]
    · rw [Nat.sub_eq_zero_of_le room, List.drop_zero]
      exact (List.drop_sublist _ _).subperm

/-- Two peers report tick 0 with different hashes, and the window is one tick. -/
def oneTickWindow : SessionBuilder := { retention := 1 }

def bothReport : List Call := [.hashTick 0 [], .recordPeerHash 0 1 8]

theorem bothReport_scheduled : TickByTick 0 {0, 1} 1 bothReport := by
  have made : List.Forall₂ (ReportsTick 0 (UInt64.ofNat 0)) [0, 1] bothReport :=
    .cons (.hashTick []) (.cons (.recordPeerHash 1 8 (by decide)) .nil)
  exact TickByTick.next .start (by decide) ⟨[0, 1], by decide, by decide, made⟩

theorem retention_covers_fits :
    KeepsLast 1 1 (bothReport.flatMap (Call.reports (fun _ => 7) 0))
        (run (fun _ => 7) (({ retention := 2 } : SessionBuilder).session none)
          bothReport).2.retainedTicks ↔
      ({0, 1} : Finset UInt16).card = 1 ∨ ({0, 1} : Finset UInt16).card * 1 ≤ 2 :=
  retention_covers_iff (fun _ => 7) { retention := 2 }
    (({ retention := 2 } : SessionBuilder).session none) rfl (by decide) {0, 1} (by decide) 1
    bothReport bothReport_scheduled

/-- **The local peer's report for the last tick is gone.** -/
theorem retention_loses_report :
    TickByTick oneTickWindow.localPeerId {0, 1} 1 bothReport ∧
      (run (fun _ => 7) (oneTickWindow.session none) bothReport).2.retainedTicks = [(0, 8)] ∧
      ¬ KeepsLast (min oneTickWindow.retention 1) 1
        (bothReport.flatMap (Call.reports (fun _ => 7) oneTickWindow.localPeerId))
        (run (fun _ => 7) (oneTickWindow.session none) bothReport).2.retainedTicks := by
  have retained : (run (fun _ => 7) (oneTickWindow.session none) bothReport).2.retainedTicks =
      [(0, 8)] := by decide
  refine ⟨bothReport_scheduled, retained, fun kept => ?_⟩
  have member : ((0, 7) : UInt64 × UInt64) ∈ [((0 : UInt64), (8 : UInt64))] := by
    rw [← retained]
    exact kept.subset (by decide)
  exact absurd member (by decide)

end Foldback
