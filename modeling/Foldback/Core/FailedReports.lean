/-
**What a failed hash report leaves behind.**

`record_peer_hash` pushes onto the ring and into the per-tick table before it writes its frame, and
so keeps the report when the write fails.

* `report_unchanged_iff`: a report that returns `Err` leaves the session as it was exactly when it
  does not fail.
* `Retried intended trace`: the run makes the intended calls, each again until it succeeds.
* `Retried.sameMemory_iff`: a retried run ends in the memory of the run without failures exactly
  when no hash report was made while a write was failing.
-/

import Foldback.Core.SinkFaults

namespace Foldback

open Grouping

/-- The calls that report a tick hash. -/
def Call.isReport : Call → Bool
  | .hashTick .. | .recordPeerHash .. => true
  | _ => false

namespace Session

/-- One of the three writes of the next frame fails. -/
def WriteFails (session : Session) : Prop := true ∈ session.coming.take 3

/-- The retained ring, the per-tick table, the queue, the reported ticks and the accumulator are the
same. -/
def SameReports (first second : Session) : Prop :=
  first.ring = second.ring ∧ first.hashesByTick = second.hashesByTick ∧
    first.pending = second.pending ∧ first.checkedTicks = second.checkedTicks ∧
    first.cumulative = second.cumulative

/-- Everything but the writer is the same. -/
def SameMemory (first second : Session) : Prop := first.withWriter none = second.withWriter none

end Session

/-! ### One report -/

section Step

variable (hashBytes : Bytes → UInt64) (session : Session)

theorem emit_isOk_iff (frame : Frame) :
    (Response.returned (emit frame session.writer).1).isOk = true ↔ ¬ session.WriteFails := by
  unfold Session.WriteFails Session.coming
  rcases session.writer with _ | sink
  · exact ⟨fun _ => by simp, fun _ => rfl⟩
  · obtain ⟨faults, run⟩ := emit_sink frame sink
    rw [run]
    simp only [Option.map_some, Option.getD_some]
    by_cases fails : true ∈ sink.faults.take 3
    · rw [if_pos fails]
      exact ⟨nofun, fun sound => absurd fails sound⟩
    · rw [if_neg fails]
      exact ⟨fun _ => fails, fun _ => rfl⟩

/-- **A hash report fails exactly with its frame.** -/
theorem step_report_isOk_iff {call : Call} (report : call.isReport = true) :
    (step hashBytes session call).1.isOk = true ↔ ¬ session.WriteFails := by
  cases call with
  | hashTick tick stateBytes =>
    rw [step_hashTick]
    exact emit_isOk_iff session _
  | recordPeerHash tick peerId hash =>
    rw [step_recordPeerHash]
    exact emit_isOk_iff session _
  | _ => cases report

theorem length_callReports (localPeerId : UInt16) (call : Call) :
    (call.reports hashBytes localPeerId).length = call.isReport.toNat := by
  cases call <;> rfl

/-- **A failing report is kept**, so it leaves the session as it was only by not failing. -/
theorem report_unchanged_iff {call : Call} (report : call.isReport = true) :
    ((step hashBytes session call).1.isOk = false →
        session.SameReports (step hashBytes session call).2) ↔ ¬ session.WriteFails := by
  rw [← step_report_isOk_iff hashBytes session report]
  constructor
  · intro unchanged
    by_contra failed
    obtain ⟨_, table, _⟩ := unchanged (by simpa using failed)
    rw [(step_effect hashBytes session call).hashesByTick] at table
    have none := @length_eq_of_pushAll_eq _ _ _ _ _ _ session.hashesByTick [] _ table
    rw [List.length_map, length_callReports, report] at none
    cases none
  · intro ok failed
    rw [ok] at failed
    cases failed

end Step

/-! ### Runs with retries -/

/-- The run makes the intended calls in order, each repeated until it succeeds. -/
inductive Retried : List Call → List (Call × Response) → Prop
  | done : Retried [] []
  | succeeded {call : Call} {response : Response} {intended : List Call}
      {trace : List (Call × Response)} (ok : response.isOk = true)
      (later : Retried intended trace) : Retried (call :: intended) ((call, response) :: trace)
  | failed {call : Call} {response : Response} {intended : List Call}
      {trace : List (Call × Response)} (failed : response.isOk = false)
      (later : Retried (call :: intended) trace) :
      Retried (call :: intended) ((call, response) :: trace)

/-- No hash report is made while one of its three writes fails. -/
def ReportsSucceed (hashBytes : Bytes → UInt64) : Session → List Call → Prop
  | _, [] => True
  | session, call :: calls =>
    (call.isReport = true → ¬ session.WriteFails) ∧
      ReportsSucceed hashBytes (step hashBytes session call).2 calls

/-- The hash reports of a trace that returned `Err`. -/
def failedReports (trace : List (Call × Response)) : ℕ :=
  trace.countP fun entry => entry.1.isReport && !entry.2.isOk

theorem reportsSucceed_iff (hashBytes : Bytes → UInt64) (session : Session) (calls : List Call) :
    ReportsSucceed hashBytes session calls ↔ failedReports (run hashBytes session calls).1 = 0 := by
  induction calls generalizing session with
  | nil => exact ⟨fun _ => rfl, fun _ => trivial⟩
  | cons call calls ih =>
    have here : (call.isReport = true → ¬ session.WriteFails) ↔
        (call.isReport && !(step hashBytes session call).1.isOk) = false := by
      rcases report : call.isReport with _ | _
      · simp
      · rw [← step_report_isOk_iff hashBytes session report]
        simp
    have counted : failedReports (run hashBytes session (call :: calls)).1 =
        failedReports (run hashBytes (step hashBytes session call).2 calls).1 +
          if call.isReport && !(step hashBytes session call).1.isOk then 1 else 0 :=
      List.countP_cons
    rw [ReportsSucceed, here, ih, counted]
    simp [and_comm]

/-! ### The memory of a run -/

namespace Session

/-- The session without its writer and its memo of written schemas. -/
def bare (session : Session) : Session := { session with writer := none, writtenSchemas := ∅ }

theorem sameMemory_iff {first second : Session} :
    first.SameMemory second ↔
      first.bare = second.bare ∧ first.writtenSchemas = second.writtenSchemas := by
  obtain ⟨rate, peers, peer, ring, pending, table, checked, acc, writer, schemas⟩ := first
  obtain ⟨rate', peers', peer', ring', pending', table', checked', acc', writer', schemas'⟩ :=
    second
  simp only [SameMemory, withWriter, bare, Session.mk.injEq, and_true, true_and]
  tauto

end Session

section Memory

variable (hashBytes : Bytes → UInt64)

/-- The calls that write a frame and touch no report. -/
def Call.onlyWrites : Call → Bool
  | .hashEntity .. | .recordPeerEntityHash .. | .hashField .. | .recordPeerFieldHash ..
  | .recordSchema .. | .finishRecording => true
  | _ => false

theorem step_bare_of_onlyWrites {call : Call} (only : call.onlyWrites = true) (session : Session) :
    (step hashBytes session call).2.bare = session.bare := by
  cases call with
  | hashEntity tick entityId stateBytes =>
    rw [step_hashEntity, step_recordPeerEntityHash]
    rfl
  | recordPeerEntityHash tick peerId entityId hash =>
    rw [step_recordPeerEntityHash]
    rfl
  | hashField tick entityId fieldName valueBytes =>
    rw [step_hashField, step_recordPeerFieldHash]
    rfl
  | recordPeerFieldHash tick peerId entityId fieldName hash valueBytes =>
    rw [step_recordPeerFieldHash]
    rfl
  | recordSchema typeName trackedFields =>
    by_cases seen : typeName ∈ session.writtenSchemas
    · rw [step_recordSchema_seen hashBytes session seen]
    · rw [step_recordSchema_new hashBytes session seen]
      rfl
  | finishRecording =>
    rw [step_finishRecording]
    rfl
  | _ => cases only

/-- **A successful call does to the memory what it does without a writer.** -/
theorem step_bare_of_ok {session : Session} {call : Call}
    (ok : (step hashBytes session call).1.isOk = true) :
    (step hashBytes session call).2.bare = (step hashBytes session.bare call).2.bare := by
  by_cases only : call.onlyWrites = true
  · rw [step_bare_of_onlyWrites hashBytes only, step_bare_of_onlyWrites hashBytes only]
    rfl
  · cases call with
    | hashTick tick stateBytes =>
      rw [step_hashTick] at ok ⊢
      rw [step_hashTick]
      have done := isOk_returned ok
      simp only [done]
      rfl
    | recordPeerHash tick peerId hash =>
      rw [step_recordPeerHash, step_recordPeerHash]
      rfl
    | checkDivergence =>
      have scan : firstKey (fun tick peerHashes => !decide (tick ∈ session.bare.checkedTicks) &&
          disagree peerHashes) session.bare.hashesByTick =
        firstKey (fun tick peerHashes => !decide (tick ∈ session.checkedTicks) &&
          disagree peerHashes) session.hashesByTick := rfl
      simp only [step, Session.checkDivergence, scan]
      split <;> rfl
    | takePendingHashes => rfl
    | takePendingHashesUpTo max => rfl
    | _ => exact absurd rfl only

/-- A call that fails and is no hash report leaves the memory as it was. -/
theorem step_bare_of_failed {session : Session} {call : Call}
    (failed : (step hashBytes session call).1.isOk = false) (other : call.isReport = false) :
    (step hashBytes session call).2.bare = session.bare := by
  by_cases only : call.onlyWrites = true
  · exact step_bare_of_onlyWrites hashBytes only session
  · cases call with
    | hashTick tick stateBytes => cases other
    | recordPeerHash tick peerId hash => cases other
    | takePendingHashes => cases failed
    | takePendingHashesUpTo max => cases failed
    | checkDivergence =>
      simp only [step] at failed
      cases failed
    | _ => exact absurd rfl only

/-- One more call in front of a run that ends in the same memory without a writer. -/
theorem run_bare_cons {session : Session} {call : Call} {calls intended : List Call}
    (ok : (step hashBytes session call).1.isOk = true)
    (later : (run hashBytes (step hashBytes session call).2 calls).2.bare =
      (run hashBytes (step hashBytes session call).2.bare intended).2.bare)
    (silently : ∀ session : Session, session.writer = none →
      (run hashBytes session intended).2.bare = (run hashBytes session.bare intended).2.bare) :
    (run hashBytes session (call :: calls)).2.bare =
      (run hashBytes session.bare (call :: intended)).2.bare := by
  have silent := (step_effect hashBytes session.bare call).silent rfl
  calc (run hashBytes session (call :: calls)).2.bare
      = (run hashBytes (step hashBytes session call).2.bare intended).2.bare := later
    _ = (run hashBytes (step hashBytes session.bare call).2.bare intended).2.bare := by
        rw [step_bare_of_ok hashBytes ok]
    _ = (run hashBytes session.bare (call :: intended)).2.bare := (silently _ silent.1).symm

/-- **A run of successful calls does to the memory what it does without a writer.** -/
theorem run_bare_of_ok {session : Session} {calls : List Call}
    (ok : AllOk (run hashBytes session calls).1) :
    (run hashBytes session calls).2.bare = (run hashBytes session.bare calls).2.bare := by
  induction calls generalizing session with
  | nil => rfl
  | cons call calls ih =>
    refine run_bare_cons hashBytes (ok _ List.mem_cons_self)
      (ih fun entry member => ok entry (List.mem_cons_of_mem _ member)) fun session silent => ?_
    exact ih (allOk_of_silent hashBytes silent calls)

/-- **Retries that hit no hash report do not show in the memory.** -/
theorem Retried.bare {session : Session} {intended attempts : List Call}
    (retried : Retried intended (run hashBytes session attempts).1)
    (succeed : ReportsSucceed hashBytes session attempts) :
    (run hashBytes session attempts).2.bare = (run hashBytes session.bare intended).2.bare := by
  induction attempts generalizing session intended with
  | nil =>
    cases retried
    rfl
  | cons call attempts ih =>
    change Retried intended ((call, (step hashBytes session call).1) ::
      (run hashBytes (step hashBytes session call).2 attempts).1) at retried
    cases retried with
    | succeeded ok later =>
      refine run_bare_cons hashBytes ok (ih later succeed.2) fun session silent => ?_
      exact run_bare_of_ok hashBytes (allOk_of_silent hashBytes silent _)
    | failed failed later =>
      have other : call.isReport = false := by
        by_contra report
        have ok := (step_report_isOk_iff hashBytes session (by simpa using report)).mpr
          (succeed.1 (by simpa using report))
        rw [failed] at ok
        cases ok
      have rest := ih later succeed.2
      rw [step_bare_of_failed hashBytes failed other] at rest
      exact rest

end Memory

/-! ### Counting the reports -/

/-- The attempted calls are the intended ones, some of them repeated. -/
theorem Retried.mem_iff {intended : List Call} {trace : List (Call × Response)}
    (retried : Retried intended trace) (call : Call) :
    call ∈ trace.map Prod.fst ↔ call ∈ intended := by
  induction retried with
  | done => exact Iff.rfl
  | succeeded _ _ ih => simp only [List.map_cons, List.mem_cons, ih]
  | failed _ _ ih =>
    simp only [List.map_cons, List.mem_cons] at ih ⊢
    rw [ih]
    tauto

/-- Each failed report is one report more than intended. -/
theorem Retried.countP {intended : List Call} {trace : List (Call × Response)}
    (retried : Retried intended trace) :
    (trace.map Prod.fst).countP Call.isReport =
      intended.countP Call.isReport + failedReports trace := by
  induction retried with
  | done => rfl
  | succeeded ok _ ih =>
    simp only [failedReports, List.map_cons, List.countP_cons, ok] at ih ⊢
    simp only [Bool.not_true, Bool.and_false, Bool.false_eq_true, if_false]
    omega
  | failed failed _ ih =>
    simp only [failedReports, List.map_cons, List.countP_cons, failed] at ih ⊢
    simp only [Bool.not_false, Bool.and_true]
    omega

section Count

variable (hashBytes : Bytes → UInt64)

/-- The per-tick table gains every report, failed or not. -/
theorem run_hashesByTick (session : Session) (calls : List Call) :
    ∃ entries, entries.length = calls.countP Call.isReport ∧
      (run hashBytes session calls).2.hashesByTick = pushAll session.hashesByTick entries := by
  induction calls generalizing session with
  | nil => exact ⟨[], rfl, rfl⟩
  | cons call calls ih =>
    have here := (step_effect hashBytes session call).hashesByTick
    obtain ⟨entries, length, later⟩ := ih (step hashBytes session call).2
    refine ⟨(call.reports hashBytes session.localPeerId).map TickHashRecord.entry ++ entries,
      ?_, ?_⟩
    · rw [List.length_append, List.length_map, length_callReports, length, List.countP_cons]
      rcases call.isReport <;> simp [Nat.add_comm]
    · rw [here] at later
      rw [pushAll, List.foldl_append]
      exact later

/-- **Retries show in the memory exactly when they hit a hash report.** -/
theorem Retried.sameMemory_iff {session ideal : Session} {intended attempts : List Call}
    (retried : Retried intended (run hashBytes session attempts).1)
    (start : session.SameMemory ideal) (ok : AllOk (run hashBytes ideal intended).1) :
    (run hashBytes session attempts).2.SameMemory (run hashBytes ideal intended).2 ↔
      ReportsSucceed hashBytes session attempts := by
  have made : (run hashBytes session attempts).1.map Prod.fst = attempts :=
    Machine.map_fst_run _ _ _
  obtain ⟨bare, schemas⟩ := Session.sameMemory_iff.mp start
  rw [Session.sameMemory_iff]
  constructor
  · rintro ⟨same, _⟩
    have tables : ∀ {first second : Session}, first.bare = second.bare →
        first.hashesByTick = second.hashesByTick := by
      intro first second equal
      have table := congrArg Session.hashesByTick equal
      exact table
    have table := tables same
    obtain ⟨entries, length, pushed⟩ := run_hashesByTick hashBytes session attempts
    obtain ⟨entries', length', pushed'⟩ := run_hashesByTick hashBytes ideal intended
    rw [pushed, pushed', tables bare] at table
    have counts := length_eq_of_pushAll_eq table
    have extra := retried.countP
    rw [made] at extra
    rw [reportsSucceed_iff]
    omega
  · intro succeed
    refine ⟨?_, ?_⟩
    · rw [retried.bare hashBytes succeed, run_bare_of_ok hashBytes ok, bare]
    · rw [run_writtenSchemas, run_writtenSchemas, schemas]
      congr 1
      ext name
      simp only [typeNamesOf, List.mem_toFinset, List.mem_flatMap]
      refine exists_congr fun call => and_congr_left' ?_
      rw [← retried.mem_iff, made]

end Count

/-- **A failed hash report leaves the session as it was exactly when there is none.** For one report
on any session; and for a run in which failing calls are retried until they succeed, compared with a
run from the same memory in which every call succeeds at once. -/
theorem failed_report_iff (hashBytes : Bytes → UInt64) (session : Session) :
    (∀ call : Call, call.isReport = true →
        (((step hashBytes session call).1.isOk = false →
            session.SameReports (step hashBytes session call).2) ↔ ¬ session.WriteFails)) ∧
      ∀ (intended attempts : List Call) (ideal : Session), session.SameMemory ideal →
        Retried intended (run hashBytes session attempts).1 →
        AllOk (run hashBytes ideal intended).1 →
        ((run hashBytes session attempts).2.SameMemory (run hashBytes ideal intended).2 ↔
          ReportsSucceed hashBytes session attempts) :=
  ⟨fun _ report => report_unchanged_iff hashBytes session report,
    fun _ _ _ start retried ok => retried.sameMemory_iff hashBytes start ok⟩

/-- A recording with the given outcomes after its header. -/
def faultyBuilder (faults : List Bool) : SessionBuilder :=
  { recordTo := some (.ok (false :: faults)) }

/-- The session it builds. -/
def faultySession (faults : List Bool) : Session :=
  (faultyBuilder faults).session (some { log := (faultyBuilder faults).header.encode, faults })

/-- A field whose frame takes `42 + count` bytes. Behind the header one of 8118 bytes fills the 8 KiB
of a `BufWriter` exactly, and the next write is the first that has to reach the file. -/
def padding (count : ℕ) : Call := .hashField 0 0 "pad" (List.replicate count 0)

/-- A recording that starts with it, and the outcomes after its three writes. -/
def paddedSession (count : ℕ) (faults : List Bool) : Session :=
  (step (fun _ => 0) (faultySession (false :: false :: false :: faults)) (padding count)).2

theorem length_paddedSession (count : ℕ) (faults : List Bool) :
    (recordedBytes (paddedSession count faults)).map List.length = some (74 + count) := by
  have log : recordedBytes (paddedSession count faults) = some
      ((((faultyBuilder (false :: false :: false :: faults)).header.encode ++ [typeFieldHash]) ++
        lenBytes (Frame.fieldHash 0 0 0 "pad" 0 (List.replicate count 0)).encodePayload) ++
        (Frame.fieldHash 0 0 0 "pad" 0 (List.replicate count 0)).encodePayload) := rfl
  have name : (asBytes "pad").length = 3 := by decide
  rw [log, Option.map_some]
  simp only [List.length_append, Header.length_encode, headerLen, Frame.encodePayload, lenBytes,
    length_u32Bytes, length_u64Bytes, length_u16Bytes, List.length_singleton, List.length_replicate,
    name]
  congr 1
  omega

/-- The report that failed is in the table, and reporting it again puts it there twice. -/
theorem failed_report_kept :
    (faultyBuilder [false, false, false, true]).build =
        .ok (faultySession [false, false, false, true]) ∧
      (recordedBytes (paddedSession 8118 [true])).map List.length = some 8192 ∧
      ((step (fun _ => 0) (paddedSession 8118 [true]) (.recordPeerHash 1 0 7)).1.isOk = false ∧
        ¬ (paddedSession 8118 [true]).SameReports
          (step (fun _ => 0) (paddedSession 8118 [true]) (.recordPeerHash 1 0 7)).2) ∧
      ∃ ideal, (paddedSession 8118 [true]).SameMemory ideal ∧
        Retried [.recordPeerHash 1 0 7] (run (fun _ => 0) (paddedSession 8118 [true])
          [.recordPeerHash 1 0 7, .recordPeerHash 1 0 7]).1 ∧
        AllOk (run (fun _ => 0) ideal [.recordPeerHash 1 0 7]).1 ∧
        ¬ (run (fun _ => 0) (paddedSession 8118 [true])
            [.recordPeerHash 1 0 7, .recordPeerHash 1 0 7]).2.SameMemory
          (run (fun _ => 0) ideal [.recordPeerHash 1 0 7]).2 := by
  have fails : (paddedSession 8118 [true]).WriteFails :=
    show true ∈ [true] from List.mem_cons_self
  have start : (paddedSession 8118 [true]).SameMemory ((faultyBuilder []).session none) := rfl
  have retried : Retried [.recordPeerHash 1 0 7] (run (fun _ => 0) (paddedSession 8118 [true])
      [.recordPeerHash 1 0 7, .recordPeerHash 1 0 7]).1 :=
    Retried.failed rfl (Retried.succeeded rfl Retried.done)
  have ok : AllOk (run (fun _ => 0) ((faultyBuilder []).session none) [.recordPeerHash 1 0 7]).1 :=
    allOk_of_silent _ rfl _
  refine ⟨rfl, length_paddedSession 8118 [true], ⟨rfl, fun same => ?_⟩, _, start, retried, ok,
    fun same => ?_⟩
  · exact (report_unchanged_iff _ _ rfl).mp (fun _ => same) fails
  · exact ((retried.sameMemory_iff _ start ok).mp same).1 rfl fails

end Foldback
