/-
**Any number of peers that exchange their tick hashes, live and in their recordings.**

* `Mesh`: the peers, each with its session and the trace of the calls made on it. A peer makes any call
  of the `Session` API, and hashes a tick once.
* A delivery hands an entry that some peer drained to some peer: at any time, in any order, any number
  of times, to its own sender too.
* `Member`: the invariant of one peer. Its reports are what it hashed and what it received.
* `mesh_agrees`: **whatever a peer or its recording names, two peers hashed differently, and a peer that
  has received everything names exactly those ticks**; its recording names the least of them.
-/

import Foldback.Cli.Report
import Foldback.Core.Exchange

namespace Foldback

variable {ι : Type}

abbrev Mesh (ι : Type) := ι → Peer

def Call.isPeerReport : Call → Bool
  | .recordPeerHash .. => true
  | _ => false

/-- The response of a peer to a call. -/
def Peer.answer (hashBytes : Bytes → UInt64) (peer : Peer) (call : Call) : Response :=
  (step hashBytes peer.session call).1

/-- What can happen next. -/
inductive MeshMove (ι : Type)
  | own (peer : ι) (call : Call)
  | deliver (receiver sender : ι) (message : PendingHash)

namespace MeshMove

def peer : MeshMove ι → ι
  | .own peer _ => peer
  | .deliver receiver _ _ => receiver

/-- The call a move makes. A receiver attributes the entry to the sender's own id. -/
def call (mesh : Mesh ι) : MeshMove ι → Call
  | .own _ call => call
  | .deliver _ sender message =>
    .recordPeerHash message.tick (mesh sender).session.localPeerId message.hash

/-- The reports of other peers come from deliveries, and these hand over what was drained. -/
def Honest (mesh : Mesh ι) : MeshMove ι → Prop
  | .own _ call => call.isPeerReport = false
  | .deliver _ sender message => message ∈ drainedIn (mesh sender).trace

instance (mesh : Mesh ι) (move : MeshMove ι) : Decidable (move.Honest mesh) := by
  unfold Honest
  cases move <;> exact inferInstance

end MeshMove

/-- The peer has hashed no tick twice. -/
def Peer.HashedOnce (hashBytes : Bytes → UInt64) (peer : Peer) : Prop :=
  ((hashedIn hashBytes peer.trace).map Prod.fst).Nodup

instance (hashBytes : Bytes → UInt64) (peer : Peer) : Decidable (peer.HashedOnce hashBytes) :=
  inferInstanceAs (Decidable (List.Nodup _))

/-- A move is possible: its call succeeds, and does not hash a tick again. -/
def Mesh.Allowed (hashBytes : Bytes → UInt64) (mesh : Mesh ι) (move : MeshMove ι) : Prop :=
  move.Honest mesh ∧ ((mesh move.peer).answer hashBytes (move.call mesh)).isOk = true ∧
    ((mesh move.peer).perform hashBytes (move.call mesh)).HashedOnce hashBytes

instance (hashBytes : Bytes → UInt64) (mesh : Mesh ι) (move : MeshMove ι) :
    Decidable (mesh.Allowed hashBytes move) := inferInstanceAs (Decidable (_ ∧ _ ∧ _))

/-- Fresh sessions. -/
def Mesh.start (sessions : ι → Session) : Mesh ι := fun peer => ⟨sessions peer, []⟩

section Moves

variable [DecidableEq ι]

def Mesh.perform (hashBytes : Bytes → UInt64) (mesh : Mesh ι) (move : MeshMove ι) : Mesh ι :=
  Function.update mesh move.peer ((mesh move.peer).perform hashBytes (move.call mesh))

def Mesh.Step (hashBytes : Bytes → UInt64) (before after : Mesh ι) : Prop :=
  ∃ move, before.Allowed hashBytes move ∧ after = before.perform hashBytes move

/-- Everything that can happen from fresh sessions. -/
def Mesh.Reachable (hashBytes : Bytes → UInt64) (sessions : ι → Session) (mesh : Mesh ι) : Prop :=
  Relation.ReflTransGen (Mesh.Step hashBytes) (Mesh.start sessions) mesh

end Moves

/-! ### The invariant of one peer -/

/-- A tick is reported with a hash. -/
def Reports (reports : List TickHashRecord) (tick hash : UInt64) : Prop :=
  ∃ report ∈ reports, report.tick = tick ∧ report.hash = hash

/-- **The invariant of one peer**, `network` being what all have drained. -/
structure Member (hashBytes : Bytes → UInt64) (me : UInt16) (start : Session)
    (network : PendingHash → Prop) (peer : Peer) : Prop where
  live : Live hashBytes me peer.trace peer.session
  queue : drainedIn peer.trace ++ peer.session.pending =
    (hashedIn hashBytes peer.trace).map fun entry => ⟨entry.1, entry.2⟩
  once : peer.HashedOnce hashBytes
  received : ∀ message ∈ receivedIn peer.trace, network message
  reported : ∀ tick hash, Reports (reportsIn hashBytes me peer.trace) tick hash ↔
    (tick, hash) ∈ hashedIn hashBytes peer.trace ∨ ⟨tick, hash⟩ ∈ receivedIn peer.trace
  ran : run hashBytes start (peer.trace.map Prod.fst) = (peer.trace, peer.session)
  ok : AllOk peer.trace

section Member

variable {hashBytes : Bytes → UInt64} {me : UInt16} {start : Session}
  {network more : PendingHash → Prop} {peer : Peer}

theorem Member.mono (member : Member hashBytes me start network peer)
    (sub : ∀ message, network message → more message) : Member hashBytes me start more peer :=
  { member with received := fun message got => sub message (member.received message got) }

/-- A peer hashes a tick with one hash. -/
theorem Member.hash_unique (member : Member hashBytes me start network peer)
    {tick hash hash' : UInt64} (one : (tick, hash) ∈ hashedIn hashBytes peer.trace)
    (other : (tick, hash') ∈ hashedIn hashBytes peer.trace) : hash = hash' :=
  congrArg Prod.snd (List.inj_on_of_nodup_map member.once one other rfl)

/-- What a peer drained it hashed. -/
theorem Member.hashed_of_drained (member : Member hashBytes me start network peer)
    {message : PendingHash} (drained : message ∈ drainedIn peer.trace) :
    (message.tick, message.hash) ∈ hashedIn hashBytes peer.trace := by
  have queued := List.mem_append_left peer.session.pending drained
  rw [member.queue] at queued
  obtain ⟨entry, hashed, rfl⟩ := List.mem_map.mp queued
  exact hashed

variable (me) in
/-- A call that succeeds reports what it hashes and what it hands over. -/
theorem reports_of_ok (session : Session) (call : Call)
    (ok : (step hashBytes session call).1.isOk = true) (tick hash : UInt64) :
    Reports (call.reports hashBytes me) tick hash ↔
      (tick, hash) ∈ chained hashBytes call (step hashBytes session call).1 ∨
        ⟨tick, hash⟩ ∈ call.received := by
  cases call with
  | hashTick tick' stateBytes =>
    simp only [step_hashTick] at ok ⊢
    rw [isOk_returned ok]
    simp [Reports, Call.reports, Call.received, chained, eq_comm]
  | recordPeerHash tick' peerId hash' =>
    simp [Reports, Call.reports, Call.received, chained, eq_comm]
  | _ => simp [Reports, Call.reports, Call.received, chained]

/-- **Every call that succeeds keeps the invariant.** -/
theorem Member.perform (member : Member hashBytes me start network peer) (call : Call)
    (ok : (peer.answer hashBytes call).isOk = true)
    (once : (peer.perform hashBytes call).HashedOnce hashBytes)
    (received : ∀ message ∈ call.received, network message) :
    Member hashBytes me start network (peer.perform hashBytes call) := by
  have effect := step_effect hashBytes peer.session call
  refine ⟨member.live.step call, ?_, once, fun message got => ?_, fun tick hash => ?_, ?_,
    fun entry made => ?_⟩
  · have queue := member.queue
    have pending := effect.pending
    simp only [Peer.perform, drainedIn, hashedIn, List.flatMap_append, List.flatMap_singleton,
      List.map_append, List.append_assoc] at queue ⊢
    rw [pending, ← List.append_assoc, queue]
  · simp only [Peer.perform, receivedIn, List.flatMap_append, List.flatMap_singleton,
      List.mem_append] at got
    rcases got with before | now
    · exact member.received message before
    · exact received message now
  · have before := member.reported tick hash
    have now := reports_of_ok me peer.session call ok tick hash
    simp only [Reports, Peer.perform, reportsIn, hashedIn, receivedIn, List.flatMap_append,
      List.flatMap_singleton, List.mem_append, or_and_right, exists_or] at before now ⊢
    rw [before, now]
    tauto
  · have ran := member.ran
    simp only [Peer.perform, List.map_append, List.map_singleton]
    rw [run] at ran ⊢
    rw [Machine.run_snoc, ran]
  · rcases List.mem_append.mp made with before | now
    · exact member.ok entry before
    · rw [List.mem_singleton.mp now]
      exact ok

end Member

/-! ### The invariant of the mesh -/

/-- Some peer has drained the entry. -/
def Mesh.Drained (mesh : Mesh ι) (message : PendingHash) : Prop :=
  ∃ sender, message ∈ drainedIn (mesh sender).trace

/-- Each peer's invariant holds. -/
def Mesh.Inv (hashBytes : Bytes → UInt64) (ids : ι → UInt16) (sessions : ι → Session)
    (mesh : Mesh ι) : Prop :=
  ∀ peer, Member hashBytes (ids peer) (sessions peer) mesh.Drained (mesh peer)

theorem Mesh.Inv.start {hashBytes : Bytes → UInt64} {sessions : ι → Session}
    {builders : ι → SessionBuilder}
    (built : ∀ peer, (builders peer).build = .ok (sessions peer)) :
    (Mesh.start sessions).Inv hashBytes (fun peer => (builders peer).localPeerId) sessions := by
  intro peer
  obtain ⟨writer, same⟩ := SessionBuilder.build_eq (built peer)
  refine ⟨Live.run hashBytes (built peer) [], ?_, List.nodup_nil, fun message got => (by cases got),
    fun tick hash => ?_, rfl, fun entry made => (by cases made)⟩
  · rw [Mesh.start, same]
    rfl
  · simp [Mesh.start, Reports, reportsIn, hashedIn, receivedIn]

section Moves

variable [DecidableEq ι] {hashBytes : Bytes → UInt64} {ids : ι → UInt16} {sessions : ι → Session}
  {mesh : Mesh ι}

variable (hashBytes) in
/-- What was drained stays drained. -/
theorem Mesh.Drained.perform {message : PendingHash} (drained : mesh.Drained message)
    (move : MeshMove ι) : (mesh.perform hashBytes move).Drained message := by
  obtain ⟨sender, member⟩ := drained
  refine ⟨sender, ?_⟩
  rw [Mesh.perform]
  by_cases mover : sender = move.peer
  · subst mover
    rw [Function.update_self, Peer.perform, drainedIn, List.flatMap_append]
    exact List.mem_append_left _ member
  · rw [Function.update_of_ne mover]
    exact member

/-- **Every move keeps the invariant.** -/
theorem Mesh.Inv.perform (inv : mesh.Inv hashBytes ids sessions) {move : MeshMove ι}
    (allowed : mesh.Allowed hashBytes move) :
    (mesh.perform hashBytes move).Inv hashBytes ids sessions := by
  obtain ⟨honest, ok, once⟩ := allowed
  have received : ∀ message ∈ (move.call mesh).received, mesh.Drained message := by
    intro message got
    cases move with
    | own peer call =>
      cases call with
      | recordPeerHash tick peerId hash => cases honest
      | _ => cases got
    | deliver receiver sender drained =>
      rw [MeshMove.call, Call.received, List.mem_singleton] at got
      rw [got]
      exact ⟨sender, honest⟩
  intro other
  by_cases mover : other = move.peer
  · subst mover
    have member := ((inv move.peer).perform (move.call mesh) ok once received).mono
      fun _ drained => drained.perform hashBytes move
    rwa [Mesh.perform, Function.update_self] at *
  · have member := (inv other).mono fun _ drained => drained.perform hashBytes move
    rwa [Mesh.perform, Function.update_of_ne mover] at *

theorem Mesh.Inv.reachable {builders : ι → SessionBuilder}
    (built : ∀ peer, (builders peer).build = .ok (sessions peer))
    (reachable : mesh.Reachable hashBytes sessions) :
    mesh.Inv hashBytes (fun peer => (builders peer).localPeerId) sessions := by
  induction reachable with
  | refl => exact Mesh.Inv.start built
  | tail _ step inv =>
    obtain ⟨move, allowed, rfl⟩ := step
    exact inv.perform allowed

end Moves

/-! ### What the peers name -/

section Names

variable {hashBytes : Bytes → UInt64} {ids : ι → UInt16} {sessions : ι → Session} {mesh : Mesh ι}

/-- Two peers hashed the tick, with different hashes. -/
def Mesh.HashedDifferently (hashBytes : Bytes → UInt64) (mesh : Mesh ι) (tick : UInt64) : Prop :=
  ∃ one other hash hash', (tick, hash) ∈ hashedIn hashBytes (mesh one).trace ∧
    (tick, hash') ∈ hashedIn hashBytes (mesh other).trace ∧ hash ≠ hash'

/-- Every tick that another peer hashed has reached the peer. -/
def Mesh.Informed (hashBytes : Bytes → UInt64) (mesh : Mesh ι) (peer : ι) : Prop :=
  ∀ sender, sender ≠ peer → ∀ entry ∈ hashedIn hashBytes (mesh sender).trace,
    ⟨entry.1, entry.2⟩ ∈ receivedIn (mesh peer).trace

theorem Mesh.Inv.hashed_of_reports (inv : mesh.Inv hashBytes ids sessions) {peer : ι}
    {tick hash : UInt64} (reports : Reports (reportsIn hashBytes (ids peer) (mesh peer).trace) tick hash) :
    ∃ owner, (tick, hash) ∈ hashedIn hashBytes (mesh owner).trace := by
  rcases ((inv peer).reported tick hash).mp reports with hashed | got
  · exact ⟨peer, hashed⟩
  · obtain ⟨sender, drained⟩ := (inv peer).received _ got
    exact ⟨sender, (inv sender).hashed_of_drained drained⟩

/-- Two contradicting reports come from two peers that hashed differently. -/
theorem Mesh.Inv.sound (inv : mesh.Inv hashBytes ids sessions) {peer : ι} {tick : UInt64}
    (contradicted : Contradicted (reportsIn hashBytes (ids peer) (mesh peer).trace) tick) :
    mesh.HashedDifferently hashBytes tick := by
  obtain ⟨one, memberOne, other, memberOther, rfl, sameTick, differs⟩ := contradicted
  obtain ⟨owner, hashed⟩ := inv.hashed_of_reports ⟨one, memberOne, rfl, rfl⟩
  obtain ⟨owner', hashed'⟩ := inv.hashed_of_reports ⟨other, memberOther, sameTick, rfl⟩
  exact ⟨owner, owner', one.hash, other.hash, hashed, hashed', differs⟩

/-- A peer that has received everything has both reports. -/
theorem Mesh.Inv.complete (inv : mesh.Inv hashBytes ids sessions) {peer : ι}
    (informed : mesh.Informed hashBytes peer) {tick : UInt64}
    (different : mesh.HashedDifferently hashBytes tick) :
    Contradicted (reportsIn hashBytes (ids peer) (mesh peer).trace) tick := by
  obtain ⟨one, other, hash, hash', hashed, hashed', differs⟩ := different
  have reports : ∀ {owner hash}, (tick, hash) ∈ hashedIn hashBytes (mesh owner).trace →
      Reports (reportsIn hashBytes (ids peer) (mesh peer).trace) tick hash := by
    intro owner hash hashed
    rw [(inv peer).reported]
    by_cases own : owner = peer
    · exact .inl (own ▸ hashed)
    · exact .inr (informed owner own _ hashed)
  obtain ⟨report, member, atTick, rfl⟩ := reports hashed
  obtain ⟨report', member', atTick', rfl⟩ := reports hashed'
  exact ⟨report, member, report', member', atTick, atTick', differs⟩

end Names

/-- The divergence in the report of a peer's frames. -/
theorem divergence_of (hashBytes : Bytes → UInt64) (localPeerId : UInt16) (header : Header)
    (calls : List Call) :
    (Report.of header (framesOf hashBytes localPeerId ∅ calls)).divergence =
      findFirstDivergence (calls.flatMap (Call.reports hashBytes localPeerId)) := by
  simp only [Report.of, foldl_add_framesOf, List.nil_append]

/-- **The peers agree, live and in their recordings.** In every state that the mesh can reach: no peer
returns a tick twice, and what it returns two peers hashed differently. A peer that has received
everything and has nothing left to return has returned exactly the ticks that were hashed differently.
The recording of a peer loads, and what it names was hashed differently; if the peer had received
everything, it names the least such tick. -/
theorem mesh_agrees [DecidableEq ι] (hashBytes : Bytes → UInt64) (builders : ι → SessionBuilder)
    (sessions : ι → Session) (built : ∀ peer, (builders peer).build = .ok (sessions peer))
    (mesh : Mesh ι) (reachable : mesh.Reachable hashBytes sessions) (peer : ι) :
    (returnedIn (mesh peer).trace).Nodup ∧
    (∀ tick ∈ returnedIn (mesh peer).trace, mesh.HashedDifferently hashBytes tick) ∧
    (mesh.Informed hashBytes peer → (mesh peer).session.checkDivergence.1 = none →
      ∀ tick, tick ∈ returnedIn (mesh peer).trace ↔ mesh.HashedDifferently hashBytes tick) ∧
    ∀ path, (builders peer).recordTo ≠ none →
      (∀ frame ∈ framesOf hashBytes (builders peer).localPeerId ∅ ((mesh peer).trace.map Prod.fst),
        frame.Fits) →
      ∃ file report, recordedBytes (mesh peer).session = some file ∧
        analyze path (.ok file) = .ok report ∧
        (∀ tick, report.divergence = some ⟨tick⟩ → mesh.HashedDifferently hashBytes tick) ∧
        (mesh.Informed hashBytes peer → ∀ tick, report.divergence = some ⟨tick⟩ ↔
          IsLeast {tick | mesh.HashedDifferently hashBytes tick} tick) := by
  have inv := Mesh.Inv.reachable built reachable
  have member := inv peer
  refine ⟨member.live.nodup, fun tick returned => inv.sound (member.live.sound tick returned),
    fun informed none tick => ?_, fun path records fits => ?_⟩
  · refine ⟨fun returned => inv.sound (member.live.sound tick returned), fun different => ?_⟩
    exact (checkDivergence_eq_none_iff member.live.tracks).mp none tick (inv.complete informed different)
  · have ok : AllOk (run hashBytes (sessions peer) ((mesh peer).trace.map Prod.fst)).1 := by
      rw [member.ran]
      exact member.ok
    obtain ⟨file, recorded, holds⟩ := recording_reads_back hashBytes records (built peer) ok fits
    have heard : ((mesh peer).trace.map Prod.fst).flatMap
        (Call.reports hashBytes (builders peer).localPeerId) =
        reportsIn hashBytes (builders peer).localPeerId (mesh peer).trace := by
      rw [← reportsIn_run hashBytes (builders peer).localPeerId (sessions peer), member.ran]
    rw [member.ran] at recorded
    refine ⟨file, Report.of (builders peer).header (framesOf hashBytes (builders peer).localPeerId ∅
      ((mesh peer).trace.map Prod.fst)), recorded, ?_, fun tick found => ?_, fun informed tick => ?_⟩
    · rw [analyze, loadRecording_ok _ holds]
      rfl
    · rw [divergence_of, heard, findFirstDivergence_eq_some_iff] at found
      exact inv.sound found.1
    · have same : {tick | mesh.HashedDifferently hashBytes tick} = {tick | Contradicted
          (reportsIn hashBytes (builders peer).localPeerId (mesh peer).trace) tick} :=
        Set.ext fun tick => ⟨fun different => inv.complete informed different, inv.sound⟩
      rw [divergence_of, heard, findFirstDivergence_eq_some_iff, same]

/-! ### A schedule -/

section Schedule

variable [DecidableEq ι] {hashBytes : Bytes → UInt64}

/-- Every move of a schedule is possible when its turn comes. -/
def Mesh.Allows (hashBytes : Bytes → UInt64) (mesh : Mesh ι) : List (MeshMove ι) → Prop
  | [] => True
  | move :: moves =>
    mesh.Allowed hashBytes move ∧ (mesh.perform hashBytes move).Allows hashBytes moves

instance Mesh.decidableAllows (hashBytes : Bytes → UInt64) (mesh : Mesh ι) :
    (moves : List (MeshMove ι)) → Decidable (mesh.Allows hashBytes moves)
  | [] => inferInstanceAs (Decidable True)
  | move :: moves =>
    have := decidableAllows hashBytes (mesh.perform hashBytes move) moves
    inferInstanceAs (Decidable (_ ∧ _))

theorem Mesh.reachable_of_allows {sessions : ι → Session} {mesh : Mesh ι}
    (reachable : mesh.Reachable hashBytes sessions) {moves : List (MeshMove ι)}
    (allows : mesh.Allows hashBytes moves) :
    (moves.foldl (Mesh.perform hashBytes) mesh).Reachable hashBytes sessions := by
  induction moves generalizing mesh with
  | nil => exact reachable
  | cons move moves ih => exact ih (reachable.tail ⟨move, allows.1, rfl⟩) allows.2

end Schedule

/-- Three peers, of which the third hashes nothing and hears of tick 1 from both others. -/
def meshSchedule : List (MeshMove (Fin 3)) :=
  [.own 0 (.hashTick 1 []), .own 1 (.hashTick 1 [0]), .own 0 .takePendingHashes,
    .own 1 (.takePendingHashesUpTo 1), .deliver 2 1 ⟨1, 1⟩, .own 2 .checkDivergence,
    .deliver 2 0 ⟨1, 0⟩, .own 2 .checkDivergence, .deliver 2 1 ⟨1, 1⟩]

theorem mesh_agrees_sample :
    let builders := fun peer : Fin 3 =>
      ({ localPeerId := UInt16.ofNat peer, recordTo := some (.ok []) } : SessionBuilder)
    let sessions := fun peer => (builders peer).session
      (some { log := (builders peer).header.encode, faults := [] })
    let hashBytes := fun bytes : Bytes => UInt64.ofNat bytes.length
    let mesh := meshSchedule.foldl (Mesh.perform hashBytes) (Mesh.start sessions)
    returnedIn (mesh 2).trace = [1] ∧ mesh.HashedDifferently hashBytes 1 ∧
      ∃ file report, recordedBytes (mesh 2).session = some file ∧
        analyze "c.foldback" (.ok file) = .ok report ∧ report.divergence = some ⟨1⟩ := by
  intro builders sessions hashBytes mesh
  have reachable : mesh.Reachable hashBytes sessions :=
    Mesh.reachable_of_allows .refl (by decide)
  have agrees := mesh_agrees hashBytes builders sessions (fun _ => rfl) mesh reachable 2
  have returned : returnedIn (mesh 2).trace = [1] := by decide
  have different : mesh.HashedDifferently hashBytes 1 := by
    apply agrees.2.1 1
    rw [returned]
    exact List.mem_singleton_self 1
  have informed : mesh.Informed hashBytes 2 := by
    have heard : ∀ sender ≠ 2, (hashedIn hashBytes (mesh sender).trace).all (fun entry =>
        ⟨entry.1, entry.2⟩ ∈ receivedIn (mesh 2).trace) = true := by decide
    exact fun sender different => by simpa using heard sender different
  have settled : (mesh 2).session.checkDivergence.1 = none := by decide +kernel
  have only : ∀ tick, mesh.HashedDifferently hashBytes tick → tick = 1 := by
    intro tick different
    have found := (agrees.2.2.1 informed settled tick).mpr different
    rw [returned] at found
    exact List.mem_singleton.mp found
  obtain ⟨file, report, recorded, analyzed, -, exact⟩ :=
    agrees.2.2.2 "c.foldback" (by decide) (by decide +kernel)
  refine ⟨returned, different, file, report, recorded, analyzed, (exact informed 1).mpr ⟨different, ?_⟩⟩
  intro tick member
  exact UInt64.le_of_eq (only tick member).symm

end Foldback
