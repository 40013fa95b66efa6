/-
**Two sessions that exchange their tick hashes over an adversarial network.**

* `Exchange`: both peers, each with its session and the trace of the calls made on it.
* `Move`: a peer hashes a tick, drains its queue, receives a drained entry or checks. Entries that
  were drained once may be delivered any number of times, in any order, or never.
* `Endpoint`: the invariant of one side. Its table holds what it hashed and what it received; what it
  received the other side drained; what it drained and what is pending is what it hashed.
* `exchange_agrees`: **whatever a side returns, both peers hashed with different hashes, and once
  everything is delivered and checked both sides have returned exactly those ticks.**
-/

import Foldback.Core.Divergence

namespace Foldback

inductive Side
  | a
  | b
  deriving DecidableEq, Repr

def Side.other : Side → Side
  | .a => .b
  | .b => .a

@[simp]
theorem Side.other_other (side : Side) : side.other.other = side := by cases side <;> rfl

theorem Side.other_ne (side : Side) : side.other ≠ side := by cases side <;> decide

theorem Side.eq_other_of_ne {side mover : Side} (different : side ≠ mover) : side = mover.other := by
  cases side <;> cases mover <;> simp_all [Side.other]

/-- A session, with the calls made on it and their responses. -/
structure Peer where
  session : Session
  trace : List (Call × Response)

def Peer.perform (hashBytes : Bytes → UInt64) (peer : Peer) (call : Call) : Peer where
  session := (step hashBytes peer.session call).2
  trace := peer.trace ++ [(call, (step hashBytes peer.session call).1)]

/-- The two peers. -/
abbrev Exchange := Side → Peer

/-- What can happen next. A delivery hands an entry that the other side drained to `side`. -/
inductive Move
  | hashTick (side : Side) (tick : UInt64) (stateBytes : Bytes)
  | drain (side : Side)
  | drainUpTo (side : Side) (max : ℕ)
  | deliver (side : Side) (message : PendingHash)
  | check (side : Side)
  deriving DecidableEq, Repr

namespace Move

def side : Move → Side
  | .hashTick side _ _ | .drain side | .drainUpTo side _ | .deliver side _ | .check side => side

/-- The call a move makes. A receiver attributes the entry to the sender's own id. -/
def call (exchange : Exchange) : Move → Call
  | .hashTick _ tick stateBytes => .hashTick tick stateBytes
  | .drain _ => .takePendingHashes
  | .drainUpTo _ max => .takePendingHashesUpTo max
  | .deliver side message =>
    .recordPeerHash message.tick (exchange side.other).session.localPeerId message.hash
  | .check _ => .checkDivergence

end Move

/-! ### What a trace shows -/

/-- The entries drained in a trace. -/
def drainedIn (trace : List (Call × Response)) : List PendingHash :=
  trace.flatMap fun entry => entry.2.drainedHashes

/-- The entries a call hands to the session. -/
def Call.received : Call → List PendingHash
  | .recordPeerHash tick _ hash => [⟨tick, hash⟩]
  | _ => []

/-- The entries received in a trace. -/
def receivedIn (trace : List (Call × Response)) : List PendingHash :=
  trace.flatMap fun entry => entry.1.received

/-- A move is possible: its call succeeds, a tick is hashed for the first time, an entry delivered
was drained by the sender. -/
def Allowed (hashBytes : Bytes → UInt64) (exchange : Exchange) (move : Move) : Prop :=
  (step hashBytes (exchange move.side).session (move.call exchange)).1.isOk = true ∧
    match move with
    | .hashTick side tick _ => tick ∉ (hashedIn hashBytes (exchange side).trace).map Prod.fst
    | .deliver side message => message ∈ drainedIn (exchange side.other).trace
    | _ => True

instance (hashBytes : Bytes → UInt64) (exchange : Exchange) (move : Move) :
    Decidable (Allowed hashBytes exchange move) := by
  unfold Allowed
  cases move <;> exact inferInstance

def Exchange.perform (hashBytes : Bytes → UInt64) (exchange : Exchange) (move : Move) : Exchange :=
  Function.update exchange move.side
    ((exchange move.side).perform hashBytes (move.call exchange))

/-- One step of the pair. -/
def Exchange.Step (hashBytes : Bytes → UInt64) (before after : Exchange) : Prop :=
  ∃ move, Allowed hashBytes before move ∧ after = before.perform hashBytes move

/-- Two fresh sessions. -/
def Exchange.start (sessions : Side → Session) : Exchange := fun side => ⟨sessions side, []⟩

/-- Everything that can happen from two fresh sessions. -/
def Exchange.Reachable (hashBytes : Bytes → UInt64) (sessions : Side → Session) (exchange : Exchange) :
    Prop :=
  Relation.ReflTransGen (Exchange.Step hashBytes) (Exchange.start sessions) exchange

/-! ### The invariant of one side -/

/-- An entry of the trace reports what its peer hashed, as `me`, or what it received, as `them`. -/
def Attributed (hashBytes : Bytes → UInt64) (me them : UInt16) (entry : Call × Response) : Prop :=
  ∀ report : TickHashRecord, report ∈ entry.1.reports hashBytes me ↔
    (report.peerId = me ∧ (report.tick, report.hash) ∈ chained hashBytes entry.1 entry.2) ∨
      (report.peerId = them ∧ ⟨report.tick, report.hash⟩ ∈ entry.1.received)

/-- **The invariant of one side**, `inbox` being what the other side has drained. -/
structure Endpoint (hashBytes : Bytes → UInt64) (me them : UInt16) (inbox : List PendingHash)
    (peer : Peer) : Prop where
  live : Live hashBytes me peer.trace peer.session
  queue : drainedIn peer.trace ++ peer.session.pending =
    (hashedIn hashBytes peer.trace).map fun entry => ⟨entry.1, entry.2⟩
  once : ((hashedIn hashBytes peer.trace).map Prod.fst).Nodup
  received : receivedIn peer.trace ⊆ inbox
  attributed : ∀ entry ∈ peer.trace, Attributed hashBytes me them entry

section Endpoint

variable {hashBytes : Bytes → UInt64} {me them : UInt16} {inbox : List PendingHash} {peer : Peer}

theorem Endpoint.mono {more : List PendingHash}
    (endpoint : Endpoint hashBytes me them inbox peer) (sub : inbox ⊆ more) :
    Endpoint hashBytes me them more peer :=
  { endpoint with received := fun _ member => sub (endpoint.received member) }

theorem Endpoint.mem_reports (endpoint : Endpoint hashBytes me them inbox peer)
    (report : TickHashRecord) :
    report ∈ reportsIn hashBytes me peer.trace ↔
      (report.peerId = me ∧ (report.tick, report.hash) ∈ hashedIn hashBytes peer.trace) ∨
        (report.peerId = them ∧ ⟨report.tick, report.hash⟩ ∈ receivedIn peer.trace) := by
  simp only [reportsIn, hashedIn, receivedIn, List.mem_flatMap]
  constructor
  · rintro ⟨entry, member, reported⟩
    rcases (endpoint.attributed entry member report).mp reported with ⟨mine, hashed⟩ | ⟨theirs, got⟩
    · exact .inl ⟨mine, entry, member, hashed⟩
    · exact .inr ⟨theirs, entry, member, got⟩
  · rintro (⟨mine, entry, member, hashed⟩ | ⟨theirs, entry, member, got⟩)
    · exact ⟨entry, member, (endpoint.attributed entry member report).mpr (.inl ⟨mine, hashed⟩)⟩
    · exact ⟨entry, member, (endpoint.attributed entry member report).mpr (.inr ⟨theirs, got⟩)⟩

/-- A peer hashes a tick with one hash. -/
theorem Endpoint.hash_unique (endpoint : Endpoint hashBytes me them inbox peer)
    {tick hash hash' : UInt64} (one : (tick, hash) ∈ hashedIn hashBytes peer.trace)
    (other : (tick, hash') ∈ hashedIn hashBytes peer.trace) : hash = hash' :=
  congrArg Prod.snd (List.inj_on_of_nodup_map endpoint.once one other rfl)

/-- What a peer drained it hashed. -/
theorem Endpoint.hashed_of_drained (endpoint : Endpoint hashBytes me them inbox peer)
    {message : PendingHash} (drained : message ∈ drainedIn peer.trace) :
    (message.tick, message.hash) ∈ hashedIn hashBytes peer.trace := by
  have member := List.mem_append_left peer.session.pending drained
  rw [endpoint.queue] at member
  obtain ⟨entry, hashed, rfl⟩ := List.mem_map.mp member
  exact hashed

/-- One call that succeeds, attributes its reports and receives from the inbox. -/
theorem Endpoint.perform (endpoint : Endpoint hashBytes me them inbox peer) (call : Call)
    (fresh : ∀ tick ∈ (chained hashBytes call (step hashBytes peer.session call).1).map Prod.fst,
      tick ∉ (hashedIn hashBytes peer.trace).map Prod.fst)
    (single : ((chained hashBytes call (step hashBytes peer.session call).1).map Prod.fst).Nodup)
    (received : call.received ⊆ inbox)
    (attributed : Attributed hashBytes me them (call, (step hashBytes peer.session call).1)) :
    Endpoint hashBytes me them inbox (peer.perform hashBytes call) := by
  have effect := step_effect hashBytes peer.session call
  refine ⟨endpoint.live.step call, ?_, ?_, ?_, ?_⟩
  · have queue := endpoint.queue
    have pending := effect.pending
    simp only [Peer.perform, drainedIn, hashedIn, List.flatMap_append, List.flatMap_singleton,
      List.map_append, List.append_assoc] at queue ⊢
    rw [pending, ← List.append_assoc, queue]
  · simp only [Peer.perform, hashedIn, List.flatMap_append, List.flatMap_singleton,
      List.map_append]
    refine List.nodup_append'.mpr ⟨endpoint.once, single, fun tick before now => ?_⟩
    exact fresh tick now before
  · simp only [Peer.perform, receivedIn, List.flatMap_append, List.flatMap_singleton]
    exact List.append_subset.mpr ⟨endpoint.received, received⟩
  · intro entry member
    rcases List.mem_append.mp member with before | now
    · exact endpoint.attributed entry before
    · rw [List.mem_singleton.mp now]
      exact attributed

end Endpoint

/-! ### The invariant of the pair -/

/-- Each side's invariant holds, with what the other side drained as its inbox. -/
def Exchange.Inv (hashBytes : Bytes → UInt64) (ids : Side → UInt16) (exchange : Exchange) : Prop :=
  ∀ side, Endpoint hashBytes (ids side) (ids side.other) (drainedIn (exchange side.other).trace)
    (exchange side)

/-- What a possible move's call chains and reports. -/
theorem Allowed.facts {hashBytes : Bytes → UInt64} {ids : Side → UInt16} {exchange : Exchange}
    (inv : exchange.Inv hashBytes ids) {move : Move} (allowed : Allowed hashBytes exchange move) :
    let peer := exchange move.side
    let response := (step hashBytes peer.session (move.call exchange)).1
    (∀ tick ∈ (chained hashBytes (move.call exchange) response).map Prod.fst,
      tick ∉ (hashedIn hashBytes peer.trace).map Prod.fst) ∧
    ((chained hashBytes (move.call exchange) response).map Prod.fst).Nodup ∧
    (move.call exchange).received ⊆ drainedIn (exchange move.side.other).trace ∧
    Attributed hashBytes (ids move.side) (ids move.side.other) (move.call exchange, response) := by
  obtain ⟨ok, guard⟩ := allowed
  cases move with
  | hashTick side tick stateBytes =>
    have chain : chained hashBytes (.hashTick tick stateBytes)
        (step hashBytes (exchange side).session (.hashTick tick stateBytes)).1 =
        [(tick, hashBytes stateBytes)] := by
      simp only [Move.side, Move.call, step_hashTick] at ok ⊢
      rw [isOk_returned ok]
      rfl
    simp only [Move.side, Move.call, chain]
    refine ⟨?_, List.nodup_singleton _, List.nil_subset _, fun report => ?_⟩
    · simpa using guard
    · rcases report with ⟨tick', peer, hash⟩
      simp only [chain, Call.reports, Call.received, List.mem_singleton, TickHashRecord.mk.injEq,
        Prod.mk.injEq, List.not_mem_nil, and_false, or_false]
      tauto
  | deliver side message =>
    have sender := (inv side.other).live.peer
    simp only [Move.side, Move.call, sender]
    refine ⟨fun tick member => (by cases member), List.nodup_nil, ?_, fun report => ?_⟩
    · simpa [Call.received] using guard
    · rcases report with ⟨tick', peer, hash⟩
      simp only [Call.reports, Call.received, chained, List.mem_singleton, TickHashRecord.mk.injEq,
        PendingHash.mk.injEq, List.not_mem_nil, and_false, false_or]
      tauto
  | drain side | drainUpTo side max | check side =>
    refine ⟨fun tick member => (by cases member), List.nodup_nil, List.nil_subset _,
      fun report => ?_⟩
    simp [Move.call, Call.reports, Call.received, chained]

theorem Exchange.Inv.perform {hashBytes : Bytes → UInt64} {ids : Side → UInt16} {exchange : Exchange}
    (inv : exchange.Inv hashBytes ids) {move : Move} (allowed : Allowed hashBytes exchange move) :
    (exchange.perform hashBytes move).Inv hashBytes ids := by
  obtain ⟨fresh, single, received, attributed⟩ := allowed.facts inv
  intro side
  by_cases mover : side = move.side
  · subst mover
    simp only [Exchange.perform, Function.update_self, Function.update_of_ne (Side.other_ne _)]
    exact (inv move.side).perform _ fresh single received attributed
  · rw [Side.eq_other_of_ne mover]
    simp only [Exchange.perform, Side.other_other, Function.update_self,
      Function.update_of_ne (Side.other_ne _)]
    have endpoint := inv move.side.other
    rw [Side.other_other] at endpoint
    refine endpoint.mono ?_
    simp only [Peer.perform, drainedIn, List.flatMap_append]
    exact List.subset_append_left _ _

theorem Exchange.Inv.start (hashBytes : Bytes → UInt64) {builders : Side → SessionBuilder}
    {sessions : Side → Session} (built : ∀ side, (builders side).build = .ok (sessions side)) :
    (Exchange.start sessions).Inv hashBytes fun side => (builders side).localPeerId := by
  intro side
  obtain ⟨writer, same⟩ := SessionBuilder.build_eq (built side)
  refine ⟨Live.run hashBytes (built side) [], ?_, List.nodup_nil, List.nil_subset _,
    fun entry member => (by cases member)⟩
  rw [Exchange.start, same]
  rfl

theorem Exchange.Inv.reachable {hashBytes : Bytes → UInt64} {builders : Side → SessionBuilder}
    {sessions : Side → Session} (built : ∀ side, (builders side).build = .ok (sessions side))
    {exchange : Exchange} (reachable : exchange.Reachable hashBytes sessions) :
    exchange.Inv hashBytes fun side => (builders side).localPeerId := by
  induction reachable with
  | refl => exact Exchange.Inv.start hashBytes built
  | tail _ step inv =>
    obtain ⟨move, allowed, rfl⟩ := step
    exact inv.perform allowed

/-! ### Soundness and agreement -/

/-- Both peers hashed the tick, with different hashes. -/
def HashedDifferently (hashBytes : Bytes → UInt64) (exchange : Exchange) (tick : UInt64) : Prop :=
  ∃ hash other, (tick, hash) ∈ hashedIn hashBytes (exchange .a).trace ∧
    (tick, other) ∈ hashedIn hashBytes (exchange .b).trace ∧ hash ≠ other

/-- Seen from either side. -/
theorem hashedDifferently_iff (hashBytes : Bytes → UInt64) (exchange : Exchange) (side : Side)
    (tick : UInt64) :
    HashedDifferently hashBytes exchange tick ↔
      ∃ hash other, (tick, hash) ∈ hashedIn hashBytes (exchange side).trace ∧
        (tick, other) ∈ hashedIn hashBytes (exchange side.other).trace ∧ hash ≠ other := by
  cases side with
  | a => exact Iff.rfl
  | b =>
    constructor
    · rintro ⟨hash, other, mine, theirs, differs⟩
      exact ⟨other, hash, theirs, mine, differs.symm⟩
    · rintro ⟨hash, other, mine, theirs, differs⟩
      exact ⟨other, hash, theirs, mine, differs.symm⟩

/-- Two contradicting reports at one side are one of each peer. -/
theorem Exchange.Inv.sound {hashBytes : Bytes → UInt64} {ids : Side → UInt16} {exchange : Exchange}
    (inv : exchange.Inv hashBytes ids) {side : Side} {tick : UInt64}
    (contradicted : Contradicted (reportsIn hashBytes (ids side) (exchange side).trace) tick) :
    HashedDifferently hashBytes exchange tick := by
  obtain ⟨one, memberOne, other, memberOther, rfl, sameTick, differs⟩ := contradicted
  have theirs : ∀ tick hash, ⟨tick, hash⟩ ∈ receivedIn (exchange side).trace →
      (tick, hash) ∈ hashedIn hashBytes (exchange side.other).trace :=
    fun tick hash member => (inv side.other).hashed_of_drained ((inv side).received member)
  rw [hashedDifferently_iff _ _ side]
  rcases ((inv side).mem_reports one).mp memberOne with ⟨_, hashed⟩ | ⟨_, got⟩ <;>
    rcases ((inv side).mem_reports other).mp memberOther with ⟨_, hashed'⟩ | ⟨_, got'⟩ <;>
      rw [sameTick] at *
  · exact absurd ((inv side).hash_unique hashed hashed') differs
  · exact ⟨one.hash, other.hash, hashed, theirs _ _ got', differs⟩
  · exact ⟨other.hash, one.hash, hashed', theirs _ _ got, differs.symm⟩
  · exact absurd ((inv side.other).hash_unique (theirs _ _ got) (theirs _ _ got')) differs

/-- Once the other side's hashes have arrived, a difference is a contradiction at this side. -/
theorem Exchange.Inv.complete {hashBytes : Bytes → UInt64} {ids : Side → UInt16}
    {exchange : Exchange} (inv : exchange.Inv hashBytes ids) {side : Side}
    (arrived : ∀ entry ∈ hashedIn hashBytes (exchange side.other).trace,
      ⟨entry.1, entry.2⟩ ∈ receivedIn (exchange side).trace) {tick : UInt64}
    (different : HashedDifferently hashBytes exchange tick) :
    Contradicted (reportsIn hashBytes (ids side) (exchange side).trace) tick := by
  obtain ⟨hash, other, mine, theirs, differs⟩ := (hashedDifferently_iff _ _ side tick).mp different
  exact ⟨⟨tick, ids side, hash⟩, ((inv side).mem_reports _).mpr (.inl ⟨rfl, mine⟩),
    ⟨tick, ids side.other, other⟩, ((inv side).mem_reports _).mpr (.inr ⟨rfl, arrived _ theirs⟩),
    rfl, rfl, differs⟩

/-- **The exchange is sound, and both sides agree once all is delivered and checked**: `delivered`
says that every hashed tick has reached the other side, `checked` that neither side has a divergence
left to return. -/
theorem exchange_agrees (hashBytes : Bytes → UInt64) (builders : Side → SessionBuilder)
    (sessions : Side → Session) (built : ∀ side, (builders side).build = .ok (sessions side))
    (exchange : Exchange) (reachable : exchange.Reachable hashBytes sessions) :
    (∀ side, ∀ tick ∈ returnedIn (exchange side).trace, HashedDifferently hashBytes exchange tick) ∧
    (∀ side, (returnedIn (exchange side).trace).Nodup) ∧
    ((∀ side, ∀ entry ∈ hashedIn hashBytes (exchange side).trace,
        ⟨entry.1, entry.2⟩ ∈ receivedIn (exchange side.other).trace) →
      (∀ side, (exchange side).session.checkDivergence.1 = none) →
      ∀ side tick, tick ∈ returnedIn (exchange side).trace ↔
        HashedDifferently hashBytes exchange tick) := by
  have inv := Exchange.Inv.reachable built reachable
  have sound : ∀ side, ∀ tick ∈ returnedIn (exchange side).trace,
      HashedDifferently hashBytes exchange tick :=
    fun side tick member => inv.sound ((inv side).live.sound tick member)
  refine ⟨sound, fun side => (inv side).live.nodup, fun delivered checked side tick => ?_⟩
  refine ⟨sound side tick, fun different => ?_⟩
  have arrived := delivered side.other
  rw [Side.other_other] at arrived
  exact (checkDivergence_eq_none_iff (inv side).live.tracks).mp (checked side) tick
    (inv.complete arrived different)

/-! ### A schedule -/

/-- Every move of a schedule is possible when its turn comes. -/
def Exchange.Allows (hashBytes : Bytes → UInt64) (exchange : Exchange) : List Move → Prop
  | [] => True
  | move :: moves =>
    Allowed hashBytes exchange move ∧ (exchange.perform hashBytes move).Allows hashBytes moves

instance Exchange.decidableAllows (hashBytes : Bytes → UInt64) (exchange : Exchange) :
    (moves : List Move) → Decidable (exchange.Allows hashBytes moves)
  | [] => inferInstanceAs (Decidable True)
  | move :: moves =>
    have := decidableAllows hashBytes (exchange.perform hashBytes move) moves
    inferInstanceAs (Decidable (_ ∧ _))

theorem Exchange.reachable_of_allows {hashBytes : Bytes → UInt64} {sessions : Side → Session}
    {exchange : Exchange} (reachable : exchange.Reachable hashBytes sessions) {moves : List Move}
    (allows : exchange.Allows hashBytes moves) :
    (moves.foldl (Exchange.perform hashBytes) exchange).Reachable hashBytes sessions := by
  induction moves generalizing exchange with
  | nil => exact reachable
  | cons move moves ih => exact ih (reachable.tail ⟨move, allows.1, rfl⟩) allows.2

/-- The peers differ at tick 1 and agree at tick 2; the hash of tick 1 arrives at side `a` twice. -/
def schedule : List Move :=
  [.hashTick .a 1 [], .hashTick .b 1 [0], .hashTick .b 2 [7], .hashTick .a 2 [9], .drain .a,
    .drainUpTo .b 1, .deliver .a ⟨1, 1⟩, .check .a, .deliver .a ⟨1, 1⟩, .drain .b,
    .deliver .b ⟨2, 1⟩, .deliver .a ⟨2, 1⟩, .check .a, .deliver .b ⟨1, 0⟩, .check .b, .check .b]

theorem exchange_agrees_sample :
    let sessions := fun side => ({ localPeerId := if side = .a then 0 else 1 } :
      SessionBuilder).session none
    let hashBytes := fun bytes : Bytes => UInt64.ofNat bytes.length
    let exchange := schedule.foldl (Exchange.perform hashBytes) (Exchange.start sessions)
    ∀ side, returnedIn (exchange side).trace = [1] ∧ HashedDifferently hashBytes exchange 1 := by
  intro sessions hashBytes exchange side
  have reachable : exchange.Reachable hashBytes sessions :=
    Exchange.reachable_of_allows .refl (by decide)
  have agrees := exchange_agrees hashBytes
    (fun side => { localPeerId := if side = .a then 0 else 1 }) sessions (fun _ => rfl) exchange
    reachable
  have returned : returnedIn (exchange side).trace = [1] := by cases side <;> decide
  have hashedA : hashedIn hashBytes (exchange .a).trace = [(1, 0), (2, 1)] := by decide
  have hashedB : hashedIn hashBytes (exchange .b).trace = [(1, 1), (2, 1)] := by decide
  have receivedA : receivedIn (exchange .a).trace = [⟨1, 1⟩, ⟨1, 1⟩, ⟨2, 1⟩] := by decide
  have receivedB : receivedIn (exchange .b).trace = [⟨2, 1⟩, ⟨1, 0⟩] := by decide
  refine ⟨returned, (agrees.2.2 (fun sender => ?_) (fun side => ?_) side 1).mp ?_⟩
  · cases sender with
    | a =>
      rw [hashedA, Side.other, receivedB]
      simp
    | b =>
      rw [hashedB, Side.other, receivedA]
      simp
  · cases side <;> decide +kernel
  · rw [returned]
    exact List.mem_singleton_self 1

end Foldback
