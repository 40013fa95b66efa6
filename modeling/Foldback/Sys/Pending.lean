/-
**The queue of local hashes behind the C ABI, as `foldback-sys` drains it.**

* `foldbackTakePendingHashes` and `foldbackPendingHashCount` are the two functions on the queue,
  each through `runCatching`. An `OutPointer` is null or has the slots the safety contract asks for.
* `AbiCall` adds them to the calls of the `Session` API: a run interleaves all of them.
* `pending_conserved`: **what was drained, followed by what is pending, is what `hash_tick`
  produced**, at every point of every run.
-/

import Foldback.Core.Divergence

namespace Foldback

/-- A session behind its handle, and the calling thread's last error. -/
structure Handle where
  session : Session
  lastError : Option String

/-- A closure of the ABI: its error is a message, and it keeps what it changed before. -/
abbrev AbiM (α : Type) := EStateM String Session α

/-- An error, returned or caught, becomes the last error and the default value. -/
def runCatching {α : Type} (default : α) (f : AbiM α) (handle : Handle) : α × Handle :=
  match f handle.session with
  | .ok value session => (value, { session, lastError := none })
  | .error message session => (default, { session, lastError := some message })

/-- `out`: null, or a pointer to at least `capacity` writable slots. -/
inductive OutPointer (capacity : ℕ)
  | null
  | slots (memory : List PendingHash) (room : capacity ≤ memory.length)

namespace OutPointer

variable {capacity : ℕ}

def isNull : OutPointer capacity → Bool
  | null => true
  | slots .. => false

/-- The slots pointed to. -/
def memory : OutPointer capacity → List PendingHash
  | null => []
  | slots memory _ => memory

end OutPointer

def foldbackPendingHashCount (handle : Handle) : ℕ × Handle :=
  runCatching 0 (do return (← get).pendingHashCount) handle

/-- The entries written, oldest first, and what `out` points to afterwards. -/
def foldbackTakePendingHashes (outCapacity : ℕ) (out : OutPointer outCapacity) (handle : Handle) :
    (ℕ × List PendingHash) × Handle :=
  runCatching (0, out.memory) (do
    if 0 < outCapacity ∧ out.isNull then throw "out was null but out_capacity was nonzero"
    let drained ← modifyGet (Session.takePendingHashesUpTo outCapacity)
    return (drained.length, drained ++ out.memory.drop drained.length)) handle

/-! ### The ABI as a machine -/

inductive AbiCall
  | session (call : Call)
  | foldbackTakePendingHashes (outCapacity : ℕ) (out : OutPointer outCapacity)
  | foldbackPendingHashCount

inductive AbiResponse
  | session (response : Response)
  | written (count : ℕ) (memory : List PendingHash)
  | counted (count : ℕ)

def abiStep (hashBytes : Bytes → UInt64) (handle : Handle) : AbiCall → AbiResponse × Handle
  | .session call =>
    let answer := step hashBytes handle.session call
    (.session answer.1, { handle with session := answer.2 })
  | .foldbackTakePendingHashes outCapacity out =>
    let answer := Foldback.foldbackTakePendingHashes outCapacity out handle
    (.written answer.1.1 answer.1.2, answer.2)
  | .foldbackPendingHashCount =>
    let answer := Foldback.foldbackPendingHashCount handle
    (.counted answer.1, answer.2)

def abiRun (hashBytes : Bytes → UInt64) (handle : Handle) (calls : List AbiCall) :
    List (AbiCall × AbiResponse) × Handle :=
  Machine.run (abiStep hashBytes) handle calls

/-- The entries a response hands to the caller: a list, or the slots counted as written. -/
def AbiResponse.drainedHashes : AbiResponse → List PendingHash
  | .session response => response.drainedHashes
  | .written count memory => memory.take count
  | .counted _ => []

/-- The entry of a `hash_tick` that returned `Ok`. -/
def producedBy (hashBytes : Bytes → UInt64) : AbiCall × AbiResponse → List PendingHash
  | (.session call, .session response) =>
    (chained hashBytes call response).map fun entry => ⟨entry.1, entry.2⟩
  | _ => []

/-- Everything drained in a trace. -/
def drainedThrough (trace : List (AbiCall × AbiResponse)) : List PendingHash :=
  trace.flatMap fun entry => entry.2.drainedHashes

/-- Everything that `hash_tick` produced in a trace. -/
def producedThrough (hashBytes : Bytes → UInt64) (trace : List (AbiCall × AbiResponse)) :
    List PendingHash :=
  trace.flatMap (producedBy hashBytes)

/-! ### What a drain does -/

section Drain

variable (outCapacity : ℕ) (out : OutPointer outCapacity) (handle : Handle)

/-- A null pointer with a nonzero capacity drains nothing. -/
theorem take_null (null : out.isNull = true) (nonzero : 0 < outCapacity) :
    foldbackTakePendingHashes outCapacity out handle =
      ((0, out.memory), { handle with
        lastError := some "out was null but out_capacity was nonzero" }) := by
  unfold foldbackTakePendingHashes runCatching
  simp only [nonzero, null, and_self, if_true]
  rfl

/-- **Otherwise the oldest entries are written**, as many as fit. -/
theorem take_slots (valid : ¬ (0 < outCapacity ∧ out.isNull = true)) :
    foldbackTakePendingHashes outCapacity out handle =
      (((handle.session.takePendingHashesUpTo outCapacity).1.length,
        (handle.session.takePendingHashesUpTo outCapacity).1 ++
          out.memory.drop (handle.session.takePendingHashesUpTo outCapacity).1.length),
        { session := (handle.session.takePendingHashesUpTo outCapacity).2
          lastError := none }) := by
  unfold foldbackTakePendingHashes runCatching
  simp only [if_neg valid]
  rfl

end Drain

/-- The slots counted as written hold the entries taken. -/
theorem drained_written (taken memory : List PendingHash) :
    (AbiResponse.written taken.length (taken ++ memory)).drainedHashes = taken := by
  rw [AbiResponse.drainedHashes, List.take_left']
  rfl

/-! ### Conservation -/

/-- Everything produced so far has been drained or is pending. -/
def Conserved (hashBytes : Bytes → UInt64) (trace : List (AbiCall × AbiResponse))
    (handle : Handle) : Prop :=
  drainedThrough trace ++ handle.session.pending = producedThrough hashBytes trace

/-- **One call drains from the front and produces at the back.** -/
theorem abiStep_pending (hashBytes : Bytes → UInt64) (handle : Handle) (call : AbiCall) :
    (abiStep hashBytes handle call).1.drainedHashes ++
        (abiStep hashBytes handle call).2.session.pending =
      handle.session.pending ++ producedBy hashBytes (call, (abiStep hashBytes handle call).1) := by
  cases call with
  | session call => exact (step_effect hashBytes handle.session call).pending
  | foldbackTakePendingHashes outCapacity out =>
    show _ = handle.session.pending ++ []
    rw [List.append_nil, abiStep]
    by_cases null : 0 < outCapacity ∧ out.isNull = true
    · rw [take_null outCapacity out handle null.2 null.1]
      rfl
    · rw [take_slots outCapacity out handle null]
      show (AbiResponse.written _ _).drainedHashes ++ _ = _
      rw [drained_written]
      exact List.take_append_drop _ _
  | foldbackPendingHashCount =>
    show [] ++ handle.session.pending = handle.session.pending ++ []
    rw [List.nil_append, List.append_nil]

theorem Conserved.step {hashBytes : Bytes → UInt64} {trace : List (AbiCall × AbiResponse)}
    {handle : Handle} (conserved : Conserved hashBytes trace handle) (call : AbiCall) :
    Conserved hashBytes (trace ++ [(call, (abiStep hashBytes handle call).1)])
      (abiStep hashBytes handle call).2 := by
  unfold Conserved drainedThrough producedThrough at conserved ⊢
  rw [List.flatMap_append, List.flatMap_append, List.flatMap_singleton, List.flatMap_singleton,
    List.append_assoc, abiStep_pending, ← List.append_assoc, conserved]

theorem Conserved.run (hashBytes : Bytes → UInt64) {handle : Handle}
    (empty : handle.session.pending = []) (calls : List AbiCall) :
    Conserved hashBytes (abiRun hashBytes handle calls).1 (abiRun hashBytes handle calls).2 := by
  refine Machine.history_rule (abiStep hashBytes) (Conserved hashBytes) ?_
    (fun trace handle call conserved => conserved.step call) calls
  show [] ++ handle.session.pending = []
  rw [empty]
  rfl

/-- **No local hash is lost, duplicated or reordered on its way out**: at every point of a run, what
was drained followed by what is pending is what `hash_tick` produced; a bounded drain hands out the
oldest entries, as many as there are and fit; a null pointer with room for some drains none; the
count is that of the entries left. -/
theorem pending_conserved (hashBytes : Bytes → UInt64) (builder : SessionBuilder)
    (session : Session) (built : builder.build = .ok session) (lastError : Option String) (calls : List AbiCall) :
    let trace := (abiRun hashBytes { session, lastError } calls).1
    let handle := (abiRun hashBytes { session, lastError } calls).2
    let pending := handle.session.pending
    drainedThrough trace ++ pending = producedThrough hashBytes trace ∧
    handle.session.takePendingHashes = (pending, { handle.session with pending := [] }) ∧
    (∀ max, handle.session.takePendingHashesUpTo max = (pending.take (min max pending.length),
      { handle.session with pending := pending.drop (min max pending.length) })) ∧
    (∀ outCapacity (out : OutPointer outCapacity), ¬ (0 < outCapacity ∧ out.isNull = true) →
      ∃ memory, abiStep hashBytes handle (.foldbackTakePendingHashes outCapacity out) =
          (.written (min outCapacity pending.length) memory,
            { session := { handle.session with
                pending := pending.drop (min outCapacity pending.length) }
              lastError := none }) ∧
        memory.take (min outCapacity pending.length) =
          pending.take (min outCapacity pending.length)) ∧
    (∀ outCapacity (out : OutPointer outCapacity), 0 < outCapacity → out.isNull = true →
      ∃ message, abiStep hashBytes handle (.foldbackTakePendingHashes outCapacity out) =
        (.written 0 [], { handle with lastError := some message })) ∧
    handle.session.pendingHashCount = pending.length ∧
    abiStep hashBytes handle .foldbackPendingHashCount =
      (.counted pending.length, { handle with lastError := none }) := by
  intro trace handle pending
  obtain ⟨writer, rfl⟩ := SessionBuilder.build_eq built
  have upTo : ∀ max, handle.session.takePendingHashesUpTo max =
      (pending.take (min max pending.length),
        { handle.session with pending := pending.drop (min max pending.length) }) := by
    intro max
    rw [min_comm]
    rfl
  refine ⟨Conserved.run hashBytes rfl calls, rfl, upTo, fun outCapacity out valid => ?_,
    fun outCapacity out nonzero null => ?_, rfl, rfl⟩
  · have length : (pending.take (min outCapacity pending.length)).length =
        min outCapacity pending.length := by
      rw [List.length_take, min_assoc, min_self]
    rw [abiStep, take_slots outCapacity out handle valid, upTo, length]
    refine ⟨_, rfl, ?_⟩
    rw [List.take_left' length]
  · cases out with
    | slots memory room => cases null
    | null =>
      rw [abiStep, take_null outCapacity .null handle null nonzero]
      exact ⟨_, rfl⟩

/-- Two ticks are hashed, a null pointer drains none, and a drain of one leaves the second. -/
def drainedTwice : List AbiCall :=
  [.session (.hashTick 0 []), .foldbackTakePendingHashes 1 .null, .session (.hashTick 1 []),
    .foldbackTakePendingHashes 1 (.slots [⟨9, 9⟩] (le_refl 1))]

theorem pending_conserved_sample :
    drainedThrough (abiRun (fun _ => 7) ⟨({} : SessionBuilder).session none, none⟩ drainedTwice).1 =
        [⟨0, 7⟩] ∧
      [⟨0, 7⟩] ++ (abiRun (fun _ => 7) ⟨({} : SessionBuilder).session none, none⟩
          drainedTwice).2.session.pending =
        producedThrough (fun _ => 7)
          (abiRun (fun _ => 7) ⟨({} : SessionBuilder).session none, none⟩ drainedTwice).1 := by
  have first : drainedThrough (abiRun (fun _ => 7) ⟨({} : SessionBuilder).session none, none⟩
      drainedTwice).1 = [⟨0, 7⟩] := by decide
  refine ⟨first, ?_⟩
  rw [← first]
  exact (pending_conserved (fun _ => 7) {} (({} : SessionBuilder).session none) rfl none
    drainedTwice).1

end Foldback
