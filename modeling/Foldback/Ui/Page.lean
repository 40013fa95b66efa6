/-
**The page's state, as the script of `index.html` keeps it.**

* `Page` holds the script's variables; what `render` draws from them is left out. A JavaScript
  number that came from a `u64` is the natural number it stands for (`jsNumber`), `null` is `none`.
* `loadPath`, `connectLive`, `applyLiveEvent`, `index` and `tickAgrees` are the script's functions.
  The backend's answers reach them through JSON (`SessionData.map`, `LiveEvent.map`).
* `tickAgrees_eq_false_iff`: **a tick disagrees** when two peers' entries differ.
-/

import Foldback.Lib.Double
import Foldback.Lib.InsertionMap
import Foldback.Ui.Session

namespace Foldback

/-! ### Numbers and JSON -/

/-- The double nearest to a `u64`, ties to the even significand: exact below `2 ^ 53`, else a
multiple of the power of two that leaves 53 significant bits. -/
def jsNumber (value : UInt64) : ℕ :=
  if value.toNat < 2 ^ 53 then value.toNat
  else
    let unit := 2 ^ (value.toNat.log2 - 52)
    let below := value.toNat / unit
    let excess := 2 * (value.toNat % unit)
    (if unit < excess ∨ (unit = excess ∧ below % 2 = 1) then below + 1 else below) * unit

theorem jsNumber_of_lt {value : UInt64} (small : value.toNat < 2 ^ 53) :
    jsNumber value = value.toNat := if_pos small

theorem jsNumber_eq_zero_iff {value : UInt64} : jsNumber value = 0 ↔ value = 0 := by
  rw [← UInt64.toNat_inj]
  unfold jsNumber
  by_cases small : value.toNat < 2 ^ 53
  · rw [if_pos small]
    rfl
  · rw [if_neg small]
    refine iff_of_false ?_ fun zero => small (zero ▸ by decide)
    have positive : value.toNat ≠ 0 := by omega
    have unit : 0 < 2 ^ (value.toNat.log2 - 52) := Nat.two_pow_pos _
    have below : 0 < value.toNat / 2 ^ (value.toNat.log2 - 52) := by
      refine Nat.div_pos ?_ unit
      exact (Nat.pow_le_pow_right (by decide) (Nat.sub_le _ _)).trans (Nat.log2_self_le positive)
    refine Nat.mul_ne_zero ?_ unit.ne'
    split
    · exact Nat.succ_ne_zero _
    · exact below.ne'

theorem jsNumber_eq_nearest (value : UInt64) : jsNumber value = Double.nearest value.toNat 1 := by
  by_cases small : value.toNat < 2 ^ 53
  · rw [jsNumber_of_lt small, Double.nearest_of_lt small]
  · rw [jsNumber, if_neg small, Double.nearest, Nat.div_one, Nat.one_mul]

/-- A number of at least `2 ^ 53` stays between the powers of two around it. -/
theorem jsNumber_bounds {value : UInt64} (large : 2 ^ 53 ≤ value.toNat) :
    2 ^ value.toNat.log2 ≤ jsNumber value ∧ jsNumber value ≤ 2 ^ (value.toNat.log2 + 1) := by
  rw [jsNumber_eq_nearest]
  exact Double.nearest_bounds large

/-- **The conversion keeps the order.** -/
theorem jsNumber_mono {first second : UInt64} (ordered : first ≤ second) :
    jsNumber first ≤ jsNumber second := by
  rw [UInt64.le_iff_toNat_le] at ordered
  by_cases small : second.toNat < 2 ^ 53
  · rwa [jsNumber_of_lt small, jsNumber_of_lt (ordered.trans_lt small)]
  · have above := (jsNumber_bounds (not_lt.mp small)).1
    by_cases smallFirst : first.toNat < 2 ^ 53
    · have positive : second.toNat ≠ 0 := by omega
      have exponent : 2 ^ 53 ≤ 2 ^ second.toNat.log2 :=
        Nat.pow_le_pow_right (by decide) ((Nat.le_log2 positive).mpr (not_lt.mp small))
      rw [jsNumber_of_lt smallFirst]
      omega
    · have positive : first.toNat ≠ 0 := by omega
      have logs : first.toNat.log2 ≤ second.toNat.log2 :=
        (Nat.le_log2 (by omega)).mpr ((Nat.log2_self_le positive).trans ordered)
      rcases logs.lt_or_eq with less | same
      · have below := (jsNumber_bounds (not_lt.mp smallFirst)).2
        exact below.trans ((Nat.pow_le_pow_right (by decide) less).trans above)
      · rw [jsNumber, jsNumber, if_neg small, if_neg smallFirst, same]
        dsimp only
        refine Nat.mul_le_mul_right _ ?_
        have quotients := Nat.div_le_div_right (c := 2 ^ (second.toNat.log2 - 52)) ordered
        rcases quotients.lt_or_eq with less | equal
        · split <;> split <;> omega
        · have split₁ := Nat.div_add_mod first.toNat (2 ^ (second.toNat.log2 - 52))
          have split₂ := Nat.div_add_mod second.toNat (2 ^ (second.toNat.log2 - 52))
          rw [equal] at split₁ ⊢
          have remainders : first.toNat % 2 ^ (second.toNat.log2 - 52) ≤
              second.toNat % 2 ^ (second.toNat.log2 - 52) := by omega
          split
          · rename_i up
            rw [if_pos]
            omega
          · split <;> omega

section Map

variable {ν μ : Type} (number : ν → μ)

def TickHashEntry.map (entry : TickHashEntry ν) : TickHashEntry μ :=
  { entry with tick := number entry.tick }

def EntityHashEntry.map (entry : EntityHashEntry ν) : EntityHashEntry μ :=
  { entry with tick := number entry.tick, entityId := number entry.entityId }

def FieldHashEntry.map (entry : FieldHashEntry ν) : FieldHashEntry μ :=
  { entry with tick := number entry.tick, entityId := number entry.entityId }

def SessionData.map (data : SessionData ν) : SessionData μ :=
  { data with
    minTick := number data.minTick
    maxTick := number data.maxTick
    tickHashes := data.tickHashes.map (TickHashEntry.map number)
    entityHashes := data.entityHashes.map (EntityHashEntry.map number)
    fieldHashes := data.fieldHashes.map (FieldHashEntry.map number)
    snapshotTicks := data.snapshotTicks.map number
    divergenceTick := data.divergenceTick.map number }

def LiveEvent.map : LiveEvent ν → LiveEvent μ
  | .hello tickRateHz peerCount buildId => .hello tickRateHz peerCount buildId
  | .tickHash entry => .tickHash (entry.map number)
  | .entityHash entry => .entityHash (entry.map number)
  | .fieldHash entry => .fieldHash (entry.map number)
  | .snapshot tick => .snapshot (number tick)
  | .metadata => .metadata
  | .endOfStream => .endOfStream
  | .disconnected reason => .disconnected reason

end Map

/-! ### The page -/

/-- `tick -> Map(peer_id -> hash)`. -/
abbrev TickTable := InsertionMap ℕ (InsertionMap UInt16 String)

abbrev EntityTable := InsertionMap ℕ (List (EntityHashEntry ℕ))

abbrev FieldTable := InsertionMap ℕ (List (FieldHashEntry ℕ))

structure Page where
  session : Option (SessionData ℕ) := none
  byTick : TickTable := .empty
  entityByTick : EntityTable := .empty
  fieldByTick : FieldTable := .empty
  selectedTick : Option ℕ := none
  isLive : Bool := false
  followLatest : Bool := true
  deriving DecidableEq

def TickTable.add (table : TickTable) (entry : TickHashEntry ℕ) : TickTable :=
  table.upsert entry.tick .empty fun peers => peers.set entry.peerId entry.hash

def EntityTable.add (table : EntityTable) (entry : EntityHashEntry ℕ) : EntityTable :=
  table.upsert entry.tick [] fun entries => entries ++ [entry]

def FieldTable.add (table : FieldTable) (entry : FieldHashEntry ℕ) : FieldTable :=
  table.upsert entry.tick [] fun entries => entries ++ [entry]

/-- `null` with fewer than two peers, otherwise whether every hash is the first one. -/
def peersAgree (peers : InsertionMap UInt16 String) : Option Bool :=
  if peers.size < 2 then none
  else some (peers.values.all fun hash => peers.values.head? = some hash)

def tickAgrees (byTick : TickTable) (tick : ℕ) : Option Bool := (byTick.get? tick).bind peersAgree

namespace Page

def index (data : SessionData ℕ) (page : Page) : Page :=
  { page with
    byTick := data.tickHashes.foldl TickTable.add .empty
    entityByTick := data.entityHashes.foldl EntityTable.add .empty
    fieldByTick := data.fieldHashes.foldl FieldTable.add .empty }

/-- `loadPath`, `loaded` being what `load_session` answers. On an error the old session stays. -/
def loadPath (loaded : Except LoadError (SessionData UInt64)) (page : Page) : Page :=
  let page := { page with isLive := false }
  match loaded with
  | .error _ => page
  | .ok data =>
    let data := data.map jsNumber
    { page.index data with
      session := some data
      selectedTick := some (data.divergenceTick.getD data.maxTick) }

end Page

def emptyLiveSession (url : String) : SessionData ℕ :=
  { fileName := url, tickRateHz := 0, peerCount := 0, buildId := ""
    minTick := 0, maxTick := 0, endedCleanly := false
    tickHashes := [], entityHashes := [], fieldHashes := []
    snapshotTicks := [], metadataCount := 0, divergenceTick := none }

namespace Page

/-- `connectLive` up to its `await`; `url` is what the prompt answers. -/
def connectLive (url : String) (page : Page) : Page :=
  if url = "" then page
  else
    { page with
      session := some (emptyLiveSession url)
      byTick := .empty
      entityByTick := .empty
      fieldByTick := .empty
      selectedTick := some 0
      isLive := true
      followLatest := true }

/-- The `TickHash` case. -/
def applyTickHash (session : SessionData ℕ) (entry : TickHashEntry ℕ) (page : Page) : Page :=
  let byTick := page.byTick.add entry
  let maxTick := max session.maxTick entry.tick
  { page with
    byTick
    session := some { session with
      tickHashes := session.tickHashes ++ [entry]
      minTick := min session.minTick entry.tick
      maxTick
      divergenceTick :=
        if session.divergenceTick = none ∧ tickAgrees byTick entry.tick = some false then
          some entry.tick
        else session.divergenceTick }
    selectedTick := if page.followLatest then some maxTick else page.selectedTick }

def applyLiveEvent (page : Page) (event : LiveEvent ℕ) : Page :=
  match page.isLive, page.session with
  | true, some session =>
    match event with
    | .hello tickRateHz peerCount buildId =>
      { page with session := some { session with tickRateHz, peerCount, buildId } }
    | .tickHash entry => page.applyTickHash session entry
    | .entityHash entry =>
      { page with
        session := some { session with entityHashes := session.entityHashes ++ [entry] }
        entityByTick := page.entityByTick.add entry }
    | .fieldHash entry =>
      { page with
        session := some { session with fieldHashes := session.fieldHashes ++ [entry] }
        fieldByTick := page.fieldByTick.add entry }
    | .snapshot tick =>
      { page with session := some { session with snapshotTicks := session.snapshotTicks ++ [tick] } }
    | .metadata =>
      { page with session := some { session with metadataCount := session.metadataCount + 1 } }
    | .endOfStream => { page with session := some { session with endedCleanly := true } }
    | .disconnected _ => { page with isLive := false }
  | _, _ => page

end Page

/-! ### Agreement at a tick -/

/-- The hash the page keeps for a peer at a tick. -/
def hashAt (byTick : TickTable) (tick : ℕ) (peerId : UInt16) : Option String :=
  (byTick.get? tick).bind (·.get? peerId)

theorem hashAt_add (byTick : TickTable) (entry : TickHashEntry ℕ) (tick : ℕ) (peerId : UInt16) :
    hashAt (byTick.add entry) tick peerId =
      if entry.tick = tick ∧ entry.peerId = peerId then some entry.hash
      else hashAt byTick tick peerId := by
  unfold hashAt TickTable.add
  by_cases here : tick = entry.tick
  · subst here
    rw [InsertionMap.get?_upsert_self, Option.bind_some]
    by_cases self : peerId = entry.peerId
    · subst self
      rw [InsertionMap.get?_set_self, if_pos ⟨rfl, rfl⟩]
    · rw [InsertionMap.get?_set_of_ne _ self, if_neg fun same => self same.2.symm]
      rcases byTick.get? entry.tick with _ | peers <;> rfl
  · rw [InsertionMap.get?_upsert_of_ne _ here, if_neg fun same => here same.1.symm]

/-- With two different hashes there are two peers, so the list is judged. -/
theorem peersAgree_eq_false_iff (peers : InsertionMap UInt16 String) :
    peersAgree peers = some false ↔ ∃ peerId hash peerId' hash',
      peers.get? peerId = some hash ∧ peers.get? peerId' = some hash' ∧ hash ≠ hash' := by
  have found := peers.mem_values_iff
  rw [peersAgree, ← peers.length_values]
  rcases values : peers.values with _ | ⟨first, rest⟩
  · rw [values] at found
    refine iff_of_false (by simp) ?_
    rintro ⟨peerId, hash, -, -, atPeer, -⟩
    exact absurd ((found hash).mpr ⟨peerId, atPeer⟩) List.not_mem_nil
  · rw [values] at found
    constructor
    · intro disagree
      split at disagree
      · cases disagree
      · rw [Option.some_inj, List.all_eq_false] at disagree
        obtain ⟨hash, member, differs⟩ := disagree
        obtain ⟨peerId, atPeer⟩ := (found first).mp List.mem_cons_self
        obtain ⟨peerId', atPeer'⟩ := (found hash).mp member
        refine ⟨peerId, first, peerId', hash, atPeer, atPeer', fun same => differs ?_⟩
        simp [same]
    · rintro ⟨peerId, hash, peerId', hash', atPeer, atPeer', differs⟩
      have member := (found hash).mpr ⟨peerId, atPeer⟩
      have member' := (found hash').mpr ⟨peerId', atPeer'⟩
      rw [if_neg, Option.some_inj, List.all_eq_false]
      · by_cases same : hash = first
        · exact ⟨hash', member', by simpa [← same] using differs⟩
        · exact ⟨hash, member, by simpa [eq_comm] using same⟩
      · intro short
        have single : rest = [] := by
          rw [← List.length_eq_zero_iff]
          rw [List.length_cons] at short
          omega
        rw [single, List.mem_singleton] at member member'
        exact differs (member.trans member'.symm)

/-- **A tick disagrees** exactly when the hashes kept for two peers differ. -/
theorem tickAgrees_eq_false_iff (byTick : TickTable) (tick : ℕ) :
    tickAgrees byTick tick = some false ↔ ∃ peerId hash peerId' hash',
      hashAt byTick tick peerId = some hash ∧ hashAt byTick tick peerId' = some hash' ∧
        hash ≠ hash' := by
  unfold tickAgrees hashAt
  rcases byTick.get? tick with _ | peers
  · simp
  · exact peersAgree_eq_false_iff peers

end Foldback
