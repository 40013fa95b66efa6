/-
**What `render` draws.**

* `Screen`: the panels of the page, each as its function of the script filled it last. Of the canvas only
  the track and its labels are modelled; a number is not formatted.
* `Drawing`: what the script does to the screen. It can throw, and the loop of `drawTimeline` over the
  labels can run forever. `spread` is the longest list of arguments that the browser takes.
* `Indexed`: the page's tables are those `index` makes of the session's lists.
* `reporters`, `lastHash`, `votes`: who reported a tick, the hash each peer reported last, and these
  hashes in the order of the peers' first reports.
* `renderPeers_votes`: **a panel's rows are the reporters with their last hashes**; a row is odd exactly
  when the peers disagree and its hash is not the most frequent one.
* `lastAgreeingTickBefore_eq_some_iff`, `nearestSnapshotAtOrBefore_eq_some_iff`: **what the hint names.**
* `drawTimeline_isSome`: the loop ends if the ticks are below `2 ^ 53 - 1`.
-/

import Foldback.Lib.Plurality
import Foldback.Ui.Drilldown

namespace Foldback

open Plurality (MostCommon mostCommon mostCommon_eq_some_iff mostCommon_isSome_iff)

/-! ### The panels -/

/-- The first six and the last four characters of a long hash. -/
def hexShort (h : String) : String :=
  if 12 < h.length then
    String.ofList (h.toList.take 6) ++ "…" ++ String.ofList (h.toList.drop (h.length - 4))
  else h

structure Topbar where
  fileName : String
  tickRateHz : UInt32
  peerCount : UInt32
  buildId : String
  deriving DecidableEq

/-- The title, the head, what is drawn on the track and the numbers under it. -/
structure Timeline where
  minTick : ℕ
  maxTick : ℕ
  head : ℕ
  snapshotTicks : List ℕ
  divergenceTick : Option ℕ
  labels : List ℕ
  deriving DecidableEq

structure PeerRow where
  peerId : UInt16
  hash : String
  odd : Bool
  deriving DecidableEq

inductive PeerRows
  | hint (text : String)
  | rows (rows : List PeerRow)
  deriving DecidableEq

structure PeersPanel where
  tick : ℕ
  badge : String
  rows : PeerRows
  deriving DecidableEq

/-- The two texts of the hint; the second names the ticks that are not `null`. -/
inductive AgreementHint
  | noDivergence
  | firstDivergence (tick : ℕ) (lastGood nearestSnap : Option ℕ)
  deriving DecidableEq

structure SessionHint where
  levels : List String
  endedCleanly : Bool
  metadataCount : ℕ
  snapshots : ℕ
  deriving DecidableEq

/-- The panels; `none` is what the page is written with. -/
structure Screen where
  topbar : Option Topbar := none
  timeline : Option Timeline := none
  peers : Option PeersPanel := none
  hint : Option AgreementHint := none
  sessionHint : Option SessionHint := none
  drilldown : Option Drilldown := none
  deriving DecidableEq

/-- What the script throws: `null` was read, or a list was too long to be spread over arguments. -/
inductive Thrown
  | typeError
  | rangeError
  deriving DecidableEq, Repr

/-- `none` is a loop that never ends. What was drawn before a throw stays. -/
abbrev Drawing (α : Type) := ExceptT Thrown (StateT Screen Option) α

/-- The screen after a drawing; nothing catches what it throws. -/
def Drawing.drawnOn (drawing : Drawing Unit) (screen : Screen) : Option Screen :=
  (drawing.run.run screen).map Prod.snd

/-! ### The functions that fill them -/

def renderTopbar (session : SessionData ℕ) : Topbar :=
  { fileName := session.fileName
    tickRateHz := session.tickRateHz
    peerCount := session.peerCount
    buildId := hexShort session.buildId }

/-- `for (let t = lo; t <= hi; t += step)`, from some `t`: the labels, or `none` if the loop never ends
because `t` stays what it is. -/
def labelsFrom (step hi t : ℕ) : Option (List ℕ) :=
  if t ≤ hi then
    if t < Double.add t step then (labelsFrom step hi (Double.add t step)).map fun rest => t :: rest
    else none
  else some []
termination_by hi + 1 - t

/-- The labels of `drawTimeline`. -/
def drawTimeline (session : SessionData ℕ) : Option (List ℕ) :=
  let lo := session.minTick
  let hi := max session.maxTick (Double.add lo 1)
  let step := max 1 (Double.ceilDiv (Double.nearest (hi - lo) 1) 6)
  labelsFrom step hi lo

def renderTimeline (session : SessionData ℕ) (selectedTick : ℕ) : Option Timeline :=
  (drawTimeline session).map fun labels =>
    { minTick := session.minTick
      maxTick := session.maxTick
      head := selectedTick
      snapshotTicks := session.snapshotTicks
      divergenceTick := session.divergenceTick
      labels }

/-- The text of the badge. -/
def badgeText : Option Bool → String
  | none => ""
  | some true => "match"
  | some false => "mismatch"

/-- The first half of `renderPeers`. -/
def renderPeerRows (byTick : TickTable) (selectedTick : ℕ) : PeersPanel :=
  let peers := (byTick.get? selectedTick).getD .empty
  let agrees := tickAgrees byTick selectedTick
  let rows : PeerRows :=
    if peers.size = 0 then .hint "No peer reported a hash for this tick."
    else
      let vals := peers.values
      let majority := if agrees = some false then mostCommon vals else vals.head?
      let sorted := peers.entries.insertionSort fun a b => a.1 ≤ b.1
      .rows (sorted.map fun (peerId, hash) =>
        { peerId, hash := hexShort hash, odd := agrees = some false ∧ some hash ≠ majority })
  { tick := selectedTick, badge := badgeText agrees, rows }

/-- The tables's ticks below `tick`, the highest first, until one agrees; `null` does not. -/
def lastAgreeingTickBefore (byTick : TickTable) (tick : ℕ) : Option ℕ :=
  let ticks := ((byTick.entries.map Prod.fst).filter (· < tick)).insertionSort fun a b => b ≤ a
  ticks.find? fun t => tickAgrees byTick t = some true

/-- `Math.max(...candidates)` takes as many candidates as `spread`. -/
def nearestSnapshotAtOrBefore (spread : ℕ) (session : SessionData ℕ) (tick : ℕ) :
    Except Thrown (Option ℕ) :=
  let candidates := session.snapshotTicks.filter (· ≤ tick)
  if spread < candidates.length then .error .rangeError else .ok candidates.max?

/-- The second half of `renderPeers`. -/
def renderAgreementHint (spread : ℕ) (session : SessionData ℕ) (byTick : TickTable) :
    Except Thrown AgreementHint :=
  match session.divergenceTick with
  | none => .ok .noDivergence
  | some tick => do
    let lastGood := lastAgreeingTickBefore byTick tick
    let nearestSnap ← nearestSnapshotAtOrBefore spread session tick
    return .firstDivergence tick lastGood nearestSnap

def renderSessionHint (session : SessionData ℕ) : SessionHint :=
  { levels := ["tick"] ++ (if 0 < session.entityHashes.length then ["entity"] else []) ++
      if 0 < session.fieldHashes.length then ["field"] else []
    endedCleanly := session.endedCleanly
    metadataCount := session.metadataCount
    snapshots := session.snapshotTicks.length }

namespace Page

section Drawing

variable (spread : ℕ) (page : Page)

/-- A variable that is read. -/
def read {α : Type} : Option α → Drawing α
  | some value => return value
  | none => throw .typeError

/-- `renderTopbar` on the screen; so are the next ones. -/
def showTopbar : Drawing Unit := do
  let session ← read page.session
  modify fun screen => { screen with topbar := some (renderTopbar session) }

def showTimeline : Drawing Unit := do
  let session ← read page.session
  let selectedTick ← read page.selectedTick
  let timeline ← (renderTimeline session selectedTick : Option Timeline)
  modify fun screen => { screen with timeline := some timeline }

def showPeers : Drawing Unit := do
  let selectedTick ← read page.selectedTick
  modify fun screen => { screen with peers := some (renderPeerRows page.byTick selectedTick) }
  let session ← read page.session
  let hint ← (renderAgreementHint spread session page.byTick : Except Thrown AgreementHint)
  modify fun screen => { screen with hint := some hint }

def showSessionHint : Drawing Unit := do
  let session ← read page.session
  modify fun screen => { screen with sessionHint := some (renderSessionHint session) }

def showDrilldown : Drawing Unit := do
  let drilldown ← read page.renderDrilldown
  modify fun screen => { screen with drilldown := some drilldown }

def render : Drawing Unit := do
  page.showTopbar
  page.showTimeline
  page.showPeers spread
  page.showSessionHint
  page.showDrilldown

end Drawing

end Page

/-! ### Tables and lists -/

/-- **The tables are those that `index` makes** of the session's lists. -/
structure Page.Indexed (page : Page) (session : SessionData ℕ) : Prop where
  byTick : page.byTick = session.tickHashes.foldl TickTable.add .empty
  entityByTick : page.entityByTick = session.entityHashes.foldl EntityTable.add .empty
  fieldByTick : page.fieldByTick = session.fieldHashes.foldl FieldTable.add .empty

section Votes

variable (entries : List (TickHashEntry ℕ)) (tick : ℕ)

/-- The hash a peer reported last for a tick. -/
def lastHash (peerId : UInt16) : Option String :=
  ((entries.filter fun entry => entry.tick = tick ∧ entry.peerId = peerId).getLast?).map
    TickHashEntry.hash

/-- The peers that reported a tick, in the order of their first reports. -/
def reporters : List UInt16 :=
  entries.foldl (fun seen entry =>
    if entry.tick = tick ∧ entry.peerId ∉ seen then seen ++ [entry.peerId] else seen) []

/-- The last hash of each of them. -/
def votes : List String := (reporters entries tick).filterMap (lastHash entries tick)

end Votes

theorem mem_of_lastHash {entries : List (TickHashEntry ℕ)} {tick : ℕ} {peerId : UInt16} {hash : String}
    (last : lastHash entries tick peerId = some hash) :
    ∃ entry ∈ entries, entry.tick = tick ∧ entry.hash = hash := by
  obtain ⟨entry, found, rfl⟩ := Option.map_eq_some_iff.mp last
  obtain ⟨member, passes⟩ := List.mem_filter.mp (List.mem_of_getLast? found)
  exact ⟨entry, member, (of_decide_eq_true passes).1, rfl⟩

theorem lastHash_concat (entries : List (TickHashEntry ℕ)) (entry : TickHashEntry ℕ) (tick : ℕ)
    (peerId : UInt16) :
    lastHash (entries ++ [entry]) tick peerId =
      if entry.tick = tick ∧ entry.peerId = peerId then some entry.hash
      else lastHash entries tick peerId := by
  unfold lastHash
  rw [List.filter_append]
  by_cases here : entry.tick = tick ∧ entry.peerId = peerId
  · simp [here]
  · rw [if_neg here, List.filter_singleton, decide_eq_false here, cond_false, List.append_nil]

theorem reporters_concat (entries : List (TickHashEntry ℕ)) (entry : TickHashEntry ℕ) (tick : ℕ) :
    reporters (entries ++ [entry]) tick =
      if entry.tick = tick ∧ entry.peerId ∉ reporters entries tick then
        reporters entries tick ++ [entry.peerId]
      else reporters entries tick := by
  rw [reporters, List.foldl_append]
  rfl

/-- **The table of a list has its peers' last hashes.** -/
theorem hashAt_foldl (entries : List (TickHashEntry ℕ)) (tick : ℕ) (peerId : UInt16) :
    hashAt (entries.foldl TickTable.add .empty) tick peerId = lastHash entries tick peerId := by
  induction entries using List.reverseRecOn with
  | nil => rfl
  | append_singleton entries entry ih =>
    rw [List.foldl_append, List.foldl_cons, List.foldl_nil, hashAt_add, lastHash_concat, ih]

/-- The peers of a tick in the table. -/
def peersAt (byTick : TickTable) (tick : ℕ) : InsertionMap UInt16 String :=
  (byTick.get? tick).getD .empty

theorem get?_peersAt (byTick : TickTable) (tick : ℕ) (peerId : UInt16) :
    (peersAt byTick tick).get? peerId = hashAt byTick tick peerId := by
  unfold peersAt hashAt
  cases byTick.get? tick <;> rfl

theorem peersAt_add (byTick : TickTable) (entry : TickHashEntry ℕ) (tick : ℕ) :
    peersAt (byTick.add entry) tick =
      if entry.tick = tick then (peersAt byTick tick).set entry.peerId entry.hash
      else peersAt byTick tick := by
  unfold peersAt TickTable.add
  by_cases here : entry.tick = tick
  · rw [if_pos here, ← here, InsertionMap.get?_upsert_self]
    rfl
  · rw [if_neg here, InsertionMap.get?_upsert_of_ne _ (Ne.symm here)]

/-- **The peers of a tick stand in the order of their first reports.** -/
theorem keys_peersAt (entries : List (TickHashEntry ℕ)) (tick : ℕ) :
    (peersAt (entries.foldl TickTable.add .empty) tick).entries.map Prod.fst =
      reporters entries tick := by
  induction entries using List.reverseRecOn with
  | nil => rfl
  | append_singleton entries entry ih =>
    rw [List.foldl_append, List.foldl_cons, List.foldl_nil, peersAt_add, reporters_concat, ← ih]
    by_cases here : entry.tick = tick
    · rw [if_pos here]
      show (InsertionMap.setEntry entry.peerId entry.hash _).map Prod.fst = _
      rw [InsertionMap.keys_setEntry]
      by_cases seen : entry.peerId ∈ (peersAt (entries.foldl TickTable.add .empty) tick).entries.map
          Prod.fst
      · rw [if_pos seen, if_neg fun fresh => fresh.2 seen]
      · rw [if_neg seen, if_pos ⟨here, seen⟩]
    · rw [if_neg here, if_neg fun fresh => here fresh.1]

theorem values_peersAt (entries : List (TickHashEntry ℕ)) (tick : ℕ) :
    (peersAt (entries.foldl TickTable.add .empty) tick).values = votes entries tick := by
  have found : ∀ entry ∈ (peersAt (entries.foldl TickTable.add .empty) tick).entries,
      lastHash entries tick entry.1 = some entry.2 := by
    intro entry member
    rw [← hashAt_foldl, ← get?_peersAt]
    exact (InsertionMap.mem_entries_iff _ _ _).mp member
  rw [votes, ← keys_peersAt, InsertionMap.values, List.filterMap_map]
  symm
  rw [← List.filterMap_eq_map]
  exact List.filterMap_congr found

theorem mem_reporters {entries : List (TickHashEntry ℕ)} {tick : ℕ} {peerId : UInt16} :
    peerId ∈ reporters entries tick ↔ (lastHash entries tick peerId).isSome := by
  rw [← keys_peersAt, ← hashAt_foldl, ← get?_peersAt, Option.isSome_iff_exists, List.mem_map]
  constructor
  · rintro ⟨⟨_, hash⟩, member, rfl⟩
    exact ⟨hash, (InsertionMap.mem_entries_iff _ _ _).mp member⟩
  · rintro ⟨hash, found⟩
    exact ⟨(peerId, hash), (InsertionMap.mem_entries_iff _ _ _).mpr found, rfl⟩

/-! ### The peers -/

/-- Whether the last hashes agree: `null` for fewer than two. -/
theorem tickAgrees_votes (entries : List (TickHashEntry ℕ)) (tick : ℕ) :
    tickAgrees (entries.foldl TickTable.add .empty) tick =
      if (votes entries tick).length < 2 then none
      else some ((votes entries tick).all fun hash => (votes entries tick).head? = some hash) := by
  rw [← values_peersAt]
  unfold tickAgrees peersAt
  cases (entries.foldl TickTable.add .empty).get? tick with
  | none => rfl
  | some peers =>
    rw [InsertionMap.length_values]
    rfl

/-- The badge says that two peers' last hashes differ. -/
theorem tickAgrees_eq_false_iff_votes (entries : List (TickHashEntry ℕ)) (tick : ℕ) :
    tickAgrees (entries.foldl TickTable.add .empty) tick = some false ↔
      ∃ hash ∈ votes entries tick, ∃ other ∈ votes entries tick, hash ≠ other := by
  rw [tickAgrees_votes]
  rcases votes entries tick with _ | ⟨first, rest⟩
  · simp
  · constructor
    · intro disagree
      split at disagree
      · cases disagree
      · rw [Option.some_inj, List.all_eq_false] at disagree
        obtain ⟨hash, member, differs⟩ := disagree
        refine ⟨first, List.mem_cons_self, hash, member, fun same => differs ?_⟩
        simp [same]
    · rintro ⟨hash, member, other, member', differs⟩
      rw [if_neg, Option.some_inj, List.all_eq_false]
      · by_cases same : hash = first
        · exact ⟨other, member', by simpa [← same] using differs⟩
        · exact ⟨hash, member, by simpa [eq_comm] using same⟩
      · intro short
        have single : rest = [] := by
          rw [← List.length_eq_zero_iff]
          rw [List.length_cons] at short
          omega
        rw [single, List.mem_singleton] at member member'
        exact differs (member.trans member'.symm)

/-- The badge says that two or more peers' last hashes are the same. -/
theorem tickAgrees_eq_true_iff_votes (entries : List (TickHashEntry ℕ)) (tick : ℕ) :
    tickAgrees (entries.foldl TickTable.add .empty) tick = some true ↔
      2 ≤ (votes entries tick).length ∧
        ∀ hash ∈ votes entries tick, ∀ other ∈ votes entries tick, hash = other := by
  have differs := tickAgrees_eq_false_iff_votes entries tick
  rw [tickAgrees_votes] at differs ⊢
  by_cases short : (votes entries tick).length < 2
  · rw [if_pos short]
    exact iff_of_false (by simp) fun both => absurd both.1 (by omega)
  · rw [if_neg short, Option.some_inj] at differs ⊢
    rw [← Bool.not_eq_false, differs]
    push Not
    exact ⟨fun same => ⟨by omega, same⟩, fun both => both.2⟩

/-- **What the panel of a tick shows.** -/
structure PeersShown (entries : List (TickHashEntry ℕ)) (tick : ℕ) (panel : PeersPanel) : Prop where
  mismatch : panel.badge = "mismatch" ↔
    ∃ hash ∈ votes entries tick, ∃ other ∈ votes entries tick, hash ≠ other
  agree : panel.badge = "match" ↔ 2 ≤ (votes entries tick).length ∧
    ∀ hash ∈ votes entries tick, ∀ other ∈ votes entries tick, hash = other
  silent : (∃ text, panel.rows = .hint text) ↔ reporters entries tick = []
  ascending : ∀ rows, panel.rows = .rows rows → (rows.map PeerRow.peerId).Pairwise (· < ·)
  rows : ∀ rows, panel.rows = .rows rows → ∃ plurality,
    MostCommon (votes entries tick) plurality ∧
      ∀ row, row ∈ rows ↔ ∃ hash, lastHash entries tick row.peerId = some hash ∧
        row.hash = hexShort hash ∧ (row.odd = true ↔ panel.badge = "mismatch" ∧ hash ≠ plurality)

/-- Sorting by peer puts distinct peers in ascending order. -/
theorem pairwise_sorted {entries : List (UInt16 × String)} (nodup : (entries.map Prod.fst).Nodup) :
    ((entries.insertionSort fun a b => a.1 ≤ b.1).map Prod.fst).Pairwise (· < ·) := by
  have total : Std.Total fun a b : UInt16 × String => a.1 ≤ b.1 := ⟨fun a b => UInt16.le_total a.1 b.1⟩
  have trans : IsTrans (UInt16 × String) fun a b => a.1 ≤ b.1 :=
    ⟨fun a b c first second => UInt16.le_trans first second⟩
  have sorted := List.pairwise_insertionSort (fun a b : UInt16 × String => a.1 ≤ b.1) entries
  have distinct : ((entries.insertionSort fun a b => a.1 ≤ b.1).map Prod.fst).Nodup :=
    ((List.perm_insertionSort _ entries).map Prod.fst).nodup_iff.mpr nodup
  rw [List.pairwise_map]
  refine (sorted.and (List.pairwise_map.mp distinct)).imp fun {a b} both => ?_
  exact UInt16.lt_of_le_of_ne both.1 both.2

theorem badgeText_eq_mismatch {agrees : Option Bool} : badgeText agrees = "mismatch" ↔ agrees = some false := by
  rcases agrees with _ | _ | _ <;> decide

theorem badgeText_eq_match {agrees : Option Bool} : badgeText agrees = "match" ↔ agrees = some true := by
  rcases agrees with _ | _ | _ <;> decide

/-- The row of a peer, `plurality` being the hash that is not odd. -/
def peerRow (agrees : Option Bool) (plurality : Option String) (entry : UInt16 × String) : PeerRow :=
  { peerId := entry.1, hash := hexShort entry.2, odd := agrees = some false ∧ some entry.2 ≠ plurality }

/-- A panel with rows: the peers that reported, sorted. -/
theorem rows_renderPeerRows (entries : List (TickHashEntry ℕ)) (tick : ℕ) {rows : List PeerRow}
    (shown : (renderPeerRows (entries.foldl TickTable.add .empty) tick).rows = .rows rows) :
    votes entries tick ≠ [] ∧ ∃ plurality,
      (tickAgrees (entries.foldl TickTable.add .empty) tick = some false →
        plurality = mostCommon (votes entries tick)) ∧
      rows = ((peersAt (entries.foldl TickTable.add .empty) tick).entries.insertionSort
        fun a b => a.1 ≤ b.1).map
          (peerRow (tickAgrees (entries.foldl TickTable.add .empty) tick) plurality) := by
  change (if (peersAt _ tick).size = 0 then _ else _) = PeerRows.rows rows at shown
  split at shown
  · cases shown
  · rename_i nonempty
    cases shown
    refine ⟨fun none => nonempty ?_, _, fun disagree => ?_, rfl⟩
    · rw [← InsertionMap.length_values, values_peersAt, none]
      rfl
    · rw [if_pos disagree, ← values_peersAt]
      rfl

/-- **A panel's rows are the reporters with their last hashes.** -/
theorem renderPeers_votes (entries : List (TickHashEntry ℕ)) (tick : ℕ) :
    PeersShown entries tick (renderPeerRows (entries.foldl TickTable.add .empty) tick) where
  mismatch := badgeText_eq_mismatch.trans (tickAgrees_eq_false_iff_votes entries tick)
  agree := badgeText_eq_match.trans (tickAgrees_eq_true_iff_votes entries tick)
  silent := by
    have size : (peersAt (entries.foldl TickTable.add .empty) tick).size =
        (reporters entries tick).length := by
      rw [← keys_peersAt, List.length_map]
      rfl
    rw [← List.length_eq_zero_iff, ← size]
    show (∃ text, (if (peersAt _ tick).size = 0 then _ else _) = PeerRows.hint text) ↔ _
    split
    · rename_i empty
      exact iff_of_true ⟨_, rfl⟩ empty
    · rename_i present
      refine iff_of_false ?_ present
      rintro ⟨text, same⟩
      cases same
  ascending := by
    intro rows shown
    obtain ⟨-, chosen, -, rfl⟩ := rows_renderPeerRows entries tick shown
    rw [List.map_map]
    exact pairwise_sorted (peersAt (entries.foldl TickTable.add .empty) tick).nodup
  rows := by
    intro rows shown
    obtain ⟨present, chosen, choice, rfl⟩ := rows_renderPeerRows entries tick shown
    obtain ⟨plurality, is⟩ := Option.isSome_iff_exists.mp ((mostCommon_isSome_iff _).mpr present)
    have found : ∀ entry : UInt16 × String, entry ∈ (peersAt (entries.foldl TickTable.add .empty)
        tick).entries.insertionSort (fun a b => a.1 ≤ b.1) ↔ lastHash entries tick entry.1 = some entry.2 := by
      intro entry
      rw [List.mem_insertionSort, InsertionMap.mem_entries_iff, get?_peersAt, hashAt_foldl]
    have odd : ∀ entry, (peerRow (tickAgrees (entries.foldl TickTable.add .empty) tick) chosen
        entry).odd = true ↔ badgeText (tickAgrees (entries.foldl TickTable.add .empty) tick) =
          "mismatch" ∧ entry.2 ≠ plurality := by
      intro entry
      rw [badgeText_eq_mismatch, peerRow, decide_eq_true_eq]
      refine and_congr_right fun disagree => ?_
      rw [choice disagree, is, ne_eq, Option.some_inj]
    refine ⟨plurality, (mostCommon_eq_some_iff _ _).mp is, fun row => ?_⟩
    rw [List.mem_map]
    constructor
    · rintro ⟨entry, member, rfl⟩
      exact ⟨entry.2, (found entry).mp member, rfl, odd entry⟩
    · rintro ⟨hash, last, text, marked⟩
      refine ⟨(row.peerId, hash), (found _).mpr last, ?_⟩
      have flag := Bool.eq_iff_iff.mpr ((odd (row.peerId, hash)).trans marked.symm)
      rcases row with ⟨peerId, _, _⟩
      exact PeerRow.mk.injEq .. |>.mpr ⟨rfl, text.symm, flag⟩

/-! ### The hint -/

/-- The first of a descending list that passes is the greatest that passes. -/
theorem find?_descending {ticks : List ℕ} (descending : ticks.Pairwise fun a b => b ≤ a)
    (passes : ℕ → Bool) (found : ℕ) :
    ticks.find? passes = some found ↔ IsGreatest {tick | tick ∈ ticks ∧ passes tick = true} found := by
  induction ticks with
  | nil => exact iff_of_false (by simp) fun greatest => List.not_mem_nil greatest.1.1
  | cons tick ticks ih =>
    obtain ⟨above, rest⟩ := List.pairwise_cons.mp descending
    rw [List.find?_cons]
    cases passed : passes tick with
    | true =>
      rw [Option.some_inj]
      have greatest : IsGreatest {other | other ∈ tick :: ticks ∧ passes other = true} tick := by
        refine ⟨⟨List.mem_cons_self, passed⟩, fun other member => ?_⟩
        rcases List.mem_cons.mp member.1 with rfl | below
        · exact le_rfl
        · exact above other below
      exact ⟨fun same => same ▸ greatest, fun other => greatest.unique other⟩
    | false =>
      rw [ih rest]
      have same : {other | other ∈ tick :: ticks ∧ passes other = true} =
          {other | other ∈ ticks ∧ passes other = true} := by
        ext other
        simp only [Set.mem_ofPred_eq, List.mem_cons, or_and_right, or_iff_right_iff_imp]
        rintro ⟨rfl, passes⟩
        rw [passed] at passes
        cases passes
      rw [same]

/-- **The last agreement** is the greatest tick below at which the peers agree. -/
theorem lastAgreeingTickBefore_eq_some_iff (byTick : TickTable) (tick found : ℕ) :
    lastAgreeingTickBefore byTick tick = some found ↔
      IsGreatest {other | other < tick ∧ tickAgrees byTick other = some true} found := by
  have total : Std.Total fun a b : ℕ => b ≤ a := ⟨fun a b => le_total b a⟩
  have trans : IsTrans ℕ fun a b => b ≤ a := ⟨fun a b c first second => second.trans first⟩
  have keyed : ∀ other, tickAgrees byTick other = some true →
      other ∈ byTick.entries.map Prod.fst := by
    intro other agrees
    rw [tickAgrees] at agrees
    obtain ⟨peers, found, -⟩ := Option.bind_eq_some_iff.mp agrees
    exact List.mem_map.mpr ⟨(other, peers), (InsertionMap.mem_entries_iff _ _ _).mpr found, rfl⟩
  have same : {other | other ∈ ((byTick.entries.map Prod.fst).filter (· < tick)).insertionSort
        (fun a b => b ≤ a) ∧ decide (tickAgrees byTick other = some true) = true} =
      {other | other < tick ∧ tickAgrees byTick other = some true} := by
    ext other
    simp only [Set.mem_ofPred_eq, List.mem_insertionSort, List.mem_filter, decide_eq_true_eq]
    exact ⟨fun both => ⟨both.1.2, both.2⟩, fun both => ⟨⟨keyed other both.2, both.1⟩, both.2⟩⟩
  rw [lastAgreeingTickBefore, find?_descending (List.pairwise_insertionSort _ _), same]

/-- **The nearest snapshot** is the greatest one that is not above. -/
theorem nearestSnapshotAtOrBefore_eq_some_iff {spread : ℕ} {session : SessionData ℕ} {tick : ℕ}
    {nearest : Option ℕ} (returns : nearestSnapshotAtOrBefore spread session tick = .ok nearest)
    (found : ℕ) :
    nearest = some found ↔ IsGreatest {other | other ∈ session.snapshotTicks ∧ other ≤ tick} found := by
  unfold nearestSnapshotAtOrBefore at returns
  dsimp only at returns
  split at returns
  · cases returns
  · cases returns
    rw [List.max?_eq_some_iff]
    simp only [IsGreatest, upperBounds, List.mem_filter, decide_eq_true_eq, Set.mem_ofPred_eq]

/-- What the hint says. -/
theorem renderAgreementHint_cases {spread : ℕ} {session : SessionData ℕ} {byTick : TickTable}
    {hint : AgreementHint} (told : renderAgreementHint spread session byTick = .ok hint) :
    (session.divergenceTick = none ∧ hint = .noDivergence) ∨
      ∃ tick nearest, session.divergenceTick = some tick ∧
        nearestSnapshotAtOrBefore spread session tick = .ok nearest ∧
        hint = .firstDivergence tick (lastAgreeingTickBefore byTick tick) nearest := by
  unfold renderAgreementHint at told
  rcases named : session.divergenceTick with _ | tick
  · rw [named] at told
    cases told
    exact .inl ⟨rfl, rfl⟩
  · rw [named] at told
    rcases found : nearestSnapshotAtOrBefore spread session tick with thrown | nearest
    · simp only [found] at told
      cases told
    · simp only [found] at told
      cases told
      exact .inr ⟨tick, nearest, rfl, found, rfl⟩

/-- The hint is drawn, if the snapshots can be spread. -/
theorem renderAgreementHint_isOk {spread : ℕ} {session : SessionData ℕ}
    (few : session.snapshotTicks.length ≤ spread) (byTick : TickTable) :
    ∃ hint, renderAgreementHint spread session byTick = .ok hint := by
  unfold renderAgreementHint
  rcases session.divergenceTick with _ | tick
  · exact ⟨_, rfl⟩
  · have fits : ¬ spread < (session.snapshotTicks.filter (· ≤ tick)).length :=
      not_lt.mpr ((List.length_filter_le _ _).trans few)
    simp only [nearestSnapshotAtOrBefore, if_neg fits]
    exact ⟨_, rfl⟩

/-! ### The labels -/

/-- **The loop ends below `2 ^ 53`**, since `t` grows. -/
theorem labelsFrom_isSome {step hi : ℕ} (small : hi < 2 ^ 53) (positive : 0 < step) (t : ℕ) :
    ∃ labels, labelsFrom step hi t = some labels := by
  fun_induction labelsFrom step hi t with
  | case1 t within grows ih =>
    obtain ⟨labels, rest⟩ := ih
    exact ⟨t :: labels, by rw [rest]; rfl⟩
  | case2 t within stays => exact absurd (Double.lt_add (within.trans_lt small) positive) stays
  | case3 t above => exact ⟨[], rfl⟩

theorem drawTimeline_isSome {session : SessionData ℕ} (ordered : session.minTick ≤ session.maxTick)
    (small : session.maxTick + 1 < 2 ^ 53) : ∃ labels, drawTimeline session = some labels := by
  refine labelsFrom_isSome ?_ (Nat.lt_of_lt_of_le Nat.zero_lt_one (le_max_left _ _)) _
  rw [Double.add, Double.nearest_of_lt (by omega)]
  omega

/-- From there on it need not. -/
example : drawTimeline { emptyLiveSession "" with minTick := 2 ^ 53 - 1, maxTick := 2 ^ 53 - 1 } = none := by
  decide +kernel

end Foldback
