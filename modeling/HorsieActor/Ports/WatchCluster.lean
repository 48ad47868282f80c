import HorsieActor.Ports.RaftStore

/-!
# The leader's view of who is up

`watch_cluster` and `observed_live` of `src/cluster/node.rs`.  On every tick a node
puts the agreed live set, cut down to the voters, into its placement table; a leader
also compares it with whom it has heard from, and proposes what it has observed when
the two differ.

The two sides of the comparison are filtered differently.  What was agreed is cut down
to the voters on every reading, and what is observed holds the leader itself whether it
is a voter or not.  A leader that is one finds its proposal agreed on the next tick; one
that no longer is proposes the same set on every tick (`excluded_leader_goes_on`), and
that is the whole difference (`stopsProposing_iff`).

Every time in the metrics is looked at on a clock of its own, so a tick need not take
no time at all.
-/

namespace HorsieActor.Ports.Liveness

open HorsieActor.Verified HorsieActor.Ports.Raft

/-! ## A tick -/

abbrev Instant : Type := Nat

abbrev Duration : Type := Nat

inductive ServerState where
  | learner
  | follower
  | candidate
  | leader
  | shutdown
  deriving DecidableEq, Repr

/-- `RaftMetrics` as far as `watch_cluster` looks into them. -/
structure Metrics where
  state : ServerState
  currentLeader : Option NodeIdx
  lastQuorumAcked : Option Instant
  /-- When each node last acknowledged, if it ever did; a leader has these. -/
  heartbeat : Option (OrdMap NodeIdx (Option Instant))

/-- One look at the metrics, with what the clock says at each of the times in them. -/
structure Reading where
  metrics : Metrics
  quorumClock : Instant
  clock : NodeIdx → Instant

/-- `at.elapsed() <= window`. -/
def within (window : Duration) (now ack : Instant) : Bool := decide (now - ack ≤ window)

/-- Whether a quorum still has this node. -/
def serving (window : Duration) (r : Reading) : Bool :=
  match r.metrics.state with
  | .leader => r.metrics.lastQuorumAcked.any (within window r.quorumClock)
  | .learner | .follower | .candidate | .shutdown => r.metrics.currentLeader.isSome

/-- One entry of the heartbeats: a voter that was heard from recently is live. -/
def hear (r : Reading) (window : Duration) (voters : OrdMap NodeIdx Unit)
    (live : OrdMap NodeIdx Unit) (row : NodeIdx × Option Instant) : OrdMap NodeIdx Unit :=
  if row.1 ∈ voters.keys then
    if row.2.any (within window (r.clock row.1)) then live.insert row.1 () else live
  else live

/-- Which voters the leader has heard from recently, plus itself. -/
def observedLive (r : Reading) (localId : NodeId) (window : Duration)
    (voters : OrdMap NodeIdx Unit) : OrdMap NodeIdx Unit :=
  let live := OrdMap.empty.insert localId ()
  match r.metrics.heartbeat with
  | none => live
  | some heartbeat => heartbeat.rows.foldl (hear r window voters) live

structure World where
  node : ClusterNode
  /-- What `serving_tx` holds. -/
  announced : Bool
  store : Persisted

/-- The voters as `watch_cluster` collects them. -/
def World.voters (w : World) : OrdMap NodeIdx Unit := OrdMap.ofKeys w.store.liveAndVoters.2

/-- The live set that was agreed, as it compares it. -/
def World.agreed (w : World) : OrdMap NodeIdx Unit := OrdMap.ofKeys w.store.usable

def World.observed (w : World) (window : Duration) (r : Reading) : OrdMap NodeIdx Unit :=
  observedLive r w.node.localId window w.voters

/-- The serving flag follows consensus. -/
def World.heed (window : Duration) (w : World) (r : Reading) : World :=
  let serving := serving window r
  let node := { w.node with serving := serving }
  let node := if w.announced != serving && !serving then node.abandonWaiting else node
  { w with node := node, announced := serving }

/-- The placement follows the live set and the voters that were read. -/
def World.place (w : World) (live voters : List NodeIdx) : World :=
  { w with node := w.node.setLive (Persisted.usableOf live voters) }

/-- What every node does on a tick. -/
def World.follow (window : Duration) (w : World) (r : Reading) : World :=
  let w := w.heed window r
  let (live, voters) := w.store.liveAndVoters
  w.place live voters

/-- What a leader does then, with what was read. -/
def proposed (window : Duration) (localId : NodeId) (r : Reading) (live voters : List NodeIdx) :
    Option LiveSet :=
  if r.metrics.state = .leader then
    let observed := observedLive r localId window (OrdMap.ofKeys voters)
    if observed = OrdMap.ofKeys (Persisted.usableOf live voters) then none else some ⟨observed⟩
  else none

def World.propose (window : Duration) (w : World) (r : Reading) : Option LiveSet :=
  let (live, voters) := w.store.liveAndVoters
  proposed window w.node.localId r live voters

/-- One round of the loop. -/
def tick (window : Duration) (w : World) (r : Reading) : World × Option LiveSet :=
  let w := w.follow window r
  (w, w.propose window r)

/-- The entry is applied. -/
def World.applied (w : World) (logId : LogId) (live : LiveSet) : World :=
  { w with store := w.store.applyEntry ⟨logId, .normal live⟩ }

/-- What is proposed over several ticks, each proposal applied before the next. -/
def proposals (window : Duration) : World → List (Reading × LogId) → List LiveSet
  | _, [] => []
  | w, (r, logId) :: rest =>
      match tick window w r with
      | (w, none) => proposals window w rest
      | (w, some live) => live :: proposals window (w.applied logId live) rest

/-! ## The property -/

/-- The same observation. -/
structure Alike (window : Duration) (w : World) (r r' : Reading) : Prop where
  state : r'.metrics.state = r.metrics.state
  observed : w.observed window r' = w.observed window r

/-- Once its view is agreed the leader has nothing to propose. -/
structure StopsProposing (window : Duration) (w : World) (r : Reading) : Prop where
  next : ∀ live logId r', (tick window w r).2 = some live → Alike window w r r' →
    let w' := (tick window w r).1.applied logId live
    w'.observed window r' = w'.agreed ∧ (tick window w' r').2 = none
  once : ∀ rs : List (Reading × LogId), (∀ x ∈ rs, Alike window w r x.1) →
    (proposals window w rs).length ≤ 1

/-! ## What is observed and what was agreed -/

section Sets

variable {window : Duration} {w : World} {r : Reading} {n : NodeIdx}

theorem mem_keys_foldl_hear {voters : OrdMap NodeIdx Unit}
    {rows : List (NodeIdx × Option Instant)} :
    ∀ {live : OrdMap NodeIdx Unit}, n ∈ (rows.foldl (hear r window voters) live).keys ↔
      n ∈ live.keys ∨ (n ∈ voters.keys ∧
        ∃ ack, (n, some ack) ∈ rows ∧ within window (r.clock n) ack = true) := by
  induction rows with
  | nil => simp
  | cons row rows ih =>
      intro live
      obtain ⟨m, lastAck⟩ := row
      rw [List.foldl_cons, ih]
      have hhear : n ∈ (hear r window voters live (m, lastAck)).keys ↔
          n ∈ live.keys ∨ (n = m ∧ n ∈ voters.keys ∧
            lastAck.any (within window (r.clock n)) = true) := by
        unfold hear
        dsimp only
        split
        · rename_i hvoter
          split
          · rename_i hack
            rw [OrdMap.mem_keys_insert, or_comm]
            constructor
            · rintro (hlive | rfl)
              · exact Or.inl hlive
              · exact Or.inr ⟨rfl, hvoter, hack⟩
            · exact Or.imp_right And.left
          · rename_i hack
            refine ⟨Or.inl, fun h => h.resolve_right ?_⟩
            rintro ⟨rfl, -, hack'⟩
            exact hack hack'
        · rename_i hvoter
          refine ⟨Or.inl, fun h => h.resolve_right ?_⟩
          rintro ⟨rfl, hvoter', -⟩
          exact hvoter hvoter'
      rw [hhear, or_assoc]
      refine or_congr_right ?_
      constructor
      · rintro (⟨rfl, hvoter, hack⟩ | ⟨hvoter, ack, hrow, hack⟩)
        · cases lastAck with
          | none => cases hack
          | some ack => exact ⟨hvoter, ack, List.mem_cons_self .., hack⟩
        · exact ⟨hvoter, ack, List.mem_cons_of_mem _ hrow, hack⟩
      · rintro ⟨hvoter, ack, hrow, hack⟩
        rcases List.mem_cons.mp hrow with heq | hrow
        · cases heq
          exact Or.inl ⟨rfl, hvoter, hack⟩
        · exact Or.inr ⟨hvoter, ack, hrow, hack⟩

/-- The leader, and the voters it has heard from. -/
theorem mem_observed_iff :
    n ∈ (w.observed window r).keys ↔
      n = w.node.localId ∨ (n ∈ w.voters.keys ∧ ∃ heartbeat ack,
        r.metrics.heartbeat = some heartbeat ∧ (n, some ack) ∈ heartbeat.rows ∧
          within window (r.clock n) ack = true) := by
  have hself : n ∈ ((OrdMap.empty : OrdMap NodeIdx Unit).insert w.node.localId ()).keys ↔
      n = w.node.localId := by
    rw [OrdMap.mem_keys_insert]
    exact or_iff_left List.not_mem_nil
  unfold World.observed observedLive
  cases hbeat : r.metrics.heartbeat with
  | none => simp [hself]
  | some heartbeat =>
      dsimp only
      rw [mem_keys_foldl_hear, hself]
      simp

theorem mem_voters_iff : n ∈ w.voters.keys ↔ n ∈ w.store.membership.membership.voterIds :=
  OrdMap.mem_ofKeys

/-- What was agreed, less who is not a voter. -/
theorem mem_agreed_iff : n ∈ w.agreed.keys ↔ n ∈ w.store.live.nodes.keys ∧ n ∈ w.voters.keys := by
  unfold World.agreed
  rw [OrdMap.mem_ofKeys]
  simp only [Persisted.usable, Persisted.usableOf, List.mem_filter, decide_eq_true_eq]
  rfl

end Sets

/-! ## Ticks -/

section Ticks

variable {window : Duration} {w w' : World} {r r' : Reading} {live : LiveSet} {logId : LogId}

@[simp] theorem localId_heed : (w.heed window r).node.localId = w.node.localId := by
  unfold World.heed
  dsimp only
  split <;> rfl

@[simp] theorem table_heed : (w.heed window r).node.table = w.node.table := by
  unfold World.heed
  dsimp only
  split <;> rfl

@[simp] theorem localId_follow : (w.follow window r).node.localId = w.node.localId := localId_heed

/-- The observation depends on the voters and on the leader. -/
theorem observed_congr (hvoters : w'.voters = w.voters)
    (hlocal : w'.node.localId = w.node.localId) : w'.observed window r = w.observed window r := by
  unfold World.observed
  rw [hvoters, hlocal]

@[simp] theorem observed_follow : (w.follow window r).observed window r' = w.observed window r' :=
  observed_congr rfl localId_follow

@[simp] theorem observed_applied : (w.applied logId live).observed window r = w.observed window r :=
  observed_congr rfl rfl

@[simp] theorem agreed_follow : (w.follow window r).agreed = w.agreed := rfl

theorem tick_snd : (tick window w r).2 = w.propose window r := by
  show proposed window (w.follow window r).node.localId r _ _ = _
  rw [localId_follow]
  rfl

/-- What a round proposes with what it has read. -/
theorem proposed_eq_some_iff {localId : NodeId} {nodes voters : List NodeIdx} :
    proposed window localId r nodes voters = some live ↔
      r.metrics.state = .leader ∧
        observedLive r localId window (OrdMap.ofKeys voters) ≠
          OrdMap.ofKeys (Persisted.usableOf nodes voters) ∧
        live = ⟨observedLive r localId window (OrdMap.ofKeys voters)⟩ := by
  unfold proposed
  split
  · rename_i hleader
    dsimp only
    split
    · rename_i heq
      exact ⟨nofun, fun h => absurd heq h.2.1⟩
    · rename_i hne
      rw [Option.some.injEq]
      exact ⟨fun h => ⟨hleader, hne, h.symm⟩, fun h => h.2.2.symm⟩
  · rename_i hleader
    exact ⟨nofun, fun h => absurd h.1 hleader⟩

theorem propose_eq_some_iff :
    w.propose window r = some live ↔
      r.metrics.state = .leader ∧ w.observed window r ≠ w.agreed ∧
        live = ⟨w.observed window r⟩ :=
  proposed_eq_some_iff

theorem propose_eq_none_of_agreed (h : w.observed window r = w.agreed) :
    w.propose window r = none := by
  cases hlive : w.propose window r with
  | none => rfl
  | some live => exact absurd h (propose_eq_some_iff.mp hlive).2.1

/-- A leader that is not a voter never finds itself in what was agreed. -/
theorem observed_ne_agreed (h : w.node.localId ∉ w.voters.keys) :
    w.observed window r ≠ w.agreed := by
  intro heq
  have hmem : w.node.localId ∈ (w.observed window r).keys := mem_observed_iff.mpr (Or.inl rfl)
  rw [heq] at hmem
  exact h (mem_agreed_iff.mp hmem).2

/-- A leader that is one finds what it proposed. -/
theorem agreed_applied (h : w.node.localId ∈ w.voters.keys) :
    (w.applied logId ⟨w.observed window r⟩).agreed = w.observed window r := by
  apply OrdMap.eq_of_mem_keys_iff
  intro n
  rw [mem_agreed_iff]
  refine and_iff_left_of_imp fun hn => ?_
  rcases mem_observed_iff.mp hn with rfl | ⟨hvoter, -⟩
  · exact h
  · exact hvoter

end Ticks

/-! ## Any number of ticks -/

section Runs

variable {window : Duration} {w : World} {r : Reading}

theorem Alike.follow {r' r'' : Reading} (h : Alike window w r r') :
    Alike window (w.follow window r'') r r' :=
  ⟨h.state, by simp only [observed_follow, h.observed]⟩

theorem Alike.applied {r' : Reading} {logId : LogId} {live : LiveSet} (h : Alike window w r r') :
    Alike window (w.applied logId live) r r' :=
  ⟨h.state, by simp only [observed_applied, h.observed]⟩

/-- The view is agreed, so nothing is proposed any more. -/
theorem proposals_of_agreed (rs : List (Reading × LogId)) :
    ∀ {w : World}, w.observed window r = w.agreed → (∀ x ∈ rs, Alike window w r x.1) →
      proposals window w rs = [] := by
  induction rs with
  | nil => exact fun _ _ => rfl
  | cons x rs ih =>
      obtain ⟨r', logId⟩ := x
      intro w hagreed halike
      have hnone : (tick window w r').2 = none := by
        rw [tick_snd]
        exact propose_eq_none_of_agreed
          ((halike _ (List.mem_cons_self ..)).observed.trans hagreed)
      have hrest : proposals window (w.follow window r') rs = [] :=
        ih (by simp only [observed_follow, agreed_follow, hagreed])
          fun y hy => (halike y (List.mem_cons_of_mem _ hy)).follow
      unfold proposals
      rw [show tick window w r' = (w.follow window r', none) from Prod.ext rfl hnone]
      exact hrest

/-- A leader among the voters proposes once, and whoever is not leader not at all. -/
theorem length_proposals_le_one (h : r.metrics.state = .leader → w.node.localId ∈ w.voters.keys)
    (rs : List (Reading × LogId)) (halike : ∀ x ∈ rs, Alike window w r x.1) :
    (proposals window w rs).length ≤ 1 := by
  induction rs generalizing w with
  | nil => exact Nat.zero_le _
  | cons x rs ih =>
      obtain ⟨r', logId⟩ := x
      have hfirst := halike _ (List.mem_cons_self ..)
      have hrest : ∀ y ∈ rs, Alike window (w.follow window r') r y.1 := fun y hy =>
        (halike y (List.mem_cons_of_mem _ hy)).follow
      have hvoter : r.metrics.state = .leader →
          (w.follow window r').node.localId ∈ (w.follow window r').voters.keys := by
        rw [localId_follow]
        exact h
      unfold proposals
      cases hlive : (tick window w r').2 with
      | none =>
          rw [show tick window w r' = (w.follow window r', none) from Prod.ext rfl hlive]
          exact ih hvoter hrest
      | some live =>
          rw [show tick window w r' = (w.follow window r', some live) from Prod.ext rfl hlive]
          obtain ⟨hleader, -, rfl⟩ := propose_eq_some_iff.mp (tick_snd.symm.trans hlive)
          have hagreed : ((w.follow window r').applied logId ⟨w.observed window r'⟩).agreed =
              w.observed window r' := by
            rw [← observed_follow (r := r')]
            exact agreed_applied (hvoter (hfirst.state.symm.trans hleader))
          dsimp only
          rw [proposals_of_agreed (r := r) rs ?_ fun y hy => (hrest y hy).applied]
          · exact Nat.le_refl _
          · rw [hagreed, observed_applied, observed_follow]
            exact hfirst.observed.symm

end Runs

/-! ## The result -/

theorem mem_voters_of_stopsProposing {window : Duration} {w : World} {r : Reading}
    (h : StopsProposing window w r) (hleader : r.metrics.state = .leader) :
    w.node.localId ∈ w.voters.keys := by
  by_contra hvoter
  have hlive : (tick window w r).2 = some ⟨w.observed window r⟩ := by
    rw [tick_snd, propose_eq_some_iff]
    exact ⟨hleader, observed_ne_agreed hvoter, rfl⟩
  obtain ⟨heq, -⟩ := h.next _ ⟨⟨0, ⟨0⟩⟩, ⟨0⟩⟩ r hlive ⟨rfl, rfl⟩
  refine observed_ne_agreed ?_ heq
  show (w.follow window r).node.localId ∉ w.voters.keys
  rw [localId_follow]
  exact hvoter

/-- **The leader stops proposing once its view is agreed**, exactly if it is among the
voters. -/
theorem stopsProposing_iff (window : Duration) (w : World) (r : Reading) :
    StopsProposing window w r ↔
      (r.metrics.state = .leader → w.node.localId ∈ w.store.membership.membership.voterIds) := by
  constructor
  · exact fun h hleader => mem_voters_iff.mp (mem_voters_of_stopsProposing h hleader)
  · intro h
    refine ⟨?_, length_proposals_le_one fun hleader => mem_voters_iff.mpr (h hleader)⟩
    intro live logId r' hlive halike
    obtain ⟨hleader, -, rfl⟩ := propose_eq_some_iff.mp (tick_snd.symm.trans hlive)
    have hagreed : ((w.follow window r).applied logId ⟨w.observed window r⟩).observed window r' =
        ((w.follow window r).applied logId ⟨w.observed window r⟩).agreed := by
      rw [observed_applied, observed_follow, halike.observed, ← observed_follow (r := r),
        agreed_applied]
      rw [localId_follow]
      exact mem_voters_iff.mpr (h hleader)
    exact ⟨hagreed, tick_snd.trans (propose_eq_none_of_agreed hagreed)⟩

/-- Node 1 leads a cluster whose voters are 2 and 3. -/
def excludedLeader : World where
  node := ClusterNode.start ⟨1⟩
  announced := true
  store := { Persisted.default with
    membership := ⟨none, ⟨[OrdMap.ofKeys [⟨2⟩, ⟨3⟩]], OrdMap.empty⟩⟩ }

/-- Both have just acknowledged. -/
def heardFromBoth : Reading where
  metrics :=
    { state := .leader
      currentLeader := some ⟨1⟩
      lastQuorumAcked := some 0
      heartbeat := some ((OrdMap.empty.insert ⟨2⟩ (some 0)).insert ⟨3⟩ (some 0)) }
  quorumClock := 0
  clock := fun _ => 0

theorem excluded_leader_goes_on :
    ¬ ∀ (window : Duration) (w : World) (r : Reading), StopsProposing window w r := by
  intro h
  have hvoter := mem_voters_of_stopsProposing (h 3 excludedLeader heardFromBoth) rfl
  revert hvoter
  decide

end HorsieActor.Ports.Liveness
