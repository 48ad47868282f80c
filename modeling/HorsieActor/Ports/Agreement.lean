import HorsieActor.Ports.RaftReplay
import HorsieActor.Ports.Rendezvous
import HorsieActor.Ports.WatchCluster
import HorsieActor.Verified.Schedule
import HorsieActor.Verified.Slots

/-!
# Placement across the cluster

Any number of nodes, each with its store and its `watch_cluster` loop, over one log.  That
there is one log, and that a store applies it in order or installs what another store has
built, is Raft's part; elections and replication are not modelled.  What the repository
adds is in the steps: what a round reads and where it puts it, who proposes what, what a
file holds when a node comes back.

A round reads the store in one place and replaces the placement table in another, and
entries may be applied in between, so a table stands for some point of the log and not for
the store beside it.  With nothing in between the two halves are a `tick`
(`place_look`).

## Main results

* `inv_step` — every store, every file, every table and every snapshot stands for a point
  of the log, and every agreed live set was observed by a leader.
* `placement_agrees` — nodes at one point of the log place every shard alike; at different
  points they disagree only about an owner that one of them does not hold live.
-/

namespace HorsieActor.Ports.Liveness

open HorsieActor.Verified HorsieActor.Ports.Raft
open HorsieActor.Verified.Schedule

/-! ## One round in two halves -/

/-- Where `watch_cluster` is. -/
inductive Loop where
  | waiting
  /-- It has read the live set and the voters; as history, how much was applied then. -/
  | placing (r : Reading) (live voters : List NodeIdx) (upTo : Nat)
  /-- Awaiting `client_write`. -/
  | proposing (live : LiveSet)

structure Member where
  world : World
  loop : Loop
  /-- What the file of the store holds. -/
  disk : Persisted
  /-- History: how much of the log the store stands for, and the file, and the table. -/
  applied : Nat
  saved : Nat
  placed : Option Nat

namespace Member

variable (window : Duration)

def start (localId : NodeId) : Member where
  world := ⟨ClusterNode.start localId, false, Persisted.default⟩
  loop := .waiting
  disk := Persisted.default
  applied := 0
  saved := 0
  placed := none

/-- The first half of a round: the serving flag, and one look into the store. -/
def look (m : Member) (r : Reading) : Member :=
  let (live, voters) := m.world.store.liveAndVoters
  { m with world := m.world.heed window r, loop := .placing r live voters m.applied }

/-- What is left of a round after `set_live`. -/
def afterPlace (localId : NodeId) (r : Reading) (live voters : List NodeIdx) : Loop :=
  match proposed window localId r live voters with
  | none => .waiting
  | some live => .proposing live

/-- The second half: placement follows what was read, and a leader compares. -/
def place (m : Member) : Option Member :=
  match m.loop with
  | .placing r live voters upTo =>
      some { m with
        world := m.world.place live voters
        loop := afterPlace window m.world.node.localId r live voters
        placed := some upTo }
  | .waiting | .proposing _ => none

/-- The process comes back, with what its file holds. -/
def restart (m : Member) : Member where
  world := ⟨ClusterNode.start m.world.node.localId, false, m.disk⟩
  loop := .waiting
  disk := m.disk
  applied := m.saved
  saved := m.saved
  placed := none

/-- With nothing in between, the two halves are a `tick`. -/
theorem place_look (m : Member) (r : Reading) :
    ∃ m', (m.look window r).place window = some m' ∧ m'.world = (tick window m.world r).1 ∧
      m'.loop = match (tick window m.world r).2 with
        | none => .waiting
        | some live => .proposing live := by
  refine ⟨_, rfl, rfl, ?_⟩
  show afterPlace window (m.world.heed window r).node.localId r _ _ = _
  rw [tick_snd, localId_heed]
  rfl

end Member

/-! ## The cluster -/

/-- History: what a leader has proposed, and from what. -/
structure Proposal where
  leader : NodeId
  reading : Reading
  voters : List NodeIdx
  live : LiveSet

structure Cluster where
  /-- What Raft has committed. -/
  log : List Raft.Entry
  members : List Member
  /-- The snapshots that were built; as history, how much of the log each stands for. -/
  snapshots : List (Snapshot × Nat)
  proposals : List Proposal

def Cluster.start (ids : List NodeId) : Cluster := ⟨[], ids.map Member.start, [], []⟩

inductive Label where
  /-- Raft commits an entry; a live set only if it was proposed. -/
  | commit (logId : LogId) (payload : EntryPayload)
  | apply (i : Nat)
  /-- Anything else Raft does to a store. -/
  | edit (i : Nat) (op : Op)
  | flush (i : Nat)
  | build (i : Nat)
  | install (i k : Nat)
  | look (i : Nat) (r : Reading)
  | place (i : Nat)
  /-- `client_write` returns, with the entry committed or not. -/
  | written (i : Nat)
  | restart (i : Nat)

/-- What else Raft does to a store: it applies nothing. -/
def aside : Op → Bool
  | .apply _ | .installSnapshot _ => false
  | .saveVote _ | .saveCommitted _ | .append _ | .truncateAfter _ | .purge _
  | .buildSnapshot _ => true

variable (serde : Serde) (window : Duration)

/-- Replace the store of a node. -/
def Member.setStore (m : Member) (store : Persisted) (applied : Nat) : Member :=
  { m with world := { m.world with store := store }, applied := applied }

def Cluster.setMember (c : Cluster) (i : Nat) (m : Member) : Cluster :=
  { c with members := c.members.set i m }

/-- The proposal a node has come to, if any. -/
def proposalOf (m : Member) : List Proposal :=
  match m.loop with
  | .placing r live voters _ =>
      match proposed window m.world.node.localId r live voters with
      | none => []
      | some live => [⟨m.world.node.localId, r, voters, live⟩]
  | .waiting | .proposing _ => []

def commit (c : Cluster) (logId : LogId) (payload : EntryPayload) : Option Cluster :=
  match payload with
  | .normal live =>
      if c.proposals.any fun p => p.live = live then
        some { c with log := c.log ++ [⟨logId, .normal live⟩] }
      else none
  | .blank => some { c with log := c.log ++ [⟨logId, .blank⟩] }
  | .membership m => some { c with log := c.log ++ [⟨logId, .membership m⟩] }

/-- What one node does. -/
def act (c : Cluster) (i : Nat) (m : Member) : Label → Option Cluster
  | .commit _ _ => none
  | .apply _ =>
      c.log[m.applied]?.map fun entry =>
        c.setMember i (m.setStore (m.world.store.applyEntry entry) (m.applied + 1))
  | .edit _ op =>
      if aside op then
        (op.edit serde).map fun f => c.setMember i (m.setStore (f m.world.store) m.applied)
      else none
  | .flush _ => some (c.setMember i { m with disk := m.world.store, saved := m.applied })
  | .build _ =>
      some { c with
        snapshots := c.snapshots ++ [(snapshotOf serde m.world.store.taken, m.applied)] }
  | .install _ k =>
      match c.snapshots[k]? with
      | none => none
      | some (snapshot, upTo) =>
          (serde.snapshot.decode snapshot.snapshot).map fun a =>
            c.setMember i (m.setStore (m.world.store.install snapshot a) upTo)
  | .look _ r =>
      match m.loop with
      | .waiting => some (c.setMember i (m.look window r))
      | .placing _ _ _ _ | .proposing _ => none
  | .place _ =>
      (m.place window).map fun m' =>
        { c.setMember i m' with proposals := c.proposals ++ proposalOf window m }
  | .written _ =>
      match m.loop with
      | .proposing _ => some (c.setMember i { m with loop := .waiting })
      | .waiting | .placing _ _ _ _ => none
  | .restart _ => some (c.setMember i m.restart)

/-- The node a label is for. -/
def Label.node : Label → Nat
  | .commit _ _ => 0
  | .apply i | .edit i _ | .flush i | .build i | .install i _ | .look i _ | .place i
  | .written i | .restart i => i

def step (c : Cluster) (a : Label) : Option Cluster :=
  match a with
  | .commit logId payload => commit c logId payload
  | a => c.members[a.node]?.bind fun m => act serde window c a.node m a

/-! ## Points of the log -/

/-- What the first `k` entries come to. -/
def appliedAt (log : List Raft.Entry) (k : Nat) : Applied :=
  (log.take k).foldl Applied.apply Applied.initial

/-- The live nodes that were voters at that point. -/
def agreedAt (log : List Raft.Entry) (k : Nat) : List NodeId :=
  Persisted.usableOf (appliedAt log k).live.nodes.keys
    (appliedAt log k).membership.membership.voterIds

section Points

variable {log : List Raft.Entry} {k : Nat} {s : Persisted}

theorem appliedAt_append (h : k ≤ log.length) (more : List Raft.Entry) :
    appliedAt (log ++ more) k = appliedAt log k := by
  unfold appliedAt
  rw [List.take_append_of_le_length h]

theorem agreedAt_append (h : k ≤ log.length) (more : List Raft.Entry) :
    agreedAt (log ++ more) k = agreedAt log k := by
  unfold agreedAt
  rw [appliedAt_append h]

theorem appliedAt_succ {entry : Raft.Entry} (h : log[k]? = some entry) :
    appliedAt log (k + 1) = (appliedAt log k).apply entry := by
  unfold appliedAt
  rw [List.take_add_one, h, List.foldl_append]
  rfl

/-- The live set at a point is the one of an entry before it. -/
theorem live_foldl_apply (entries : List Raft.Entry) : ∀ a : Applied,
    (entries.foldl Applied.apply a).live = a.live ∨
      ∃ e ∈ entries, e.payload = .normal (entries.foldl Applied.apply a).live := by
  induction entries with
  | nil => intro a; exact Or.inl rfl
  | cons e rest ih =>
      intro a
      rw [List.foldl_cons]
      rcases ih (a.apply e) with hsame | ⟨e', he', hlive⟩
      · rw [hsame]
        cases hpayload : e.payload with
        | blank => exact Or.inl (by simp only [Applied.apply, hpayload])
        | membership m => exact Or.inl (by simp only [Applied.apply, hpayload])
        | normal live =>
            refine Or.inr ⟨e, List.mem_cons_self .., ?_⟩
            simp only [Applied.apply, hpayload]
      · exact Or.inr ⟨e', List.mem_cons_of_mem _ he', hlive⟩

/-- Something is live only if an entry says so. -/
theorem exists_normal_of_mem {n : NodeIdx} (h : n ∈ (appliedAt log k).live.nodes.keys) :
    ∃ e ∈ log, e.payload = .normal (appliedAt log k).live := by
  rcases live_foldl_apply (log.take k) Applied.initial with hnone | ⟨e, he, hlive⟩
  · have hempty : (appliedAt log k).live = Applied.initial.live := hnone
    rw [hempty] at h
    exact absurd h List.not_mem_nil
  · exact ⟨e, List.mem_of_mem_take he, hlive⟩

/-- Whatever else Raft edits, what is applied stays. -/
theorem taken_aside {op : Op} {f : Persisted → Persisted} (h : aside op = true)
    (hf : op.edit serde = some f) : (f s).taken = s.taken := by
  cases op with
  | apply entry => cases h
  | installSnapshot snapshot => cases h
  | saveVote | saveCommitted | append | truncateAfter | purge | buildSnapshot =>
      cases hf
      rfl

end Points

/-! ## The invariant -/

/-- A round that has read holds what some point of the log says. -/
def Loop.Reads (log : List Raft.Entry) : Loop → Prop
  | .placing _ live voters upTo =>
      upTo ≤ log.length ∧ live = (appliedAt log upTo).live.nodes.keys ∧
        voters = (appliedAt log upTo).membership.membership.voterIds
  | .waiting | .proposing _ => True

/-- Each of the things a node keeps stands for a point of the log. -/
structure Member.Follows (log : List Raft.Entry) (m : Member) : Prop where
  applied_le : m.applied ≤ log.length
  store : m.world.store.taken = appliedAt log m.applied
  saved_le : m.saved ≤ log.length
  disk : m.disk.taken = appliedAt log m.saved
  loop : m.loop.Reads log
  placed_le : ∀ k ∈ m.placed, k ≤ log.length
  table : m.world.node.table =
    match m.placed with
    | none => PlacementTable.new
    | some k => PlacementTable.new.setMembers (agreedAt log k)

/-- A proposal is what a leader observed among the voters of some point of the log. -/
structure Proposal.Observed (log : List Raft.Entry) (p : Proposal) : Prop where
  leading : p.reading.metrics.state = .leader
  live : p.live.nodes = observedLive p.reading p.leader window (OrdMap.ofKeys p.voters)
  voters : ∃ k ≤ log.length, p.voters = (appliedAt log k).membership.membership.voterIds

structure Inv (c : Cluster) : Prop where
  members : ∀ {i : Nat} {m : Member}, c.members[i]? = some m → m.Follows c.log
  snapshots : ∀ x ∈ c.snapshots,
    x.2 ≤ c.log.length ∧ x.1 = snapshotOf serde (appliedAt c.log x.2)
  proposals : ∀ p ∈ c.proposals, p.Observed window c.log
  proposed : ∀ e ∈ c.log, ∀ live, e.payload = .normal live → ∃ p ∈ c.proposals, p.live = live

section Steps

variable {serde window} {c c' : Cluster} {i : Nat} {m m' : Member} {log : List Raft.Entry}

/-! ### The log grows -/

theorem Member.Follows.append (h : m.Follows log) (more : List Raft.Entry) :
    m.Follows (log ++ more) := by
  have hle : log.length ≤ (log ++ more).length := by simp
  refine ⟨Nat.le_trans h.applied_le hle, ?_, Nat.le_trans h.saved_le hle, ?_, ?_,
    fun k hk => Nat.le_trans (h.placed_le k hk) hle, ?_⟩
  · rw [appliedAt_append h.applied_le, h.store]
  · rw [appliedAt_append h.saved_le, h.disk]
  · have hloop := h.loop
    unfold Loop.Reads at hloop ⊢
    split
    · rename_i r live voters upTo heq
      rw [heq] at hloop
      obtain ⟨hupTo, hlive, hvoters⟩ := hloop
      rw [appliedAt_append hupTo]
      exact ⟨Nat.le_trans hupTo hle, hlive, hvoters⟩
    · trivial
    · trivial
  · rw [h.table]
    have hplaced := h.placed_le
    cases hp : m.placed with
    | none => rfl
    | some k =>
        rw [hp] at hplaced
        dsimp only
        rw [agreedAt_append (hplaced k rfl)]

theorem Inv.commit (h : Inv serde window c) (e : Raft.Entry)
    (hproposed : ∀ live, e.payload = .normal live → ∃ p ∈ c.proposals, p.live = live) :
    Inv serde window { c with log := c.log ++ [e] } := by
  have hle : c.log.length ≤ (c.log ++ [e]).length := by simp
  refine ⟨fun hm => (h.members hm).append _, ?_, ?_, ?_⟩
  · intro x hx
    obtain ⟨hupTo, hsnapshot⟩ := h.snapshots x hx
    exact ⟨Nat.le_trans hupTo hle, by rw [appliedAt_append hupTo, hsnapshot]⟩
  · intro p hp
    obtain ⟨hleading, hlive, k, hk, hvoters⟩ := h.proposals p hp
    refine ⟨hleading, hlive, k, Nat.le_trans hk hle, ?_⟩
    rw [appliedAt_append hk, hvoters]
  · intro e' he' live hlive
    rcases List.mem_append.mp he' with he' | he'
    · exact h.proposed e' he' live hlive
    · rw [List.mem_singleton.mp he'] at hlive
      exact hproposed live hlive

/-! ### A node moves -/

theorem Inv.setMember (h : Inv serde window c) (hi : c.members[i]? = some m)
    (hm : m'.Follows c.log) : Inv serde window (c.setMember i m') := by
  refine ⟨fun {j u} hj => ?_, h.snapshots, h.proposals, h.proposed⟩
  rcases (Slots.getElem?_set_iff hi).mp hj with ⟨-, rfl⟩ | ⟨-, hj⟩
  · exact hm
  · exact h.members hj

theorem Member.Follows.setStore (h : m.Follows log) {store : Persisted} {k : Nat}
    (hk : k ≤ log.length) (hstore : store.taken = appliedAt log k) :
    (m.setStore store k).Follows log :=
  { h with applied_le := hk, store := hstore }

theorem Member.Follows.look (h : m.Follows log) (r : Reading) :
    (m.look window r).Follows log := by
  have hlive : m.world.store.live = (appliedAt log m.applied).live :=
    congrArg Applied.live h.store
  have hmembership : m.world.store.membership = (appliedAt log m.applied).membership :=
    congrArg Applied.membership h.store
  refine ⟨h.applied_le, h.store, h.saved_le, h.disk, ⟨h.applied_le, ?_, ?_⟩, h.placed_le, ?_⟩
  · exact congrArg (fun live : LiveSet => live.nodes.keys) hlive
  · exact congrArg (fun stored : StoredMembership => stored.membership.voterIds) hmembership
  · exact table_heed.trans h.table

theorem Member.Follows.place (h : m.Follows log) (hplace : m.place window = some m') :
    m'.Follows log := by
  have hloop := h.loop
  unfold Member.place at hplace
  split at hplace
  · rename_i r live voters upTo heq
    rw [heq] at hloop
    obtain ⟨hupTo, rfl, rfl⟩ := hloop
    cases hplace
    refine ⟨h.applied_le, h.store, h.saved_le, h.disk, ?_, ?_, rfl⟩
    · show (Member.afterPlace _ _ _ _ _).Reads log
      unfold Member.afterPlace
      split <;> trivial
    · intro k hk
      cases hk
      exact hupTo
  · cases hplace
  · cases hplace

theorem Member.Follows.restart (h : m.Follows log) : m.restart.Follows log where
  applied_le := h.saved_le
  store := h.disk
  saved_le := h.saved_le
  disk := h.disk
  loop := trivial
  placed_le _ hk := by cases hk
  table := rfl

/-- What a round comes to propose is what its node observed. -/
theorem Member.Follows.proposal (h : m.Follows log) {p : Proposal}
    (hp : p ∈ proposalOf window m) : p.Observed window log := by
  have hloop := h.loop
  unfold proposalOf at hp
  split at hp
  · rename_i r live voters upTo heq
    rw [heq] at hloop
    obtain ⟨hupTo, rfl, rfl⟩ := hloop
    split at hp
    · exact absurd hp List.not_mem_nil
    · rename_i live' hlive'
      obtain ⟨hleader, -, rfl⟩ := proposed_eq_some_iff.mp hlive'
      rw [List.mem_singleton.mp hp]
      exact ⟨hleader, rfl, upTo, hupTo, rfl⟩
  · exact absurd hp List.not_mem_nil
  · exact absurd hp List.not_mem_nil

theorem inv_commit {logId : LogId} {payload : EntryPayload} (h : Inv serde window c)
    (hs : commit c logId payload = some c') : Inv serde window c' := by
  cases payload with
  | blank =>
      cases hs
      exact h.commit _ nofun
  | membership m =>
      cases hs
      exact h.commit _ nofun
  | normal live =>
      simp only [Liveness.commit] at hs
      split at hs
      · rename_i hany
        cases hs
        refine h.commit _ fun live' hlive => ?_
        cases hlive
        obtain ⟨p, hp, heq⟩ := List.any_eq_true.mp hany
        exact ⟨p, hp, of_decide_eq_true heq⟩
      · cases hs

theorem inv_act {a : Label} (h : Inv serde window c) (hi : c.members[i]? = some m)
    (hs : act serde window c i m a = some c') : Inv serde window c' := by
  have hm := h.members hi
  cases a with
  | commit logId payload => cases hs
  | apply j =>
      obtain ⟨entry, hentry, rfl⟩ := Option.map_eq_some_iff.mp hs
      refine h.setMember hi (hm.setStore (List.getElem?_eq_some_iff.mp hentry).1 ?_)
      rw [taken_applyEntry, hm.store, appliedAt_succ hentry]
  | edit j op =>
      simp only [act] at hs
      split at hs
      · rename_i haside
        obtain ⟨f, hf, rfl⟩ := Option.map_eq_some_iff.mp hs
        have htaken := (taken_aside serde haside hf).trans hm.store
        exact h.setMember hi (hm.setStore hm.applied_le htaken)
      · cases hs
  | flush j =>
      cases hs
      exact h.setMember hi { hm with saved_le := hm.applied_le, disk := hm.store }
  | build j =>
      cases hs
      refine { h with snapshots := fun x hx => ?_ }
      rcases List.mem_append.mp hx with hx | hx
      · exact h.snapshots x hx
      · rw [List.mem_singleton.mp hx]
        exact ⟨hm.applied_le, by rw [hm.store]⟩
  | install j k =>
      simp only [act] at hs
      split at hs
      · cases hs
      · rename_i snapshot upTo hk
        obtain ⟨a, ha, rfl⟩ := Option.map_eq_some_iff.mp hs
        obtain ⟨hupTo, hsnapshot⟩ := h.snapshots _ (List.mem_of_getElem? hk)
        refine h.setMember hi (hm.setStore hupTo ?_)
        dsimp only at hsnapshot hupTo ⊢
        rw [hsnapshot] at ha
        have hdecode := serde.snapshot.decode_encode (appliedAt c.log upTo)
        cases ha.symm.trans hdecode
        rfl
  | look j r =>
      simp only [act] at hs
      split at hs
      · cases hs
        exact h.setMember hi (hm.look r)
      · cases hs
      · cases hs
  | place j =>
      obtain ⟨m', hplace, rfl⟩ := Option.map_eq_some_iff.mp hs
      have hset := h.setMember hi (hm.place hplace)
      refine { hset with proposals := fun p hp => ?_, proposed := fun e he live hlive => ?_ }
      · rcases List.mem_append.mp hp with hp | hp
        · exact h.proposals p hp
        · exact hm.proposal hp
      · obtain ⟨p, hp, heq⟩ := h.proposed e he live hlive
        exact ⟨p, List.mem_append_left _ hp, heq⟩
  | written j =>
      simp only [act] at hs
      split at hs
      · cases hs
        exact h.setMember hi { hm with loop := trivial }
      · cases hs
      · cases hs
  | restart j =>
      cases hs
      exact h.setMember hi hm.restart

/-- The step lemma. -/
theorem inv_step {a : Label} (h : Inv serde window c) (hs : step serde window c a = some c') :
    Inv serde window c' := by
  cases a with
  | commit logId payload => exact inv_commit h hs
  | apply | edit | flush | build | install | look | place | written | restart =>
      obtain ⟨m, hi, hact⟩ := Option.bind_eq_some_iff.mp hs
      exact inv_act h hi hact

theorem Member.start_follows (localId : NodeId) : (Member.start localId).Follows [] where
  applied_le := Nat.le_refl _
  store := rfl
  saved_le := Nat.le_refl _
  disk := rfl
  loop := trivial
  placed_le _ hk := by cases hk
  table := rfl

theorem inv_start (ids : List NodeId) : Inv serde window (Cluster.start ids) where
  members {i m} hm := by
    obtain ⟨localId, -, rfl⟩ := List.mem_map.mp (List.mem_of_getElem? hm)
    exact Member.start_follows localId
  snapshots _ hx := absurd hx List.not_mem_nil
  proposals _ hp := absurd hp List.not_mem_nil
  proposed _ he := absurd he List.not_mem_nil

end Steps

/-! ## The result -/

/-- A leader of the cluster had heard from this node, or is it. -/
def Proposal.Heard (p : Proposal) (n : NodeId) : Prop :=
  n = p.leader ∨ ∃ heartbeat ack, p.reading.metrics.heartbeat = some heartbeat ∧
    (n, some ack) ∈ heartbeat.rows ∧ within window (p.reading.clock n) ack = true

structure Agrees (c : Cluster) : Prop where
  /-- An owner was live and a voter at the point of the log its table stands for. -/
  owner : ∀ (i : Nat) (m : Member), c.members[i]? = some m → ∀ typeName shardId x,
    m.world.node.ownerOf typeName shardId = some x →
      ∃ k ≤ c.log.length, m.placed = some k ∧ x ∈ agreedAt c.log k
  /-- Nodes at one point place every shard alike, and at most one of them holds it. -/
  alike : ∀ (i j : Nat) (m m' : Member), c.members[i]? = some m → c.members[j]? = some m' →
    m.placed = m'.placed → ∀ typeName shardId,
      m.world.node.ownerOf typeName shardId = m'.world.node.ownerOf typeName shardId ∧
      (m.world.node.owns typeName shardId = true → m'.world.node.owns typeName shardId = true →
        m.world.node.localId = m'.world.node.localId)
  /-- Wherever two nodes are, they name different owners only if one of the two is not live
  where the other is named. -/
  apart : ∀ (i j : Nat) (m m' : Member), c.members[i]? = some m → c.members[j]? = some m' →
    ∀ k k', m.placed = some k → m'.placed = some k' → ∀ typeName shardId x y,
      m.world.node.ownerOf typeName shardId = some x →
      m'.world.node.ownerOf typeName shardId = some y → x ≠ y →
        x ∉ agreedAt c.log k' ∨ y ∉ agreedAt c.log k
  /-- Nobody is placed on whom no leader has heard from. -/
  heard : ∀ k, ∀ n ∈ agreedAt c.log k, ∃ p ∈ c.proposals,
    p.reading.metrics.state = .leader ∧ p.live = (appliedAt c.log k).live ∧ p.Heard window n

section Result

variable {serde window} {c : Cluster} {i : Nat} {m : Member} {typeName shardId : String}

theorem mem_observedLive {r : Reading} {localId n : NodeId} {voters : OrdMap NodeIdx Unit}
    (h : n ∈ (observedLive r localId window voters).keys) :
    n = localId ∨ ∃ heartbeat ack, r.metrics.heartbeat = some heartbeat ∧
      (n, some ack) ∈ heartbeat.rows ∧ within window (r.clock n) ack = true := by
  have hself : n ∈ ((OrdMap.empty : OrdMap NodeIdx Unit).insert localId ()).keys →
      n = localId := fun h =>
    (OrdMap.mem_keys_insert.mp h).resolve_right List.not_mem_nil
  unfold observedLive at h
  split at h
  · exact Or.inl (hself h)
  · rename_i heartbeat hbeat
    rcases mem_keys_foldl_hear.mp h with hlocal | ⟨-, ack, hrow, hack⟩
    · exact Or.inl (hself hlocal)
    · exact Or.inr ⟨heartbeat, ack, hbeat, hrow, hack⟩

theorem Inv.heard (h : Inv serde window c) {k : Nat} {n : NodeId}
    (hn : n ∈ agreedAt c.log k) : ∃ p ∈ c.proposals, p.reading.metrics.state = .leader ∧
      p.live = (appliedAt c.log k).live ∧ p.Heard window n := by
  have hlive : n ∈ (appliedAt c.log k).live.nodes.keys := (List.mem_filter.mp hn).1
  obtain ⟨e, he, hpayload⟩ := exists_normal_of_mem hlive
  obtain ⟨p, hp, heq⟩ := h.proposed e he _ hpayload
  have hobserved := h.proposals p hp
  rw [← heq, hobserved.live] at hlive
  exact ⟨p, hp, hobserved.leading, heq, mem_observedLive hlive⟩

/-- What a node says of a shard, by the point of the log its table stands for. -/
theorem Member.Follows.ownerOf {log : List Raft.Entry} (h : m.Follows log) :
    m.world.node.ownerOf typeName shardId =
      m.placed.bind fun k =>
        (PlacementTable.new.setMembers (agreedAt log k)).ownerOf typeName shardId := by
  unfold ClusterNode.ownerOf
  rw [h.table]
  cases m.placed with
  | none => rfl
  | some k => rfl

/-- The owner is the live node that ranks highest. -/
theorem Member.Follows.highest {log : List Raft.Entry} (h : m.Follows log) {x : NodeId}
    (howner : m.world.node.ownerOf typeName shardId = some x) :
    ∃ k ≤ log.length, m.placed = some k ∧
      Highest (scanRank (score typeName shardId)) {n | n ∈ agreedAt log k} x := by
  rw [h.ownerOf] at howner
  obtain ⟨k, hk, hx⟩ := Option.bind_eq_some_iff.mp howner
  exact ⟨k, h.placed_le k hk, hk, PlacementTable.ownerOf_eq_some_iff.mp hx⟩

theorem Inv.agrees (h : Inv serde window c) : Agrees window c where
  owner i m hi typeName shardId x howner := by
    obtain ⟨k, hk, hplaced, hx, -⟩ := (h.members hi).highest howner
    exact ⟨k, hk, hplaced, hx⟩
  alike i j m m' hi hj hplaced typeName shardId := by
    have hsame : m.world.node.ownerOf typeName shardId =
        m'.world.node.ownerOf typeName shardId := by
      rw [(h.members hi).ownerOf, (h.members hj).ownerOf, hplaced]
    refine ⟨hsame, fun howns howns' => ?_⟩
    simp only [ClusterNode.owns, Bool.and_eq_true, beq_iff_eq] at howns howns'
    rw [hsame, howns'.2] at howns
    exact (Option.some.inj howns.2).symm
  apart i j m m' hi hj k k' hk hk' typeName shardId x y hx hy hne := by
    obtain ⟨l, -, hl, hhigh⟩ := (h.members hi).highest hx
    obtain ⟨l', -, hl', hhigh'⟩ := (h.members hj).highest hy
    cases hk.symm.trans hl
    cases hk'.symm.trans hl'
    by_contra hboth
    obtain ⟨hx', hy'⟩ := not_or.mp hboth
    exact hne (hhigh.eq_of_mem (scanRank_injective _) hhigh' (not_not.mp hx') (not_not.mp hy'))
  heard k n hn := h.heard hn

end Result

/-- **Nodes that have come as far place every shard alike**, however the entries reached
them: applied one by one, installed from a snapshot, read back after a restart, and
whatever was applied while a round was under way.  Nodes that have not come as far name
different owners only if one of the owners is not live where the other is named, and no
shard is placed on a node that no leader had heard from. -/
theorem placement_agrees (serde : Serde) (window : Duration) (ids : List NodeId)
    (l : List Label) (c : Cluster)
    (hrun : run (step serde window) (Cluster.start ids) l = some c) : Agrees window c := by
  have hinv : Inv serde window c :=
    run_invariant_all (I := Inv serde window) (fun _ _ _ h hs => inv_step h hs) l
      (inv_start ids) hrun
  exact hinv.agrees

/-- Node 1 leads, and node 2 has just acknowledged. -/
def leading : Reading where
  metrics :=
    { state := .leader
      currentLeader := some ⟨1⟩
      lastQuorumAcked := some 0
      heartbeat := some (OrdMap.empty.insert ⟨2⟩ (some 0)) }
  quorumClock := 0
  clock := fun _ => 0

def following : Reading :=
  { leading with metrics := { leading.metrics with state := .follower, heartbeat := none } }

/-- Two voters, and the live set node 1 observes; node 2 comes back in between, and reads
before it has caught up. -/
def caughtUp : List Label :=
  [.commit ⟨⟨1, ⟨1⟩⟩, ⟨0⟩⟩ (.membership ⟨[OrdMap.ofKeys [⟨1⟩, ⟨2⟩]], OrdMap.empty⟩),
    .apply 0, .apply 1, .flush 1, .look 0 leading, .place 0,
    .commit ⟨⟨1, ⟨1⟩⟩, ⟨1⟩⟩ (.normal ⟨OrdMap.ofKeys [⟨1⟩, ⟨2⟩]⟩), .apply 0, .written 0,
    .look 0 leading, .place 0, .restart 1, .look 1 following, .apply 1, .place 1,
    .look 1 following, .place 1]

theorem placement_agrees_caughtUp :
    ∃ c : Cluster, run (step Serde.ofCountable 10) (Cluster.start [⟨1⟩, ⟨2⟩]) caughtUp = some c ∧
      c.members.map Member.placed = [some 2, some 2] ∧
      agreedAt c.log 2 = [⟨1⟩, ⟨2⟩] ∧ Agrees 10 c :=
  ⟨_, rfl, rfl, rfl, placement_agrees Serde.ofCountable 10 [⟨1⟩, ⟨2⟩] caughtUp _ rfl⟩

end HorsieActor.Ports.Liveness
