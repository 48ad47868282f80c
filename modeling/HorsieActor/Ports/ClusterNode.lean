import HorsieActor.Ports.Placement

/-!
# A cluster node

Port of `src/cluster/node.rs` without consensus: the message-id and correlation
counters, the table of waiting callers, routing of replies, and the retry loop
of `send`.

A `Deliver` callback owns the sending half of one caller's channel.  What the
model keeps of it is whose channel that is; running it hands that caller the
payload, dropping it fails that caller.  `routed` is a history variable: every
reply `route_reply` was asked to get back to an origin, this node's own callers
included.
-/

namespace HorsieActor.Ports

open HorsieActor.Verified

/-- Whose channel a callback feeds. -/
abbrev Caller : Type := Nat

inductive TransportError where
  | unreachable (node : NodeId)
  | io (message : String)
  deriving DecidableEq, Repr

/-- How many hosts to try before giving up. -/
def sendAttempts : Nat := 3

/-- How many callers may be waiting on an answer at once. -/
def waitingCapacity : Nat := 8192

structure ClusterNode where
  localId : NodeId
  table : PlacementTable
  serving : Bool
  /-- Local half of the message id. -/
  counter : UInt64
  /-- Callers on this node waiting for an answer, by correlation. -/
  waiting : OrdMap Nat Caller
  /-- Local half of the correlation id. -/
  correlations : UInt64
  routed : List (NodeId × Reply)

namespace ClusterNode

/-- The state a process starts in: both counters at zero, nobody waiting. -/
def start (localId : NodeId) : ClusterNode where
  localId := localId
  table := PlacementTable.new
  serving := false
  counter := 0
  waiting := OrdMap.empty
  correlations := 0
  routed := []

/-- A message id: the node in the high half, `fetch_add` in the low one. -/
def nextMessageId (node : ClusterNode) : Nat × ClusterNode :=
  (pack node.localId node.counter, { node with counter := node.counter + 1 })

def ownerOf (node : ClusterNode) (typeName shardId : String) : Option NodeId :=
  node.table.ownerOf typeName shardId

/-- Whether this node should host that shard. -/
def owns (node : ClusterNode) (typeName shardId : String) : Bool :=
  node.serving && node.ownerOf typeName shardId == some node.localId

def setLive (node : ClusterNode) (live : List NodeId) : ClusterNode :=
  { node with table := node.table.setMembers live }

/-! ### Callers waiting for an answer -/

/-- The first half of `register`: mint the correlation. -/
def mintCorrelation (node : ClusterNode) : Nat × ClusterNode :=
  (pack node.localId node.correlations, { node with correlations := node.correlations + 1 })

/-- The second half: insert the callback, then evict the oldest while the table
is over its capacity. -/
def insertWaiting (node : ClusterNode) (correlation : Nat) (deliver : Caller) : ClusterNode :=
  { node with waiting := (node.waiting.insert correlation deliver).trim waitingCapacity }

/-- Remember a caller waiting for an answer, and return its correlation id. -/
def register (node : ClusterNode) (deliver : Caller) : Nat × ClusterNode :=
  let (correlation, node) := node.mintCorrelation
  (correlation, node.insertWaiting correlation deliver)

/-- Hand an inbound answer to whoever is waiting for it.  Returns the callback
that was run and what it was run with. -/
def deliverReply (node : ClusterNode) (reply : Reply) : ClusterNode × Option (Caller × Octets) :=
  match node.waiting.get? reply.correlation with
  | none => (node, none)
  | some deliver =>
      ({ node with waiting := node.waiting.erase reply.correlation },
        reply.payload.map fun payload => (deliver, payload))

/-- Forget a caller on this node that has stopped waiting. -/
def forget (node : ClusterNode) (correlation : Nat) : ClusterNode :=
  { node with waiting := node.waiting.erase correlation }

/-- Fail every caller on this node that is still waiting. -/
def abandonWaiting (node : ClusterNode) : ClusterNode :=
  { node with waiting := OrdMap.empty }

/-- Get a reply back to `origin`: directly when the caller is on this node,
through the transport otherwise. -/
def routeReply (node : ClusterNode) (origin : NodeId) (reply : Reply) :
    ClusterNode × Option (Caller × Octets) :=
  let node := { node with routed := node.routed ++ [(origin, reply)] }
  if origin = node.localId then node.deliverReply reply else (node, none)

/-- Send an encoded answer back to the node waiting for it. -/
def answer (node : ClusterNode) (origin : NodeId) (correlation : Nat) (payload : Octets) :
    ClusterNode × Option (Caller × Octets) :=
  node.routeReply origin ⟨correlation, some payload⟩

/-- Tell `origin` that no answer is coming. -/
def abandon (node : ClusterNode) (origin : NodeId) (correlation : Nat) : ClusterNode :=
  (node.routeReply origin ⟨correlation, none⟩).1

/-! ### Sending -/

/-- What a send meets, attempt by attempt: the placement this node has applied
by then, and what the transport says about the owner it names. -/
structure Route where
  table : Nat → PlacementTable
  transport : Nat → NodeId → Except TransportError Unit

/-- The retry loop of `send`, from attempt number `attempt` with `left` to go. -/
def sendLoop (route : Route) (typeName shardId : String) :
    (left attempt : Nat) → (last : Option TransportError) → Except TransportError Unit
  | 0, _, last =>
      .error (last.getD (.io ("gave up delivering to " ++ typeName ++ "/" ++ shardId)))
  | left + 1, attempt, _ =>
      match (route.table attempt).ownerOf typeName shardId with
      | none => .error (.io ("no live member can host " ++ typeName ++ "/" ++ shardId))
      | some owner =>
          match route.transport attempt owner with
          | .ok () => .ok ()
          | .error e => sendLoop route typeName shardId left (attempt + 1) (some e)

/-- Send an already-encoded command to whichever node hosts its shard. -/
def send (route : Route) (typeName shardId : String) : Except TransportError Unit :=
  sendLoop route typeName shardId sendAttempts 0 none

/-! ### Specifications -/

variable {node : ClusterNode}

@[simp] theorem deliverReply_routed (node : ClusterNode) (reply : Reply) :
    (node.deliverReply reply).1.routed = node.routed := by
  unfold deliverReply
  cases node.waiting.get? reply.correlation <;> rfl

@[simp] theorem routeReply_routed (node : ClusterNode) (origin : NodeId) (reply : Reply) :
    (node.routeReply origin reply).1.routed = node.routed ++ [(origin, reply)] := by
  unfold routeReply
  dsimp only
  split
  · rw [deliverReply_routed]
  · rfl

/-- Delivering a reply, whatever it says, ends the wait it names. -/
theorem mem_deliverReply {reply : Reply} {row : Nat × Caller} :
    row ∈ (node.deliverReply reply).1.waiting.rows ↔
      row.1 ≠ reply.correlation ∧ row ∈ node.waiting.rows := by
  unfold deliverReply
  cases h : node.waiting.get? reply.correlation with
  | none =>
      have hnone := OrdMap.get?_eq_none_iff.mp h
      refine ⟨fun hrow => ⟨fun hk => ?_, hrow⟩, And.right⟩
      obtain ⟨k, v⟩ := row
      dsimp only at hk
      subst hk
      exact hnone v hrow
  | some deliver => exact OrdMap.mem_erase

theorem mem_forget {correlation : Nat} {row : Nat × Caller} :
    row ∈ (node.forget correlation).waiting.rows ↔
      row.1 ≠ correlation ∧ row ∈ node.waiting.rows :=
  OrdMap.mem_erase

end ClusterNode

end HorsieActor.Ports
