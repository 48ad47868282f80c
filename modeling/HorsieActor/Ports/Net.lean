import HorsieActor.Ports.System
import HorsieActor.Verified.Schedule
import Mathlib.Logic.Function.Basic

/-!
# Any number of nodes, and what travels between them

The parts of `src/cluster/node.rs`, `src/reply.rs` and `src/system.rs` that nodes
meet in, as one machine.  A process is a `ClusterNode` with its dedup window,
its `deliver_to_shard` calls in progress and the armed handles its actors hold;
it may be stopped at any step, taking all of that with it, and started again
under the same id.  Commands and replies travel in any order and may be lost.

Steps are as small as the code's: `register` is a `fetch_add` and then an
insertion under the lock, and other tasks may run in between.  Which handles a
command carries, when a task drops one or answers it, which handles a decode
takes before it fails: all of that is left to the schedule.

Some fields are history and no step reads them: which call minted a message id
and which encode a handle descends from.  A `Deliver` callback is made by the
encode that registers it, so a `Caller` here is that encode's number.

## Main results

* `step_moves` — what a step can do, one constructor per label.
-/

namespace HorsieActor.Ports.Net

open HorsieActor.Verified

/-! ## What there is -/

/-- A reply handle that has been through an encode: what it says, and the
encode that made it. -/
structure Handle where
  wire : Wire
  born : Nat
  deriving DecidableEq, Repr

/-- A `deliver_to_shard` call whose command leaves the node. -/
structure Call where
  id : Nat
  typeName : String
  shardId : String
  /-- A correlation minted and not inserted yet, with the encode it is for. -/
  pending : Option (Nat × Caller)
  /-- The handles encoded so far. -/
  handles : List Handle
  messageId : Option Nat
  attempts : Nat

structure Process where
  node : ClusterNode
  seen : Dedup
  calls : List Call
  /-- Handles decoded here that can still answer or abandon. -/
  held : List Handle
  lifetime : Nat
  /-- How many message ids this process has given out. -/
  messageIds : Nat
  /-- Envelopes let through by the dedup window: message id and call. -/
  accepted : List (Nat × Nat)

/-- A command in flight. -/
structure Packet where
  dest : NodeId
  typeName : String
  messageId : Nat
  handles : List Handle
  call : Nat

/-- A reply in flight. -/
structure Returning where
  dest : NodeId
  reply : Reply
  born : Nat

/-- One `next_message_id`: by which process, for which call. -/
structure Mint where
  node : NodeId
  lifetime : Nat
  call : Nat
  id : Nat

/-- One answer handed to a callback: the encode that registered the callback,
and the encode the answering handle descends from. -/
structure Handed where
  callback : Caller
  born : Nat

structure World where
  procs : NodeId → Option Process
  net : List Packet
  replies : List Returning
  lifetimes : Nat
  callIds : Nat
  encodes : Nat
  minted : List Mint
  handed : List Handed

/-- Nothing has been started. -/
def World.init : World :=
  { procs := fun _ => none, net := [], replies := [], lifetimes := 0, callIds := 0, encodes := 0,
    minted := [], handed := [] }

/-- `ClusterNode::start` in a fresh process. -/
def Process.start (n : NodeId) (lifetime : Nat) : Process :=
  { node := ClusterNode.start n, seen := Dedup.withCapacity dedupWindow, calls := [], held := [],
    lifetime := lifetime, messageIds := 0, accepted := [] }

def Call.start (id : Nat) (typeName shardId : String) : Call :=
  { id := id, typeName := typeName, shardId := shardId, pending := none, handles := [],
    messageId := none, attempts := 0 }

namespace World

def put (w : World) (n : NodeId) (p : Process) : World :=
  { w with procs := Function.update w.procs n (some p) }

/-- The process `n` and its call `k`. -/
def callAt (w : World) (n : NodeId) (k : Nat) : Option (Process × Call) :=
  (w.procs n).bind fun p => p.calls[k]?.map fun call => (p, call)

/-- The process `n` and the handle `i` it holds. -/
def heldAt (w : World) (n : NodeId) (i : Nat) : Option (Process × Handle) :=
  (w.procs n).bind fun p => p.held[i]?.map fun handle => (p, handle)

end World

/-- What running a callback leaves in the history. -/
def handedBy (ran : Option (Caller × Octets)) (born : Nat) : List Handed :=
  (ran.map fun r => (⟨r.1, born⟩ : Handed)).toList

/-! ## Steps -/

inductive Label where
  /-- A process comes and goes. -/
  | start (n : NodeId)
  | stop (n : NodeId)
  /-- What the cluster watch applies. -/
  | setServing (n : NodeId) (serving : Bool)
  | setLive (n : NodeId) (live : List NodeId)
  /-- `deliver_to_shard` decides to forward. -/
  | call (n : NodeId) (typeName shardId : String)
  /-- Encoding a local handle: `register`'s two halves. -/
  | mint (n : NodeId) (k : Nat)
  | insert (n : NodeId) (k : Nat)
  /-- Encoding a remote handle. -/
  | forward (n : NodeId) (k i : Nat)
  | nextMessageId (n : NodeId) (k : Nat)
  /-- One attempt of `send`. -/
  | attempt (n : NodeId) (k : Nat)
  /-- The call returns, or its future is dropped. -/
  | finish (n : NodeId) (k : Nat)
  /-- `dispatch` of a command, the decode taking some of its handles. -/
  | arrive (j : Nat) (taken : List Handle)
  | lose (j : Nat)
  /-- A held handle answers, or is dropped when there is no payload. -/
  | respond (n : NodeId) (i : Nat) (payload : Option Octets)
  /-- `dispatch` of a reply. -/
  | deliver (j : Nat)
  | loseReply (j : Nat)
  | forget (n : NodeId) (correlation : Nat)
  | abandonWaiting (n : NodeId)
  deriving DecidableEq

/-- One step, where it is enabled. -/
def step (w : World) : Label → Option World
  | .start n =>
      match w.procs n with
      | some _ => none
      | none => some { w.put n (Process.start n w.lifetimes) with lifetimes := w.lifetimes + 1 }
  | .stop n =>
      match w.procs n with
      | none => none
      | some _ => some { w with procs := Function.update w.procs n none }
  | .setServing n serving =>
      (w.procs n).map fun p => w.put n { p with node := { p.node with serving := serving } }
  | .setLive n live =>
      (w.procs n).map fun p => w.put n { p with node := p.node.setLive live }
  | .call n typeName shardId =>
      match w.procs n with
      | none => none
      | some p =>
          if p.node.owns typeName shardId = false then
            some { w.put n { p with calls := p.calls ++ [Call.start w.callIds typeName shardId] }
              with callIds := w.callIds + 1 }
          else none
  | .mint n k =>
      match w.callAt n k with
      | none => none
      | some (p, call) =>
          if call.pending = none ∧ call.messageId = none then
            let (correlation, node) := p.node.mintCorrelation
            some { w.put n { p with
                node := node
                calls := p.calls.set k { call with pending := some (correlation, w.encodes) } }
              with encodes := w.encodes + 1 }
          else none
  | .insert n k =>
      match w.callAt n k with
      | none => none
      | some (p, call) =>
          match call.pending with
          | none => none
          | some (correlation, encode) =>
              some (w.put n { p with
                node := p.node.insertWaiting correlation encode
                calls := p.calls.set k { call with
                  pending := none
                  handles := call.handles ++ [⟨⟨p.node.localId, correlation⟩, encode⟩] } })
  | .forward n k i =>
      match w.callAt n k, w.heldAt n i with
      | some (p, call), some (_, handle) =>
          if call.pending = none ∧ call.messageId = none then
            some (w.put n { p with
              held := p.held.eraseIdx i
              calls := p.calls.set k { call with handles := call.handles ++ [handle] } })
          else none
      | _, _ => none
  | .nextMessageId n k =>
      match w.callAt n k with
      | none => none
      | some (p, call) =>
          if call.pending = none ∧ call.messageId = none then
            let (id, node) := p.node.nextMessageId
            some { w.put n { p with
                node := node
                calls := p.calls.set k { call with messageId := some id }
                messageIds := p.messageIds + 1 }
              with minted := w.minted ++ [⟨n, p.lifetime, call.id, id⟩] }
          else none
  | .attempt n k =>
      match w.callAt n k with
      | none => none
      | some (p, call) =>
          match call.messageId, p.node.ownerOf call.typeName call.shardId with
          | some id, some owner =>
              if call.attempts < sendAttempts then
                some { w.put n { p with
                    calls := p.calls.set k { call with attempts := call.attempts + 1 } }
                  with net := w.net ++ [⟨owner, call.typeName, id, call.handles, call.id⟩] }
              else none
          | _, _ => none
  | .finish n k =>
      match w.callAt n k with
      | none => none
      | some (p, call) =>
          if call.pending = none then some (w.put n { p with calls := p.calls.eraseIdx k })
          else none
  | .arrive j taken =>
      match w.net[j]? with
      | none => none
      | some packet =>
          match w.procs packet.dest with
          | none => none
          | some p =>
              if p.node.serving then
                match p.seen.acceptId packet.messageId with
                | (false, _) => some { w with net := w.net.eraseIdx j }
                | (true, seen) =>
                    if taken.Sublist packet.handles then
                      some { w.put packet.dest { p with
                          seen := seen
                          held := p.held ++ taken
                          accepted := p.accepted ++ [(packet.messageId, packet.call)] }
                        with net := w.net.eraseIdx j }
                    else none
              else some { w with net := w.net.eraseIdx j }
  | .lose j => some { w with net := w.net.eraseIdx j }
  | .respond n i payload =>
      match w.heldAt n i with
      | none => none
      | some (p, handle) =>
          let reply : Reply := ⟨handle.wire.correlation, payload⟩
          let (node, ran) := p.node.routeReply handle.wire.origin reply
          some { w.put n { p with node := node, held := p.held.eraseIdx i } with
            replies := if handle.wire.origin = p.node.localId then w.replies
              else w.replies ++ [⟨handle.wire.origin, reply, handle.born⟩]
            handed := w.handed ++ handedBy ran handle.born }
  | .deliver j =>
      match w.replies[j]? with
      | none => none
      | some r =>
          match w.procs r.dest with
          | none => none
          | some p =>
              let (node, ran) := p.node.deliverReply r.reply
              some { w.put r.dest { p with node := node } with
                replies := w.replies.eraseIdx j
                handed := w.handed ++ handedBy ran r.born }
  | .loseReply j => some { w with replies := w.replies.eraseIdx j }
  | .forget n correlation =>
      (w.procs n).map fun p => w.put n { p with node := p.node.forget correlation }
  | .abandonWaiting n =>
      (w.procs n).map fun p => w.put n { p with node := p.node.abandonWaiting }

/-! ## What a step can do -/

/-- `Moves w a w'`: the label `a` takes `w` to `w'`. -/
inductive Moves (w : World) : Label → World → Prop
  | start {n} (hn : w.procs n = none) :
      Moves w (.start n)
        { w.put n (Process.start n w.lifetimes) with lifetimes := w.lifetimes + 1 }
  | stop {n} : Moves w (.stop n) { w with procs := Function.update w.procs n none }
  | setServing {n serving p} (hp : w.procs n = some p) :
      Moves w (.setServing n serving) (w.put n { p with node := { p.node with serving } })
  | setLive {n live p} (hp : w.procs n = some p) :
      Moves w (.setLive n live) (w.put n { p with node := p.node.setLive live })
  | call {n typeName shardId p} (hp : w.procs n = some p) :
      Moves w (.call n typeName shardId)
        { w.put n { p with calls := p.calls ++ [Call.start w.callIds typeName shardId] }
          with callIds := w.callIds + 1 }
  | mint {n k p call} (hp : w.procs n = some p) (hk : p.calls[k]? = some call)
      (hnew : call.pending = none ∧ call.messageId = none) :
      Moves w (.mint n k)
        { w.put n { p with
            node := p.node.mintCorrelation.2
            calls := p.calls.set k
              { call with pending := some (p.node.mintCorrelation.1, w.encodes) } }
          with encodes := w.encodes + 1 }
  | insert {n k p call correlation encode} (hp : w.procs n = some p)
      (hk : p.calls[k]? = some call) (hpend : call.pending = some (correlation, encode)) :
      Moves w (.insert n k)
        (w.put n { p with
          node := p.node.insertWaiting correlation encode
          calls := p.calls.set k { call with
            pending := none
            handles := call.handles ++ [⟨⟨p.node.localId, correlation⟩, encode⟩] } })
  | forward {n k i p call handle} (hp : w.procs n = some p) (hk : p.calls[k]? = some call)
      (hi : p.held[i]? = some handle) (hnew : call.pending = none ∧ call.messageId = none) :
      Moves w (.forward n k i)
        (w.put n { p with
          held := p.held.eraseIdx i
          calls := p.calls.set k { call with handles := call.handles ++ [handle] } })
  | nextMessageId {n k p call} (hp : w.procs n = some p) (hk : p.calls[k]? = some call)
      (hnew : call.pending = none ∧ call.messageId = none) :
      Moves w (.nextMessageId n k)
        { w.put n { p with
            node := p.node.nextMessageId.2
            calls := p.calls.set k { call with messageId := some p.node.nextMessageId.1 }
            messageIds := p.messageIds + 1 }
          with minted := w.minted ++ [⟨n, p.lifetime, call.id, p.node.nextMessageId.1⟩] }
  | attempt {n k p call id owner} (hp : w.procs n = some p) (hk : p.calls[k]? = some call)
      (hid : call.messageId = some id) :
      Moves w (.attempt n k)
        { w.put n { p with
            calls := p.calls.set k { call with attempts := call.attempts + 1 } }
          with net := w.net ++ [⟨owner, call.typeName, id, call.handles, call.id⟩] }
  | finish {n k p call} (hp : w.procs n = some p) (hk : p.calls[k]? = some call)
      (hpend : call.pending = none) :
      Moves w (.finish n k) (w.put n { p with calls := p.calls.eraseIdx k })
  | refuse {j taken} : Moves w (.arrive j taken) { w with net := w.net.eraseIdx j }
  | accept {j taken packet p} (hj : w.net[j]? = some packet) (hp : w.procs packet.dest = some p)
      (hnew : packet.messageId ∉ p.seen.seen) (htaken : taken.Sublist packet.handles) :
      Moves w (.arrive j taken)
        { w.put packet.dest { p with
            seen := (p.seen.acceptId packet.messageId).2
            held := p.held ++ taken
            accepted := p.accepted ++ [(packet.messageId, packet.call)] }
          with net := w.net.eraseIdx j }
  | lose {j} : Moves w (.lose j) { w with net := w.net.eraseIdx j }
  | respondHere {n i payload p handle} (hp : w.procs n = some p) (hi : p.held[i]? = some handle)
      (hhere : handle.wire.origin = p.node.localId) :
      Moves w (.respond n i payload)
        { w.put n { p with
            node := (p.node.routeReply handle.wire.origin ⟨handle.wire.correlation, payload⟩).1
            held := p.held.eraseIdx i } with
          handed := w.handed ++ handedBy
            (p.node.routeReply handle.wire.origin ⟨handle.wire.correlation, payload⟩).2
            handle.born }
  | respondThere {n i payload p handle} (hp : w.procs n = some p) (hi : p.held[i]? = some handle)
      (hthere : handle.wire.origin ≠ p.node.localId) :
      Moves w (.respond n i payload)
        { w.put n { p with
            node := (p.node.routeReply handle.wire.origin ⟨handle.wire.correlation, payload⟩).1
            held := p.held.eraseIdx i }
          with replies := w.replies ++
            [⟨handle.wire.origin, ⟨handle.wire.correlation, payload⟩, handle.born⟩] }
  | deliver {j r p} (hj : w.replies[j]? = some r) (hp : w.procs r.dest = some p) :
      Moves w (.deliver j)
        { w.put r.dest { p with node := (p.node.deliverReply r.reply).1 } with
          replies := w.replies.eraseIdx j
          handed := w.handed ++ handedBy (p.node.deliverReply r.reply).2 r.born }
  | loseReply {j} : Moves w (.loseReply j) { w with replies := w.replies.eraseIdx j }
  | forget {n correlation p} (hp : w.procs n = some p) :
      Moves w (.forget n correlation) (w.put n { p with node := p.node.forget correlation })
  | abandonWaiting {n p} (hp : w.procs n = some p) :
      Moves w (.abandonWaiting n) (w.put n { p with node := p.node.abandonWaiting })

theorem callAt_eq_some {w : World} {n : NodeId} {k : Nat} {p : Process} {call : Call} :
    w.callAt n k = some (p, call) ↔ w.procs n = some p ∧ p.calls[k]? = some call := by
  simp only [World.callAt, Option.bind_eq_some_iff, Option.map_eq_some_iff, Prod.mk.injEq]
  constructor
  · rintro ⟨p', hp, call', hk, rfl, rfl⟩
    exact ⟨hp, hk⟩
  · rintro ⟨hp, hk⟩
    exact ⟨p, hp, call, hk, rfl, rfl⟩

theorem heldAt_eq_some {w : World} {n : NodeId} {i : Nat} {p : Process} {handle : Handle} :
    w.heldAt n i = some (p, handle) ↔ w.procs n = some p ∧ p.held[i]? = some handle := by
  simp only [World.heldAt, Option.bind_eq_some_iff, Option.map_eq_some_iff, Prod.mk.injEq]
  constructor
  · rintro ⟨p', hp, handle', hi, rfl, rfl⟩
    exact ⟨hp, hi⟩
  · rintro ⟨hp, hi⟩
    exact ⟨p, hp, handle, hi, rfl, rfl⟩

/-- A reply for another node runs no callback here. -/
theorem routeReply_there {node : ClusterNode} {origin : NodeId} {reply : Reply}
    (h : origin ≠ node.localId) : (node.routeReply origin reply).2 = none := by
  unfold ClusterNode.routeReply
  rw [if_neg h]

theorem step_moves {w w' : World} {a : Label} (h : step w a = some w') : Moves w a w' := by
  cases a with
  | start n =>
      simp only [step] at h
      split at h
      · cases h
      · cases h
        exact .start ‹_›
  | stop n =>
      simp only [step] at h
      split at h
      · cases h
      · cases h
        exact .stop
  | setServing n serving =>
      obtain ⟨p, hp, rfl⟩ := Option.map_eq_some_iff.mp h
      exact .setServing hp
  | setLive n live =>
      obtain ⟨p, hp, rfl⟩ := Option.map_eq_some_iff.mp h
      exact .setLive hp
  | call n typeName shardId =>
      simp only [step] at h
      split at h
      · cases h
      · split at h
        · cases h
          exact .call ‹_›
        · cases h
  | mint n k =>
      simp only [step] at h
      split at h
      · cases h
      · rename_i p call hat
        obtain ⟨hp, hk⟩ := callAt_eq_some.mp hat
        split at h
        · cases h
          exact .mint hp hk ‹_›
        · cases h
  | insert n k =>
      simp only [step] at h
      split at h
      · cases h
      · rename_i p call hat
        obtain ⟨hp, hk⟩ := callAt_eq_some.mp hat
        split at h
        · cases h
        · cases h
          exact .insert hp hk ‹_›
  | forward n k i =>
      simp only [step] at h
      split at h
      · rename_i p call p' handle hat hheld
        obtain ⟨hp, hk⟩ := callAt_eq_some.mp hat
        obtain ⟨hp', hi⟩ := heldAt_eq_some.mp hheld
        rw [hp] at hp'
        cases hp'
        split at h
        · cases h
          exact .forward hp hk hi ‹_›
        · cases h
      · cases h
  | nextMessageId n k =>
      simp only [step] at h
      split at h
      · cases h
      · rename_i p call hat
        obtain ⟨hp, hk⟩ := callAt_eq_some.mp hat
        split at h
        · cases h
          exact .nextMessageId hp hk ‹_›
        · cases h
  | attempt n k =>
      simp only [step] at h
      split at h
      · cases h
      · rename_i p call hat
        obtain ⟨hp, hk⟩ := callAt_eq_some.mp hat
        split at h
        · split at h
          · cases h
            exact .attempt hp hk ‹_›
          · cases h
        · cases h
  | finish n k =>
      simp only [step] at h
      split at h
      · cases h
      · rename_i p call hat
        obtain ⟨hp, hk⟩ := callAt_eq_some.mp hat
        split at h
        · cases h
          exact .finish hp hk ‹_›
        · cases h
  | arrive j taken =>
      simp only [step] at h
      split at h
      · cases h
      · rename_i packet hj
        split at h
        · cases h
        · rename_i p hp
          split at h
          · split at h
            · cases h
              exact .refuse
            · rename_i seen hacc
              split at h
              · cases h
                have hfst := Dedup.acceptId_fst p.seen packet.messageId
                rw [hacc] at hfst
                have hmoves := Moves.accept hj hp (of_decide_eq_true hfst.symm) ‹_›
                rw [hacc] at hmoves
                exact hmoves
              · cases h
          · cases h
            exact .refuse
  | lose j =>
      cases h
      exact .lose
  | respond n i payload =>
      simp only [step] at h
      split at h
      · cases h
      · rename_i p handle hat
        obtain ⟨hp, hi⟩ := heldAt_eq_some.mp hat
        cases h
        by_cases hhere : handle.wire.origin = p.node.localId
        · rw [if_pos hhere]
          exact .respondHere hp hi hhere
        · rw [if_neg hhere, routeReply_there hhere, handedBy, Option.map_none, Option.toList_none,
            List.append_nil]
          exact .respondThere hp hi hhere
  | deliver j =>
      simp only [step] at h
      split at h
      · cases h
      · split at h
        · cases h
        · cases h
          exact .deliver ‹_› ‹_›
  | loseReply j =>
      cases h
      exact .loseReply
  | forget n correlation =>
      obtain ⟨p, hp, rfl⟩ := Option.map_eq_some_iff.mp h
      exact .forget hp
  | abandonWaiting n =>
      obtain ⟨p, hp, rfl⟩ := Option.map_eq_some_iff.mp h
      exact .abandonWaiting hp

theorem put_procs {w : World} {n m : NodeId} {p q : Process} :
    (w.put n p).procs m = some q ↔ m = n ∧ q = p ∨ m ≠ n ∧ w.procs m = some q := by
  by_cases h : m = n
  · subst h
    simp [World.put, eq_comm]
  · simp [World.put, h]

/-! ## What leaves an identity alone -/

theorem deliverReply_localId (node : ClusterNode) (reply : Reply) :
    (node.deliverReply reply).1.localId = node.localId ∧
      (node.deliverReply reply).1.counter = node.counter := by
  unfold ClusterNode.deliverReply
  cases node.waiting.get? reply.correlation with
  | none => exact ⟨rfl, rfl⟩
  | some deliver => exact ⟨rfl, rfl⟩

theorem routeReply_localId (node : ClusterNode) (origin : NodeId) (reply : Reply) :
    (node.routeReply origin reply).1.localId = node.localId ∧
      (node.routeReply origin reply).1.counter = node.counter := by
  unfold ClusterNode.routeReply
  dsimp only
  split
  · exact deliverReply_localId _ reply
  · exact ⟨rfl, rfl⟩

end HorsieActor.Ports.Net
