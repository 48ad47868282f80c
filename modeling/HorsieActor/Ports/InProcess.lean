import HorsieActor.Ports.ClusterNode
import HorsieActor.Verified.Channel
import Mathlib.Logic.Function.Basic

/-!
# The in-process network

`src/transport.rs`: the switchboard that several nodes of one process route through, with
its two maps behind a lock each, and the `send` and `rpc` of the transports on it.  A call
looks its target up under the lock and waits for room in the mailbox afterwards, with a
clone in hand; `remove` and `restore` keep the lock they took first while they take the
other one, as the guard in an `if let` does.  Any number of calls and cuts are under way at
once, any of the calls may be dropped, and a node may drop its inboxes.

A mailbox is the number it was created under.  `pushes` is history, and no step reads it.

## Main results

* `step_moves` — what a step can do, one constructor per outcome.
-/

namespace HorsieActor.Ports.InProcess

open HorsieActor.Verified

/-- Inbound queue depth per node. -/
def inboxCapacity : Nat := 256

/-! ## What there is -/

/-- What a call hands over. -/
inductive Load where
  | message (message : Message)
  | request (payload : Octets)
  deriving DecidableEq, Repr

/-- The two inbound queues of an attached node.  An entry carries the number of its call:
for a request that is where the answer goes, for a message it is history. -/
structure Mailboxes where
  id : NodeId
  messages : Channel inboxCapacity (Nat × Message)
  requests : Channel inboxCapacity (Nat × Octets)
  /-- The receivers have not been dropped. -/
  messagesOpen : Bool
  requestsOpen : Bool
  deriving DecidableEq, Repr

/-- Where the sending half of a request's oneshot channel is. -/
inductive Responder where
  /-- With the call. -/
  | unsent
  /-- In the mailbox, and then with the node. -/
  | queued
  | held
  | sent (payload : Octets)
  | dropped
  deriving DecidableEq, Repr

inductive Progress where
  | looking
  /-- With the mailboxes in hand, awaiting room. -/
  | pushing (box : Nat)
  | awaiting
  | returned (result : Except TransportError (Option Octets))
  /-- Its future was dropped. -/
  | cancelled
  deriving DecidableEq

/-- A `send` or an `rpc` of the transport of `source`. -/
structure Call where
  source : NodeId
  target : NodeId
  load : Load
  progress : Progress
  deriving DecidableEq

inductive CutKind where
  | remove
  | restore
  deriving DecidableEq, Repr

inductive CutProgress where
  | ready
  /-- Holding the first lock and the mailboxes it has taken out. -/
  | holding (box : Nat)
  | returned
  deriving DecidableEq, Repr

/-- A `remove` or a `restore`. -/
structure Cut where
  kind : CutKind
  id : NodeId
  progress : CutProgress
  deriving DecidableEq, Repr

/-- One entry put into a mailbox. -/
structure Push where
  box : Nat
  call : Nat
  load : Load
  deriving DecidableEq, Repr

structure World where
  boxes : List Mailboxes
  nodes : NodeId → Option Nat
  detached : NodeId → Option Nat
  /-- The cut that holds each lock across a step, if one does. -/
  nodesLock : Option Nat
  detachedLock : Option Nat
  calls : List Call
  cuts : List Cut
  responders : Nat → Responder
  pushes : List Push

namespace World

def new : World :=
  { boxes := [], nodes := fun _ => none, detached := fun _ => none, nodesLock := none,
    detachedLock := none, calls := [], cuts := [], responders := fun _ => .unsent, pushes := [] }

def setCall (w : World) (i : Nat) (call : Call) (progress : Progress) : World :=
  { w with calls := w.calls.set i { call with progress := progress } }

def setCut (w : World) (k : Nat) (cut : Cut) (progress : CutProgress) : World :=
  { w with cuts := w.cuts.set k { cut with progress := progress } }

/-- The target's mailboxes, if both ends are on the network. -/
def mailboxes (w : World) (source target : NodeId) : Except TransportError Nat :=
  match w.nodes source with
  | none => .error (.unreachable target)
  | some _ =>
      match w.nodes target with
      | none => .error (.unreachable target)
      | some box => .ok box

def contains (w : World) (id : NodeId) : Bool := (w.nodes id).isSome

end World

/-- What `rpc` reports of a responder that was dropped. -/
def didNotAnswer (target : NodeId) : TransportError :=
  .io ("node-" ++ toString target.idx.toNat ++ " did not answer")

/-! ## Steps -/

inductive Label where
  /-- `InProcessNetwork::node`. -/
  | node (id : NodeId)
  | call (source target : NodeId) (load : Load)
  /-- `mailboxes`, under the lock. -/
  | look (i : Nat)
  /-- The `send` into a mailbox returns. -/
  | push (i : Nat)
  /-- The answer of an `rpc` is there, or its responder is gone. -/
  | wake (i : Nat)
  | cancel (i : Nat)
  | cut (kind : CutKind) (id : NodeId)
  /-- A cut takes its first lock, and its second. -/
  | lock (k : Nat)
  | file (k : Nat)
  /-- A node takes a message, or a request. -/
  | recv (box : Nat)
  | recvRpc (box : Nat)
  /-- It answers a request, or drops the responder. -/
  | answer (i : Nat) (payload : Octets)
  | dropResponder (i : Nat)
  | dropInbox (box : Nat)
  | dropRpcInbox (box : Nat)
  deriving DecidableEq

/-- Put a load into a mailbox that is open, when there is room. -/
def Mailboxes.push (box : Mailboxes) (i : Nat) : Load → Option Mailboxes
  | .message m => (box.messages.send (i, m)).map fun messages => { box with messages }
  | .request payload => (box.requests.send (i, payload)).map fun requests => { box with requests }

def Mailboxes.isOpen (box : Mailboxes) : Load → Bool
  | .message _ => box.messagesOpen
  | .request _ => box.requestsOpen

/-- Where a call is once its load is in the mailbox. -/
def Load.pushed : Load → Progress
  | .message _ => .returned (.ok none)
  | .request _ => .awaiting

/-- The responder of a request goes into the mailbox with it. -/
def Load.responder : Load → Responder
  | .message _ => .unsent
  | .request _ => .queued

/-- Where a lookup leads. -/
def found : Except TransportError Nat → Progress
  | .error e => .returned (.error e)
  | .ok box => .pushing box

def step (w : World) : Label → Option World
  | .node id =>
      if w.nodesLock = none then
        some { w with
          boxes := w.boxes ++ [⟨id, .empty, .empty, true, true⟩]
          nodes := Function.update w.nodes id (some w.boxes.length) }
      else none
  | .call source target load =>
      some { w with calls := w.calls ++ [⟨source, target, load, .looking⟩] }
  | .look i =>
      match w.calls[i]? with
      | none => none
      | some call =>
          if call.progress = .looking ∧ w.nodesLock = none then
            some (w.setCall i call (found (w.mailboxes call.source call.target)))
          else none
  | .push i =>
      match w.calls[i]? with
      | none => none
      | some call =>
          match call.progress with
          | .pushing b =>
              match w.boxes[b]? with
              | none => none
              | some box =>
                  if box.isOpen call.load then
                    (box.push i call.load).map fun box =>
                      { w.setCall i call call.load.pushed with
                        boxes := w.boxes.set b box
                        responders := Function.update w.responders i call.load.responder
                        pushes := w.pushes ++ [⟨b, i, call.load⟩] }
                  else some (w.setCall i call (.returned (.error (.unreachable call.target))))
          | .looking | .awaiting | .returned _ | .cancelled => none
  | .wake i =>
      match w.calls[i]? with
      | none => none
      | some call =>
          if call.progress = .awaiting then
            match w.responders i with
            | .unsent | .queued | .held => none
            | .sent payload => some (w.setCall i call (.returned (.ok (some payload))))
            | .dropped => some (w.setCall i call (.returned (.error (didNotAnswer call.target))))
          else none
  | .cancel i =>
      match w.calls[i]? with
      | none => none
      | some call =>
          match call.progress with
          | .looking | .pushing _ | .awaiting => some (w.setCall i call .cancelled)
          | .returned _ | .cancelled => none
  | .cut kind id => some { w with cuts := w.cuts ++ [⟨kind, id, .ready⟩] }
  | .lock k =>
      match w.cuts[k]? with
      | none => none
      | some cut =>
          if cut.progress = .ready then
            match cut.kind with
            | .remove =>
                if w.nodesLock = none then
                  match w.nodes cut.id with
                  | none => some (w.setCut k cut .returned)
                  | some box =>
                      some { w.setCut k cut (.holding box) with
                        nodes := Function.update w.nodes cut.id none
                        nodesLock := some k }
                else none
            | .restore =>
                if w.detachedLock = none then
                  match w.detached cut.id with
                  | none => some (w.setCut k cut .returned)
                  | some box =>
                      some { w.setCut k cut (.holding box) with
                        detached := Function.update w.detached cut.id none
                        detachedLock := some k }
                else none
          else none
  | .file k =>
      match w.cuts[k]? with
      | none => none
      | some cut =>
          match cut.progress, cut.kind with
          | .holding box, .remove =>
              if w.detachedLock = none then
                some { w.setCut k cut .returned with
                  detached := Function.update w.detached cut.id (some box)
                  nodesLock := none }
              else none
          | .holding box, .restore =>
              if w.nodesLock = none then
                some { w.setCut k cut .returned with
                  nodes := Function.update w.nodes cut.id (some box)
                  detachedLock := none }
              else none
          | .ready, _ | .returned, _ => none
  | .recv b =>
      match w.boxes[b]? with
      | none => none
      | some box =>
          if box.messagesOpen then
            box.messages.recv.map fun r =>
              { w with boxes := w.boxes.set b { box with messages := r.2 } }
          else none
  | .recvRpc b =>
      match w.boxes[b]? with
      | none => none
      | some box =>
          if box.requestsOpen then
            box.requests.recv.map fun r =>
              { w with
                boxes := w.boxes.set b { box with requests := r.2 }
                responders := Function.update w.responders r.1.1 .held }
          else none
  | .answer i payload =>
      if w.responders i = .held then
        some { w with responders := Function.update w.responders i (.sent payload) }
      else none
  | .dropResponder i =>
      if w.responders i = .held then
        some { w with responders := Function.update w.responders i .dropped }
      else none
  | .dropInbox b =>
      w.boxes[b]?.map fun box =>
        { w with boxes := w.boxes.set b { box with messagesOpen := false } }
  | .dropRpcInbox b =>
      -- Dropping a receiver drops what is queued, and with it the responders.
      w.boxes[b]?.map fun box => { w with
        boxes := w.boxes.set b { box with requestsOpen := false }
        responders := fun i =>
          if box.requestsOpen ∧ i ∈ box.requests.waiting.map Prod.fst then .dropped
          else w.responders i }

/-! ## What a step can do -/

/-- `Moves w a w'`: the label `a` takes `w` to `w'`. -/
inductive Moves (w : World) : Label → World → Prop
  | node {id} (hfree : w.nodesLock = none) :
      Moves w (.node id) { w with
        boxes := w.boxes ++ [⟨id, .empty, .empty, true, true⟩]
        nodes := Function.update w.nodes id (some w.boxes.length) }
  | call {source target load} :
      Moves w (.call source target load)
        { w with calls := w.calls ++ [⟨source, target, load, .looking⟩] }
  | look {i call} (hi : w.calls[i]? = some call) (hlooking : call.progress = .looking)
      (hfree : w.nodesLock = none) :
      Moves w (.look i) (w.setCall i call (found (w.mailboxes call.source call.target)))
  | push {i call b box box'} (hi : w.calls[i]? = some call) (hpushing : call.progress = .pushing b)
      (hb : w.boxes[b]? = some box) (hopen : box.isOpen call.load = true)
      (hpush : box.push i call.load = some box') :
      Moves w (.push i) { w.setCall i call call.load.pushed with
        boxes := w.boxes.set b box'
        responders := Function.update w.responders i call.load.responder
        pushes := w.pushes ++ [⟨b, i, call.load⟩] }
  | closed {i call b} (hi : w.calls[i]? = some call) (hpushing : call.progress = .pushing b) :
      Moves w (.push i) (w.setCall i call (.returned (.error (.unreachable call.target))))
  | answered {i call payload} (hi : w.calls[i]? = some call) (hawaits : call.progress = .awaiting)
      (hsent : w.responders i = .sent payload) :
      Moves w (.wake i) (w.setCall i call (.returned (.ok (some payload))))
  | unanswered {i call} (hi : w.calls[i]? = some call) (hawaits : call.progress = .awaiting)
      (hdropped : w.responders i = .dropped) :
      Moves w (.wake i) (w.setCall i call (.returned (.error (didNotAnswer call.target))))
  | cancel {i call} (hi : w.calls[i]? = some call) :
      Moves w (.cancel i) (w.setCall i call .cancelled)
  | cut {kind id} : Moves w (.cut kind id) { w with cuts := w.cuts ++ [⟨kind, id, .ready⟩] }
  | notThere {k cut} (hk : w.cuts[k]? = some cut) (hready : cut.progress = .ready) :
      Moves w (.lock k) (w.setCut k cut .returned)
  | takeOff {k cut box} (hk : w.cuts[k]? = some cut) (hready : cut.progress = .ready)
      (hkind : cut.kind = .remove) (hfree : w.nodesLock = none) (hbox : w.nodes cut.id = some box) :
      Moves w (.lock k) { w.setCut k cut (.holding box) with
        nodes := Function.update w.nodes cut.id none
        nodesLock := some k }
  | fetch {k cut box} (hk : w.cuts[k]? = some cut) (hready : cut.progress = .ready)
      (hkind : cut.kind = .restore) (hfree : w.detachedLock = none)
      (hbox : w.detached cut.id = some box) :
      Moves w (.lock k) { w.setCut k cut (.holding box) with
        detached := Function.update w.detached cut.id none
        detachedLock := some k }
  | putAside {k cut box} (hk : w.cuts[k]? = some cut) (hholding : cut.progress = .holding box)
      (hkind : cut.kind = .remove) (hfree : w.detachedLock = none) :
      Moves w (.file k) { w.setCut k cut .returned with
        detached := Function.update w.detached cut.id (some box)
        nodesLock := none }
  | putBack {k cut box} (hk : w.cuts[k]? = some cut) (hholding : cut.progress = .holding box)
      (hkind : cut.kind = .restore) (hfree : w.nodesLock = none) :
      Moves w (.file k) { w.setCut k cut .returned with
        nodes := Function.update w.nodes cut.id (some box)
        detachedLock := none }
  | recv {b box r} (hb : w.boxes[b]? = some box) (hrecv : box.messages.recv = some r) :
      Moves w (.recv b) { w with boxes := w.boxes.set b { box with messages := r.2 } }
  | recvRpc {b box r} (hb : w.boxes[b]? = some box) (hopen : box.requestsOpen = true)
      (hrecv : box.requests.recv = some r) :
      Moves w (.recvRpc b) { w with
        boxes := w.boxes.set b { box with requests := r.2 }
        responders := Function.update w.responders r.1.1 .held }
  | answer {i payload} (hheld : w.responders i = .held) :
      Moves w (.answer i payload)
        { w with responders := Function.update w.responders i (.sent payload) }
  | dropResponder {i} (hheld : w.responders i = .held) :
      Moves w (.dropResponder i)
        { w with responders := Function.update w.responders i .dropped }
  | dropInbox {b box} (hb : w.boxes[b]? = some box) :
      Moves w (.dropInbox b) { w with boxes := w.boxes.set b { box with messagesOpen := false } }
  | dropRpcInbox {b box} (hb : w.boxes[b]? = some box) :
      Moves w (.dropRpcInbox b) { w with
        boxes := w.boxes.set b { box with requestsOpen := false }
        responders := fun i =>
          if box.requestsOpen ∧ i ∈ box.requests.waiting.map Prod.fst then .dropped
          else w.responders i }

theorem step_moves {w w' : World} {a : Label} (h : step w a = some w') : Moves w a w' := by
  cases a with
  | node id =>
      simp only [step] at h
      split at h
      · cases h
        exact .node ‹_›
      · cases h
  | call source target load =>
      cases h
      exact .call
  | look i =>
      simp only [step] at h
      split at h
      · cases h
      · rename_i call hi
        split at h
        · rename_i hguard
          cases h
          exact .look hi hguard.1 hguard.2
        · cases h
  | push i =>
      simp only [step] at h
      split at h
      · cases h
      · rename_i call hi
        split at h
        · rename_i b hpushing
          split at h
          · cases h
          · rename_i box hb
            split at h
            · rename_i hopen
              obtain ⟨box', hpush, rfl⟩ := Option.map_eq_some_iff.mp h
              exact .push hi hpushing hb hopen hpush
            · cases h
              exact .closed hi hpushing
        all_goals cases h
  | wake i =>
      simp only [step] at h
      split at h
      · cases h
      · rename_i call hi
        split at h
        · rename_i hawaits
          split at h
          · cases h
          · cases h
          · cases h
          · cases h
            exact .answered hi hawaits ‹_›
          · cases h
            exact .unanswered hi hawaits ‹_›
        · cases h
  | cancel i =>
      simp only [step] at h
      split at h
      · cases h
      · rename_i call hi
        split at h
        · cases h
          exact .cancel hi
        · cases h
          exact .cancel hi
        · cases h
          exact .cancel hi
        · cases h
        · cases h
  | cut kind id =>
      cases h
      exact .cut
  | lock k =>
      simp only [step] at h
      split at h
      · cases h
      · rename_i cut hk
        split at h
        · rename_i hready
          split at h
          · rename_i hkind
            split at h
            · rename_i hfree
              split at h
              · cases h
                exact .notThere hk hready
              · cases h
                exact .takeOff hk hready hkind hfree ‹_›
            · cases h
          · rename_i hkind
            split at h
            · rename_i hfree
              split at h
              · cases h
                exact .notThere hk hready
              · cases h
                exact .fetch hk hready hkind hfree ‹_›
            · cases h
        · cases h
  | file k =>
      simp only [step] at h
      split at h
      · cases h
      · rename_i cut hk
        split at h
        · rename_i box hholding hkind
          split at h
          · cases h
            exact .putAside hk hholding hkind ‹_›
          · cases h
        · rename_i box hholding hkind
          split at h
          · cases h
            exact .putBack hk hholding hkind ‹_›
          · cases h
        · cases h
        · cases h
  | recv b =>
      simp only [step] at h
      split at h
      · cases h
      · rename_i box hb
        split at h
        · obtain ⟨r, hrecv, rfl⟩ := Option.map_eq_some_iff.mp h
          exact .recv hb hrecv
        · cases h
  | recvRpc b =>
      simp only [step] at h
      split at h
      · cases h
      · rename_i box hb
        split at h
        · rename_i hopen
          obtain ⟨r, hrecv, rfl⟩ := Option.map_eq_some_iff.mp h
          exact .recvRpc hb hopen hrecv
        · cases h
  | answer i payload =>
      simp only [step] at h
      split at h
      · cases h
        exact .answer ‹_›
      · cases h
  | dropResponder i =>
      simp only [step] at h
      split at h
      · cases h
        exact .dropResponder ‹_›
      · cases h
  | dropInbox b =>
      obtain ⟨box, hb, rfl⟩ := Option.map_eq_some_iff.mp h
      exact .dropInbox hb
  | dropRpcInbox b =>
      obtain ⟨box, hb, rfl⟩ := Option.map_eq_some_iff.mp h
      exact .dropRpcInbox hb

end HorsieActor.Ports.InProcess
