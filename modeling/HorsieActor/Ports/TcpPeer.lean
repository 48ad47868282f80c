import HorsieActor.Ports.Delivery
import HorsieActor.Verified.Codec
import HorsieActor.Verified.Framing
import HorsieActor.Verified.Schedule
import Mathlib.Data.Countable.Basic
import Mathlib.Data.FinEnum
import Mathlib.Tactic.DeriveCountable

/-!
# One dialled connection

Port of the dialling side of `src/transport_tcp.rs`: `Peer` with its writer behind
a lock and its table of callers waiting for a response, `send` and `rpc` on it, and
`read_replies`, which drains responses until the connection closes.

Each call is a task.  What it does between two awaits, or between two operations
on something shared, is one step; at an await the call may be cancelled, which
drops its future and with it the writer lock if it holds it.  The socket takes
bytes in chunks of its own choosing.  A write that fails leaves the connection
broken: no later write on it succeeds.  Whether a write into a connection the peer
has closed succeeds is up to the schedule.

`completed` is a history variable: the frames whose write returned `Ok`, in the
order their writers held the lock.
-/

namespace HorsieActor.Ports

deriving instance Countable for Wire, WireValue, Reply, Envelope, Message

end HorsieActor.Ports

namespace HorsieActor.Ports.Tcp

open HorsieActor.Verified

/-- Largest frame that will be read. -/
def maxFrame : Nat := 8 * 1024 * 1024

theorem maxFrame_lt : maxFrame < 2 ^ 32 := by decide

/-- What travels over a connection. -/
inductive Frame where
  /-- Fire and forget. -/
  | message (message : Message)
  /-- Expects one response with the same id. -/
  | request (id : UInt64) (payload : Octets)
  /-- No payload: the responder was dropped without answering. -/
  | response (id : UInt64) (payload : Option Octets)
  deriving DecidableEq, Repr, Countable

/-! ## The writer -/

/-- The write half and its lock. -/
structure Writer where
  /-- What the socket has taken. -/
  wire : Octets
  /-- A write has failed. -/
  broken : Bool
  /-- Which call holds the lock, its frame, and what of it is still to write. -/
  holder : Option (Nat × Frame × Octets)
  completed : List Frame
  deriving DecidableEq, Repr

def Writer.new : Writer := ⟨[], false, none, []⟩

/-- Drop the guard a call may hold. -/
def Writer.release (writer : Writer) (i : Nat) : Writer :=
  { writer with holder := writer.holder.filter fun h => h.1 != i }

/-! ## Calls -/

inductive Request where
  | send (message : Message)
  | rpc (payload : Octets)
  deriving DecidableEq, Repr

/-- Where a call is. -/
inductive Pc where
  /-- Awaiting `peer`. -/
  | calling
  /-- An `rpc` that has the peer. -/
  | obtained
  /-- Its request has an id. -/
  | minted (id : UInt64)
  /-- Awaiting the writer lock. -/
  | queued (frame : Frame)
  /-- Holding it. -/
  | writing
  /-- An `rpc` whose request has been written. -/
  | awaiting (id : UInt64)
  /-- `write` returned an error. -/
  | failed (frame : Frame)
  /-- Awaiting `drop_peer`. -/
  | dropping
  | returned
  | cancelled
  deriving DecidableEq, Repr

/-- At an await, those of `write_frame` apart. -/
def Pc.suspended : Pc → Bool
  | .calling | .queued _ | .awaiting _ | .dropping => true
  | _ => false

/-- An `rpc`'s own end of its channel. -/
inductive Oneshot where
  | empty
  | sent (payload : Octets)
  /-- The sender is gone. -/
  | closed
  deriving DecidableEq, Repr

structure Call where
  request : Request
  pc : Pc
  answer : Oneshot
  deriving DecidableEq, Repr

/-- Where `read_replies` is. -/
inductive Reader where
  | reading
  /-- Out of its loop. -/
  | closing
  /-- It has cleared the table. -/
  | ended
  deriving DecidableEq, Repr

structure World where
  writer : Writer
  /-- Callers waiting on a reply, by request id. -/
  pending : List (UInt64 × Nat)
  nextRequest : UInt64
  /-- `outbound` still holds this peer. -/
  cached : Bool
  reader : Reader
  calls : List Call
  deriving DecidableEq, Repr

/-- The connection has been dialled and its reader spawned. -/
def World.dialled : World where
  writer := .new
  pending := []
  nextRequest := 0
  cached := true
  reader := .reading
  calls := []

namespace World

def setPc (w : World) (i : Nat) (call : Call) (pc : Pc) : World :=
  { w with calls := w.calls.set i { call with pc := pc } }

/-- What becomes of the callers whose senders are used up or dropped. -/
def answer (w : World) (gone : UInt64 × Nat → Bool) (answer : Oneshot) : World :=
  { w with
    pending := w.pending.filter fun row => !gone row
    calls := w.calls.mapIdx fun i call =>
      if w.pending.any fun row => gone row && row.2 == i then { call with answer := answer }
      else call }

/-- Insert a row; a row with the same id is dropped. -/
def insert (w : World) (id : UInt64) (i : Nat) : World :=
  let w := w.answer (fun row => row.1 == id) .closed
  { w with pending := (id, i) :: w.pending }

end World

/-- Where a call goes on when its frame has been written. -/
def afterWritten : Frame → Pc
  | .request id _ => .awaiting id
  | .message _ | .response _ _ => .returned

inductive Label where
  /-- A task calls `send` or `rpc`. -/
  | call (request : Request)
  /-- `peer` returns the cached peer. -/
  | obtain (i : Nat)
  /-- `next_request.fetch_add`. -/
  | mint (i : Nat)
  /-- `pending.insert`. -/
  | insert (i : Nat)
  /-- The writer lock is granted, and the length checked. -/
  | acquire (i : Nat)
  /-- The socket takes the next `n + 1` bytes, or all there are. -/
  | write (i n : Nat)
  /-- The socket refuses. -/
  | fail (i : Nat)
  /-- `pending.remove` after a failed write. -/
  | remove (i : Nat)
  /-- `drop_peer`. -/
  | dropPeer (i : Nat)
  /-- `read_replies` reads a response. -/
  | respond (id : UInt64) (payload : Option Octets)
  /-- `read_replies` breaks out of its loop. -/
  | close
  /-- `pending.clear`. -/
  | clear
  /-- `answer.await` returns. -/
  | receive (i : Nat)
  /-- The call's future is dropped. -/
  | cancel (i : Nat)
  deriving DecidableEq, Repr

def step (codec : Codec Frame) (w : World) : Label → Option World
  | .call request => some { w with calls := w.calls ++ [⟨request, .calling, .empty⟩] }
  | .obtain i =>
      match w.calls[i]? with
      | some call =>
          if call.pc = .calling ∧ w.cached then
            match call.request with
            | .send message => some (w.setPc i call (.queued (.message message)))
            | .rpc _ => some (w.setPc i call .obtained)
          else none
      | none => none
  | .mint i =>
      match w.calls[i]? with
      | some call =>
          if call.pc = .obtained then
            some { w.setPc i call (.minted w.nextRequest) with nextRequest := w.nextRequest + 1 }
          else none
      | none => none
  | .insert i =>
      match w.calls[i]? with
      | some ⟨.rpc payload, .minted id, answer⟩ =>
          some ((w.setPc i ⟨.rpc payload, .minted id, answer⟩
            (.queued (.request id payload))).insert id i)
      | _ => none
  | .acquire i =>
      match w.calls[i]?, w.writer.holder with
      | some ⟨request, .queued frame, answer⟩, none =>
          if (codec.encode frame).length < 2 ^ 32 then
            some { w.setPc i ⟨request, .queued frame, answer⟩ .writing with
              writer := { w.writer with
                holder := some (i, frame, Framing.frame (codec.encode frame)) } }
          else some (w.setPc i ⟨request, .queued frame, answer⟩ (.failed frame))
      | _, _ => none
  | .write i n =>
      match w.calls[i]?, w.writer.holder with
      | some call, some (j, frame, rest) =>
          if j = i ∧ w.writer.broken = false then
            let wire := w.writer.wire ++ rest.take (n + 1)
            if rest.length ≤ n + 1 then
              some { w.setPc i call (afterWritten frame) with
                writer := { w.writer with
                  wire := wire, holder := none, completed := w.writer.completed ++ [frame] } }
            else
              some { w with
                writer := { w.writer with
                  wire := wire, holder := some (j, frame, rest.drop (n + 1)) } }
          else none
      | _, _ => none
  | .fail i =>
      match w.calls[i]?, w.writer.holder with
      | some call, some (j, frame, _) =>
          if j = i then
            some { w.setPc i call (.failed frame) with
              writer := { w.writer with broken := true, holder := none } }
          else none
      | _, _ => none
  | .remove i =>
      match w.calls[i]? with
      | some call =>
          match call.pc with
          | .failed (.request id _) =>
              some ((w.setPc i call .dropping).answer (fun row => row.1 == id) .closed)
          | .failed _ => some (w.setPc i call .dropping)
          | _ => none
      | none => none
  | .dropPeer i =>
      match w.calls[i]? with
      | some call =>
          if call.pc = .dropping then some { w.setPc i call .returned with cached := false }
          else none
      | none => none
  | .respond id payload =>
      if w.reader = .reading then
        some (w.answer (fun row => row.1 == id) (payload.elim .closed .sent))
      else none
  | .close => if w.reader = .reading then some { w with reader := .closing } else none
  | .clear =>
      if w.reader = .closing then
        some { w.answer (fun _ => true) .closed with reader := .ended }
      else none
  | .receive i =>
      match w.calls[i]? with
      | some call =>
          match call.pc with
          | .awaiting _ =>
              if call.answer = .empty then none else some (w.setPc i call .returned)
          | _ => none
      | none => none
  | .cancel i =>
      match w.calls[i]? with
      | some call =>
          if call.pc = .writing then
            some { w.setPc i call .cancelled with writer := w.writer.release i }
          else if call.pc.suspended then some (w.setPc i call .cancelled)
          else none
      | none => none

/-! ## What a step can do -/

/-- `Moves codec w a w'`: the label `a` takes `w` to `w'`. -/
inductive Moves (codec : Codec Frame) (w : World) : Label → World → Prop
  | call {request} :
      Moves codec w (.call request) { w with calls := w.calls ++ [⟨request, .calling, .empty⟩] }
  | obtainSend {i call message} (hi : w.calls[i]? = some call) (hpc : call.pc = .calling)
      (hcached : w.cached = true) (hrequest : call.request = .send message) :
      Moves codec w (.obtain i) (w.setPc i call (.queued (.message message)))
  | obtainRpc {i call payload} (hi : w.calls[i]? = some call) (hpc : call.pc = .calling)
      (hcached : w.cached = true) (hrequest : call.request = .rpc payload) :
      Moves codec w (.obtain i) (w.setPc i call .obtained)
  | mint {i call} (hi : w.calls[i]? = some call) (hpc : call.pc = .obtained) :
      Moves codec w (.mint i)
        { w.setPc i call (.minted w.nextRequest) with nextRequest := w.nextRequest + 1 }
  | insert {i payload id answer} (hi : w.calls[i]? = some ⟨.rpc payload, .minted id, answer⟩) :
      Moves codec w (.insert i)
        ((w.setPc i ⟨.rpc payload, .minted id, answer⟩ (.queued (.request id payload))).insert id i)
  | acquire {i request frame answer} (hi : w.calls[i]? = some ⟨request, .queued frame, answer⟩)
      (hfree : w.writer.holder = none) (hlength : (codec.encode frame).length < 2 ^ 32) :
      Moves codec w (.acquire i) { w.setPc i ⟨request, .queued frame, answer⟩ .writing with
        writer := { w.writer with
          holder := some (i, frame, Framing.frame (codec.encode frame)) } }
  | refuse {i request frame answer} (hi : w.calls[i]? = some ⟨request, .queued frame, answer⟩)
      (hfree : w.writer.holder = none) :
      Moves codec w (.acquire i) (w.setPc i ⟨request, .queued frame, answer⟩ (.failed frame))
  | finish {i n call frame rest} (hi : w.calls[i]? = some call)
      (hheld : w.writer.holder = some (i, frame, rest)) (hsound : w.writer.broken = false)
      (hlast : rest.length ≤ n + 1) :
      Moves codec w (.write i n) { w.setPc i call (afterWritten frame) with
        writer := { w.writer with
          wire := w.writer.wire ++ rest.take (n + 1)
          holder := none
          completed := w.writer.completed ++ [frame] } }
  | advance {i n frame rest} (hheld : w.writer.holder = some (i, frame, rest))
      (hsound : w.writer.broken = false) (hmore : n + 1 < rest.length) :
      Moves codec w (.write i n) { w with
        writer := { w.writer with
          wire := w.writer.wire ++ rest.take (n + 1)
          holder := some (i, frame, rest.drop (n + 1)) } }
  | fail {i call frame rest} (hi : w.calls[i]? = some call)
      (hheld : w.writer.holder = some (i, frame, rest)) :
      Moves codec w (.fail i) { w.setPc i call (.failed frame) with
        writer := { w.writer with broken := true, holder := none } }
  | removeRow {i call id payload} (hi : w.calls[i]? = some call)
      (hpc : call.pc = .failed (.request id payload)) :
      Moves codec w (.remove i)
        ((w.setPc i call .dropping).answer (fun row => row.1 == id) .closed)
  | remove {i call frame} (hi : w.calls[i]? = some call) (hpc : call.pc = .failed frame) :
      Moves codec w (.remove i) (w.setPc i call .dropping)
  | dropPeer {i call} (hi : w.calls[i]? = some call) (hpc : call.pc = .dropping) :
      Moves codec w (.dropPeer i) { w.setPc i call .returned with cached := false }
  | respond {id payload} (hreader : w.reader = .reading) :
      Moves codec w (.respond id payload)
        (w.answer (fun row => row.1 == id) (payload.elim .closed .sent))
  | close (hreader : w.reader = .reading) : Moves codec w .close { w with reader := .closing }
  | clear (hreader : w.reader = .closing) :
      Moves codec w .clear { w.answer (fun _ => true) .closed with reader := .ended }
  | receive {i call id} (hi : w.calls[i]? = some call) (hpc : call.pc = .awaiting id)
      (hanswer : call.answer ≠ .empty) : Moves codec w (.receive i) (w.setPc i call .returned)
  | release {i call} (hi : w.calls[i]? = some call) (hpc : call.pc = .writing) :
      Moves codec w (.cancel i)
        { w.setPc i call .cancelled with writer := w.writer.release i }
  | cancel {i call} (hi : w.calls[i]? = some call) (hpc : call.pc ≠ .writing) :
      Moves codec w (.cancel i) (w.setPc i call .cancelled)

section Steps

variable {codec : Codec Frame} {w w' : World} {label : Label}

theorem step_moves (h : step codec w label = some w') : Moves codec w label w' := by
  cases label with
  | call request =>
      cases h
      exact .call
  | obtain i =>
      simp only [step] at h
      split at h
      · rename_i call hi
        split at h
        · rename_i hmay
          split at h
          · cases h
            exact .obtainSend hi hmay.1 hmay.2 ‹_›
          · cases h
            exact .obtainRpc hi hmay.1 hmay.2 ‹_›
        · cases h
      · cases h
  | mint i =>
      simp only [step] at h
      split at h
      · rename_i call hi
        split at h
        · cases h
          exact .mint hi ‹_›
        · cases h
      · cases h
  | insert i =>
      simp only [step] at h
      split at h
      · cases h
        exact .insert ‹_›
      · cases h
  | acquire i =>
      simp only [step] at h
      split at h
      · rename_i request frame answer hi hfree
        split at h
        · cases h
          exact .acquire hi hfree ‹_›
        · cases h
          exact .refuse hi hfree
      · cases h
  | write i n =>
      simp only [step] at h
      split at h
      · rename_i call j frame rest hi hheld
        split at h
        · rename_i hmay
          obtain ⟨rfl, hsound⟩ := hmay
          split at h
          · cases h
            exact .finish hi hheld hsound ‹_›
          · rename_i hmore
            cases h
            exact .advance hheld hsound (Nat.lt_of_not_le hmore)
        · cases h
      · cases h
  | fail i =>
      simp only [step] at h
      split at h
      · rename_i call j frame rest hi hheld
        split at h
        · rename_i hji
          obtain rfl := hji
          cases h
          exact .fail hi hheld
        · cases h
      · cases h
  | remove i =>
      simp only [step] at h
      split at h
      · rename_i call hi
        split at h
        · cases h
          exact .removeRow hi ‹_›
        · cases h
          exact .remove hi ‹_›
        · cases h
      · cases h
  | dropPeer i =>
      simp only [step] at h
      split at h
      · rename_i call hi
        split at h
        · cases h
          exact .dropPeer hi ‹_›
        · cases h
      · cases h
  | respond id payload =>
      simp only [step] at h
      split at h
      · cases h
        exact .respond ‹_›
      · cases h
  | close =>
      simp only [step] at h
      split at h
      · cases h
        exact .close ‹_›
      · cases h
  | clear =>
      simp only [step] at h
      split at h
      · cases h
        exact .clear ‹_›
      · cases h
  | receive i =>
      simp only [step] at h
      split at h
      · rename_i call hi
        split at h
        · rename_i id hpc
          split at h
          · cases h
          · cases h
            exact .receive hi hpc ‹_›
        · cases h
      · cases h
  | cancel i =>
      simp only [step] at h
      split at h
      · rename_i call hi
        split at h
        · cases h
          exact .release hi ‹_›
        · rename_i hpc
          split at h
          · cases h
            exact .cancel hi hpc
          · cases h
      · cases h

/-! ## What a step leaves alone -/

/-- The labels that do anything to the writer. -/
def Label.writes : Label → Bool
  | .acquire _ | .write _ _ | .fail _ | .cancel _ => true
  | _ => false

theorem writer_eq_of_step (hlabel : label.writes = false) (hs : step codec w label = some w') :
    w'.writer = w.writer := by
  cases step_moves hs with
  | acquire | refuse | finish | advance | fail | release | cancel => cases hlabel
  | _ => rfl

/-- The labels that enter a row or move the reader. -/
def Label.turns : Label → Bool
  | .insert _ | .close | .clear => true
  | _ => false

/-- Every other step can only remove rows. -/
theorem table_of_step (hlabel : label.turns = false) (hs : step codec w label = some w') :
    w'.reader = w.reader ∧ w'.pending.Sublist w.pending := by
  cases step_moves hs with
  | insert | close | clear => cases hlabel
  | removeRow | respond => exact ⟨rfl, List.filter_sublist⟩
  | _ => exact ⟨rfl, List.Sublist.refl _⟩

end Steps

/-! ## Two frames to run it with -/

def hello : Message := .reply ⟨1, none⟩

/-- A serializer that writes one message and one request in one byte each. -/
noncomputable def demoCodec : Codec Frame :=
  (Codec.ofCountable Frame).short (.message hello) (.request 0 [7])

end HorsieActor.Ports.Tcp
