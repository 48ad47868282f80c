import HorsieActor.Ports.TcpParkedRpc
import HorsieActor.Ports.TcpRequests
import HorsieActor.Ports.TcpWholeFrames
import HorsieActor.Verified.BigEndian

/-!
# Each rpc gets its own answer

Both ends of `rpc`: the calls of the dialling side with the table `read_replies`
resolves them from, and the accepting side, where `serve` hands each request to the
handler with a responder and leaves a task behind that writes whatever becomes of
it.  Connections fail and are dialled again, and an old one goes on draining beside
the new.

Frames travel whole here.  Calls are not cancelled, so the bytes on a connection
are the completed frames in the order of the lock, and what `read_frame_from` makes
of them is the next completed frame, or a refusal if that is above `maxFrame`
(`reads_completed`).

An id is a call's own while the counter of its connection does not come round, and
so is the answer.  What can go wrong is that nobody reads it: an answer above
`maxFrame` ends `read_replies` while the connection lives and stays cached, and the
next `rpc` on it is served, and dropped, and never told
(`dropped_responder_parks_rpc`).  If callers enter the table before its reader has
ended, a dropped responder fails its own `rpc`, and no other (`ownAnswers_of_sound`).
-/

namespace HorsieActor.Ports.Tcp

open HorsieActor.Verified

/-! ## Two ends -/

/-- What the handler has done with a responder. -/
inductive Responder where
  | held
  | answered (payload : Octets)
  | dropped
  deriving DecidableEq, Repr

/-- What `answer.await.ok()` returns, when it does. -/
def Responder.outcome : Responder → Option (Option Octets)
  | .held => none
  | .answered payload => some (some payload)
  | .dropped => some none

theorem Responder.answered_of_outcome {r : Responder} {bytes : Octets}
    (h : r.outcome = some (some bytes)) : r = .answered bytes := by
  cases r with
  | held => cases h
  | answered payload =>
      cases h
      rfl
  | dropped => cases h

/-- A request in the hands of the handler, or past them. -/
structure Served where
  /-- History: the number of its frame on the connection. -/
  number : Nat
  id : UInt64
  payload : Octets
  responder : Responder
  /-- The task that awaits the responder has written its response, or given up. -/
  done : Bool
  deriving DecidableEq, Repr

structure Conn where
  dialler : Dialler
  /-- How many frames `serve` has read. -/
  read : Nat
  /-- `serve` has not returned. -/
  serving : Bool
  served : List Served
  /-- Responses on their way, and to which request. -/
  replies : List (Nat × Frame)
  /-- A write of the accepting side has failed. -/
  broken : Bool
  /-- History: which request's response resolved which call. -/
  resolved : List (Nat × Nat)
  deriving DecidableEq, Repr

/-- What happens on a connection. -/
inductive Act where
  /-- A call goes on, or `read_replies` clears the table. -/
  | dialler (label : Label)
  /-- `serve` reads a frame. -/
  | serve
  /-- `serve` returns. -/
  | hangUp
  | answer (k : Nat) (payload : Octets)
  | drop (k : Nat)
  /-- The task of a request writes its response. -/
  | respond (k : Nat)
  /-- That write fails. -/
  | failRespond (k : Nat)
  /-- `read_replies` reads a frame, or the end of the stream. -/
  | read
  /-- `read_replies` gets an error. -/
  | reset
  deriving DecidableEq, Repr

/-- What a call does on its connection by itself. -/
def Label.own : Label → Bool
  | .mint _ | .insert _ | .acquire _ | .write _ _ | .fail _ | .remove _ | .clear | .receive _ =>
      true
  | .call _ | .obtain _ | .dropPeer _ | .respond _ _ | .close | .cancel _ => false

namespace Conn

def new : Conn := ⟨.new, 0, true, [], [], false, []⟩

/-- The accepting side has let go of its write half. -/
def finished (conn : Conn) : Bool := !conn.serving && conn.served.all Served.done

def setServed (conn : Conn) (k : Nat) (s : Served) : Conn :=
  { conn with served := conn.served.set k s }

/-- `read_replies` breaks out of its loop. -/
def close (codec : Codec Frame) (conn : Conn) : Option Conn :=
  (conn.dialler.step codec .close).map fun d => { conn with dialler := d }

def step (codec : Codec Frame) (conn : Conn) : Act → Option Conn
  | .dialler label =>
      if label.own then (conn.dialler.step codec label).map fun d => { conn with dialler := d }
      else none
  | .serve =>
      if conn.serving then
        match conn.dialler.peer.writer.completed[conn.read]? with
        | none => none
        | some frame =>
            if (codec.encode frame).length ≤ maxFrame then
              match frame with
              | .request id payload =>
                  some { conn with
                    read := conn.read + 1
                    served := conn.served ++ [⟨conn.read, id, payload, .held, false⟩] }
              | .message _ | .response _ _ => some { conn with read := conn.read + 1 }
            else some { conn with serving := false }
      else none
  | .hangUp => if conn.serving then some { conn with serving := false } else none
  | .answer k payload =>
      match conn.served[k]? with
      | none => none
      | some s =>
          if s.responder = .held then
            some (conn.setServed k { s with responder := .answered payload })
          else none
  | .drop k =>
      match conn.served[k]? with
      | none => none
      | some s =>
          if s.responder = .held then some (conn.setServed k { s with responder := .dropped })
          else none
  | .respond k =>
      match conn.served[k]? with
      | none => none
      | some s =>
          match s.responder.outcome with
          | none => none
          | some payload =>
              if s.done then none
              -- a frame that is too long for its length, or a broken write half: no response
              else if (codec.encode (.response s.id payload)).length < 2 ^ 32 ∧
                  conn.broken = false then
                some { conn.setServed k { s with done := true } with
                  replies := conn.replies ++ [(k, .response s.id payload)] }
              else some (conn.setServed k { s with done := true })
  | .failRespond k =>
      match conn.served[k]? with
      | none => none
      | some s =>
          if s.responder.outcome = none ∨ s.done = true then none
          else some { conn.setServed k { s with done := true } with broken := true }
  | .read =>
      if conn.dialler.peer.reader = .reading then
        match conn.replies with
        | [] => if conn.broken || conn.finished then conn.close codec else none
        | (k, frame) :: rest =>
            if (codec.encode frame).length ≤ maxFrame then
              match frame with
              | .response id payload =>
                  (conn.dialler.step codec (.respond id payload)).map fun d =>
                    { conn with
                      dialler := d
                      replies := rest
                      resolved := conn.resolved ++
                        (conn.dialler.peer.pending.filter fun row => row.1 == id).map fun row =>
                          (k, row.2) }
              | .message _ | .request _ _ => some { conn with replies := rest }
            else conn.close codec
      else none
  | .reset => conn.close codec

/-- A call gets the connection. -/
def begin (codec : Codec Frame) (conn : Conn) (request : Request) : Option Conn :=
  (conn.dialler.step codec (.call request)).bind fun d =>
    (d.step codec (.obtain conn.dialler.peer.calls.length)).map fun d =>
      { conn with dialler := d }

/-- `outbound` does not hold the connection. -/
def uncached (conn : Conn) : Conn :=
  { conn with dialler := { conn.dialler with peer := { conn.dialler.peer with cached := false } } }

end Conn

/-- The connections to one peer, each with its calls. -/
structure Transport where
  conns : List Conn
  deriving DecidableEq, Repr

inductive Event where
  /-- `peer` dials. -/
  | dial
  /-- `send` or `rpc` is called and gets the cached connection. -/
  | call (c : Nat) (request : Request)
  /-- `drop_peer` by a call on any of the connections. -/
  | dropPeer (c i : Nat)
  | act (c : Nat) (a : Act)
  deriving DecidableEq, Repr

def Transport.step (codec : Codec Frame) (t : Transport) : Event → Option Transport
  | .dial =>
      if t.conns.all fun conn => !conn.dialler.peer.cached then some ⟨t.conns ++ [.new]⟩ else none
  | .call c request =>
      match t.conns[c]? with
      | none => none
      | some conn => (conn.begin codec request).map fun conn' => ⟨t.conns.set c conn'⟩
  | .dropPeer c i =>
      match t.conns[c]? with
      | none => none
      | some conn =>
          (conn.dialler.step codec (.dropPeer i)).map fun d =>
            -- whichever connection is cached by now
            ⟨(t.conns.set c { conn with dialler := d }).map Conn.uncached⟩
  | .act c a =>
      match t.conns[c]? with
      | none => none
      | some conn => (conn.step codec a).map fun conn' => ⟨t.conns.set c conn'⟩

/-! ## What a step can do -/

namespace Conn

/-- `Moves codec conn a conn'`: the act `a` takes `conn` to `conn'`. -/
inductive Moves (codec : Codec Frame) (conn : Conn) : Act → Conn → Prop
  | dialler {label d} (hown : label.own = true) (hd : conn.dialler.step codec label = some d) :
      Moves codec conn (.dialler label) { conn with dialler := d }
  | serve {id payload} (hframe : conn.dialler.peer.writer.completed[conn.read]? =
      some (.request id payload)) :
      Moves codec conn .serve { conn with
        read := conn.read + 1
        served := conn.served ++ [⟨conn.read, id, payload, .held, false⟩] }
  | skip : Moves codec conn .serve { conn with read := conn.read + 1 }
  | tooLong : Moves codec conn .serve { conn with serving := false }
  | hangUp : Moves codec conn .hangUp { conn with serving := false }
  | answer {k s payload} (hk : conn.served[k]? = some s) (hheld : s.responder = .held) :
      Moves codec conn (.answer k payload)
        (conn.setServed k { s with responder := .answered payload })
  | drop {k s} (hk : conn.served[k]? = some s) (hheld : s.responder = .held) :
      Moves codec conn (.drop k) (conn.setServed k { s with responder := .dropped })
  | respond {k s payload} (hk : conn.served[k]? = some s)
      (houtcome : s.responder.outcome = some payload) :
      Moves codec conn (.respond k) { conn.setServed k { s with done := true } with
        replies := conn.replies ++ [(k, .response s.id payload)] }
  | lose {k s payload} (hk : conn.served[k]? = some s)
      (houtcome : s.responder.outcome = some payload)
      (hlost : ¬ ((codec.encode (.response s.id payload)).length < 2 ^ 32 ∧
        conn.broken = false)) :
      Moves codec conn (.respond k) (conn.setServed k { s with done := true })
  | failRespond {k s} (hk : conn.served[k]? = some s) (houtcome : s.responder.outcome ≠ none) :
      Moves codec conn (.failRespond k)
        { conn.setServed k { s with done := true } with broken := true }
  | resolve {k id payload rest d} (hreplies : conn.replies = (k, .response id payload) :: rest)
      (hd : conn.dialler.step codec (.respond id payload) = some d) :
      Moves codec conn .read { conn with
        dialler := d
        replies := rest
        resolved := conn.resolved ++
          (conn.dialler.peer.pending.filter fun row => row.1 == id).map fun row => (k, row.2) }
  | pass {k frame rest} (hreplies : conn.replies = (k, frame) :: rest)
      (hframe : ∀ id payload, frame ≠ .response id payload) :
      Moves codec conn .read { conn with replies := rest }
  | ended {d} (hd : conn.dialler.step codec .close = some d) :
      Moves codec conn .read { conn with dialler := d }
  | reset {d} (hd : conn.dialler.step codec .close = some d) :
      Moves codec conn .reset { conn with dialler := d }

theorem step_moves {codec : Codec Frame} {conn conn' : Conn} {a : Act}
    (h : conn.step codec a = some conn') : Moves codec conn a conn' := by
  cases a with
  | dialler label =>
      simp only [step] at h
      split at h
      · rename_i hown
        obtain ⟨d, hd, rfl⟩ := Option.map_eq_some_iff.mp h
        exact .dialler hown hd
      · cases h
  | serve =>
      simp only [step] at h
      split at h
      · split at h
        · cases h
        · rename_i frame hframe
          split at h
          · split at h
            · cases h
              exact .serve hframe
            · cases h
              exact .skip
            · cases h
              exact .skip
          · cases h
            exact .tooLong
      · cases h
  | hangUp =>
      simp only [step] at h
      split at h
      · cases h
        exact .hangUp
      · cases h
  | answer k payload =>
      simp only [step] at h
      split at h
      · cases h
      · rename_i s hk
        split at h
        · cases h
          exact .answer hk ‹_›
        · cases h
  | drop k =>
      simp only [step] at h
      split at h
      · cases h
      · rename_i s hk
        split at h
        · cases h
          exact .drop hk ‹_›
        · cases h
  | respond k =>
      simp only [step] at h
      split at h
      · cases h
      · rename_i s hk
        split at h
        · cases h
        · rename_i payload houtcome
          split at h
          · cases h
          · split at h
            · cases h
              exact .respond hk houtcome
            · cases h
              exact .lose hk houtcome ‹_›
  | failRespond k =>
      simp only [step] at h
      split at h
      · cases h
      · rename_i s hk
        split at h
        · cases h
        · rename_i hmay
          cases h
          exact .failRespond hk fun hnone => hmay (Or.inl hnone)
  | read =>
      simp only [step] at h
      split at h
      · split at h
        · split at h
          · obtain ⟨d, hd, rfl⟩ := Option.map_eq_some_iff.mp h
            exact .ended hd
          · cases h
        · rename_i k frame rest hreplies
          split at h
          · split at h
            · obtain ⟨d, hd, rfl⟩ := Option.map_eq_some_iff.mp h
              exact .resolve hreplies hd
            · cases h
              refine .pass hreplies fun id payload heq => ?_
              cases heq
            · cases h
              refine .pass hreplies fun id payload heq => ?_
              cases heq
          · obtain ⟨d, hd, rfl⟩ := Option.map_eq_some_iff.mp h
            exact .ended hd
      · cases h
  | reset =>
      obtain ⟨d, hd, rfl⟩ := Option.map_eq_some_iff.mp h
      exact .reset hd

/-- What an event makes of the connection at position `c`. -/
inductive Becomes (codec : Codec Frame) (c : Nat) (conn : Conn) : Event → Conn → Prop
  | same {e} : Becomes codec c conn e conn
  | begin {request conn'} (hbegun : conn.begin codec request = some conn') :
      Becomes codec c conn (.call c request) conn'
  | uncached {e} : Becomes codec c conn e conn.uncached
  | dropPeer {i d} (hd : conn.dialler.step codec (.dropPeer i) = some d) :
      Becomes codec c conn (.dropPeer c i) (uncached { conn with dialler := d })
  | act {a conn'} (hacted : conn.step codec a = some conn') :
      Becomes codec c conn (.act c a) conn'

end Conn

/-- Where a connection comes from. -/
theorem Transport.conn_of_step {codec : Codec Frame} {t t' : Transport} {e : Event} {c : Nat}
    {conn' : Conn} (hs : t.step codec e = some t') (hc : t'.conns[c]? = some conn') :
    conn' = .new ∨ ∃ conn, t.conns[c]? = some conn ∧ conn.Becomes codec c e conn' := by
  cases e with
  | dial =>
      simp only [step] at hs
      split at hs
      · cases hs
        rcases Slots.getElem?_snoc_iff.mp hc with ⟨-, rfl⟩ | hc
        · exact Or.inl rfl
        · exact Or.inr ⟨conn', hc, .same⟩
      · cases hs
  | call c₀ request =>
      simp only [step] at hs
      split at hs
      · cases hs
      · rename_i old hold
        obtain ⟨new, hbegun, rfl⟩ := Option.map_eq_some_iff.mp hs
        rcases (Slots.getElem?_set_iff hold).mp hc with ⟨rfl, rfl⟩ | ⟨-, hc⟩
        · exact Or.inr ⟨old, hold, .begin hbegun⟩
        · exact Or.inr ⟨conn', hc, .same⟩
  | dropPeer c₀ i =>
      simp only [step] at hs
      split at hs
      · cases hs
      · rename_i old hold
        obtain ⟨d, hd, rfl⟩ := Option.map_eq_some_iff.mp hs
        rw [List.getElem?_map] at hc
        obtain ⟨before, hbefore, rfl⟩ := Option.map_eq_some_iff.mp hc
        rcases (Slots.getElem?_set_iff hold).mp hbefore with ⟨rfl, rfl⟩ | ⟨-, hbefore⟩
        · exact Or.inr ⟨old, hold, .dropPeer hd⟩
        · exact Or.inr ⟨before, hbefore, .uncached⟩
  | act c₀ a =>
      simp only [step] at hs
      split at hs
      · cases hs
      · rename_i old hold
        obtain ⟨new, hacted, rfl⟩ := Option.map_eq_some_iff.mp hs
        rcases (Slots.getElem?_set_iff hold).mp hc with ⟨rfl, rfl⟩ | ⟨-, hc⟩
        · exact Or.inr ⟨old, hold, .act hacted⟩
        · exact Or.inr ⟨conn', hc, .same⟩

/-! ## The property -/

/-- The request is the call's. -/
def Conn.Own (conn : Conn) (i k : Nat) : Prop :=
  ∃ s, conn.served[k]? = some s ∧ conn.dialler.writers[s.number]? = some i

/-- What goes on without the handler and without anything failing. -/
def Act.progress : Act → Bool
  | .dialler (.fail _) => false
  | .dialler _ | .serve | .respond _ | .read => true
  | .hangUp | .answer _ _ | .drop _ | .failRespond _ | .reset => false

/-- Nothing is left to be done on the connection. -/
def Conn.AtRest (codec : Codec Frame) (conn : Conn) : Prop :=
  ∀ a : Act, a.progress = true → conn.step codec a = none

structure OwnAnswers (codec : Codec Frame) (conn : Conn) : Prop where
  /-- What an `rpc` returns is what its own responder was given. -/
  own : ∀ (i : Nat) (call : Call) (bytes : Octets), conn.dialler.peer.calls[i]? = some call →
    call.answer = .sent bytes →
    ∃ k s, conn.Own i k ∧ conn.served[k]? = some s ∧ s.responder = .answered bytes
  /-- A response resolves nobody but the `rpc` it is for. -/
  once : ∀ k i j, (k, i) ∈ conn.resolved → (k, j) ∈ conn.resolved → i = j
  /-- The `rpc` of a dropped responder is not answered. -/
  refused : ∀ (i k : Nat) (s : Served) (call : Call), conn.Own i k → conn.served[k]? = some s →
    s.responder = .dropped → conn.dialler.peer.calls[i]? = some call →
    ∀ bytes, call.answer ≠ .sent bytes
  /-- It has failed when the connection has come to rest. -/
  fails : ∀ (i k : Nat) (s : Served), conn.Own i k → conn.served[k]? = some s →
    s.responder = .dropped → conn.AtRest codec →
    ∃ call, conn.dialler.peer.calls[i]? = some call ∧ call.pc = .returned ∧ call.answer = .closed
  /-- And no other by it: what `read_replies` makes of its response. -/
  harmless : ∀ (k : Nat) (s : Served) (frame : Frame) (rest : List (Nat × Frame)) (conn' : Conn),
    conn.served[k]? = some s → s.responder = .dropped → conn.replies = (k, frame) :: rest →
    conn.step codec .read = some conn' → conn'.dialler.peer.reader = .reading ∧
      ∀ j, ¬ conn.Own j k → conn'.dialler.peer.calls[j]? = conn.dialler.peer.calls[j]?

/-- The response to a dropped responder is short. -/
def Terse (codec : Codec Frame) : Prop :=
  ∀ id, (codec.encode (.response id none)).length ≤ maxFrame

/-- The counter has not come round, and callers enter the table before its reader
has ended. -/
def Conn.Sound (conn : Conn) : Act → Prop
  | .dialler (.mint _) => conn.dialler.minted.length < 2 ^ 64
  | .dialler (.insert _) => conn.dialler.peer.reader ≠ .ended
  | _ => True

def Transport.Sound (t : Transport) : Event → Prop
  | .act c a => ∀ conn ∈ t.conns[c]?, conn.Sound a
  | _ => True

/-! ## The invariant -/

namespace Conn

structure Inv (conn : Conn) : Prop where
  dialler : conn.dialler.Inv
  served : ∀ (k : Nat) (s : Served), conn.served[k]? = some s → s.number < conn.read ∧
    conn.dialler.peer.writer.completed[s.number]? = some (.request s.id s.payload)
  numbers : ∀ (k k' : Nat) (s s' : Served), conn.served[k]? = some s →
    conn.served[k']? = some s' → s.number = s'.number → k = k'
  done : ∀ (k : Nat) (s : Served), conn.served[k]? = some s → s.done = true →
    s.responder.outcome ≠ none
  replies : ∀ e ∈ conn.replies, ∃ s payload, conn.served[e.1]? = some s ∧
    s.responder.outcome = some payload ∧ e.2 = .response s.id payload
  resolved : ∀ e ∈ conn.resolved, conn.Own e.2 e.1
  own : ∀ (i : Nat) (call : Call) (bytes : Octets), conn.dialler.peer.calls[i]? = some call →
    call.answer = .sent bytes →
    ∃ k s, conn.Own i k ∧ conn.served[k]? = some s ∧ s.responder = .answered bytes

theorem inv_new : new.Inv := ⟨Dialler.inv_new, nofun, nofun, nofun, nofun, nofun, nofun⟩

/-- No call has been dropped. -/
def Present (conn : Conn) : Prop := ∀ call ∈ conn.dialler.peer.calls, call.pc ≠ .cancelled

/-- The response to a dropped responder is on its way, or has got to its caller,
or nobody reads any more. -/
def Delivered (conn : Conn) : Prop :=
  ∀ (k : Nat) (s : Served), conn.served[k]? = some s → s.responder = .dropped →
    s.done = true → conn.dialler.peer.reader = .reading → conn.broken = false →
    (∃ frame, (k, frame) ∈ conn.replies) ∨
      ∀ (i : Nat) (call : Call), conn.dialler.writers[s.number]? = some i →
        conn.dialler.peer.calls[i]? = some call → call.answer ≠ .empty

/-- What a step keeps: the invariant, and while nobody drops a call, that the
responses to dropped responders are not lost. -/
structure Keeps (codec : Codec Frame) (conn conn' : Conn) : Prop where
  inv : conn'.Inv
  delivered : Terse codec → conn.Present → conn.Delivered → conn'.Delivered

section Steps

variable {codec : Codec Frame} {conn conn' : Conn} {i k : Nat} {s s' : Served} {call : Call}

/-- Every request that is served is some call's. -/
theorem Inv.owner (h : conn.Inv) (hk : conn.served[k]? = some s) :
    ∃ i call, conn.dialler.writers[s.number]? = some i ∧ conn.dialler.Got i s.id ∧
      conn.dialler.peer.calls[i]? = some call ∧ Dialler.Waits call s.id := by
  obtain ⟨-, hframe⟩ := h.served k s hk
  have hlt := (List.getElem?_eq_some_iff.mp hframe).1
  rw [← h.dialler.lengths] at hlt
  have hi := List.getElem?_eq_getElem hlt
  obtain ⟨hgot, call, hcall, hwaits⟩ := h.dialler.written _ _ _ _ hi hframe
  exact ⟨_, call, hi, hgot, hcall, hwaits⟩

/-- The dialling side goes on. -/
theorem Inv.grows (h : conn.Inv) {d : Dialler} (hgrows : Grows conn.dialler d) (hd : d.Inv) :
    Keeps codec conn { conn with dialler := d } := by
  have hown : ∀ {i k : Nat}, conn.Own i k → Own { conn with dialler := d } i k :=
    fun ⟨s, hk, hi⟩ => ⟨s, hk, hgrows.writers _ _ hi⟩
  refine ⟨⟨hd, ?_, h.numbers, h.done, h.replies, fun e he => hown (h.resolved e he), ?_⟩, ?_⟩
  · intro k s hk
    obtain ⟨hread, hframe⟩ := h.served k s hk
    exact ⟨hread, hgrows.completed _ _ hframe⟩
  · intro i call' bytes hi ha
    obtain ⟨call, hi', ha'⟩ := hgrows.sent i call' bytes hi ha
    obtain ⟨k, s, hik, hk, hs⟩ := h.own i call bytes hi' ha'
    exact ⟨k, s, hown hik, hk, hs⟩
  · intro _ _ hdelivered k s hk hdropped hdone hreader hbroken
    refine (hdelivered k s hk hdropped hdone (hgrows.reader hreader) hbroken).imp_right ?_
    intro htold i call' hi hcall' hempty
    obtain ⟨j, c, hj, -, hc, -⟩ := h.owner hk
    obtain rfl : j = i := Option.some.inj ((hgrows.writers _ _ hj).symm.trans hi)
    obtain ⟨call, hcall, hempty'⟩ := hgrows.told j call' (List.getElem?_eq_some_iff.mp hc).1 hcall'
      hempty
    exact htold j call hj hcall hempty'

/-- A request goes on on the accepting side. -/
theorem Inv.setServed (h : conn.Inv) (hk : conn.served[k]? = some s) (s' : Served)
    (hnumber : s'.number = s.number) (hid : s'.id = s.id) (hpayload : s'.payload = s.payload)
    (houtcome : ∀ payload, s.responder.outcome = some payload → s'.responder = s.responder)
    (hdone : s'.done = true → s'.responder.outcome ≠ none)
    {replies : List (Nat × Frame)} {broken : Bool}
    (hreplies : ∀ e ∈ replies, e ∈ conn.replies ∨
      ∃ payload, e = (k, .response s.id payload) ∧ s'.responder.outcome = some payload)
    (hkept : ∀ e ∈ conn.replies, e ∈ replies) (hbroken : broken = false → conn.broken = false)
    (hkeeps : Terse codec → s'.responder = .dropped → s'.done = true → broken = false →
      (∃ frame, (k, frame) ∈ replies) ∨ s.responder = .dropped ∧ s.done = true) :
    Keeps codec conn
      { conn with served := conn.served.set k s', replies := replies, broken := broken } := by
  have hset : ∀ {j : Nat} {x : Served}, (conn.served.set k s')[j]? = some x →
      ∃ y, conn.served[j]? = some y ∧ x.number = y.number ∧ x.id = y.id ∧
        x.payload = y.payload := by
    intro j x hj
    rcases (Slots.getElem?_set_iff hk).mp hj with ⟨rfl, rfl⟩ | ⟨-, hj⟩
    · exact ⟨s, hk, hnumber, hid, hpayload⟩
    · exact ⟨x, hj, rfl, rfl, rfl⟩
  have hget : ∀ {j : Nat} {y : Served}, conn.served[j]? = some y → ∃ x,
      (conn.served.set k s')[j]? = some x ∧ x.number = y.number ∧ x.id = y.id ∧
        ∀ payload, y.responder.outcome = some payload → x.responder = y.responder := by
    intro j y hj
    by_cases hjk : j = k
    · subst hjk
      cases hk.symm.trans hj
      exact ⟨s', (Slots.getElem?_set_iff hk).mpr (Or.inl ⟨rfl, rfl⟩), hnumber, hid, houtcome⟩
    · exact ⟨y, (Slots.getElem?_set_iff hk).mpr (Or.inr ⟨hjk, hj⟩), rfl, rfl, fun _ _ => rfl⟩
  have hown : ∀ {i j : Nat}, conn.Own i j → Own { conn with
      served := conn.served.set k s', replies := replies, broken := broken } i j := by
    rintro i j ⟨y, hy, hi⟩
    obtain ⟨x, hx, heq, -⟩ := hget hy
    exact ⟨x, hx, by rw [heq]; exact hi⟩
  refine ⟨⟨h.dialler, ?_, ?_, ?_, ?_, fun e he => hown (h.resolved e he), ?_⟩, ?_⟩
  · intro j x hj
    obtain ⟨y, hy, hn, hi, hp⟩ := hset hj
    rw [hn, hi, hp]
    exact h.served j y hy
  · intro j j' x x' hj hj' hxx
    obtain ⟨y, hy, hn, -⟩ := hset hj
    obtain ⟨y', hy', hn', -⟩ := hset hj'
    exact h.numbers j j' y y' hy hy' (hn.symm.trans (hxx.trans hn'))
  · intro j x hj hx
    rcases (Slots.getElem?_set_iff hk).mp hj with ⟨rfl, rfl⟩ | ⟨-, hj⟩
    · exact hdone hx
    · exact h.done j x hj hx
  · intro e he
    rcases hreplies e he with he | ⟨payload, rfl, hpay⟩
    · obtain ⟨y, payload, hy, hpay, heq⟩ := h.replies e he
      obtain ⟨x, hx, -, hi, hr⟩ := hget hy
      exact ⟨x, payload, hx, by rw [hr payload hpay]; exact hpay, by rw [hi]; exact heq⟩
    · exact ⟨s', payload, (Slots.getElem?_set_iff hk).mpr (Or.inl ⟨rfl, rfl⟩), hpay, by rw [hid]⟩
  · intro i call bytes hi ha
    obtain ⟨j, y, hij, hy, hr⟩ := h.own i call bytes hi ha
    obtain ⟨x, hx, -, -, hsame⟩ := hget hy
    exact ⟨j, x, hown hij, hx, (hsame (some bytes) (by rw [hr]; rfl)).trans hr⟩
  · intro hterse _ hdelivered j x hj hdropped hx hreader hunbroken
    rcases (Slots.getElem?_set_iff hk).mp hj with ⟨rfl, rfl⟩ | ⟨-, hj⟩
    · rcases hkeeps hterse hdropped hx hunbroken with hreply | ⟨hdropped', hdone'⟩
      · exact Or.inl hreply
      · rw [hnumber]
        exact (hdelivered _ s hk hdropped' hdone' hreader (hbroken hunbroken)).imp_left
          fun ⟨frame, hframe⟩ => ⟨frame, hkept _ hframe⟩
    · exact (hdelivered j x hj hdropped hx hreader (hbroken hunbroken)).imp_left
        fun ⟨frame, hframe⟩ => ⟨frame, hkept _ hframe⟩

/-- A request is handed to the handler. -/
theorem Inv.serve (h : conn.Inv) {id : UInt64} {payload : Octets}
    (hframe : conn.dialler.peer.writer.completed[conn.read]? = some (.request id payload)) :
    Keeps codec conn { conn with
      read := conn.read + 1
      served := conn.served ++ [⟨conn.read, id, payload, .held, false⟩] } := by
  have hkept : ∀ {j : Nat} {x : Served}, conn.served[j]? = some x →
      (conn.served ++ [⟨conn.read, id, payload, .held, false⟩])[j]? = some x :=
    fun hj => Slots.getElem?_snoc_iff.mpr (Or.inr hj)
  refine ⟨⟨h.dialler, ?_, ?_, ?_, ?_, ?_, ?_⟩, ?_⟩
  · intro j x hj
    rcases Slots.getElem?_snoc_iff.mp hj with ⟨-, rfl⟩ | hj
    · exact ⟨Nat.lt_succ_self _, hframe⟩
    · obtain ⟨hlt, hx⟩ := h.served j x hj
      exact ⟨Nat.lt_succ_of_lt hlt, hx⟩
  · intro j j' x x' hj hj' heq
    rcases Slots.getElem?_snoc_iff.mp hj with ⟨rfl, rfl⟩ | hj <;>
      rcases Slots.getElem?_snoc_iff.mp hj' with ⟨rfl, rfl⟩ | hj'
    · rfl
    · exact absurd heq.symm (Nat.ne_of_lt (h.served j' x' hj').1)
    · exact absurd heq (Nat.ne_of_lt (h.served j x hj).1)
    · exact h.numbers j j' x x' hj hj' heq
  · intro j x hj hx
    rcases Slots.getElem?_snoc_iff.mp hj with ⟨-, rfl⟩ | hj
    · cases hx
    · exact h.done j x hj hx
  · intro e he
    obtain ⟨x, answer, hx, hrest⟩ := h.replies e he
    exact ⟨x, answer, hkept hx, hrest⟩
  · intro e he
    obtain ⟨x, hx, hi⟩ := h.resolved e he
    exact ⟨x, hkept hx, hi⟩
  · intro i call bytes hi ha
    obtain ⟨j, x, ⟨y, hy, hown⟩, hx, hr⟩ := h.own i call bytes hi ha
    exact ⟨j, x, ⟨y, hkept hy, hown⟩, hkept hx, hr⟩
  · intro _ _ hdelivered j x hj hdropped
    rcases Slots.getElem?_snoc_iff.mp hj with ⟨-, rfl⟩ | hj
    · cases hdropped
    · exact hdelivered j x hj hdropped

/-- Whoever waits under the id of a request is the call that made it. -/
theorem Inv.owner_of_row (h : conn.Inv) (hk : conn.served[k]? = some s)
    (hrow : (s.id, i) ∈ conn.dialler.peer.pending) : conn.dialler.writers[s.number]? = some i := by
  obtain ⟨j, c, hj, hgot, -⟩ := h.owner hk
  rw [hj, Dialler.Got.unique h.dialler.range hgot (h.dialler.rows _ hrow)]

/-- Whom the response to a request is given to is the call that made it. -/
theorem Inv.owner_of_any (h : conn.Inv) (hk : conn.served[k]? = some s)
    (hany : (conn.dialler.peer.pending.any fun row => row.1 == s.id && row.2 == i) = true) :
    conn.dialler.writers[s.number]? = some i := by
  obtain ⟨⟨id, j⟩, hrow, hmatch⟩ := List.any_eq_true.mp hany
  obtain ⟨hid, hj⟩ := Bool.and_eq_true_iff.mp hmatch
  cases eq_of_beq hid
  cases eq_of_beq hj
  exact h.owner_of_row hk hrow

/-- The response at the head of the queue. -/
theorem Inv.head (h : conn.Inv) {frame : Frame} {rest : List (Nat × Frame)}
    (hreplies : conn.replies = (k, frame) :: rest) :
    ∃ s payload, conn.served[k]? = some s ∧ s.responder.outcome = some payload ∧
      frame = .response s.id payload :=
  h.replies (k, frame) (hreplies ▸ List.mem_cons_self ..)

/-- The call that made a request has been told once the response to it is read: it has
its row, or has been told before. -/
theorem Inv.told_of_respond (h : conn.Inv) (hpresent : conn.Present) (hk : conn.served[k]? = some s)
    (hi : conn.dialler.writers[s.number]? = some i) {a : Oneshot} (ha : a ≠ .empty)
    (hcall : (conn.dialler.peer.answer (fun row => row.1 == s.id) a).calls[i]? = some call) :
    call.answer ≠ .empty := by
  intro hempty
  obtain ⟨before, hbefore, rfl⟩ := Dialler.of_getElem?_answer hcall
  obtain ⟨j, c, hj, -, hc, hwaits⟩ := h.owner hk
  obtain rfl : j = i := Option.some.inj (hj.symm.trans hi)
  cases hbefore.symm.trans hc
  split at hempty
  · exact ha hempty
  · rename_i hnone
    rcases hwaits with hpc | ⟨-, hanswer⟩ | hpc
    · have hfits := h.dialler.calls j before hbefore
      rw [Dialler.Fits, hpc] at hfits
      exact hnone (List.any_eq_true.mpr ⟨(s.id, j), hfits.2 hempty, by simp⟩)
    · exact hanswer hempty
    · exact hpresent before (List.mem_of_getElem? hbefore) hpc

/-- `read_replies` reads the response to a request. -/
theorem Inv.resolve (h : conn.Inv) {rest : List (Nat × Frame)} {payload : Option Octets}
    (hk : conn.served[k]? = some s) (houtcome : s.responder.outcome = some payload)
    (hreplies : conn.replies = (k, .response s.id payload) :: rest)
    {d : Dialler} (hs : conn.dialler.step codec (.respond s.id payload) = some d) :
    Keeps codec conn { conn with
      dialler := d
      replies := rest
      resolved := conn.resolved ++
        (conn.dialler.peer.pending.filter fun row => row.1 == s.id).map fun row =>
          (k, row.2) } := by
  have hd := Dialler.inv_step h.dialler hs nofun
  obtain ⟨peer, hpeer, rfl⟩ := Option.map_eq_some_iff.mp hs
  simp only [Tcp.step] at hpeer
  split at hpeer
  · cases hpeer
    have hsub : ∀ e ∈ rest, e ∈ conn.replies := fun e he => hreplies ▸ List.mem_cons_of_mem _ he
    have htells : payload.elim Oneshot.closed .sent ≠ .empty := by cases payload <;> simp
    refine ⟨⟨hd, h.served, h.numbers, h.done, fun e he => h.replies e (hsub e he), ?_, ?_⟩, ?_⟩
    · intro e he
      rcases List.mem_append.mp he with he | he
      · exact h.resolved e he
      · obtain ⟨⟨id, i⟩, hrow, rfl⟩ := List.mem_map.mp he
        obtain ⟨hrow, hid⟩ := List.mem_filter.mp hrow
        cases eq_of_beq hid
        exact ⟨s, hk, h.owner_of_row hk hrow⟩
    · intro i call' bytes hi ha
      obtain ⟨call, hcall, rfl⟩ := Dialler.of_getElem?_answer hi
      split at ha
      · rename_i hany
        refine ⟨k, s, ⟨s, hk, h.owner_of_any hk hany⟩, hk, ?_⟩
        cases payload with
        | none => cases ha
        | some payload =>
            cases ha
            exact Responder.answered_of_outcome houtcome
      · exact h.own i call bytes hcall ha
    · intro _ hpresent hdelivered j x hj hdropped hdone hreader hbroken
      rcases hdelivered j x hj hdropped hdone hreader hbroken with ⟨frame, hframe⟩ | htold
      · rw [hreplies] at hframe
        rcases List.mem_cons.mp hframe with heq | hframe
        · cases heq
          cases hk.symm.trans hj
          exact Or.inr fun i call' hi hcall' => h.told_of_respond hpresent hk hi htells hcall'
        · exact Or.inl ⟨frame, hframe⟩
      · right
        intro i call' hi hcall' hempty
        obtain ⟨call, hcall, rfl⟩ := Dialler.of_getElem?_answer hcall'
        split at hempty
        · exact htells hempty
        · exact htold i call hi hcall hempty
  · cases hpeer

/-- The dialling side takes a step of its own. -/
theorem Inv.dialled (h : conn.Inv) {label : Label} {d : Dialler}
    (hd : conn.dialler.step codec label = some d)
    (hrespond : ∀ id payload, label ≠ .respond id payload)
    (hmint : ∀ i, label = .mint i → conn.dialler.minted.length < 2 ^ 64) :
    Keeps codec conn { conn with dialler := d } :=
  h.grows (grows_step hd hrespond) (Dialler.inv_step h.dialler hd hmint)

theorem keeps_begin (h : conn.Inv) {request : Request}
    (hs : conn.begin codec request = some conn') : Keeps codec conn conn' := by
  obtain ⟨d, hd, hs⟩ := Option.bind_eq_some_iff.mp hs
  obtain ⟨d', hd', rfl⟩ := Option.map_eq_some_iff.mp hs
  have hinv := Dialler.inv_step h.dialler hd nofun
  refine h.grows ((grows_step hd nofun).trans (grows_step hd' nofun) ?_)
    (Dialler.inv_step hinv hd' nofun)
  cases hd
  show conn.dialler.peer.calls.length ≤ (conn.dialler.peer.calls ++ [_]).length
  rw [List.length_append]
  exact Nat.le_add_right _ _

theorem keeps_step {a : Act} (h : conn.Inv)
    (hmint : ∀ i, a = .dialler (.mint i) → conn.dialler.minted.length < 2 ^ 64)
    (hs : conn.step codec a = some conn') : Keeps codec conn conn' := by
  cases step_moves hs with
  | dialler hown hd =>
      refine h.dialled hd ?_ ?_
      · rintro id payload rfl
        cases hown
      · rintro i rfl
        exact hmint i rfl
  | serve hframe => exact h.serve hframe
  | skip =>
      exact ⟨⟨h.dialler, fun k s hk => ⟨Nat.lt_succ_of_lt (h.served k s hk).1,
        (h.served k s hk).2⟩, h.numbers, h.done, h.replies, h.resolved, h.own⟩,
        fun _ _ hdelivered => hdelivered⟩
  | tooLong | hangUp =>
      exact ⟨⟨h.dialler, h.served, h.numbers, h.done, h.replies, h.resolved, h.own⟩,
        fun _ _ hdelivered => hdelivered⟩
  | @answer k s payload hk hheld =>
      exact h.setServed hk { s with responder := .answered payload } rfl rfl rfl
        (by simp [hheld, Responder.outcome]) nofun (fun e he => Or.inl he) (fun e he => he)
        (fun hb => hb) nofun
  | @drop k s hk hheld =>
      refine h.setServed hk { s with responder := .dropped } rfl rfl rfl
        (by simp [hheld, Responder.outcome]) nofun (fun e he => Or.inl he) (fun e he => he)
        (fun hb => hb) fun _ _ hdone _ => ?_
      exact absurd (by rw [hheld]; rfl) (h.done k s hk hdone)
  | @respond k s payload hk houtcome =>
      refine h.setServed hk { s with done := true } rfl rfl rfl (fun _ _ => rfl)
        (fun _ => by simp [houtcome]) ?_ (fun e he => List.mem_append_left _ he) (fun hb => hb)
        fun _ _ _ _ => Or.inl ⟨_, List.mem_append_right _ (List.mem_singleton_self _)⟩
      intro e he
      refine (List.mem_append.mp he).imp_right fun he => ?_
      exact ⟨payload, List.mem_singleton.mp he, houtcome⟩
  | @lose k s payload hk houtcome hlost =>
      refine h.setServed hk { s with done := true } rfl rfl rfl (fun _ _ => rfl)
        (fun _ => by simp [houtcome]) (fun e he => Or.inl he) (fun e he => he) (fun hb => hb) ?_
      -- a dropped responder's response is never too long
      intro hterse hdropped _ hbroken
      have hdropped' : s.responder = .dropped := hdropped
      rw [hdropped'] at houtcome
      cases houtcome
      exact absurd ⟨Nat.lt_of_le_of_lt (hterse s.id) maxFrame_lt, hbroken⟩ hlost
  | @failRespond k s hk houtcome =>
      exact h.setServed hk { s with done := true } rfl rfl rfl (fun _ _ => rfl)
        (fun _ => houtcome) (fun e he => Or.inl he) (fun e he => he) nofun nofun
  | resolve hreplies hd =>
      obtain ⟨s, payload, hk, houtcome, heq⟩ := h.head hreplies
      cases heq
      exact h.resolve hk houtcome hreplies hd
  | pass hreplies hframe =>
      obtain ⟨s, payload, -, -, heq⟩ := h.head hreplies
      exact absurd heq (hframe _ _)
  | ended hd | reset hd => exact h.dialled hd nofun nofun

end Steps

/-! ## What follows from it -/

section Dialling

variable {codec : Codec Frame} {conn conn' : Conn} {a : Act}

/-- What a step on a connection does to its dialling side: it takes the step it was
told to, or reads a response, or the end. -/
theorem dialler_of_step (hs : conn.step codec a = some conn') :
    conn'.dialler = conn.dialler ∨ ∃ label, conn.dialler.step codec label = some conn'.dialler ∧
      (a = .dialler label ∧ label.own = true ∨ label = .close ∨
        ∃ id payload, label = .respond id payload) := by
  cases step_moves hs with
  | dialler hown hd => exact Or.inr ⟨_, hd, Or.inl ⟨rfl, hown⟩⟩
  | resolve _ hd => exact Or.inr ⟨_, hd, Or.inr (Or.inr ⟨_, _, rfl⟩)⟩
  | ended hd | reset hd => exact Or.inr ⟨_, hd, Or.inr (Or.inl rfl)⟩
  | _ => exact Or.inl rfl

/-- What the dialling side keeps whatever it does but drop a call, a connection
keeps. -/
theorem keeps_of_dialler {P : World → Prop} (h : P conn.dialler.peer)
    (hs : conn.step codec a = some conn')
    (hP : ∀ label w, (∀ i, label ≠ .cancel i) → (∀ i, label = .insert i → a = .dialler label) →
      Tcp.step codec conn.dialler.peer label = some w → P w) : P conn'.dialler.peer := by
  rcases dialler_of_step hs with heq | ⟨label, hd, hlabel⟩
  · exact heq ▸ h
  · obtain ⟨w, hw, heq⟩ := Option.map_eq_some_iff.mp hd
    rw [← heq]
    refine hP label w ?_ ?_ hw
    · rintro i rfl
      rcases hlabel with ⟨-, hown⟩ | hclose | ⟨_, _, hrespond⟩
      · cases hown
      · cases hclose
      · cases hrespond
    · rintro i rfl
      rcases hlabel with ⟨rfl, -⟩ | hclose | ⟨_, _, hrespond⟩
      · rfl
      · cases hclose
      · cases hrespond

end Dialling

/-- The invariant of connections whose calls are not dropped and enter the table
before its reader has ended. -/
structure Reported (conn : Conn) : Prop extends conn.Inv where
  present : conn.Present
  cleared : ClearedAtEnd conn.dialler.peer
  delivered : conn.Delivered

theorem reported_new : new.Reported := ⟨inv_new, nofun, nofun, nofun⟩

section OwnAnswers

variable {codec : Codec Frame} {conn conn' : Conn} {i k : Nat} {s : Served} {call : Call}

/-- A call has written one request, and that is served once. -/
theorem Inv.own_inj (h : conn.Inv) {k' : Nat} (hk : conn.Own i k) (hk' : conn.Own i k') :
    k = k' := by
  obtain ⟨s, hs, hi⟩ := hk
  obtain ⟨s', hs', hi'⟩ := hk'
  have hnumber : s.number = s'.number :=
    (List.getElem?_inj (List.getElem?_eq_some_iff.mp hi).1 h.dialler.once).mp (hi.trans hi'.symm)
  exact h.numbers k k' s s' hs hs' hnumber

theorem Inv.refused (h : conn.Inv) (hown : conn.Own i k) (hk : conn.served[k]? = some s)
    (hdropped : s.responder = .dropped) (hi : conn.dialler.peer.calls[i]? = some call)
    (bytes : Octets) : call.answer ≠ .sent bytes := by
  intro hsent
  obtain ⟨k', s', hown', hk', hanswered⟩ := h.own i call bytes hi hsent
  cases h.own_inj hown hown'
  cases hk.symm.trans hk'
  cases hdropped.symm.trans hanswered

theorem step_respond_ne_none (hk : conn.served[k]? = some s) (hdropped : s.responder = .dropped)
    (hdone : s.done = false) : conn.step codec (.respond k) ≠ none := by
  simp only [step, hk, hdropped, Responder.outcome, hdone, Bool.false_eq_true, if_false]
  split <;> nofun

theorem step_read_ne_none (h : conn.Inv) (hreading : conn.dialler.peer.reader = .reading)
    (hsome : conn.replies ≠ [] ∨ conn.broken = true) : conn.step codec .read ≠ none := by
  have hclose : conn.close codec ≠ none := by
    simp [close, Dialler.step, Tcp.step, hreading]
  simp only [step, hreading, if_true]
  cases hreplies : conn.replies with
  | nil =>
      have hbroken := hsome.resolve_left fun hne => hne hreplies
      simp only [hbroken, Bool.true_or, if_true]
      exact hclose
  | cons e rest =>
      obtain ⟨k, frame⟩ := e
      obtain ⟨s, payload, -, -, rfl⟩ := h.head hreplies
      dsimp only
      split
      · simp [Dialler.step, Tcp.step, hreading]
      · exact hclose

/-- Nothing is left to be done, so the caller of a dropped responder has been told. -/
theorem Reported.told (h : conn.Reported) (hk : conn.served[k]? = some s)
    (hi : conn.dialler.writers[s.number]? = some i) (hdropped : s.responder = .dropped)
    (hrest : conn.AtRest codec) (hcall : conn.dialler.peer.calls[i]? = some call)
    (hpc : call.pc = .awaiting s.id) : call.answer ≠ .empty := by
  intro hempty
  have hfits := h.dialler.calls i call hcall
  rw [Dialler.Fits, hpc] at hfits
  have hrow := hfits.2 hempty
  cases hreader : conn.dialler.peer.reader with
  | ended =>
      rw [h.cleared hreader] at hrow
      cases hrow
  | closing =>
      have hclear := hrest (.dialler .clear) rfl
      simp [step, Label.own, Dialler.step, Tcp.step, hreader] at hclear
  | reading =>
      cases hdone : s.done with
      | false => exact step_respond_ne_none hk hdropped hdone (hrest (.respond k) rfl)
      | true =>
          have hread := hrest .read rfl
          cases hbroken : conn.broken with
          | true => exact step_read_ne_none h.toInv hreader (Or.inr hbroken) hread
          | false =>
              rcases h.delivered k s hk hdropped hdone hreader hbroken with ⟨frame, hframe⟩ | htold
              · exact step_read_ne_none h.toInv hreader
                  (Or.inl (List.ne_nil_of_mem hframe)) hread
              · exact htold i call hi hcall hempty

theorem Reported.fails (h : conn.Reported) (hown : conn.Own i k) (hk : conn.served[k]? = some s)
    (hdropped : s.responder = .dropped) (hrest : conn.AtRest codec) :
    ∃ call, conn.dialler.peer.calls[i]? = some call ∧ call.pc = .returned ∧
      call.answer = .closed := by
  obtain ⟨j, call, hj, -, hcall, hwaits⟩ := h.owner hk
  obtain ⟨x, hx, hi⟩ := hown
  cases hk.symm.trans hx
  obtain rfl : j = i := Option.some.inj (hj.symm.trans hi)
  have hreturned : call.pc = .returned ∧ call.answer ≠ .empty := by
    rcases hwaits with hpc | hreturned | hpc
    · have htold := h.told hk hi hdropped hrest hcall hpc
      have hreceive := hrest (.dialler (.receive j)) rfl
      simp [step, Label.own, Dialler.step, Tcp.step, hcall, hpc, htold] at hreceive
    · exact hreturned
    · exact absurd hpc (h.present call (List.mem_of_getElem? hcall))
  refine ⟨call, hcall, hreturned.1, ?_⟩
  cases hanswer : call.answer with
  | empty => exact absurd hanswer hreturned.2
  | sent bytes => exact absurd hanswer (h.refused ⟨s, hk, hi⟩ hk hdropped hcall bytes)
  | closed => rfl

theorem Inv.harmless (hterse : Terse codec) (h : conn.Inv) {frame : Frame}
    {rest : List (Nat × Frame)} (hk : conn.served[k]? = some s) (hdropped : s.responder = .dropped)
    (hreplies : conn.replies = (k, frame) :: rest) (hs : conn.step codec .read = some conn') :
    conn'.dialler.peer.reader = .reading ∧
      ∀ j, ¬ conn.Own j k → conn'.dialler.peer.calls[j]? = conn.dialler.peer.calls[j]? := by
  obtain ⟨x, payload, hx, houtcome, rfl⟩ := h.head hreplies
  cases hk.symm.trans hx
  rw [hdropped] at houtcome
  cases houtcome
  simp only [step] at hs
  split at hs
  · rename_i hreading
    simp only [hreplies, if_pos (hterse s.id)] at hs
    obtain ⟨d, hd, rfl⟩ := Option.map_eq_some_iff.mp hs
    obtain ⟨peer, hpeer, rfl⟩ := Option.map_eq_some_iff.mp hd
    simp only [Tcp.step, if_pos hreading, Option.some.injEq] at hpeer
    subst hpeer
    refine ⟨hreading, fun j hother => ?_⟩
    show (conn.dialler.peer.answer _ _).calls[j]? = _
    cases hj : conn.dialler.peer.calls[j]? with
    | none =>
        show (conn.dialler.peer.calls.mapIdx _)[j]? = none
        rw [List.getElem?_mapIdx, hj]
        rfl
    | some call =>
        rw [Dialler.getElem?_answer hj, if_neg]
        exact fun hany => hother ⟨s, hk, h.owner_of_any hk hany⟩
  · cases hs

theorem Reported.ownAnswers (hterse : Terse codec) (h : conn.Reported) :
    OwnAnswers codec conn where
  own := h.own
  once := by
    intro k i j hi hj
    obtain ⟨s, hk, hi⟩ := h.resolved _ hi
    obtain ⟨s', hk', hj⟩ := h.resolved _ hj
    cases hk.symm.trans hk'
    exact Option.some.inj (hi.symm.trans hj)
  refused := fun _ _ _ _ hown hk hdropped hi => h.refused hown hk hdropped hi
  fails := fun _ _ _ hown hk hdropped hrest => h.fails hown hk hdropped hrest
  harmless := fun _ _ _ _ _ hk hdropped hreplies hs => h.harmless hterse hk hdropped hreplies hs

end OwnAnswers

end Conn

/-! ## Connections fail and are dialled again -/

def Transport.start : Transport := ⟨[]⟩

/-- What each connection keeps, they all keep. -/
theorem Transport.forall_step {codec : Codec Frame} {P : Conn → Prop} {t t' : Transport} {e : Event}
    (hs : t.step codec e = some t') (h : ∀ conn ∈ t.conns, P conn) (hnew : P .new)
    (hbegin : ∀ conn request conn', P conn → conn.begin codec request = some conn' → P conn')
    (hdrop : ∀ (conn : Conn) (i : Nat) (d : Dialler), P conn →
      conn.dialler.step codec (.dropPeer i) = some d → P { conn with dialler := d })
    (huncached : ∀ conn : Conn, P conn → P conn.uncached)
    (hact : ∀ c a conn conn', e = .act c a → t.conns[c]? = some conn → P conn →
      conn.step codec a = some conn' → P conn') :
    ∀ conn ∈ t'.conns, P conn := by
  intro conn' hconn'
  obtain ⟨c, hc⟩ := List.mem_iff_getElem?.mp hconn'
  rcases conn_of_step hs hc with rfl | ⟨conn, hc, hbecomes⟩
  · exact hnew
  · have hconn := h conn (List.mem_of_getElem? hc)
    cases hbecomes with
    | same => exact hconn
    | begin hbegun => exact hbegin conn _ conn' hconn hbegun
    | uncached => exact huncached conn hconn
    | dropPeer hd => exact huncached _ (hdrop conn _ _ hconn hd)
    | act hacted => exact hact c _ conn conn' rfl hc hconn hacted

theorem inv_uncached {conn : Conn} (h : conn.Inv) : conn.uncached.Inv := by
  have hd := h.dialler
  exact ⟨⟨hd.next, hd.range, hd.calls, hd.rows, hd.holder, hd.lengths, hd.once, hd.known,
    hd.written⟩, h.served, h.numbers, h.done, h.replies, h.resolved, h.own⟩

theorem reported_begin {codec : Codec Frame} {conn conn' : Conn} (hterse : Terse codec)
    (h : conn.Reported) {request : Request} (hs : conn.begin codec request = some conn') :
    conn'.Reported := by
  have hkeeps := Conn.keeps_begin h.toInv hs
  obtain ⟨d, hd, hs⟩ := Option.bind_eq_some_iff.mp hs
  obtain ⟨d', hd', rfl⟩ := Option.map_eq_some_iff.mp hs
  obtain ⟨w, hw, rfl⟩ := Option.map_eq_some_iff.mp hd
  obtain ⟨w', hw', rfl⟩ := Option.map_eq_some_iff.mp hd'
  refine ⟨hkeeps.inv, ?_, ?_, hkeeps.delivered hterse h.present h.delivered⟩
  · have hcalled := present_step (.call request) nofun h.present hw
    exact present_step (.obtain _) nofun hcalled hw'
  · have hcalled := clearedAtEnd_step _ (.call request) _ h.cleared trivial hw
    exact clearedAtEnd_step _ (.obtain _) _ hcalled trivial hw'

theorem reported_step {codec : Codec Frame} {conn conn' : Conn} {a : Act} (hterse : Terse codec)
    (h : conn.Reported) (hsound : conn.Sound a) (hs : conn.step codec a = some conn') :
    conn'.Reported := by
  have hmint : ∀ i, a = .dialler (.mint i) → conn.dialler.minted.length < 2 ^ 64 := by
    rintro i rfl
    exact hsound
  have hkeeps := Conn.keeps_step h.toInv hmint hs
  refine ⟨hkeeps.inv, ?_, ?_, hkeeps.delivered hterse h.present h.delivered⟩
  · exact Conn.keeps_of_dialler (P := fun w => ∀ call ∈ w.calls, call.pc ≠ .cancelled) h.present hs
      fun label w hcancel _ hw => present_step label hcancel h.present hw
  · refine Conn.keeps_of_dialler h.cleared hs fun label w _ hinsert hw => ?_
    refine clearedAtEnd_step _ label _ h.cleared ?_ hw
    cases label with
    | insert i =>
        cases hinsert i rfl
        exact hsound
    | _ => trivial

theorem reported_transport {codec : Codec Frame} (hterse : Terse codec) (t : Transport) (e : Event)
    (t' : Transport) (h : ∀ conn ∈ t.conns, conn.Reported) (hsound : t.Sound e)
    (hs : t.step codec e = some t') : ∀ conn ∈ t'.conns, conn.Reported := by
  refine Transport.forall_step hs h Conn.reported_new
    (fun _ _ _ hconn hbegun => reported_begin hterse hconn hbegun) ?_ ?_ ?_
  · intro conn i d hconn hd
    have hkeeps := hconn.toInv.dialled hd nofun nofun
    obtain ⟨w, hw, rfl⟩ := Option.map_eq_some_iff.mp hd
    exact ⟨hkeeps.inv, present_step (.dropPeer i) nofun hconn.present hw,
      clearedAtEnd_step _ (.dropPeer i) _ hconn.cleared trivial hw,
      hkeeps.delivered hterse hconn.present hconn.delivered⟩
  · intro conn hconn
    exact ⟨inv_uncached hconn.toInv, hconn.present, hconn.cleared, hconn.delivered⟩
  · rintro c a conn conn' rfl hc hconn hacted
    exact reported_step hterse hconn (hsound conn hc) hacted

/-- **Each rpc gets its own answer**, in every run in which no connection's counter
comes round and callers enter the table before its reader has ended. -/
theorem ownAnswers_of_sound (codec : Codec Frame) (hterse : Terse codec) (l : List Event)
    (t : Transport) (hrun : Schedule.run (Transport.step codec) Transport.start l = some t)
    (hsound : Schedule.Along (Transport.step codec) Transport.Sound Transport.start l) :
    ∀ conn ∈ t.conns, OwnAnswers codec conn := by
  have hstart : ∀ conn ∈ Transport.start.conns, conn.Reported := nofun
  have hinv : ∀ conn ∈ t.conns, conn.Reported :=
    Schedule.run_invariant (I := fun t => ∀ conn ∈ t.conns, conn.Reported)
      (reported_transport hterse) l hstart hsound hrun
  exact fun conn hconn => (hinv conn hconn).ownAnswers hterse

/-! ## Frames and bytes -/

section Bytes

variable {codec : Codec Frame}

/-- How many bytes the first `f` frames take. -/
def offset (codec : Codec Frame) (frames : List Frame) (f : Nat) : Nat :=
  ((frames.take f).flatMap (frameBytes codec)).length

theorem Framed.read {writer : Writer} (h : Framed codec writer) {f : Nat} {frame : Frame}
    (hf : writer.completed[f]? = some frame) :
    Framing.readFrame maxFrame (writer.wire.drop (offset codec writer.completed f)) =
      if (codec.encode frame).length ≤ maxFrame then
        .ok (codec.encode frame, writer.wire.drop (offset codec writer.completed (f + 1)))
      else .error .tooLong := by
  obtain ⟨tail, hwire, -⟩ := h.wire
  have hlt := (List.getElem?_eq_some_iff.mp hf).1
  have hnext : writer.completed.take (f + 1) = writer.completed.take f ++ [frame] := by
    rw [List.take_add_one, hf]
    rfl
  have hsplit : writer.wire = (writer.completed.take (f + 1)).flatMap (frameBytes codec) ++
      ((writer.completed.drop (f + 1)).flatMap (frameBytes codec) ++ tail) := by
    rw [← List.append_assoc, ← List.flatMap_append, List.take_append_drop]
    exact hwire
  have hafter : writer.wire.drop (offset codec writer.completed (f + 1)) =
      (writer.completed.drop (f + 1)).flatMap (frameBytes codec) ++ tail := by
    rw [hsplit]
    exact List.drop_left
  have hbefore : writer.wire.drop (offset codec writer.completed f) =
      Framing.frame (codec.encode frame) ++
        ((writer.completed.drop (f + 1)).flatMap (frameBytes codec) ++ tail) := by
    rw [hsplit, hnext, List.flatMap_append, List.flatMap_singleton, List.append_assoc]
    exact List.drop_left
  have hsized := h.sized frame (List.mem_of_getElem? hf)
  rw [hafter, hbefore]
  split
  · rename_i hshort
    exact Framing.readFrame_frame hshort hsized _
  · rename_i hlong
    exact Framing.readFrame_frame_of_lt (Nat.lt_of_not_le hlong) hsized _

theorem Dialler.framed {d d' : Dialler} {label : Label} (h : Framed codec d.peer.writer)
    (hs : d.step codec label = some d') (hcut : NoneCut codec d.peer label) :
    Framed codec d'.peer.writer := by
  obtain ⟨peer, hpeer, rfl⟩ := Option.map_eq_some_iff.mp hs
  exact framed_step d.peer label peer h hcut hpeer

theorem Conn.framed {conn conn' : Conn} {a : Act} (h : Framed codec conn.dialler.peer.writer)
    (hs : conn.step codec a = some conn') : Framed codec conn'.dialler.peer.writer := by
  refine Conn.keeps_of_dialler (P := fun w => Framed codec w.writer) h hs
    fun label w hcancel _ hw => framed_step _ label w h ?_ hw
  cases label with
  | cancel i => exact absurd rfl (hcancel i)
  | _ => trivial

theorem framed_transport (t : Transport) (e : Event) (t' : Transport)
    (h : ∀ conn ∈ t.conns, Framed codec conn.dialler.peer.writer)
    (hs : t.step codec e = some t') : ∀ conn ∈ t'.conns, Framed codec conn.dialler.peer.writer := by
  refine Transport.forall_step hs h framed_new ?_ ?_ (fun _ hconn => hconn) ?_
  · intro conn request conn' hconn hbegun
    obtain ⟨d, hd, hbegun⟩ := Option.bind_eq_some_iff.mp hbegun
    obtain ⟨d', hd', rfl⟩ := Option.map_eq_some_iff.mp hbegun
    exact Dialler.framed (Dialler.framed hconn hd trivial) hd' trivial
  · intro conn i d hconn hd
    exact Dialler.framed hconn hd trivial
  · intro c a conn conn' _ _ hconn hacted
    exact Conn.framed hconn hacted

/-- What `serve` reads off the bytes, after as many frames as it has read, is the
completed frame it is given here. -/
def Conn.ReadsCompleted (codec : Codec Frame) (conn : Conn) : Prop :=
  ∀ frame, conn.dialler.peer.writer.completed[conn.read]? = some frame →
    Framing.readFrame maxFrame (conn.dialler.peer.writer.wire.drop
        (offset codec conn.dialler.peer.writer.completed conn.read)) =
      if (codec.encode frame).length ≤ maxFrame then
        .ok (codec.encode frame, conn.dialler.peer.writer.wire.drop
          (offset codec conn.dialler.peer.writer.completed (conn.read + 1)))
      else .error .tooLong

theorem reads_completed {l : List Event} {t : Transport}
    (hrun : Schedule.run (Transport.step codec) Transport.start l = some t) {conn : Conn}
    (hconn : conn ∈ t.conns) : conn.ReadsCompleted codec := by
  have hstart : ∀ conn ∈ Transport.start.conns, Framed codec conn.dialler.peer.writer := nofun
  have hframed : ∀ conn ∈ t.conns, Framed codec conn.dialler.peer.writer :=
    Schedule.run_invariant_all (I := fun t => ∀ conn ∈ t.conns,
      Framed codec conn.dialler.peer.writer) framed_transport l hstart hrun
  exact fun frame hframe => (hframed conn hconn).read hframe

end Bytes

/-! ## Runs of it -/

/-- A serializer that writes requests and responses byte for byte behind a tag and the
id. -/
noncomputable def plainCodec : Codec Frame where
  encode
    | .request id payload => 0 :: (toBeBytes id ++ payload)
    | .response id (some payload) => 1 :: (toBeBytes id ++ payload)
    | .response id none => 2 :: toBeBytes id
    | .message message => 3 :: (Codec.ofCountable Message).encode message
  decode
    | 0 :: a :: b :: c :: d :: e :: f :: g :: h :: payload =>
        some (.request (fromBeBytes [a, b, c, d, e, f, g, h]) payload)
    | 1 :: a :: b :: c :: d :: e :: f :: g :: h :: payload =>
        some (.response (fromBeBytes [a, b, c, d, e, f, g, h]) (some payload))
    | [2, a, b, c, d, e, f, g, h] => some (.response (fromBeBytes [a, b, c, d, e, f, g, h]) none)
    | 3 :: rest => ((Codec.ofCountable Message).decode rest).map .message
    | _ => none
  decode_encode frame := by
    cases frame with
    | message message =>
        show ((Codec.ofCountable Message).decode _).map Frame.message = _
        rw [Codec.decode_encode]
        rfl
    | request id payload =>
        exact congrArg (fun id => some (Frame.request id payload)) (fromBeBytes_toBeBytes id)
    | response id payload =>
        cases payload with
        | none =>
            exact congrArg (fun id => some (Frame.response id none)) (fromBeBytes_toBeBytes id)
        | some payload =>
            exact congrArg (fun id => some (Frame.response id (some payload)))
              (fromBeBytes_toBeBytes id)

theorem terse_plainCodec : Terse plainCodec := by
  intro id
  show 9 ≤ maxFrame
  decide

/-- An `rpc` up to the request it writes. -/
def asks (i : Nat) : List Event :=
  [.call 0 (.rpc [7]), .act 0 (.dialler (.mint i)), .act 0 (.dialler (.insert i)),
    .act 0 (.dialler (.acquire i)), .act 0 (.dialler (.write i 99)), .act 0 .serve]

/-- Of two requests the second is answered first, and the first dropped. -/
def answeredInReverse : List Event :=
  .dial :: (asks 0 ++ asks 1 ++ [.act 0 (.answer 1 [9]), .act 0 (.respond 1), .act 0 (.drop 0),
    .act 0 (.respond 0), .act 0 .read, .act 0 .read, .act 0 (.dialler (.receive 0)),
    .act 0 (.dialler (.receive 1))])

theorem ownAnswers_answeredInReverse :
    ∃ t, Schedule.run (Transport.step plainCodec) Transport.start answeredInReverse = some t ∧
      (t.conns.map fun conn => conn.dialler.peer.calls.map Call.answer) =
        [[.closed, .sent [9]]] ∧
      ∀ conn ∈ t.conns, OwnAnswers plainCodec conn := by
  refine ⟨_, rfl, rfl, ownAnswers_of_sound plainCodec terse_plainCodec answeredInReverse _ rfl ?_⟩
  have hany : ∀ {P : Conn → Prop} {conn : Conn}, P conn → ∀ conn' ∈ some conn, P conn' := by
    rintro P conn hconn conn' hsome
    cases hsome
    exact hconn
  exact ⟨trivial,
    ⟨trivial, hany (show 0 < 2 ^ 64 by decide), hany nofun, hany trivial, hany trivial,
      hany trivial, trivial, hany (show 1 < 2 ^ 64 by decide), hany nofun, hany trivial,
      hany trivial, hany trivial, hany trivial, hany trivial, hany trivial, hany trivial,
      hany trivial, hany trivial, hany trivial, hany trivial, trivial⟩⟩

/-- The first request is answered with more than `read_replies` takes; then it has
ended, and the second request is dropped. -/
def droppedAfterLong (bytes : Octets) : List Event :=
  .dial :: (asks 0 ++ [.act 0 (.answer 0 bytes), .act 0 (.respond 0), .act 0 .read,
    .act 0 (.dialler .clear), .act 0 (.dialler (.receive 0))] ++ asks 1 ++
    [.act 0 (.drop 1), .act 0 (.respond 1)])

/-- The connection with the first request answered. -/
noncomputable def answeredLong (bytes : Octets) (reader : Reader) (done : Bool)
    (replies : List (Nat × Frame)) : Conn where
  dialler :=
    { peer :=
        { writer := ⟨Framing.frame (plainCodec.encode (.request 0 [7])), false, none,
            [.request 0 [7]]⟩
          pending := [(0, 0)]
          nextRequest := 1
          cached := true
          reader := reader
          calls := [⟨.rpc [7], .awaiting 0, .empty⟩] }
      minted := [0]
      writers := [0] }
  read := 1
  serving := true
  served := [⟨0, 0, [7], .answered bytes, done⟩]
  replies := replies
  broken := false
  resolved := []

/-- `read_replies` breaks out of its loop over the long answer. -/
theorem run_answeredLong (bytes : Octets) (hlong : maxFrame < bytes.length)
    (hfits : bytes.length + 9 < 2 ^ 32) (rest : List Event) :
    Schedule.run (Transport.step plainCodec) ⟨[answeredLong bytes .reading false []]⟩
      (.act 0 (.respond 0) :: .act 0 .read :: rest) =
      Schedule.run (Transport.step plainCodec)
        ⟨[answeredLong bytes .closing true [(0, .response 0 (some bytes))]]⟩ rest := by
  have hlength : (plainCodec.encode (.response 0 (some bytes))).length = bytes.length + 9 := rfl
  have hrespond : (answeredLong bytes .reading false []).step plainCodec (.respond 0) =
      some (answeredLong bytes .reading true [(0, .response 0 (some bytes))]) :=
    if_pos ⟨by rw [hlength]; exact hfits, rfl⟩
  have hread : (answeredLong bytes .reading true [(0, .response 0 (some bytes))]).step plainCodec
      .read = some (answeredLong bytes .closing true [(0, .response 0 (some bytes))]) :=
    if_neg (by
      rw [hlength]
      exact Nat.not_le_of_lt (Nat.lt_of_lt_of_le hlong (Nat.le_add_right _ 9)))
  have hact : ∀ {conn conn' : Conn} {a : Act}, conn.step plainCodec a = some conn' →
      Transport.step plainCodec ⟨[conn]⟩ (.act 0 a) = some ⟨[conn']⟩ := by
    intro conn conn' a hs
    show (conn.step plainCodec a).map _ = _
    rw [hs]
    rfl
  rw [Schedule.run_cons_of_step (hact hrespond), Schedule.run_cons_of_step (hact hread)]

/-- The connection when the second has been dropped. -/
noncomputable def parked (bytes : Octets) : Conn where
  dialler :=
    { peer :=
        { writer := ⟨Framing.frame (plainCodec.encode (.request 0 [7])) ++
            Framing.frame (plainCodec.encode (.request 1 [7])), false, none,
            [.request 0 [7], .request 1 [7]]⟩
          pending := [(1, 1)]
          nextRequest := 2
          cached := true
          reader := .ended
          calls := [⟨.rpc [7], .returned, .closed⟩, ⟨.rpc [7], .awaiting 1, .empty⟩] }
      minted := [0, 1]
      writers := [0, 1] }
  read := 2
  serving := true
  served := [⟨0, 0, [7], .answered bytes, true⟩, ⟨1, 1, [7], .dropped, true⟩]
  replies := [(0, .response 0 (some bytes)), (1, .response 1 none)]
  broken := false
  resolved := []

theorem atRest_parked (bytes : Octets) : (parked bytes).AtRest plainCodec := by
  intro a ha
  cases a with
  | dialler label =>
      cases label with
      | fail => cases ha
      | mint i | insert i | acquire i | write i n | remove i | receive i =>
          -- one call has returned, the other waits for an answer
          match i with
          | 0 => rfl
          | 1 => rfl
          | i + 2 => rfl
      | clear | call | obtain | dropPeer | respond | close | cancel => rfl
  | serve => rfl
  | respond k =>
      match k with
      | 0 => rfl
      | 1 => rfl
      | k + 2 => rfl
  | read => rfl
  | hangUp | answer | drop | failRespond | reset => cases ha

theorem dropped_responder_parks_rpc :
    ¬ ∀ (codec : Codec Frame), Terse codec → ∀ (l : List Event) (t : Transport),
      Schedule.run (Transport.step codec) Transport.start l = some t →
      ∀ conn ∈ t.conns, OwnAnswers codec conn := by
  intro hall
  have hfits : maxFrame + 1 + 9 < 2 ^ 32 := by decide
  obtain ⟨bytes, hbytes⟩ : ∃ bytes : Octets, bytes.length = maxFrame + 1 :=
    ⟨List.replicate (maxFrame + 1) 0, List.length_replicate⟩
  have hrun : Schedule.run (Transport.step plainCodec) Transport.start (droppedAfterLong bytes) =
      some ⟨[parked bytes]⟩ :=
    (run_answeredLong bytes (by rw [hbytes]; exact Nat.lt_succ_self _)
      (by rw [hbytes]; exact hfits) _).trans rfl
  have hanswers := hall plainCodec terse_plainCodec _ _ hrun _ (List.mem_singleton_self _)
  obtain ⟨call, hcall, hpc, -⟩ :=
    hanswers.fails 1 1 _ ⟨_, rfl, rfl⟩ rfl rfl (atRest_parked bytes)
  cases hcall
  cases hpc

end HorsieActor.Ports.Tcp
