import HorsieActor.Ports.Handshake
import HorsieActor.Ports.TcpWholeFrames
import HorsieActor.Verified.Channel
import HorsieActor.Verified.Slots

/-!
# The accepting side

The accept loop of `bind` in `src/transport_tcp.rs` and the `serve` it spawns for every
connection, down to the two inboxes they share.  Bytes arrive in pieces of any size.  A
`serve` reads a hello, checks it, answers, and then reads frame after frame; a message or
a request waits for room in its inbox, and while it does nothing more is read from that
connection.  A stream may end or break at any point, and the node may drop either
receiver.

What a connection is due to deliver is a function of its bytes alone (`due`).  What it has
delivered is the beginning of that, all of it when its `serve` waits for more bytes, and
nothing unless the bytes begin with the hello of a node that knows the secret; all this
whatever the other connections do (`inbound_delivers`).  With a dialler at the other end
that cuts no frame, it is the beginning of what the dialler has written
(`written_arrives_in_order`).
-/

namespace HorsieActor.Ports.Tcp.Accept

open HorsieActor.Verified

/-- Inbound queue depth. -/
def inboxCapacity : Nat := 256

/-- What a frame puts into an inbox. -/
inductive Delivery where
  | message (m : Message)
  | request (id : UInt64) (payload : Octets)
  deriving DecidableEq, Repr

/-- A response on a connection that was dialled is ignored. -/
def delivery : Frame → Option Delivery
  | .message message => some (.message message)
  | .request id payload => some (.request id payload)
  | .response _ _ => none

def Delivery.message? : Delivery → Option Message
  | .message m => some m
  | .request _ _ => none

def Delivery.request? : Delivery → Option (UInt64 × Octets)
  | .message _ => none
  | .request id payload => some (id, payload)

/-- Where a `serve` is. -/
inductive Serving where
  | hello
  /-- The hello was good: about to answer it. -/
  | greeting
  | reading
  /-- Awaiting room in an inbox. -/
  | posting (d : Delivery)
  | returned
  deriving DecidableEq, Repr

structure Inbound where
  serving : Serving
  /-- What has arrived and has not been read. -/
  unread : Octets
  /-- History: everything that has arrived. -/
  received : Octets
  deriving DecidableEq, Repr

structure World where
  conns : List Inbound
  inbox : Channel inboxCapacity Message
  rpcInbox : Channel inboxCapacity (UInt64 × Octets)
  /-- The node has not dropped the receiver of the messages, or of the requests. -/
  inboxOpen : Bool
  rpcInboxOpen : Bool
  /-- History: what was put into the inboxes, and by which connection. -/
  delivered : List (Nat × Delivery)
  deriving DecidableEq, Repr

def World.bind : World := ⟨[], .empty, .empty, true, true, []⟩

/-- What a connection has delivered. -/
def World.deliveredBy (w : World) (c : Nat) : List Delivery :=
  (w.delivered.filter fun e => e.1 = c).map Prod.snd

def World.setConn (w : World) (c : Nat) (conn : Inbound) : World :=
  { w with conns := w.conns.set c conn }

/-! ## Steps -/

inductive Label where
  | accept
  | arrive (c : Nat) (bytes : Octets)
  /-- The stream ends or breaks, under a read or a write. -/
  | fail (c : Nat)
  /-- A `serve` reads a frame. -/
  | read (c : Nat)
  /-- It has answered a hello. -/
  | greet (c : Nat)
  /-- A `send` into an inbox returns. -/
  | post (c : Nat)
  /-- The node takes a message, or a request. -/
  | recv
  | recvRpc
  /-- It drops the receiver of the messages, or of the requests. -/
  | dropInbox
  | dropRpcInbox
  deriving DecidableEq, Repr

section Machine

variable (codec : Codec Frame) (sha : Digest) (secret : Octets)

/-- What `serve` makes of the next frame of a stream it has accepted. -/
def onFrame (bytes : Octets) : Serving :=
  match codec.decode bytes with
  | none => .returned
  | some frame =>
      match delivery frame with
      | none => .reading
      | some d => .posting d

def onHello (bytes : Octets) : Serving :=
  match checkHello sha secret bytes with
  | .error _ => .returned
  | .ok _ => .greeting

/-- Take a frame off the stream, if it is there. -/
def Inbound.read (conn : Inbound) (next : Octets → Serving) : Option Inbound :=
  match readFrameFrom conn.unread with
  | .error .unexpectedEof => none
  | .error _ => some { conn with serving := .returned }
  | .ok (bytes, rest) => some { conn with serving := next bytes, unread := rest }

/-- Somebody will take it out of its inbox again. -/
def World.takes (w : World) : Delivery → Bool
  | .message _ => w.inboxOpen
  | .request _ _ => w.rpcInboxOpen

/-- Put something into its inbox. -/
def World.send (w : World) (c : Nat) : Delivery → Option World
  | .message m =>
      (w.inbox.send m).map fun inbox =>
        { w with inbox := inbox, delivered := w.delivered ++ [(c, .message m)] }
  | .request id payload =>
      (w.rpcInbox.send (id, payload)).map fun rpcInbox =>
        { w with rpcInbox := rpcInbox, delivered := w.delivered ++ [(c, .request id payload)] }

def step (w : World) : Label → Option World
  | .accept => some { w with conns := w.conns ++ [⟨.hello, [], []⟩] }
  | .arrive c bytes =>
      w.conns[c]?.map fun conn => w.setConn c
        { conn with unread := conn.unread ++ bytes, received := conn.received ++ bytes }
  | .fail c =>
      match w.conns[c]? with
      | none => none
      | some conn =>
          match conn.serving with
          | .hello | .greeting | .reading => some (w.setConn c { conn with serving := .returned })
          | .posting _ | .returned => none
  | .read c =>
      match w.conns[c]? with
      | none => none
      | some conn =>
          match conn.serving with
          | .hello => (conn.read (onHello sha secret)).map (w.setConn c)
          | .reading => (conn.read (onFrame codec)).map (w.setConn c)
          | .greeting | .posting _ | .returned => none
  | .greet c =>
      match w.conns[c]? with
      | none => none
      | some conn =>
          if conn.serving = .greeting then some (w.setConn c { conn with serving := .reading })
          else none
  | .post c =>
      match w.conns[c]? with
      | none => none
      | some conn =>
          match conn.serving with
          | .posting d =>
              if w.takes d then
                (w.send c d).map fun w => w.setConn c { conn with serving := .reading }
              else some (w.setConn c { conn with serving := .returned })
          | .hello | .greeting | .reading | .returned => none
  | .recv => if w.inboxOpen then w.inbox.recv.map fun r => { w with inbox := r.2 } else none
  | .recvRpc =>
      if w.rpcInboxOpen then w.rpcInbox.recv.map fun r => { w with rpcInbox := r.2 } else none
  | .dropInbox => some { w with inboxOpen := false }
  | .dropRpcInbox => some { w with rpcInboxOpen := false }

/-! ## The property -/

/-- What a connection with these bytes has to deliver. -/
def due (wire : Octets) : List Delivery :=
  match readFrameFrom wire with
  | .error _ => []
  | .ok (hello, rest) =>
      match checkHello sha secret hello with
      | .error _ => []
      | .ok _ => (accepted codec rest).filterMap delivery

structure Delivers (w : World) : Prop where
  /-- A connection delivers what is due, in order. -/
  due : ∀ (c : Nat) (conn : Inbound), w.conns[c]? = some conn →
    w.deliveredBy c <+: due codec sha secret conn.received
  /-- It has delivered all of it when it waits for more bytes. -/
  whole : ∀ (c : Nat) (conn : Inbound), w.conns[c]? = some conn → conn.serving = .reading →
    readFrameFrom conn.unread = .error .unexpectedEof →
    w.deliveredBy c = Accept.due codec sha secret conn.received
  /-- Whatever is delivered comes from a node that knows the secret. -/
  known : ∀ e ∈ w.delivered, ∃ conn node nonce rest, w.conns[e.1]? = some conn ∧
    conn.received = Framing.frame (helloBytes sha secret node nonce) ++ rest
  /-- The inboxes hold it in the order it came in. -/
  messages : w.inbox.all = w.delivered.filterMap fun e => e.2.message?
  requests : w.rpcInbox.all = w.delivered.filterMap fun e => e.2.request?

end Machine

/-! ## Frames off a stream -/

section Streams

variable {codec : Codec Frame} {sha : Digest} {secret : Octets} {bytes rest tail unread : Octets}

theorem readFrameFrom_eq_ok_iff :
    readFrameFrom unread = .ok (bytes, rest) ↔
      unread = Framing.frame bytes ++ rest ∧ bytes.length ≤ maxFrame := by
  rw [← Framing.readFrame_eq_ok_iff maxFrame_lt, readFrameFrom]
  cases Framing.readFrame maxFrame unread with
  | error e => exact ⟨nofun, nofun⟩
  | ok r => simp only [Except.ok.injEq]

theorem accepted_of_error {e : IoError} (h : readFrameFrom unread = .error e) :
    accepted codec unread = [] := by
  rw [readFrameFrom] at h
  cases hread : Framing.readFrame maxFrame unread with
  | error e =>
      rw [accepted, Framing.readFrames, hread]
      rfl
  | ok r =>
      rw [hread] at h
      cases h

/-- The first frame, and then the rest. -/
theorem accepted_frame (hle : bytes.length ≤ maxFrame) :
    accepted codec (Framing.frame bytes ++ tail) =
      match codec.decode bytes with
      | none => []
      | some frame => frame :: accepted codec tail := by
  rw [accepted, Framing.readFrames_frame_append maxFrame_lt hle]
  rfl

/-- What is due on a stream that begins with a good hello. -/
theorem due_hello (sha : Digest) (secret : Octets) (node : NodeId) (nonce : UInt64)
    (behind : Octets) :
    due codec sha secret (Framing.frame (helloBytes sha secret node nonce) ++ behind) =
      (accepted codec behind).filterMap delivery := by
  have hshort : (helloBytes sha secret node nonce).length ≤ maxFrame := by
    rw [length_helloBytes]
    decide
  have hcheck : checkHello sha secret (helloBytes sha secret node nonce) = .ok node :=
    checkHello_eq_ok_iff.mpr ⟨nonce, rfl⟩
  rw [due, readFrameFrom_frame hshort behind]
  simp only [hcheck]

end Streams

/-! ## One connection -/

section Connection

variable {codec : Codec Frame} {sha : Digest} {secret : Octets}

/-- An accepted stream, read up to where `unread` begins: what is due on it, however it
goes on, is what has been delivered, what waits for room, and what is due on the rest. -/
def Opened (codec : Codec Frame) (sha : Digest) (secret received unread : Octets)
    (done pending : List Delivery) : Prop :=
  ∃ node nonce consumed,
    received = Framing.frame (helloBytes sha secret node nonce) ++ (consumed ++ unread) ∧
      ∀ tail, (accepted codec (consumed ++ tail)).filterMap delivery =
        done ++ pending ++ (accepted codec tail).filterMap delivery

/-- A stream that is read no further: what has been delivered was due. -/
def Closed (codec : Codec Frame) (sha : Digest) (secret received : Octets)
    (done : List Delivery) : Prop :=
  done = [] ∨ ∃ node nonce behind,
    received = Framing.frame (helloBytes sha secret node nonce) ++ behind ∧
      ∀ more, done <+: (accepted codec (behind ++ more)).filterMap delivery

/-- How far a connection has come. -/
def Follows (codec : Codec Frame) (sha : Digest) (secret : Octets) (conn : Inbound)
    (done : List Delivery) : Prop :=
  match conn.serving with
  | .hello => done = [] ∧ conn.received = conn.unread
  | .greeting | .reading => Opened codec sha secret conn.received conn.unread done []
  | .posting d => Opened codec sha secret conn.received conn.unread done [d]
  | .returned => Closed codec sha secret conn.received done

variable {received unread bytes rest more : Octets} {done pending : List Delivery}

theorem Opened.closed (h : Opened codec sha secret received unread done pending) :
    Closed codec sha secret received done := by
  obtain ⟨node, nonce, consumed, heq, hdue⟩ := h
  refine Or.inr ⟨node, nonce, consumed ++ unread, heq, fun more => ?_⟩
  rw [List.append_assoc, hdue, List.append_assoc]
  exact List.prefix_append ..

theorem Opened.arrive (h : Opened codec sha secret received unread done pending) :
    Opened codec sha secret (received ++ more) (unread ++ more) done pending := by
  obtain ⟨node, nonce, consumed, rfl, hdue⟩ := h
  refine ⟨node, nonce, consumed, ?_, hdue⟩
  simp only [List.append_assoc]

theorem Closed.arrive (h : Closed codec sha secret received done) :
    Closed codec sha secret (received ++ more) done := by
  rcases h with h | ⟨node, nonce, behind, rfl, hdue⟩
  · exact Or.inl h
  · refine Or.inr ⟨node, nonce, behind ++ more, List.append_assoc .., fun more' => ?_⟩
    rw [List.append_assoc]
    exact hdue _

theorem Opened.hello {node : NodeId} (hread : readFrameFrom unread = .ok (bytes, rest))
    (hcheck : checkHello sha secret bytes = .ok node) :
    Opened codec sha secret unread rest [] [] := by
  obtain ⟨nonce, rfl⟩ := checkHello_eq_ok_iff.mp hcheck
  exact ⟨node, nonce, [], (readFrameFrom_eq_ok_iff.mp hread).1, fun _ => rfl⟩

/-- One frame more has been read. -/
theorem Opened.frame {frame : Frame} (h : Opened codec sha secret received unread done [])
    (hread : readFrameFrom unread = .ok (bytes, rest)) (hdecode : codec.decode bytes = some frame) :
    Opened codec sha secret received rest done (delivery frame).toList := by
  obtain ⟨node, nonce, consumed, rfl, hdue⟩ := h
  obtain ⟨rfl, hle⟩ := readFrameFrom_eq_ok_iff.mp hread
  refine ⟨node, nonce, consumed ++ Framing.frame bytes, ?_, fun tail => ?_⟩
  · simp only [List.append_assoc]
  · rw [List.append_assoc, hdue, accepted_frame hle, hdecode, List.append_nil]
    cases hd : delivery frame with
    | none => simp [hd]
    | some d => simp [hd]

theorem Opened.post {d : Delivery} (h : Opened codec sha secret received unread done [d]) :
    Opened codec sha secret received unread (done ++ [d]) [] := by
  obtain ⟨node, nonce, consumed, heq, hdue⟩ := h
  refine ⟨node, nonce, consumed, heq, fun tail => ?_⟩
  rw [List.append_nil]
  exact hdue tail

theorem Opened.due_eq (h : Opened codec sha secret received unread done pending) :
    due codec sha secret received =
      done ++ pending ++ (accepted codec unread).filterMap delivery := by
  obtain ⟨node, nonce, consumed, rfl, hdue⟩ := h
  rw [due_hello, hdue]

theorem Closed.prefix_due (h : Closed codec sha secret received done) :
    done <+: due codec sha secret received := by
  rcases h with rfl | ⟨node, nonce, behind, rfl, hdue⟩
  · exact List.nil_prefix
  · rw [due_hello]
    have := hdue []
    rwa [List.append_nil] at this

theorem Follows.closed {conn : Inbound} (h : Follows codec sha secret conn done) :
    Closed codec sha secret conn.received done := by
  unfold Follows at h
  split at h
  · exact Or.inl h.1
  · exact h.closed
  · exact h.closed
  · exact h.closed
  · exact h

theorem Follows.arrive {conn : Inbound} (h : Follows codec sha secret conn done) (bytes : Octets) :
    Follows codec sha secret
      { conn with unread := conn.unread ++ bytes, received := conn.received ++ bytes } done := by
  obtain ⟨serving, unread, received⟩ := conn
  cases serving with
  | hello => exact ⟨h.1, congrArg (· ++ bytes) h.2⟩
  | greeting => exact Opened.arrive h
  | reading => exact Opened.arrive h
  | posting d => exact Opened.arrive h
  | returned => exact Closed.arrive h

/-- A `serve` takes a frame off the stream. -/
theorem Follows.read {conn conn' : Inbound} {next : Octets → Serving}
    (h : Closed codec sha secret conn.received done)
    (hnext : ∀ bytes rest, readFrameFrom conn.unread = .ok (bytes, rest) →
      Follows codec sha secret { conn with serving := next bytes, unread := rest } done)
    (hread : conn.read next = some conn') : Follows codec sha secret conn' done := by
  unfold Inbound.read at hread
  split at hread
  · cases hread
  · cases hread
    exact h
  · cases hread
    exact hnext _ _ ‹_›

theorem Follows.onHello {conn : Inbound} (hdone : done = []) (hall : conn.received = conn.unread)
    (hread : readFrameFrom conn.unread = .ok (bytes, rest)) :
    Follows codec sha secret { conn with serving := onHello sha secret bytes, unread := rest }
      done := by
  unfold Accept.onHello
  cases hcheck : checkHello sha secret bytes with
  | error e => exact Or.inl hdone
  | ok node =>
      subst hdone
      show Opened codec sha secret conn.received rest [] []
      rw [hall]
      exact .hello hread hcheck

theorem Follows.onFrame {conn : Inbound}
    (h : Opened codec sha secret conn.received conn.unread done [])
    (hread : readFrameFrom conn.unread = .ok (bytes, rest)) :
    Follows codec sha secret { conn with serving := onFrame codec bytes, unread := rest } done := by
  unfold Accept.onFrame
  cases hdecode : codec.decode bytes with
  | none => exact h.closed
  | some frame =>
      have hframe := h.frame hread hdecode
      dsimp only
      cases hd : delivery frame with
      | none =>
          rw [hd] at hframe
          exact hframe
      | some d =>
          rw [hd] at hframe
          exact hframe

end Connection

/-! ## All of them -/

structure Inv (codec : Codec Frame) (sha : Digest) (secret : Octets) (w : World) : Prop where
  follows : ∀ (c : Nat) (conn : Inbound), w.conns[c]? = some conn →
    Follows codec sha secret conn (w.deliveredBy c)
  accepted : ∀ e ∈ w.delivered, e.1 < w.conns.length
  messages : w.inbox.all = w.delivered.filterMap fun e => e.2.message?
  requests : w.rpcInbox.all = w.delivered.filterMap fun e => e.2.request?

section Steps

variable {codec : Codec Frame} {sha : Digest} {secret : Octets} {w w' : World} {c : Nat}
  {conn conn' : Inbound}

theorem inv_bind : Inv codec sha secret World.bind where
  follows := nofun
  accepted := nofun
  messages := rfl
  requests := rfl

theorem Inv.setConn (h : Inv codec sha secret w) (hc : w.conns[c]? = some conn)
    (hfollows : Follows codec sha secret conn' (w.deliveredBy c)) :
    Inv codec sha secret (w.setConn c conn') where
  follows := by
    intro c' x hx
    rcases (Slots.getElem?_set_iff hc).mp hx with ⟨rfl, rfl⟩ | ⟨-, hx⟩
    · exact hfollows
    · exact h.follows c' x hx
  accepted := by
    intro e he
    show e.1 < (w.conns.set c conn').length
    rw [List.length_set]
    exact h.accepted e he
  messages := h.messages
  requests := h.requests

/-- The inboxes have been taken from. -/
theorem Inv.taken (h : Inv codec sha secret w) {inbox : Channel inboxCapacity Message}
    {rpcInbox : Channel inboxCapacity (UInt64 × Octets)} (hall : inbox.all = w.inbox.all)
    (hall' : rpcInbox.all = w.rpcInbox.all) :
    Inv codec sha secret { w with inbox := inbox, rpcInbox := rpcInbox } where
  follows := h.follows
  accepted := h.accepted
  messages := hall.trans h.messages
  requests := hall'.trans h.requests

theorem deliveredBy_snoc (w : World) (c c' : Nat) (d : Delivery) :
    (((w.delivered ++ [(c, d)]).filter fun e => e.1 = c').map Prod.snd) =
      w.deliveredBy c' ++ if c = c' then [d] else [] := by
  by_cases hc : c = c'
  · simp [World.deliveredBy, hc]
  · simp [World.deliveredBy, hc]

/-- What a `send` into an inbox does. -/
theorem World.send_some {d : Delivery} (h : w.send c d = some w') (hinv : Inv codec sha secret w) :
    w'.conns = w.conns ∧ w'.delivered = w.delivered ++ [(c, d)] ∧
      (w'.inbox.all = w'.delivered.filterMap fun e => e.2.message?) ∧
      w'.rpcInbox.all = w'.delivered.filterMap fun e => e.2.request? := by
  cases d with
  | message m =>
      obtain ⟨inbox, hsend, rfl⟩ := Option.map_eq_some_iff.mp h
      refine ⟨rfl, rfl, ?_, ?_⟩
      · simp [Channel.all_of_send hsend, hinv.messages, Delivery.message?]
      · simp [hinv.requests, Delivery.request?]
  | request id payload =>
      obtain ⟨rpcInbox, hsend, rfl⟩ := Option.map_eq_some_iff.mp h
      refine ⟨rfl, rfl, ?_, ?_⟩
      · simp [hinv.messages, Delivery.message?]
      · simp [Channel.all_of_send hsend, hinv.requests, Delivery.request?]

theorem Inv.post (h : Inv codec sha secret w) {d : Delivery} (hc : w.conns[c]? = some conn)
    (hserving : conn.serving = .posting d) (hs : w.send c d = some w') :
    Inv codec sha secret (w'.setConn c { conn with serving := .reading }) := by
  obtain ⟨hconns, hdelivered, hmessages, hrequests⟩ := World.send_some hs h
  have hby : ∀ c', w'.deliveredBy c' = w.deliveredBy c' ++ if c = c' then [d] else [] := by
    intro c'
    rw [World.deliveredBy, hdelivered, deliveredBy_snoc]
  have hc' : w'.conns[c]? = some conn := hconns ▸ hc
  refine ⟨fun c' x hx => ?_, fun e he => ?_, hmessages, hrequests⟩
  · show Follows codec sha secret x (w'.deliveredBy c')
    rcases (Slots.getElem?_set_iff hc').mp hx with ⟨rfl, rfl⟩ | ⟨hne, hx⟩
    · rw [hby, if_pos rfl]
      have hopen := h.follows c' conn hc
      unfold Follows at hopen
      rw [hserving] at hopen
      exact hopen.post
    · rw [hby, if_neg (Ne.symm hne), List.append_nil]
      exact h.follows c' x (hconns ▸ hx)
  · show e.1 < (w'.conns.set c _).length
    rw [List.length_set, hconns]
    rw [show (w'.setConn c { conn with serving := .reading }).delivered = w'.delivered from rfl,
      hdelivered] at he
    rcases List.mem_append.mp he with hold | hnew
    · exact h.accepted e hold
    · cases List.mem_singleton.mp hnew
      exact (List.getElem?_eq_some_iff.mp hc).1

theorem inv_step (w : World) (a : Label) (w' : World) (h : Inv codec sha secret w)
    (hs : step codec sha secret w a = some w') : Inv codec sha secret w' := by
  cases a with
  | accept =>
      cases hs
      refine ⟨fun c conn hc => ?_, fun e he => ?_, h.messages, h.requests⟩
      · rcases Slots.getElem?_snoc_iff.mp hc with ⟨rfl, rfl⟩ | hold
        · refine ⟨?_, rfl⟩
          -- nobody has delivered anything under a number that was not given out
          have hnone : w.delivered.filter (fun e => e.1 = w.conns.length) = [] := by
            rw [List.filter_eq_nil_iff]
            intro e he
            have := h.accepted e he
            simp only [decide_eq_true_eq]
            omega
          exact congrArg (List.map Prod.snd) hnone
        · exact h.follows c conn hold
      · have := h.accepted e he
        show e.1 < (w.conns ++ _).length
        rw [List.length_append]
        omega
  | arrive c bytes =>
      obtain ⟨conn, hc, rfl⟩ := Option.map_eq_some_iff.mp hs
      exact h.setConn hc ((h.follows c conn hc).arrive bytes)
  | fail c =>
      simp only [step] at hs
      split at hs
      · cases hs
      · rename_i conn hc
        have hclosed := (h.follows c conn hc).closed
        split at hs
        · cases hs
          exact h.setConn hc hclosed
        · cases hs
          exact h.setConn hc hclosed
        · cases hs
          exact h.setConn hc hclosed
        · cases hs
        · cases hs
  | read c =>
      simp only [step] at hs
      split at hs
      · cases hs
      · rename_i conn hc
        have hfollows := h.follows c conn hc
        have hclosed := hfollows.closed
        unfold Follows at hfollows
        split at hs
        · rename_i hserving
          rw [hserving] at hfollows
          obtain ⟨conn', hread, rfl⟩ := Option.map_eq_some_iff.mp hs
          exact h.setConn hc (.read hclosed (fun _ _ => .onHello hfollows.1 hfollows.2) hread)
        · rename_i hserving
          rw [hserving] at hfollows
          obtain ⟨conn', hread, rfl⟩ := Option.map_eq_some_iff.mp hs
          exact h.setConn hc (.read hclosed (fun _ _ => .onFrame hfollows) hread)
        · cases hs
        · cases hs
        · cases hs
  | greet c =>
      simp only [step] at hs
      split at hs
      · cases hs
      · rename_i conn hc
        split at hs
        · rename_i hserving
          cases hs
          have hfollows := h.follows c conn hc
          unfold Follows at hfollows
          rw [hserving] at hfollows
          exact h.setConn hc hfollows
        · cases hs
  | post c =>
      simp only [step] at hs
      split at hs
      · cases hs
      · rename_i conn hc
        split at hs
        · rename_i d hserving
          split at hs
          · obtain ⟨w₁, hsend, rfl⟩ := Option.map_eq_some_iff.mp hs
            exact h.post hc hserving hsend
          · cases hs
            exact h.setConn hc (h.follows c conn hc).closed
        · cases hs
        · cases hs
        · cases hs
        · cases hs
  | recv =>
      simp only [step] at hs
      split at hs
      · obtain ⟨r, hrecv, rfl⟩ := Option.map_eq_some_iff.mp hs
        exact h.taken (Channel.all_of_recv hrecv) rfl
      · cases hs
  | recvRpc =>
      simp only [step] at hs
      split at hs
      · obtain ⟨r, hrecv, rfl⟩ := Option.map_eq_some_iff.mp hs
        exact h.taken rfl (Channel.all_of_recv hrecv)
      · cases hs
  | dropInbox =>
      cases hs
      exact ⟨h.follows, h.accepted, h.messages, h.requests⟩
  | dropRpcInbox =>
      cases hs
      exact ⟨h.follows, h.accepted, h.messages, h.requests⟩

theorem Inv.delivers (h : Inv codec sha secret w) : Delivers codec sha secret w where
  due := fun c conn hc => (h.follows c conn hc).closed.prefix_due
  whole := by
    intro c conn hc hserving hwaits
    have hopen := h.follows c conn hc
    unfold Follows at hopen
    rw [hserving] at hopen
    rw [Opened.due_eq hopen, accepted_of_error hwaits, List.append_nil]
    exact (List.append_nil _).symm
  known := by
    intro e he
    obtain ⟨conn, hc⟩ : ∃ conn, w.conns[e.1]? = some conn :=
      ⟨_, List.getElem?_eq_getElem (h.accepted e he)⟩
    have hmem : e.2 ∈ w.deliveredBy e.1 :=
      List.mem_map.mpr ⟨e, List.mem_filter.mpr ⟨he, decide_eq_true rfl⟩, rfl⟩
    rcases (h.follows e.1 conn hc).closed with hnone | ⟨node, nonce, behind, heq, -⟩
    · rw [hnone] at hmem
      cases hmem
    · exact ⟨conn, node, nonce, behind, hc, heq⟩
  messages := h.messages
  requests := h.requests

end Steps

/-- **Inbound connections deliver what is due on them, and nothing else.** -/
theorem inbound_delivers (codec : Codec Frame) (sha : Digest) (secret : Octets) (l : List Label)
    (w : World) (hrun : Schedule.run (step codec sha secret) World.bind l = some w) :
    Delivers codec sha secret w :=
  (Schedule.run_invariant_all inv_step l inv_bind hrun).delivers

/-- The hello of a node that knows the secret. -/
def memberHello : Octets := Framing.frame (helloBytes lengthDigest [1, 2] ⟨7⟩ 9)

/-- Two connections; one sends a frame without a hello, the other a message in two pieces. -/
def strangerAndMember : List Label :=
  [.accept, .accept, .arrive 0 [0, 0, 0, 1, 1], .arrive 1 memberHello, .read 0, .read 1,
    .arrive 1 [0, 0], .greet 1, .arrive 1 [0, 1, 1], .read 1, .post 1, .recv]

theorem inbound_delivers_member :
    ∃ w, Schedule.run (step demoCodec lengthDigest [1, 2]) World.bind strangerAndMember = some w ∧
      w.delivered = [(1, .message Tcp.hello)] ∧ Delivers demoCodec lengthDigest [1, 2] w :=
  ⟨_, rfl, rfl, inbound_delivers demoCodec lengthDigest [1, 2] strangerAndMember _ rfl⟩

/-- **What a dialler has written arrives in order.**  The dialler holds the secret and
cuts no frame, however long its frames are; then what its connection has delivered,
whatever else is connected, is the beginning of the messages and requests whose writes
have returned `Ok`. -/
theorem written_arrives_in_order (codec : Codec Frame) (sha : Digest) (secret : Octets)
    (node : NodeId) (nonce : UInt64) (l : List Tcp.Label) (peer : Tcp.World)
    (hpeer : Schedule.run (Tcp.step codec) Tcp.World.dialled l = some peer)
    (huncut : Schedule.Along (Tcp.step codec) (NoneCut codec) Tcp.World.dialled l)
    (l' : List Label) (w : World)
    (hrun : Schedule.run (step codec sha secret) World.bind l' = some w) (c : Nat)
    (conn : Inbound) (hc : w.conns[c]? = some conn)
    (hwire : conn.received <+:
      Framing.frame (helloBytes sha secret node nonce) ++ peer.writer.wire) :
    w.deliveredBy c <+: peer.writer.completed.filterMap delivery := by
  have hinv : Inv codec sha secret w := Schedule.run_invariant_all inv_step l' inv_bind hrun
  have hframed : Framed codec peer.writer :=
    Schedule.run_invariant (I := fun w : Tcp.World => Framed codec w.writer) framed_step l
      framed_new huncut hpeer
  obtain ⟨more, hmore⟩ := hwire
  have hclosed : Closed codec sha secret (conn.received ++ more) (w.deliveredBy c) :=
    (hinv.follows c conn hc).closed.arrive
  have hdue := hclosed.prefix_due
  rw [hmore, due_hello] at hdue
  exact hdue.trans (hframed.accepted_prefix.filterMap delivery)

/-- A message is written in two pieces. -/
def sendsHello : List Tcp.Label :=
  [.call (.send Tcp.hello), .obtain 0, .acquire 0, .write 0 1, .write 0 5]

theorem sendsHello_noneCut :
    Schedule.Along (Tcp.step demoCodec) (NoneCut demoCodec) Tcp.World.dialled sendsHello :=
  ⟨trivial, trivial, trivial, trivial, trivial, trivial⟩

theorem written_arrives_member :
    ∃ peer w conn, Schedule.run (Tcp.step demoCodec) Tcp.World.dialled sendsHello = some peer ∧
      Schedule.run (step demoCodec lengthDigest [1, 2]) World.bind strangerAndMember = some w ∧
      w.conns[1]? = some conn ∧ w.deliveredBy 1 = [.message Tcp.hello] ∧
      w.deliveredBy 1 <+: peer.writer.completed.filterMap delivery :=
  ⟨_, _, _, rfl, rfl, rfl, rfl, written_arrives_in_order demoCodec lengthDigest [1, 2] ⟨7⟩ 9
    sendsHello _ rfl sendsHello_noneCut strangerAndMember _ rfl 1 _ rfl ⟨[], rfl⟩⟩

end HorsieActor.Ports.Tcp.Accept
