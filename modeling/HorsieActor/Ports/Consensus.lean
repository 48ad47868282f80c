import HorsieActor.Ports.TcpRpc

/-!
# Consensus messages over the transport

Port of `src/cluster/network.rs`: `PeerLink` encodes a Raft request, sends it by `rpc`
and decodes what comes back; `serve_consensus` on the other side decodes the request,
hands it to that node's Raft and answers with what Raft returned.  Raft itself is a
parameter of every answer (`Raft`): what it would return at that moment, to each of the
three requests.

The transport keeps answers apart (`Ports/TcpRpc.lean`).  What is added here is that a call
writes its own request and no other (`Spoken`), and that Raft gives up on calls, which it
does by dropping their futures (`Event.cancel`).  The answer an `append_entries`, a `vote` or
a `full_snapshot` returns is what the peer's Raft said to exactly that request, which it was
handed once (`consensus_answers`); so nodes that run this code never see an answer of the
wrong kind.  The exception is a call that is dropped with part of its frame written: what
comes after it on the connection is not read as it was written.
-/

namespace HorsieActor.Ports.Tcp

open HorsieActor.Verified

/-! ## A call writes its own request -/

/-- The frame is what a call with that request has to write. -/
def Request.Speaks : Request → Frame → Prop
  | .send message, frame => frame = .message message
  | .rpc payload, frame => ∃ id, frame = .request id payload

/-- Calls keep their requests, and queue with nothing else. -/
structure Talks (w w' : World) : Prop where
  keeps : ∀ (i : Nat) (call : Call), w.calls[i]? = some call →
    ∃ call', w'.calls[i]? = some call' ∧ call'.request = call.request
  queued : ∀ (i : Nat) (call' : Call) (frame : Frame), w'.calls[i]? = some call' →
    call'.pc = .queued frame → call'.request.Speaks frame ∨
      ∃ call, w.calls[i]? = some call ∧ call.request = call'.request ∧ call.pc = .queued frame

section Talks

variable {w w' w'' : World} {i : Nat} {call : Call}

theorem Talks.of_calls (h : w'.calls = w.calls) : Talks w w' :=
  ⟨fun _ call hi => ⟨call, h ▸ hi, rfl⟩, fun _ call' _ hi hpc => Or.inr ⟨call', h ▸ hi, rfl, hpc⟩⟩

theorem Talks.trans (h : Talks w w') (h' : Talks w' w'') : Talks w w'' := by
  refine ⟨fun i call hi => ?_, fun i call'' frame hi hpc => ?_⟩
  · obtain ⟨call', hi', hreq⟩ := h.keeps i call hi
    obtain ⟨call'', hi'', hreq'⟩ := h'.keeps i call' hi'
    exact ⟨call'', hi'', hreq'.trans hreq⟩
  · rcases h'.queued i call'' frame hi hpc with hspeaks | ⟨call', hi', hreq', hpc'⟩
    · exact Or.inl hspeaks
    · rcases h.queued i call' frame hi' hpc' with hspeaks | ⟨call, hi, hreq, hpc⟩
      · exact Or.inl (hreq' ▸ hspeaks)
      · exact Or.inr ⟨call, hi, hreq.trans hreq', hpc⟩

/-- A call moves on. -/
theorem Talks.setPc (hi : w.calls[i]? = some call) {pc : Pc}
    (hpc : ∀ frame, pc = .queued frame → call.request.Speaks frame)
    (hcalls : w'.calls = w.calls.set i { call with pc := pc }) : Talks w w' := by
  refine ⟨fun j c hj => ?_, fun j c' frame hj hpc' => ?_⟩
  · rw [hcalls]
    exact Slots.exists_getElem?_set hi hj (P := fun x : Call => x.request = c.request) rfl
      fun _ h => h
  · rw [hcalls] at hj
    rcases (Slots.getElem?_set_iff hi).mp hj with ⟨rfl, rfl⟩ | ⟨-, hj⟩
    · exact Or.inl (hpc frame hpc')
    · exact Or.inr ⟨c', hj, rfl, hpc'⟩

/-- Calls are told. -/
theorem Talks.answer (w : World) (gone : UInt64 × Nat → Bool) (a : Oneshot) :
    Talks w (w.answer gone a) := by
  refine ⟨fun j c hj => ⟨_, Dialler.getElem?_answer hj, ?_⟩, fun j c' frame hj hpc => ?_⟩
  · split <;> rfl
  · obtain ⟨c, hc, rfl⟩ := Dialler.of_getElem?_answer hj
    refine Or.inr ⟨c, hc, ?_⟩
    split at hpc
    · rename_i htold
      rw [if_pos htold]
      exact ⟨rfl, hpc⟩
    · rename_i htold
      rw [if_neg htold]
      exact ⟨rfl, hpc⟩

theorem talks_step {codec : Codec Frame} {label : Label} (hs : step codec w label = some w') :
    Talks w w' := by
  cases step_moves hs with
  | call =>
      refine ⟨fun i c hi => ⟨c, Slots.getElem?_snoc_iff.mpr (Or.inr hi), rfl⟩, ?_⟩
      intro i c frame hi hpc
      rcases Slots.getElem?_snoc_iff.mp hi with ⟨-, rfl⟩ | hi
      · cases hpc
      · exact Or.inr ⟨c, hi, rfl, hpc⟩
  | obtainSend hi hpc hcached hrequest =>
      refine .setPc hi ?_ rfl
      rintro frame ⟨⟩
      rw [hrequest]
      rfl
  | @insert i payload id answer hi =>
      have hset : Talks w (w.setPc i ⟨.rpc payload, .minted id, answer⟩
          (.queued (.request id payload))) := by
        refine .setPc hi ?_ rfl
        rintro frame ⟨⟩
        exact ⟨id, rfl⟩
      exact (hset.trans (.answer _ _ _)).trans (.of_calls rfl)
  | @finish i n call frame rest hi =>
      refine .setPc hi ?_ rfl
      intro frame' heq
      cases frame <;> cases heq
  | @removeRow i call id payload hi =>
      have hset : Talks w (w.setPc i call .dropping) := .setPc hi (by simp) rfl
      exact hset.trans (.answer _ _ _)
  | advance | close => exact .of_calls rfl
  | respond => exact .answer _ _ _
  | clear => exact (Talks.answer w _ _).trans (.of_calls rfl)
  | obtainRpc hi | mint hi | acquire hi | refuse hi | fail hi | remove hi | dropPeer hi
  | receive hi | release hi | cancel hi => exact .setPc hi (by simp) rfl

end Talks

/-- Whoever wrote a frame, or is about to, has that request. -/
structure Spoken (d : Dialler) : Prop where
  queued : ∀ (i : Nat) (call : Call) (frame : Frame), d.peer.calls[i]? = some call →
    call.pc = .queued frame → call.request.Speaks frame
  held : ∀ i frame rest, d.peer.writer.holder = some (i, frame, rest) →
    ∃ call, d.peer.calls[i]? = some call ∧ call.request.Speaks frame
  written : ∀ (f i : Nat) (frame : Frame), d.writers[f]? = some i →
    d.peer.writer.completed[f]? = some frame →
    ∃ call, d.peer.calls[i]? = some call ∧ call.request.Speaks frame

section Spoken

variable {codec : Codec Frame} {d d' : Dialler}

theorem spoken_new : Spoken .new where
  queued := fun _ _ _ hi => by cases hi
  held := fun _ _ _ hheld => by cases hheld
  written := fun _ _ _ hwriter => by cases hwriter

theorem Spoken.talks (h : Spoken d) {peer : World} (htalks : Talks d.peer peer)
    (hholder : ∀ i frame rest, peer.writer.holder = some (i, frame, rest) →
      (∃ rest', d.peer.writer.holder = some (i, frame, rest')) ∨
        ∃ call, d.peer.calls[i]? = some call ∧ call.request.Speaks frame)
    {minted writers : List Nat}
    (hwritten : ∀ (f i : Nat) (frame : Frame), writers[f]? = some i →
      peer.writer.completed[f]? = some frame →
      (d.writers[f]? = some i ∧ d.peer.writer.completed[f]? = some frame) ∨
        ∃ rest, d.peer.writer.holder = some (i, frame, rest)) :
    Spoken ⟨peer, minted, writers⟩ := by
  have hkept : ∀ {i : Nat} {frame : Frame},
      (∃ call, d.peer.calls[i]? = some call ∧ call.request.Speaks frame) →
      ∃ call, peer.calls[i]? = some call ∧ call.request.Speaks frame := by
    rintro i frame ⟨call, hi, hspeaks⟩
    obtain ⟨call', hi', hreq⟩ := htalks.keeps i call hi
    exact ⟨call', hi', hreq ▸ hspeaks⟩
  refine ⟨fun i call frame hi hpc => ?_, fun i frame rest hheld => ?_,
    fun f i frame hwriter hframe => ?_⟩
  · rcases htalks.queued i call frame hi hpc with hspeaks | ⟨call₀, hi₀, hreq, hpc₀⟩
    · exact hspeaks
    · exact hreq ▸ h.queued i call₀ frame hi₀ hpc₀
  · rcases hholder i frame rest hheld with ⟨rest', hold⟩ | hnew
    · exact hkept (h.held i frame rest' hold)
    · exact hkept hnew
  · rcases hwritten f i frame hwriter hframe with ⟨hwriter, hframe⟩ | ⟨rest, hheld⟩
    · exact hkept (h.written f i frame hwriter hframe)
    · exact hkept (h.held i frame rest hheld)

theorem spoken_step {label : Label} (h : Spoken d) (hlengths : d.writers.length =
    d.peer.writer.completed.length) (hs : d.step codec label = some d') : Spoken d' := by
  obtain ⟨peer, hpeer, rfl⟩ := Option.map_eq_some_iff.mp hs
  have htalks := talks_step hpeer
  cases step_moves hpeer with
  | acquire hi =>
      refine h.talks htalks ?_ fun _ _ _ hw hf => Or.inl ⟨hw, hf⟩
      rintro j frame rest ⟨⟩
      exact Or.inr ⟨_, hi, h.queued _ _ _ hi rfl⟩
  | @finish i n call frame rest hi hheld =>
      have hmore : ¬ (d.peer.writer.completed ++ [frame]).length =
          d.peer.writer.completed.length := by simp
      dsimp only
      rw [if_neg hmore]
      refine h.talks htalks (fun _ _ _ hnone => by cases hnone) ?_
      intro f k frame' hw hf
      rcases Slots.getElem?_snoc_iff.mp hw with ⟨hlast, rfl⟩ | hw
      · rcases Slots.getElem?_snoc_iff.mp hf with ⟨-, rfl⟩ | hf
        · exact Or.inr ⟨rest, hheld⟩
        · have := (List.getElem?_eq_some_iff.mp hf).1
          omega
      · rcases Slots.getElem?_snoc_iff.mp hf with ⟨hlast, -⟩ | hf
        · have := (List.getElem?_eq_some_iff.mp hw).1
          omega
        · exact Or.inl ⟨hw, hf⟩
  | @advance i n frame rest hheld =>
      dsimp only
      rw [if_pos rfl]
      refine h.talks htalks ?_ fun _ _ _ hw hf => Or.inl ⟨hw, hf⟩
      rintro k frame' rest' ⟨⟩
      exact Or.inl ⟨rest, hheld⟩
  | fail =>
      exact h.talks htalks (fun _ _ _ hnone => by cases hnone) fun _ _ _ hw hf => Or.inl ⟨hw, hf⟩
  | release =>
      refine h.talks htalks ?_ fun _ _ _ hw hf => Or.inl ⟨hw, hf⟩
      intro j frame rest hheld
      exact Or.inl ⟨rest, (Option.filter_eq_some_iff.mp hheld).1⟩
  | _ =>
      exact h.talks htalks (fun _ _ rest hheld => Or.inl ⟨rest, hheld⟩)
        fun _ _ _ hw hf => Or.inl ⟨hw, hf⟩

end Spoken

/-! ## Along the connections -/

section Conns

variable {codec : Codec Frame} {conn conn' : Conn}

/-- An answered request was answered before, or is answered by this step. -/
theorem Conn.answered_of_step {a : Act} (hs : conn.step codec a = some conn') {k : Nat}
    {s' : Served} {bytes : Octets} (hk : conn'.served[k]? = some s')
    (hanswered : s'.responder = .answered bytes) :
    ∃ s, conn.served[k]? = some s ∧ s.payload = s'.payload ∧
      (s.responder = .answered bytes ∨ a = .answer k bytes) := by
  -- a request that goes on without being answered
  have hset : ∀ {j : Nat} {s x : Served}, conn.served[j]? = some s →
      (conn.served.set j x)[k]? = some s' → x.payload = s.payload →
      (x.responder = .answered bytes → s.responder = .answered bytes ∨ a = .answer j bytes) →
      ∃ s, conn.served[k]? = some s ∧ s.payload = s'.payload ∧
        (s.responder = .answered bytes ∨ a = .answer k bytes) := by
    intro j s x hj hx hpayload hresponder
    rcases (Slots.getElem?_set_iff hj).mp hx with ⟨rfl, rfl⟩ | ⟨-, hx⟩
    · exact ⟨s, hj, hpayload.symm, hresponder hanswered⟩
    · exact ⟨s', hx, rfl, Or.inl hanswered⟩
  cases Conn.step_moves hs with
  | serve =>
      rcases Slots.getElem?_snoc_iff.mp hk with ⟨-, rfl⟩ | hk
      · cases hanswered
      · exact ⟨s', hk, rfl, Or.inl hanswered⟩
  | answer hj =>
      refine hset hj hk rfl ?_
      rintro ⟨⟩
      exact Or.inr rfl
  | drop hj => exact hset hj hk rfl fun h => by cases h
  | respond hj | lose hj | failRespond hj => exact hset hj hk rfl Or.inl
  | _ => exact ⟨s', hk, rfl, Or.inl hanswered⟩

theorem Conn.served_of_begin {request : Request} (hs : conn.begin codec request = some conn') :
    conn'.served = conn.served := by
  obtain ⟨d, -, hs⟩ := Option.bind_eq_some_iff.mp hs
  obtain ⟨d', -, rfl⟩ := Option.map_eq_some_iff.mp hs
  rfl

/-- A connection keeps its ids apart, its calls their requests, and its frames whole. -/
structure Conn.Wired (codec : Codec Frame) (conn : Conn) : Prop where
  inv : conn.Inv
  spoken : Spoken conn.dialler
  framed : Framed codec conn.dialler.peer.writer

/-- The dialling side takes a step that is not the reader's. -/
theorem Conn.Wired.dialled (h : conn.Wired codec) {label : Label} {d : Dialler}
    (hd : conn.dialler.step codec label = some d)
    (hrespond : ∀ id payload, label ≠ .respond id payload)
    (hmint : ∀ i, label = .mint i → conn.dialler.minted.length < 2 ^ 64)
    (hcut : NoneCut codec conn.dialler.peer label) :
    Conn.Wired codec { conn with dialler := d } where
  inv := (h.inv.dialled hd hrespond hmint).inv
  spoken := spoken_step h.spoken h.inv.dialler.lengths hd
  framed := Dialler.framed h.framed hd hcut

theorem Conn.Wired.acted (h : conn.Wired codec) {a : Act}
    (hmint : ∀ i, a = .dialler (.mint i) → conn.dialler.minted.length < 2 ^ 64)
    (hs : conn.step codec a = some conn') : conn'.Wired codec := by
  refine ⟨(Conn.keeps_step h.inv hmint hs).inv, ?_, Conn.framed h.framed hs⟩
  rcases Conn.dialler_of_step hs with heq | ⟨label, hd, -⟩
  · exact heq ▸ h.spoken
  · exact spoken_step h.spoken h.inv.dialler.lengths hd

theorem wired_transport {t t' : Transport} {e : Event}
    (hmint : ∀ c i conn, e = .act c (.dialler (.mint i)) → t.conns[c]? = some conn →
      conn.dialler.minted.length < 2 ^ 64)
    (hs : t.step codec e = some t') (h : ∀ conn ∈ t.conns, conn.Wired codec) :
    ∀ conn ∈ t'.conns, conn.Wired codec := by
  refine Transport.forall_step hs h ⟨Conn.inv_new, spoken_new, framed_new⟩ ?_ ?_ ?_ ?_
  · intro conn request conn' hconn hbegun
    obtain ⟨d, hd, hbegun⟩ := Option.bind_eq_some_iff.mp hbegun
    obtain ⟨d', hd', rfl⟩ := Option.map_eq_some_iff.mp hbegun
    exact (hconn.dialled hd nofun nofun trivial).dialled hd' nofun nofun trivial
  · intro conn i d hconn hd
    exact hconn.dialled hd nofun nofun trivial
  · rintro conn ⟨hinv, hspoken, hframed⟩
    exact ⟨inv_uncached hinv, ⟨hspoken.queued, hspoken.held, hspoken.written⟩, hframed⟩
  · rintro c a conn conn' rfl hc hconn hacted
    exact hconn.acted (fun i ha => hmint c i conn (ha ▸ rfl) hc) hacted

end Conns

namespace Consensus

/-! ## Requests and replies -/

/-- Raft's messages, which nothing here looks into. -/
structure Types where
  AppendEntriesRequest : Type
  AppendEntriesResponse : Type
  VoteRequest : Type
  VoteResponse : Type
  Vote : Type
  SnapshotMeta : Type
  SnapshotResponse : Type

/-- One consensus message on the wire. -/
inductive Request (T : Types) where
  | append (rpc : T.AppendEntriesRequest)
  | vote (rpc : T.VoteRequest)
  | snapshot (vote : T.Vote) (snapshotMeta : T.SnapshotMeta) (data : Octets)

/-- The answer to one. -/
inductive Reply (T : Types) where
  | append (r : T.AppendEntriesResponse)
  | vote (r : T.VoteResponse)
  | snapshot (r : T.SnapshotResponse)
  | failed (message : String)

/-- `serde_json` on both. -/
structure Serde (T : Types) where
  requests : Codec (Request T)
  replies : Codec (Reply T)
  /-- What it says of bytes that are no request. -/
  error : Octets → String

/-- What a node's Raft would return at some moment, its errors as text. -/
structure Raft (T : Types) where
  appendEntries : T.AppendEntriesRequest → Except String T.AppendEntriesResponse
  vote : T.VoteRequest → Except String T.VoteResponse
  installFullSnapshot : T.Vote → T.SnapshotMeta → Octets → Except String T.SnapshotResponse

section Sides

variable {T : Types}

/-- A result of Raft as a reply. -/
def reply {α : Type} (wrap : α → Reply T) : Except String α → Reply T
  | .ok r => wrap r
  | .error e => .failed e

/-- What the task of `serve_consensus` for a request makes of it. -/
def serveConsensus (serde : Serde T) (raft : Raft T) (payload : Octets) : Reply T :=
  match serde.requests.decode payload with
  | some (.append rpc) => reply .append (raft.appendEntries rpc)
  | some (.vote rpc) => reply .vote (raft.vote rpc)
  | some (.snapshot vote snapshotMeta data) =>
      reply .snapshot (raft.installFullSnapshot vote snapshotMeta data)
  | none => .failed ("undecodable consensus message: " ++ serde.error payload)

/-- Why a call failed; all of these come back as `Unreachable`. -/
inductive Unreachable where
  | transport
  | undecodable
  /-- The peer's Raft returned an error. -/
  | other (message : String)
  | mismatched (message : String)
  deriving DecidableEq, Repr

/-- `PeerLink::call`, when its `rpc` has returned. -/
def call (serde : Serde T) : Oneshot → Option (Except Unreachable (Reply T))
  | .empty => none
  | .closed => some (.error .transport)
  | .sent bytes =>
      match serde.replies.decode bytes with
      | none => some (.error .undecodable)
      | some reply => some (.ok reply)

/-- The answer, if it is of the kind that was asked for. -/
def expect {α : Type} (what : String) (pick : Reply T → Option α) : Reply T → Except Unreachable α
  | .failed e => .error (.other e)
  | reply =>
      match pick reply with
      | some r => .ok r
      | none => .error (.mismatched ("peer answered a " ++ what ++ " with something else"))

def callFor {α : Type} (serde : Serde T) (what : String) (pick : Reply T → Option α)
    (answer : Oneshot) : Option (Except Unreachable α) :=
  (call serde answer).map fun
    | .error e => .error e
    | .ok reply => expect what pick reply

def Reply.append? : Reply T → Option T.AppendEntriesResponse
  | .append r => some r
  | _ => none

def Reply.vote? : Reply T → Option T.VoteResponse
  | .vote r => some r
  | _ => none

def Reply.snapshot? : Reply T → Option T.SnapshotResponse
  | .snapshot r => some r
  | _ => none

/-- What `append_entries` returns when its `rpc` has. -/
def appendEntries (serde : Serde T) :
    Oneshot → Option (Except Unreachable T.AppendEntriesResponse) :=
  callFor serde "append" Reply.append?

def vote (serde : Serde T) : Oneshot → Option (Except Unreachable T.VoteResponse) :=
  callFor serde "vote" Reply.vote?

def fullSnapshot (serde : Serde T) : Oneshot → Option (Except Unreachable T.SnapshotResponse) :=
  callFor serde "snapshot" Reply.snapshot?

end Sides

/-! ## The machine -/

/-- What happens between a node and a peer. -/
inductive Event (T : Types) where
  /-- Anything but an answer. -/
  | transport (e : Tcp.Event)
  /-- Raft has returned, and the task of a request answers. -/
  | handle (c k : Nat) (raft : Raft T)
  /-- Raft gives up on a call, and drops its future. -/
  | cancel (c i : Nat)

def answers : Tcp.Event → Bool
  | .act _ (.answer _ _) => true
  | _ => false

section Machine

variable {T : Types} (serde : Serde T) (codec : Codec Frame)

def step (t : Transport) : Event T → Option Transport
  | .transport e => if answers e then none else t.step codec e
  | .handle c k raft =>
      match t.conns[c]? with
      | none => none
      | some conn => conn.served[k]?.bind fun s => t.step codec
          (.act c (.answer k (serde.replies.encode (serveConsensus serde raft s.payload))))
  | .cancel c i =>
      match t.conns[c]? with
      | none => none
      | some conn => (conn.dialler.step codec (.cancel i)).map fun d =>
          ⟨t.conns.set c { conn with dialler := d }⟩

/-- No connection's counter comes round, and no call is dropped with part of its frame
on the wire. -/
def Sound (t : Transport) : Event T → Prop
  | .transport (.act c (.dialler (.mint _))) =>
      ∀ conn ∈ t.conns[c]?, conn.dialler.minted.length < 2 ^ 64
  | .cancel c i => ∀ conn ∈ t.conns[c]?, NoneCut codec conn.dialler.peer (.cancel i)
  | _ => True

instance (conn : Conn) (i : Nat) : Decidable (NoneCut codec conn.dialler.peer (.cancel i)) :=
  decidable_of_iff (∀ h ∈ conn.dialler.peer.writer.holder, h.1 = i → h.2.2 = frameBytes codec h.2.1)
    ⟨fun h frame rest heq => h (i, frame, rest) heq rfl,
      fun h _ hmem hi => h _ _ (hi ▸ hmem)⟩

instance (t : Transport) : ∀ a : Event T, Decidable (Sound codec t a)
  | .transport (.act c (.dialler (.mint _))) =>
      inferInstanceAs (Decidable (∀ conn ∈ t.conns[c]?, conn.dialler.minted.length < 2 ^ 64))
  | .cancel c i =>
      inferInstanceAs (Decidable
        (∀ conn ∈ t.conns[c]?, NoneCut codec conn.dialler.peer (.cancel i)))
  | .transport .dial | .transport (.call _ _) | .transport (.dropPeer _ _) | .handle _ _ _
  | .transport (.act _ (.dialler (.insert _))) | .transport (.act _ (.dialler (.call _)))
  | .transport (.act _ (.dialler (.obtain _))) | .transport (.act _ (.dialler (.acquire _)))
  | .transport (.act _ (.dialler (.write _ _))) | .transport (.act _ (.dialler (.fail _)))
  | .transport (.act _ (.dialler (.remove _))) | .transport (.act _ (.dialler (.dropPeer _)))
  | .transport (.act _ (.dialler (.respond _ _))) | .transport (.act _ (.dialler .close))
  | .transport (.act _ (.dialler .clear)) | .transport (.act _ (.dialler (.receive _)))
  | .transport (.act _ (.dialler (.cancel _))) | .transport (.act _ .serve)
  | .transport (.act _ .hangUp) | .transport (.act _ (.answer _ _)) | .transport (.act _ (.drop _))
  | .transport (.act _ (.respond _)) | .transport (.act _ (.failRespond _))
  | .transport (.act _ .read) | .transport (.act _ .reset) => isTrue trivial

/-- A call has failed in the transport, or returns what the peer's Raft said in an answer
that is the call's own. -/
def Faithful {α : Type} (l : List (Event T)) (c : Nat) (conn : Conn) (i : Nat)
    (result : Option (Except Unreachable α)) (said : Raft T → Except String α) : Prop :=
  ∀ r, result = some r → r = .error .transport ∨
    ∃ k raft, conn.Own i k ∧ .handle c k raft ∈ l ∧ r = (said raft).mapError .other

/-- Every call returns what the peer's Raft said to its request. -/
structure Answers (l : List (Event T)) (c : Nat) (conn : Conn) : Prop where
  append : ∀ (i : Nat) (call : Call) (rpc : T.AppendEntriesRequest),
    conn.dialler.peer.calls[i]? = some call →
    call.request = .rpc (serde.requests.encode (.append rpc)) →
    Faithful l c conn i (appendEntries serde call.answer) fun raft => raft.appendEntries rpc
  vote : ∀ (i : Nat) (call : Call) (rpc : T.VoteRequest),
    conn.dialler.peer.calls[i]? = some call →
    call.request = .rpc (serde.requests.encode (.vote rpc)) →
    Faithful l c conn i (vote serde call.answer) fun raft => raft.vote rpc
  snapshot : ∀ (i : Nat) (call : Call) (vote : T.Vote) (snapshotMeta : T.SnapshotMeta)
    (data : Octets), conn.dialler.peer.calls[i]? = some call →
    call.request = .rpc (serde.requests.encode (.snapshot vote snapshotMeta data)) →
    Faithful l c conn i (fullSnapshot serde call.answer) fun raft =>
      raft.installFullSnapshot vote snapshotMeta data
  /-- The peer is handed the request of a call at most once. -/
  once : ∀ i k k', conn.Own i k → conn.Own i k' → k = k'
  wire : conn.ReadsCompleted codec

end Machine

/-! ## The invariant -/

section Invariant

variable {T : Types} {serde : Serde T} {codec : Codec Frame} {l : List (Event T)}
  {t t' : Transport} {c : Nat} {conn : Conn}

/-- Every answer is that of a Raft to the request it answers. -/
def Vouched (serde : Serde T) (l : List (Event T)) (t : Transport) : Prop :=
  ∀ (c : Nat) (conn : Conn) (k : Nat) (s : Served) (bytes : Octets), t.conns[c]? = some conn →
    conn.served[k]? = some s → s.responder = .answered bytes →
    ∃ raft, .handle c k raft ∈ l ∧
      bytes = serde.replies.encode (serveConsensus serde raft s.payload)

/-- The invariant, relative to a list in which the labels so far are. -/
structure Inv (serde : Serde T) (codec : Codec Frame) (l : List (Event T)) (t : Transport) :
    Prop where
  conns : ∀ conn ∈ t.conns, conn.Wired codec
  vouched : Vouched serde l t

theorem inv_start : Inv serde codec l Transport.start where
  conns := fun _ hconn => by cases hconn
  vouched := fun _ _ _ _ _ hc => by cases hc

/-- The transport takes a step in which nobody answers but a Raft. -/
theorem Inv.transported (h : Inv serde codec l t) {e : Tcp.Event}
    (hmint : ∀ c i conn, e = .act c (.dialler (.mint i)) → t.conns[c]? = some conn →
      conn.dialler.minted.length < 2 ^ 64)
    (hanswer : ∀ (c k : Nat) (bytes : Octets) (conn : Conn) (s : Served),
      e = .act c (.answer k bytes) → t.conns[c]? = some conn → conn.served[k]? = some s →
      ∃ raft, .handle c k raft ∈ l ∧
        bytes = serde.replies.encode (serveConsensus serde raft s.payload))
    (hs : t.step codec e = some t') : Inv serde codec l t' := by
  refine ⟨wired_transport hmint hs h.conns, ?_⟩
  intro c conn' k s' bytes hc hk hanswered
  rcases Transport.conn_of_step hs hc with rfl | ⟨conn, hc₀, hbecomes⟩
  · cases hk
  · cases hbecomes with
    | begin hbegun =>
        exact h.vouched c conn k s' bytes hc₀ (Conn.served_of_begin hbegun ▸ hk) hanswered
    | act hacted =>
        obtain ⟨s, hk₀, hpayload, hbefore | rfl⟩ := Conn.answered_of_step hacted hk hanswered
        · rw [← hpayload]
          exact h.vouched c conn k s bytes hc₀ hk₀ hbefore
        · rw [← hpayload]
          exact hanswer c k bytes conn s rfl hc₀ hk₀
    | same | uncached | dropPeer => exact h.vouched c _ k s' bytes hc₀ hk hanswered

/-- A call is dropped. -/
theorem Inv.cancelled (h : Inv serde codec l t) (hc : t.conns[c]? = some conn) {i : Nat}
    {d : Dialler} (hd : conn.dialler.step codec (.cancel i) = some d)
    (hcut : NoneCut codec conn.dialler.peer (.cancel i)) :
    Inv serde codec l ⟨t.conns.set c { conn with dialler := d }⟩ where
  conns := by
    intro conn' hconn'
    rcases List.mem_or_eq_of_mem_set hconn' with hconn' | rfl
    · exact h.conns conn' hconn'
    · exact (h.conns conn (List.mem_of_getElem? hc)).dialled hd nofun nofun hcut
  vouched := by
    intro c' conn' k s bytes hc'
    rcases (Slots.getElem?_set_iff hc).mp hc' with ⟨rfl, rfl⟩ | ⟨-, hc'⟩
    · exact h.vouched _ conn k s bytes hc
    · exact h.vouched c' conn' k s bytes hc'

theorem inv_step (t : Transport) (a : Event T) (t' : Transport) (h : Inv serde codec l t)
    (hsound : Sound codec t a ∧ a ∈ l) (hs : step serde codec t a = some t') :
    Inv serde codec l t' := by
  obtain ⟨hsound, hmem⟩ := hsound
  cases a with
  | transport e =>
      simp only [step] at hs
      split at hs
      · cases hs
      · rename_i hnot
        refine h.transported ?_ ?_ hs
        · rintro c i conn rfl hc
          exact hsound conn hc
        · rintro c k bytes conn s rfl
          exact absurd rfl hnot
  | handle c k raft =>
      simp only [step] at hs
      split at hs
      · cases hs
      · rename_i conn hc
        obtain ⟨s, hk, hs⟩ := Option.bind_eq_some_iff.mp hs
        refine h.transported (fun _ _ _ heq => by cases heq) ?_ hs
        intro c' k' bytes conn' s' heq hc' hk'
        cases heq
        cases hc.symm.trans hc'
        cases hk.symm.trans hk'
        exact ⟨raft, hmem, rfl⟩
  | cancel c i =>
      simp only [step] at hs
      split at hs
      · cases hs
      · rename_i conn hc
        obtain ⟨d, hd, rfl⟩ := Option.map_eq_some_iff.mp hs
        exact h.cancelled hc hd (hsound conn hc)

/-- What a call with that request has been answered. -/
theorem Inv.returned (h : Inv serde codec l t) (hc : t.conns[c]? = some conn) {i : Nat}
    {call : Call} {payload bytes : Octets} (hi : conn.dialler.peer.calls[i]? = some call)
    (hrequest : call.request = .rpc payload) (hanswer : call.answer = .sent bytes) :
    ∃ k raft, conn.Own i k ∧ .handle c k raft ∈ l ∧
      bytes = serde.replies.encode (serveConsensus serde raft payload) := by
  obtain ⟨hinv, hspoken, -⟩ := h.conns conn (List.mem_of_getElem? hc)
  obtain ⟨k, s, hown, hk, hresponder⟩ := hinv.own i call bytes hi hanswer
  obtain ⟨raft, hraft, hbytes⟩ := h.vouched c conn k s bytes hc hk hresponder
  -- the request that was answered is the one the call wrote
  obtain ⟨s', hk', hwriter⟩ := hown
  cases hk'.symm.trans hk
  obtain ⟨-, hframe⟩ := hinv.served k s hk
  obtain ⟨call', hi', hspeaks⟩ := hspoken.written s.number i _ hwriter hframe
  cases hi'.symm.trans hi
  rw [hrequest] at hspeaks
  obtain ⟨id, heq⟩ := hspeaks
  cases heq
  exact ⟨k, raft, ⟨s, hk, hwriter⟩, hraft, hbytes⟩

theorem callFor_reply {α : Type} (what : String) {pick : Reply T → Option α} {wrap : α → Reply T}
    (hpick : ∀ r, expect what pick (wrap r) = .ok r) (x : Except String α) :
    callFor serde what pick (.sent (serde.replies.encode (reply wrap x))) =
      some (x.mapError .other) := by
  simp only [callFor, call, serde.replies.decode_encode, Option.map_some]
  cases x with
  | error e => rfl
  | ok r => exact congrArg some (hpick r)

/-- From what the peer does with a request to what the call returns. -/
theorem Inv.faithful (h : Inv serde codec l t) (hc : t.conns[c]? = some conn) {α : Type}
    {what : String} {pick : Reply T → Option α} {wrap : α → Reply T}
    {said : Raft T → Except String α} (hpick : ∀ r, expect what pick (wrap r) = .ok r)
    {request : Request T}
    (hserve : ∀ raft, serveConsensus serde raft (serde.requests.encode request) =
      reply wrap (said raft)) {i : Nat} {call : Call}
    (hi : conn.dialler.peer.calls[i]? = some call)
    (hrequest : call.request = .rpc (serde.requests.encode request)) :
    Faithful l c conn i (callFor serde what pick call.answer) said := by
  intro r hr
  cases hanswer : call.answer with
  | empty =>
      rw [hanswer] at hr
      cases hr
  | closed =>
      rw [hanswer] at hr
      cases hr
      exact Or.inl rfl
  | sent bytes =>
      obtain ⟨k, raft, hown, hraft, rfl⟩ := h.returned hc hi hrequest hanswer
      rw [hanswer, hserve, callFor_reply what hpick] at hr
      cases hr
      exact Or.inr ⟨k, raft, hown, hraft, rfl⟩

theorem Inv.answers (h : Inv serde codec l t) (hc : t.conns[c]? = some conn) :
    Answers serde codec l c conn where
  append := fun _ _ rpc hi hrequest => h.faithful hc (fun _ => rfl)
    (fun raft => by rw [serveConsensus, serde.requests.decode_encode]) hi hrequest
  vote := fun _ _ rpc hi hrequest => h.faithful hc (fun _ => rfl)
    (fun raft => by rw [serveConsensus, serde.requests.decode_encode]) hi hrequest
  snapshot := fun _ _ _ _ _ hi hrequest => h.faithful hc (fun _ => rfl)
    (fun raft => by rw [serveConsensus, serde.requests.decode_encode]) hi hrequest
  once := fun _ _ _ hk hk' => (h.conns conn (List.mem_of_getElem? hc)).inv.own_inj hk hk'
  wire := fun _ hframe => (h.conns conn (List.mem_of_getElem? hc)).framed.read hframe

end Invariant

/-- **Consensus calls return what the peer's Raft said to them**, in every run in which no
connection's counter comes round and no call is dropped with part of its frame on the
wire. -/
theorem consensus_answers {T : Types} (serde : Serde T) (codec : Codec Frame)
    (l : List (Event T)) (t : Transport)
    (hrun : Schedule.run (step serde codec) Transport.start l = some t)
    (hsound : Schedule.Along (step serde codec) (Sound codec) Transport.start l) (c : Nat)
    (conn : Conn) (hc : t.conns[c]? = some conn) : Answers serde codec l c conn := by
  have halong := hsound.and_forall_mem (P := fun a => a ∈ l) fun _ ha => ha
  exact (Schedule.run_invariant inv_step l inv_start halong hrun).answers hc

/-! ## A run of it -/

/-- Messages without contents, but for the data of a snapshot. -/
abbrev plainTypes : Types := ⟨Unit, Unit, Unit, Bool, Unit, Unit, Unit⟩

noncomputable def plainSerde : Serde plainTypes where
  requests :=
    { encode
        | .append _ => [0]
        | .vote _ => [1]
        | .snapshot _ _ data => 2 :: data
      decode
        | [0] => some (.append ())
        | [1] => some (.vote ())
        | 2 :: data => some (.snapshot () () data)
        | _ => none
      decode_encode := by
        intro request
        cases request <;> rfl }
  replies :=
    { encode
        | .append _ => [0]
        | .vote true => [1]
        | .vote false => [2]
        | .snapshot _ => [3]
        | .failed message => 4 :: (Codec.ofCountable String).encode message
      decode
        | [0] => some (.append ())
        | [1] => some (.vote true)
        | [2] => some (.vote false)
        | [3] => some (.snapshot ())
        | 4 :: rest => ((Codec.ofCountable String).decode rest).map .failed
        | _ => none
      decode_encode := by
        intro reply
        cases reply with
        | append r => rfl
        | vote r => cases r <;> rfl
        | snapshot r => rfl
        | failed message =>
            show ((Codec.ofCountable String).decode _).map Reply.failed = _
            rw [Codec.decode_encode]
            rfl }
  error _ := "expected value"

/-- A Raft that grants its vote. -/
def grants : Raft plainTypes := ⟨fun _ => .ok (), fun _ => .ok true, fun _ _ _ => .ok ()⟩

/-- A vote is asked for, and given up on when it is written; another is granted. -/
def voteGranted : List (Event plainTypes) :=
  [.transport .dial, .transport (.call 0 (.rpc [1])), .transport (.act 0 (.dialler (.mint 0))),
    .transport (.act 0 (.dialler (.insert 0))), .transport (.act 0 (.dialler (.acquire 0))),
    .transport (.act 0 (.dialler (.write 0 99))), .cancel 0 0, .transport (.call 0 (.rpc [1])),
    .transport (.act 0 (.dialler (.mint 1))), .transport (.act 0 (.dialler (.insert 1))),
    .transport (.act 0 (.dialler (.acquire 1))), .transport (.act 0 (.dialler (.write 1 99))),
    .transport (.act 0 .serve), .transport (.act 0 .serve), .handle 0 1 grants,
    .transport (.act 0 (.respond 1)), .transport (.act 0 .read)]

/-- The connection then. -/
noncomputable def granted : Conn where
  dialler :=
    { peer :=
        { writer := ⟨Framing.frame (plainCodec.encode (.request 0 [1])) ++
            Framing.frame (plainCodec.encode (.request 1 [1])), false, none,
            [.request 0 [1], .request 1 [1]]⟩
          pending := [(0, 0)]
          nextRequest := 2
          cached := true
          reader := .reading
          calls := [⟨.rpc [1], .cancelled, .empty⟩, ⟨.rpc [1], .awaiting 1, .sent [1]⟩] }
      minted := [0, 1]
      writers := [0, 1] }
  read := 2
  serving := true
  served := [⟨0, 0, [1], .held, false⟩, ⟨1, 1, [1], .answered [1], true⟩]
  replies := []
  broken := false
  resolved := [(1, 1)]

theorem run_voteGranted :
    Schedule.run (step plainSerde plainCodec) Transport.start voteGranted = some ⟨[granted]⟩ := by
  decide +kernel

theorem sound_voteGranted :
    Schedule.Along (step plainSerde plainCodec) (Sound plainCodec) Transport.start voteGranted := by
  decide +kernel

theorem consensus_answers_voteGranted :
    vote plainSerde (.sent [1]) = some (.ok true) ∧
      Answers plainSerde plainCodec voteGranted 0 granted :=
  ⟨rfl, consensus_answers plainSerde plainCodec voteGranted ⟨[granted]⟩
    run_voteGranted sound_voteGranted 0 granted rfl⟩

end Consensus

end HorsieActor.Ports.Tcp
