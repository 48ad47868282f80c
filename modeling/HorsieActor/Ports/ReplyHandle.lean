import HorsieActor.Ports.Reply

/-!
# How a reply handle ends

A `ReplyTo` is encoded any number of times, then perhaps answered through, then
dropped.  Answering, being forwarded and being given up are meant to exclude one
another.  A handle over a channel of this process sees to that by its sender,
which can be taken once.  A handle to a caller on another node has `armed`
instead, and `send` and `Drop` take it; but encoding only clears it and does not
ask whether it was set, so the same handle can be forwarded again
(`forwarded_twice`).

`endsOneWay_of_handedOnOnce` is what holds when nobody does that.  Each operation
is given the node it runs on as it is then, so whatever happens there in between
is covered.
-/

namespace HorsieActor.Ports

/-- The caller has gone, or this handle has been answered or passed on. -/
structure ReplyDropped where
  deriving DecidableEq, Repr

namespace ReplyTo

/-! ## Operations -/

/-- `serialize` into a serializer that may refuse what it is given.  A local handle
has registered its caller by then; a remote one is not disarmed. -/
def encode (node : ClusterNode) (written : Except String Unit) (handle : ReplyTo) :
    Except String Wire × ReplyTo × ClusterNode :=
  match handle.inner with
  | .localTx none =>
      (.error "this reply handle has already been encoded or answered", handle, node)
  | .localTx (some tx) =>
      let (correlation, node') := node.register tx
      (written.map fun _ => ⟨node.localId, correlation⟩, ⟨.localTx none, some correlation⟩, node')
  | .remote wire armed =>
      (written.map fun _ => wire,
        { handle with inner := .remote wire (armed && !written.isOk) }, node)

theorem encode_ok (node : ClusterNode) (handle : ReplyTo) :
    handle.encode node (.ok ()) = handle.serialize node := by
  obtain ⟨inner, slot⟩ := handle
  cases inner with
  | localTx tx =>
      cases tx with
      | none => rfl
      | some tx => rfl
  | remote wire armed =>
      cases armed with
      | false => rfl
      | true => rfl

/-- Answer the request: with a value that encodes or not, to a caller in this
process that is still listening or not.  The handle is dropped next. -/
def send (node : ClusterNode) (value : Except String Octets) (listening : Bool)
    (handle : ReplyTo) : Except ReplyDropped Unit × ReplyTo × ClusterNode :=
  match handle.inner with
  | .localTx none => (.error ⟨⟩, handle, node)
  | .localTx (some _) =>
      (if listening then .ok () else .error ⟨⟩, { handle with inner := .localTx none }, node)
  | .remote _ false => (.error ⟨⟩, handle, node)
  | .remote wire true =>
      let node := match value with
        | .ok payload => (node.answer wire.origin wire.correlation payload).1
        | .error _ => node.abandon wire.origin wire.correlation
      (.ok (), { handle with inner := .remote wire false }, node)

/-! ## The life of a handle -/

/-- One attempt to encode: on which node, and what its serializer says. -/
abbrev Attempt : Type := ClusterNode × Except String Unit

/-- What is done with a handle from its first encode to its drop. -/
structure Life where
  attempts : List Attempt
  answer : Option (ClusterNode × Except String Octets × Bool)
  last : ClusterNode

/-- The results of the attempts, and what is left of the handle. -/
def attempt (handle : ReplyTo) : List Attempt → List (Except String Wire) × ReplyTo
  | [] => ([], handle)
  | (node, written) :: rest =>
      let (result, handle', _) := handle.encode node written
      let (results, handle'') := handle'.attempt rest
      (result :: results, handle'')

/-- What `send` returns, if it is called, and what is left of the handle. -/
def answerWith (handle : ReplyTo) :
    Option (ClusterNode × Except String Octets × Bool) → Option (Except ReplyDropped Unit) × ReplyTo
  | none => (none, handle)
  | some (node, value, listening) =>
      let (result, handle', _) := handle.send node value listening
      (some result, handle')

/-- An encode was successful. -/
def Life.forwarded (life : Life) (handle : ReplyTo) : Bool :=
  (handle.attempt life.attempts).1.any Except.isOk

/-- `send` returned `Ok`. -/
def Life.answered (life : Life) (handle : ReplyTo) : Bool :=
  ((handle.attempt life.attempts).2.answerWith life.answer).1.any Except.isOk

/-- The handle that is dropped. -/
def Life.remains (life : Life) (handle : ReplyTo) : ReplyTo :=
  ((handle.attempt life.attempts).2.answerWith life.answer).2

/-- Answering, being forwarded and being given up exclude one another. -/
structure EndsOneWay (handle : ReplyTo) (life : Life) : Prop where
  /-- After a successful encode none succeeds. -/
  encodes : (handle.attempt life.attempts).1.Pairwise fun r r' => r.isOk = true → r'.isOk = false
  /-- Nor does `send`. -/
  answers : life.forwarded handle = true → life.answered handle = false
  /-- The drop gives a caller elsewhere up exactly when neither took effect. -/
  drops : ∀ wire, handle = fromWire wire →
    ((life.remains handle).drop life.last).routed =
      if life.forwarded handle || life.answered handle then life.last.routed
      else life.last.routed ++ [(wire.origin, ⟨wire.correlation, none⟩)]

/-- A handle to a caller elsewhere is not encoded again once it was. -/
def HandedOnOnce (handle : ReplyTo) (life : Life) : Prop :=
  ∀ wire, handle = fromWire wire →
    life.attempts.Pairwise fun a a' => a.2.isOk = true → a'.2.isOk = false

/-! ## Handles of this process -/

/-- Once the sender is gone nothing is. -/
theorem attempt_spent (slot : Option Nat) (attempts : List Attempt) :
    (∀ r ∈ (attempt ⟨.localTx none, slot⟩ attempts).1, r.isOk = false) ∧
      (attempt ⟨.localTx none, slot⟩ attempts).2 = ⟨.localTx none, slot⟩ := by
  induction attempts with
  | nil => exact ⟨nofun, rfl⟩
  | cons a rest ih =>
      obtain ⟨node, written⟩ := a
      exact ⟨List.forall_mem_cons.mpr ⟨rfl, ih.1⟩, ih.2⟩

theorem answered_spent (slot : Option Nat) (answer) :
    (answerWith ⟨.localTx none, slot⟩ answer).1.any Except.isOk = false := by
  cases answer with
  | none => rfl
  | some a => rfl

theorem endsOneWay_fromSender (tx : Caller) (life : Life) : EndsOneWay (fromSender tx) life := by
  obtain ⟨attempts, answer, last⟩ := life
  cases attempts with
  | nil => exact ⟨List.Pairwise.nil, nofun, nofun⟩
  | cons a rest =>
      obtain ⟨node, written⟩ := a
      -- the first attempt takes the sender, whatever becomes of it
      obtain ⟨hfail, hrest⟩ := attempt_spent (some (node.register tx).1) rest
      refine ⟨List.pairwise_cons.mpr ⟨fun r hr _ => hfail r hr, ?_⟩, fun _ => ?_, nofun⟩
      · exact List.Pairwise.imp_of_mem (fun _ hr' _ _ => hfail _ hr')
          (List.pairwise_of_forall fun _ _ => trivial)
      · show ((attempt ⟨.localTx none, some (node.register tx).1⟩ rest).2.answerWith answer).1.any
          Except.isOk = false
        rw [hrest]
        exact answered_spent _ answer

/-! ## Handles to callers elsewhere -/

/-- An encode of a remote handle does what its serializer does, armed or not. -/
theorem attempt_remote (wire : Wire) (slot : Option Nat) (attempts : List Attempt) :
    ∀ armed, ((attempt ⟨.remote wire armed, slot⟩ attempts).1.map Except.isOk =
        attempts.map fun a => a.2.isOk) ∧
      (attempt ⟨.remote wire armed, slot⟩ attempts).2 =
        ⟨.remote wire (armed && !attempts.any fun a => a.2.isOk), slot⟩ := by
  induction attempts with
  | nil =>
      intro armed
      refine ⟨rfl, ?_⟩
      cases armed with
      | false => rfl
      | true => rfl
  | cons a rest ih =>
      intro armed
      obtain ⟨node, written⟩ := a
      cases written with
      | ok u =>
          obtain ⟨hresults, hleft⟩ := ih (armed && false)
          refine ⟨congrArg (true :: ·) hresults, hleft.trans ?_⟩
          cases armed with
          | false => rfl
          | true => rfl
      | error e =>
          obtain ⟨hresults, hleft⟩ := ih (armed && true)
          refine ⟨congrArg (false :: ·) hresults, hleft.trans ?_⟩
          cases armed with
          | false => rfl
          | true => rfl

theorem forwarded_fromWire (wire : Wire) (life : Life) :
    life.forwarded (fromWire wire) = life.attempts.any fun a => a.2.isOk := by
  have hany := congrArg (fun oks => oks.any id) (attempt_remote wire none life.attempts true).1
  simp only [List.any_map, Function.id_comp] at hany
  exact hany

/-- What is left after the attempts can answer exactly if none succeeded. -/
theorem attempt_fromWire (wire : Wire) (life : Life) :
    (attempt (fromWire wire) life.attempts).2 =
      ⟨.remote wire (!life.forwarded (fromWire wire)), none⟩ := by
  rw [forwarded_fromWire]
  exact (attempt_remote wire none life.attempts true).2

theorem endsOneWay_fromWire {wire : Wire} {life : Life}
    (honce : life.attempts.Pairwise fun a a' => a.2.isOk = true → a'.2.isOk = false) :
    EndsOneWay (fromWire wire) life := by
  have hleft := attempt_fromWire wire life
  constructor
  · have hresults := (attempt_remote wire none life.attempts true).1
    have hpair : (life.attempts.map fun a => a.2.isOk).Pairwise
        fun ok ok' => ok = true → ok' = false := List.pairwise_map.mpr honce
    rw [← hresults] at hpair
    exact List.pairwise_map.mp hpair
  · intro hforwarded
    rw [hforwarded] at hleft
    unfold Life.answered
    rw [hleft]
    cases life.answer with
    | none => rfl
    | some a => rfl
  · intro wire' heq
    cases heq
    cases hforwarded : life.forwarded (fromWire wire) with
    | true =>
        rw [hforwarded] at hleft
        unfold Life.remains
        rw [hleft]
        cases life.answer with
        | none => rfl
        | some a => rfl
    | false =>
        rw [hforwarded] at hleft
        unfold Life.remains Life.answered
        rw [hleft]
        cases life.answer with
        | none => exact abandon_routed life.last wire.origin wire.correlation
        | some a => rfl

/-! ## The result -/

theorem endsOneWay_of_handedOnOnce {handle : ReplyTo} {life : Life} (hfresh : handle.Fresh)
    (honce : HandedOnOnce handle life) : EndsOneWay handle life := by
  rcases hfresh with ⟨tx, rfl⟩ | ⟨wire, rfl⟩
  · exact endsOneWay_fromSender tx life
  · exact endsOneWay_fromWire (honce wire rfl)

/-- Forward a handle, and forward it again. -/
def encodedTwice : Life where
  attempts := [(ClusterNode.start ⟨2⟩, .ok ()), (ClusterNode.start ⟨2⟩, .ok ())]
  answer := none
  last := ClusterNode.start ⟨2⟩

theorem forwarded_twice : ¬ EndsOneWay (fromWire ⟨⟨1⟩, 0⟩) encodedTwice := by
  intro h
  have htwice := (List.pairwise_cons.mp h.encodes).1 (.ok ⟨⟨1⟩, 0⟩) (List.mem_singleton_self _) rfl
  cases htwice

end ReplyTo

end HorsieActor.Ports
