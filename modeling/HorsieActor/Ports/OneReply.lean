import HorsieActor.Ports.ReplyHandle
import HorsieActor.Verified.Schedule
import HorsieActor.Verified.Slots
import HorsieActor.Verified.Token
import Mathlib.Logic.Function.Basic

/-!
# One reply for one request

Handles go from node to node inside envelopes, and each envelope is delivered at
most once.  The right to answer a request is a token: it is with an armed handle,
in an envelope, or spent on a reply.  Encoding, decoding, answering and dropping
move it; registering a caller creates one under a correlation nobody has.  So as
long as no handle is forwarded a second time, and no node goes through all its
correlations, there is at most one reply for a correlation, and it goes to the node
that registered it (`OneReply`).

Forwarding a handle twice makes two tokens of one (`two_replies`).

A wire is in flight by itself here: what else its envelope holds does not matter
to it.  An envelope that does not arrive, or is refused before the wire is read,
loses it.  The replies are those in the `routed` history of the nodes.
-/

namespace HorsieActor.Ports.Forwarding

open HorsieActor.Verified

/-! ## The machine -/

structure World where
  nodes : NodeId → ClusterNode
  /-- Where each handle is; none when it is gone. -/
  handles : List (Option (NodeId × ReplyTo))
  /-- The wires on their way; none when one has arrived or is lost. -/
  flights : List (Option Wire)
  /-- Who registered which correlation, in order. -/
  registered : List (NodeId × Nat)

def World.start : World := ⟨ClusterNode.start, [], [], []⟩

def World.setNode (w : World) (n : NodeId) (node : ClusterNode) : World :=
  { w with nodes := Function.update w.nodes n node }

@[simp] theorem World.nodes_setNode_self (w : World) (n : NodeId) (node : ClusterNode) :
    (w.setNode n node).nodes n = node := Function.update_self ..

theorem World.nodes_setNode_ne (w : World) {m n : NodeId} (node : ClusterNode) (h : m ≠ n) :
    (w.setNode n node).nodes m = w.nodes m := Function.update_of_ne h ..

def World.setHandle (w : World) (k : Nat) (handle : Option (NodeId × ReplyTo)) : World :=
  { w with handles := w.handles.set k handle }

/-- What `encode` leaves of the cluster, the handle apart. -/
def World.encoded (w : World) (n : NodeId) (handle : ReplyTo) (result : Except String Wire) :
    World :=
  { w with
    flights := match result with
      | .ok wire => w.flights ++ [some wire]
      | .error _ => w.flights
    registered := match handle.inner with
      | .localTx (some _) => w.registered ++ [(n, (w.nodes n).mintCorrelation.1)]
      | _ => w.registered }

inductive Label where
  /-- A handle over a channel of this process. -/
  | ask (n : NodeId)
  | encode (k : Nat) (written : Except String Unit)
  | arrive (j : Nat) (n : NodeId)
  | lose (j : Nat)
  | send (k : Nat) (value : Except String Octets) (listening : Bool)
  | drop (k : Nat)
  | deliverReply (n : NodeId) (reply : Reply)
  | forget (n : NodeId) (correlation : Nat)
  | abandonWaiting (n : NodeId)

def step (w : World) : Label → Option World
  | .ask n => some { w with handles := w.handles ++ [some (n, .fromSender w.handles.length)] }
  | .encode k written =>
      match w.handles[k]? with
      | some (some (n, handle)) =>
          let (result, handle', node) := handle.encode (w.nodes n) written
          some (((w.encoded n handle result).setNode n node).setHandle k (some (n, handle')))
      | _ => none
  | .arrive j n =>
      match w.flights[j]? with
      | some (some wire) =>
          some { w with
            flights := w.flights.set j none
            handles := w.handles ++ [some (n, .fromWire wire)] }
      | _ => none
  | .lose j =>
      match w.flights[j]? with
      | some (some _) => some { w with flights := w.flights.set j none }
      | _ => none
  | .send k value listening =>
      match w.handles[k]? with
      | some (some (n, handle)) =>
          let (_, handle', node) := handle.send (w.nodes n) value listening
          some ((w.setNode n (handle'.drop node)).setHandle k none)
      | _ => none
  | .drop k =>
      match w.handles[k]? with
      | some (some (n, handle)) =>
          some ((w.setNode n (handle.drop (w.nodes n))).setHandle k none)
      | _ => none
  | .deliverReply n reply => some (w.setNode n ((w.nodes n).deliverReply reply).1)
  | .forget n correlation => some (w.setNode n ((w.nodes n).forget correlation))
  | .abandonWaiting n => some (w.setNode n (w.nodes n).abandonWaiting)

/-! ## The property -/

/-- No two replies are for one correlation, and each goes to the node, and the only
one, that registered its correlation. -/
structure OneReply (w : World) : Prop where
  single : ∀ (n m : NodeId) (i j : Nat) (o o' : NodeId) (r r' : Reply),
    (w.nodes n).routed[i]? = some (o, r) → (w.nodes m).routed[j]? = some (o', r') →
      r.correlation = r'.correlation → n = m ∧ i = j
  addressed : ∀ (n : NodeId) (i : Nat) (o : NodeId) (r : Reply),
    (w.nodes n).routed[i]? = some (o, r) →
      (o, r.correlation) ∈ w.registered ∧
        ∀ o', (o', r.correlation) ∈ w.registered → o' = o

/-- The node has a correlation left. -/
def InRange (w : World) : Label → Prop
  | .encode k _ => ∀ n tx slot, w.handles[k]? = some (some (n, ⟨.localTx (some tx), slot⟩)) →
      (w.nodes n).correlations.toNat + 1 < 2 ^ 64
  | _ => True

/-- No handle to a caller elsewhere is encoded once it has been. -/
def EncodedOnce (w : World) : Label → Prop
  | .encode k written => ∀ n wire slot,
      w.handles[k]? = some (some (n, ⟨.remote wire false, slot⟩)) → written.isOk = false
  | _ => True

/-! ## The right to answer -/

/-- Where the right to answer a request can be. -/
inductive Place where
  | handle (k : Nat)
  | flight (j : Nat)
  | reply (n : NodeId) (i : Nat)
  deriving DecidableEq

def Holds (w : World) : Place → Wire → Prop
  | .handle k, wire => ∃ n slot, w.handles[k]? = some (some (n, ⟨.remote wire true, slot⟩))
  | .flight j, wire => w.flights[j]? = some (some wire)
  | .reply n i, wire =>
      ∃ payload, (w.nodes n).routed[i]? = some (wire.origin, ⟨wire.correlation, payload⟩)

structure Inv (w : World) : Prop where
  single : Token.Single Wire.correlation (Holds w)
  registered : ∀ p wire, Holds w p wire → (wire.origin, wire.correlation) ∈ w.registered
  minted : ∀ n c, (n, c) ∈ w.registered →
    ∃ k < (w.nodes n).correlations.toNat, c = pack n (UInt64.ofNat k)
  localId : ∀ n, (w.nodes n).localId = n

/-! ## What the operations do to a node -/

/-- The node is the same, and at the same correlation. -/
def SameNode (node node' : ClusterNode) : Prop :=
  node'.localId = node.localId ∧ node'.correlations = node.correlations

theorem sameNode_deliverReply (node : ClusterNode) (reply : Reply) :
    SameNode node (node.deliverReply reply).1 := by
  unfold ClusterNode.deliverReply
  cases node.waiting.get? reply.correlation with
  | none => exact ⟨rfl, rfl⟩
  | some deliver => exact ⟨rfl, rfl⟩

theorem sameNode_routeReply (node : ClusterNode) (origin : NodeId) (reply : Reply) :
    SameNode node (node.routeReply origin reply).1 := by
  unfold ClusterNode.routeReply
  dsimp only
  split
  · exact sameNode_deliverReply _ reply
  · exact ⟨rfl, rfl⟩

/-- The handle is gone: if it could still answer, that is spent on one reply. -/
def Released (handle : ReplyTo) (node node' : ClusterNode) : Prop :=
  SameNode node node' ∧
    match handle.inner with
    | .remote wire true =>
        ∃ payload, node'.routed = node.routed ++ [(wire.origin, ⟨wire.correlation, payload⟩)]
    | _ => node'.routed = node.routed

theorem released_drop (handle : ReplyTo) (node : ClusterNode) :
    Released handle node (handle.drop node) := by
  obtain ⟨inner, slot⟩ := handle
  cases inner with
  | localTx tx => exact ⟨⟨rfl, rfl⟩, rfl⟩
  | remote wire armed =>
      cases armed with
      | false => exact ⟨⟨rfl, rfl⟩, rfl⟩
      | true =>
          exact ⟨sameNode_routeReply .., none, abandon_routed node wire.origin wire.correlation⟩

theorem released_send (handle : ReplyTo) (node : ClusterNode) (value : Except String Octets)
    (listening : Bool) :
    Released handle node ((handle.send node value listening).2.1.drop
      (handle.send node value listening).2.2) := by
  obtain ⟨inner, slot⟩ := handle
  cases inner with
  | localTx tx =>
      cases tx with
      | none => exact ⟨⟨rfl, rfl⟩, rfl⟩
      | some tx => exact ⟨⟨rfl, rfl⟩, rfl⟩
  | remote wire armed =>
      cases armed with
      | false => exact ⟨⟨rfl, rfl⟩, rfl⟩
      | true =>
          cases value with
          | ok payload =>
              exact ⟨sameNode_routeReply .., some payload, ClusterNode.routeReply_routed ..⟩
          | error e => exact ⟨sameNode_routeReply .., none, abandon_routed ..⟩

/-! ## Where the rights are after a change -/

section Changes

variable {w : World} {n : NodeId} {node : ClusterNode} {p : Place} {wire : Wire} {k : Nat}
  {handle handle' : Option (NodeId × ReplyTo)}

theorem holds_of_setNode (h : Holds (w.setNode n node) p wire) :
    (∃ i payload, p = .reply n i ∧
      node.routed[i]? = some (wire.origin, ⟨wire.correlation, payload⟩)) ∨
      ((∀ i, p ≠ .reply n i) ∧ Holds w p wire) := by
  cases p with
  | handle k => exact Or.inr ⟨nofun, h⟩
  | flight j => exact Or.inr ⟨nofun, h⟩
  | reply m i =>
      obtain ⟨payload, hi⟩ := h
      by_cases hm : m = n
      · subst hm
        rw [World.nodes_setNode_self] at hi
        exact Or.inl ⟨i, payload, rfl, hi⟩
      · rw [World.nodes_setNode_ne _ _ hm] at hi
        refine Or.inr ⟨?_, payload, hi⟩
        intro i' heq
        cases heq
        exact hm rfl

theorem holds_of_setNode_same (hrouted : node.routed = (w.nodes n).routed)
    (h : Holds (w.setNode n node) p wire) : Holds w p wire := by
  rcases holds_of_setNode h with ⟨i, payload, rfl, hi⟩ | ⟨-, h⟩
  · exact ⟨payload, hrouted ▸ hi⟩
  · exact h

theorem holds_of_setNode_reply {token : Wire} {payload : Option Octets}
    (hrouted : node.routed = (w.nodes n).routed ++ [(token.origin, ⟨token.correlation, payload⟩)])
    (h : Holds (w.setNode n node) p wire) :
    Holds w p wire ∨ (p = .reply n (w.nodes n).routed.length ∧ wire = token) := by
  rcases holds_of_setNode h with ⟨i, payload', rfl, hi⟩ | ⟨-, h⟩
  · rw [hrouted] at hi
    rcases Slots.getElem?_snoc_iff.mp hi with ⟨rfl, heq⟩ | hi
    · obtain ⟨o, c⟩ := wire
      obtain ⟨o', c'⟩ := token
      cases heq
      exact Or.inr ⟨rfl, rfl⟩
    · exact Or.inl ⟨payload', hi⟩
  · exact Or.inl h

theorem holds_of_setHandle (hk : w.handles[k]? = some handle)
    (h : Holds (w.setHandle k handle') p wire) :
    (p = .handle k ∧ ∃ n slot, handle' = some (n, ⟨.remote wire true, slot⟩)) ∨
      (p ≠ .handle k ∧ Holds w p wire) := by
  cases p with
  | handle j =>
      obtain ⟨n, slot, hj⟩ := h
      rcases (Slots.getElem?_set_iff hk).mp hj with ⟨rfl, heq⟩ | ⟨hne, hj⟩
      · exact Or.inl ⟨rfl, n, slot, heq.symm⟩
      · refine Or.inr ⟨?_, n, slot, hj⟩
        intro heq
        cases heq
        exact hne rfl
  | flight j => exact Or.inr ⟨nofun, h⟩
  | reply m i => exact Or.inr ⟨nofun, h⟩

theorem holds_of_newHandle
    (h : Holds { w with handles := w.handles ++ [handle] } p wire) :
    (p = .handle w.handles.length ∧ ∃ n slot, handle = some (n, ⟨.remote wire true, slot⟩)) ∨
      Holds w p wire := by
  cases p with
  | handle j =>
      obtain ⟨n, slot, hj⟩ := h
      rcases Slots.getElem?_snoc_iff.mp hj with ⟨rfl, heq⟩ | hj
      · exact Or.inl ⟨rfl, n, slot, heq.symm⟩
      · exact Or.inr ⟨n, slot, hj⟩
  | flight j => exact Or.inr h
  | reply m i => exact Or.inr h

theorem holds_of_landed {j : Nat} {flight : Option Wire} (hj : w.flights[j]? = some flight)
    (h : Holds { w with flights := w.flights.set j none } p wire) :
    p ≠ .flight j ∧ Holds w p wire := by
  cases p with
  | handle k => exact ⟨nofun, h⟩
  | flight i =>
      rcases (Slots.getElem?_set_iff hj).mp h with ⟨-, heq⟩ | ⟨hne, hi⟩
      · cases heq
      · refine ⟨?_, hi⟩
        intro heq
        cases heq
        exact hne rfl
  | reply m i => exact ⟨nofun, h⟩

theorem holds_of_newFlight {token : Wire}
    (h : Holds { w with flights := w.flights ++ [some token] } p wire) :
    Holds w p wire ∨ (p = .flight w.flights.length ∧ wire = token) := by
  cases p with
  | handle k => exact Or.inl h
  | flight j =>
      rcases Slots.getElem?_snoc_iff.mp h with ⟨rfl, heq⟩ | hj
      · cases heq
        exact Or.inr ⟨rfl, rfl⟩
      · exact Or.inl hj
  | reply m i => exact Or.inl h

/-- After an encode: at the handle there is what it has become, in flight there is
one wire more if it succeeded, and the rest is as it was. -/
theorem holds_of_encoded {m : NodeId} {old : ReplyTo} {result : Except String Wire}
    (hk : w.handles[k]? = some handle) (hrouted : node.routed = (w.nodes n).routed)
    (h : Holds (((w.encoded m old result).setNode n node).setHandle k handle') p wire) :
    (p = .handle k ∧ ∃ n slot, handle' = some (n, ⟨.remote wire true, slot⟩)) ∨
      (p ≠ .handle k ∧ Holds w p wire) ∨ (result = .ok wire ∧ p = .flight w.flights.length) := by
  rcases holds_of_setHandle (w := (w.encoded m old result).setNode n node) hk h with h | ⟨hne, h⟩
  · exact Or.inl h
  · have h := holds_of_setNode_same (w := w.encoded m old result) hrouted h
    cases result with
    | error e => exact Or.inr (Or.inl ⟨hne, h⟩)
    | ok token =>
        rcases holds_of_newFlight h with h | ⟨hp, rfl⟩
        · exact Or.inr (Or.inl ⟨hne, h⟩)
        · exact Or.inr (Or.inr ⟨rfl, hp⟩)

end Changes

/-! ## The steps -/

section Steps

variable {w w' : World} {n : NodeId} {node : ClusterNode} {k : Nat} {handle : ReplyTo}

theorem sameNode_setNode (h : SameNode (w.nodes n) node) (m : NodeId) :
    SameNode (w.nodes m) ((w.setNode n node).nodes m) := by
  by_cases hm : m = n
  · subst hm
    rw [World.nodes_setNode_self]
    exact h
  · rw [World.nodes_setNode_ne _ _ hm]
    exact ⟨rfl, rfl⟩

/-- No caller is registered, and every right was there before. -/
theorem Inv.next (h : Inv w) (hsame : ∀ m, SameNode (w.nodes m) (w'.nodes m))
    (hregistered : w'.registered = w.registered)
    (hsingle : Token.Single Wire.correlation (Holds w'))
    (hfrom : ∀ p wire, Holds w' p wire → ∃ q, Holds w q wire) : Inv w' := by
  refine ⟨hsingle, ?_, ?_, ?_⟩
  · intro p wire hp
    obtain ⟨q, hq⟩ := hfrom p wire hp
    rw [hregistered]
    exact h.registered q wire hq
  · intro m c hmem
    rw [hregistered] at hmem
    rw [(hsame m).2]
    exact h.minted m c hmem
  · intro m
    rw [(hsame m).1]
    exact h.localId m

theorem Inv.quiet (h : Inv w) (hsame : ∀ m, SameNode (w.nodes m) (w'.nodes m))
    (hregistered : w'.registered = w.registered)
    (hsub : ∀ p wire, Holds w' p wire → Holds w p wire) : Inv w' :=
  h.next hsame hregistered (h.single.mono hsub) fun p wire hp => ⟨p, hsub p wire hp⟩

theorem Inv.moved (h : Inv w) (hsame : ∀ m, SameNode (w.nodes m) (w'.nodes m))
    (hregistered : w'.registered = w.registered) (src dst : Place) {token : Wire}
    (hsrc : Holds w src token)
    (hnew : ∀ p wire, Holds w' p wire → (Holds w p wire ∧ p ≠ src) ∨ (p = dst ∧ wire = token)) :
    Inv w' := by
  refine h.next hsame hregistered (h.single.move hsrc hnew) ?_
  intro p wire hp
  rcases hnew p wire hp with ⟨hp, -⟩ | ⟨-, rfl⟩
  · exact ⟨p, hp⟩
  · exact ⟨src, hsrc⟩

/-- A handle goes, and with it its right, into a reply or into nothing. -/
theorem Inv.release (h : Inv w) (hk : w.handles[k]? = some (some (n, handle)))
    (hrel : Released handle (w.nodes n) node) : Inv ((w.setNode n node).setHandle k none) := by
  obtain ⟨hsame, hrouted⟩ := hrel
  have hkept : ∀ p wire, Holds ((w.setNode n node).setHandle k none) p wire →
      p ≠ .handle k ∧ Holds (w.setNode n node) p wire := by
    intro p wire hp
    rcases holds_of_setHandle (w := w.setNode n node) hk hp with ⟨-, m, slot, heq⟩ | hp
    · cases heq
    · exact hp
  obtain ⟨inner, slot⟩ := handle
  cases inner with
  | localTx tx =>
      exact h.quiet (sameNode_setNode hsame) rfl fun p wire hp =>
        holds_of_setNode_same hrouted (hkept p wire hp).2
  | remote wire armed =>
      cases armed with
      | false =>
          exact h.quiet (sameNode_setNode hsame) rfl fun p wire hp =>
            holds_of_setNode_same hrouted (hkept p wire hp).2
      | true =>
          obtain ⟨payload, hrouted⟩ := hrouted
          refine h.moved (sameNode_setNode hsame) rfl (.handle k)
            (.reply n (w.nodes n).routed.length) ⟨n, slot, hk⟩ ?_
          intro p wire' hp
          obtain ⟨hne, hp⟩ := hkept p wire' hp
          exact (holds_of_setNode_reply hrouted hp).imp_left fun hp => ⟨hp, hne⟩

/-- The correlation a node mints next is nobody's yet. -/
theorem Inv.fresh (h : Inv w) {p : Place} {wire : Wire} (hp : Holds w p wire) :
    wire.correlation ≠ (w.nodes n).mintCorrelation.1 := by
  intro heq
  obtain ⟨j, hlt, hpack⟩ := h.minted _ _ (h.registered p wire hp)
  have hnext : (w.nodes n).mintCorrelation.1 = pack n (w.nodes n).correlations := by
    unfold ClusterNode.mintCorrelation
    rw [h.localId n]
  rw [heq, hnext] at hpack
  obtain ⟨rfl, hcount⟩ := pack_inj.mp hpack
  have hj : j = (w.nodes wire.origin).correlations.toNat := by
    rw [hcount, UInt64.toNat_ofNat', Nat.mod_eq_of_lt]
    exact Nat.lt_trans hlt (UInt64.toNat_lt _)
  omega

/-- A remote handle is forwarded, or its serializer refuses. -/
theorem Inv.encodeRemote (h : Inv w) {wire : Wire} {armed : Bool} {slot : Option Nat}
    {written : Except String Unit}
    (hk : w.handles[k]? = some (some (n, ⟨.remote wire armed, slot⟩)))
    (honce : armed = false → written.isOk = false) :
    Inv (((w.encoded n ⟨.remote wire armed, slot⟩ (written.map fun _ => wire)).setNode n
      (w.nodes n)).setHandle k (some (n, ⟨.remote wire (armed && !written.isOk), slot⟩))) := by
  have hsame : ∀ m, SameNode (w.nodes m) ((w.setNode n (w.nodes n)).nodes m) :=
    sameNode_setNode ⟨rfl, rfl⟩
  cases written with
  | error e =>
      refine h.quiet hsame rfl ?_
      intro p wire' hp
      rcases holds_of_encoded hk rfl hp with ⟨rfl, m, slot', heq⟩ | ⟨-, hp⟩ | ⟨hok, -⟩
      · refine ⟨m, slot', ?_⟩
        rw [hk, ← heq]
        cases armed with
        | false => rfl
        | true => rfl
      · exact hp
      · cases hok
  | ok u =>
      have harmed : armed = true := by
        cases armed with
        | false => cases honce rfl
        | true => rfl
      subst harmed
      refine h.moved hsame rfl (.handle k) (.flight w.flights.length) ⟨n, slot, hk⟩ ?_
      intro p wire' hp
      rcases holds_of_encoded hk rfl hp with ⟨-, m, slot', heq⟩ | ⟨hne, hp⟩ | ⟨hok, hflight⟩
      · cases heq
      · exact Or.inl ⟨hp, hne⟩
      · cases hok
        exact Or.inr ⟨hflight, rfl⟩

/-- Encoding a local handle registers its caller, and creates the right to answer
it if the handle goes out. -/
theorem Inv.encodeLocal (h : Inv w) {tx : Caller} {slot : Option Nat}
    {written : Except String Unit}
    (hk : w.handles[k]? = some (some (n, ⟨.localTx (some tx), slot⟩)))
    (hrange : (w.nodes n).correlations.toNat + 1 < 2 ^ 64) :
    Inv (((w.encoded n ⟨.localTx (some tx), slot⟩ (written.map fun _ =>
        ⟨(w.nodes n).localId, (w.nodes n).mintCorrelation.1⟩)).setNode n
      ((w.nodes n).register tx).2).setHandle k
        (some (n, ⟨.localTx none, some (w.nodes n).mintCorrelation.1⟩))) := by
  have hnext : (w.nodes n).mintCorrelation.1 = pack n (w.nodes n).correlations := by
    unfold ClusterNode.mintCorrelation
    rw [h.localId n]
  have hcount : ((w.nodes n).correlations + 1).toNat = (w.nodes n).correlations.toNat + 1 :=
    toNat_add_ofNat (j := 1) hrange
  have hnode : ∀ m, (Function.update w.nodes n ((w.nodes n).register tx).2 m).localId = m ∧
      (w.nodes m).correlations.toNat ≤
        (Function.update w.nodes n ((w.nodes n).register tx).2 m).correlations.toNat := by
    intro m
    by_cases hm : m = n
    · subst hm
      rw [Function.update_self]
      refine ⟨h.localId m, ?_⟩
      rw [register_correlations, hcount]
      omega
    · rw [Function.update_of_ne hm]
      exact ⟨h.localId m, Nat.le_refl _⟩
  -- every right is an old one, or that of the wire that goes out
  have hnew : ∀ p wire, Holds (((w.encoded n ⟨.localTx (some tx), slot⟩ (written.map fun _ =>
        ⟨(w.nodes n).localId, (w.nodes n).mintCorrelation.1⟩)).setNode n
      ((w.nodes n).register tx).2).setHandle k
        (some (n, ⟨.localTx none, some (w.nodes n).mintCorrelation.1⟩))) p wire →
      Holds w p wire ∨ (p = .flight w.flights.length ∧
        wire = ⟨(w.nodes n).localId, (w.nodes n).mintCorrelation.1⟩) := by
    intro p wire hp
    have hrouted : ((w.nodes n).register tx).2.routed = (w.nodes n).routed := rfl
    rcases holds_of_encoded hk hrouted hp with ⟨-, m, slot', heq⟩ | ⟨-, hp⟩ | ⟨hok, hflight⟩
    · cases heq
    · exact Or.inl hp
    · cases written with
      | error e => cases hok
      | ok u =>
          cases hok
          exact Or.inr ⟨hflight, rfl⟩
  refine ⟨h.single.create (fun p wire hp => h.fresh hp) hnew, ?_, ?_, fun m => (hnode m).1⟩
  · intro p wire hp
    rcases hnew p wire hp with hp | ⟨-, rfl⟩
    · exact List.mem_append_left _ (h.registered p wire hp)
    · rw [h.localId n]
      exact List.mem_append_right _ (List.mem_singleton_self _)
  · intro m c hmem
    rcases List.mem_append.mp hmem with hmem | hmem
    · obtain ⟨j, hlt, hc⟩ := h.minted m c hmem
      exact ⟨j, Nat.lt_of_lt_of_le hlt (hnode m).2, hc⟩
    · cases List.mem_singleton.mp hmem
      refine ⟨(w.nodes n).correlations.toNat, ?_, ?_⟩
      · show _ < (Function.update w.nodes n ((w.nodes n).register tx).2 n).correlations.toNat
        rw [Function.update_self, register_correlations, hcount]
        exact Nat.lt_succ_self _
      · rw [hnext, UInt64.ofNat_toNat]

/-- A wire arrives: the right it carries is with the handle made of it. -/
theorem Inv.arrive (h : Inv w) {j : Nat} {wire : Wire} (hj : w.flights[j]? = some (some wire)) :
    Inv { w with
      flights := w.flights.set j none
      handles := w.handles ++ [some (n, .fromWire wire)] } := by
  refine h.moved (fun m => ⟨rfl, rfl⟩) rfl (.flight j) (.handle w.handles.length) hj ?_
  intro p wire' hp
  rcases holds_of_newHandle (w := { w with flights := w.flights.set j none }) hp with
    ⟨hhandle, m, slot, heq⟩ | hp
  · cases heq
    exact Or.inr ⟨hhandle, rfl⟩
  · exact Or.inl (holds_of_landed hj hp).symm

theorem Inv.setNode (h : Inv w) (hsame : SameNode (w.nodes n) node)
    (hrouted : node.routed = (w.nodes n).routed) : Inv (w.setNode n node) :=
  h.quiet (sameNode_setNode hsame) rfl fun _ _ => holds_of_setNode_same hrouted

theorem Inv.encode (h : Inv w) {written : Except String Unit}
    (hk : w.handles[k]? = some (some (n, handle)))
    (hrange : InRange w (.encode k written)) (honce : EncodedOnce w (.encode k written)) :
    Inv (((w.encoded n handle (handle.encode (w.nodes n) written).1).setNode n
      (handle.encode (w.nodes n) written).2.2).setHandle k
        (some (n, (handle.encode (w.nodes n) written).2.1))) := by
  obtain ⟨inner, slot⟩ := handle
  cases inner with
  | localTx tx =>
      cases tx with
      | none =>
          refine h.quiet (sameNode_setNode ⟨rfl, rfl⟩) rfl ?_
          intro p wire hp
          rcases holds_of_encoded hk rfl hp with ⟨-, m, slot', heq⟩ | ⟨-, hp⟩ | ⟨hok, -⟩
          · cases heq
          · exact hp
          · cases hok
      | some tx => exact h.encodeLocal hk (hrange n tx slot hk)
  | remote wire armed =>
      refine h.encodeRemote hk ?_
      intro harmed
      subst harmed
      exact honce n wire slot hk

end Steps

theorem inv_start : Inv World.start := by
  refine ⟨?_, ?_, nofun, fun n => rfl⟩
  · intro p q wire wire' hp
    cases p with
    | handle k => exact absurd hp.choose_spec.choose_spec nofun
    | flight j => cases hp
    | reply n i => exact absurd hp.choose_spec nofun
  · intro p wire hp
    cases p with
    | handle k => exact absurd hp.choose_spec.choose_spec nofun
    | flight j => cases hp
    | reply n i => exact absurd hp.choose_spec nofun

theorem inv_step {w w' : World} {a : Label} (h : Inv w) (hC : InRange w a ∧ EncodedOnce w a)
    (hs : step w a = some w') : Inv w' := by
  cases a with
  | ask n =>
      cases hs
      refine h.quiet (fun m => ⟨rfl, rfl⟩) rfl ?_
      intro p wire hp
      rcases holds_of_newHandle hp with ⟨-, m, slot, heq⟩ | hp
      · cases heq
      · exact hp
  | encode k written =>
      simp only [step] at hs
      split at hs
      · rename_i n handle hk
        cases hs
        exact h.encode hk hC.1 hC.2
      · cases hs
  | arrive j n =>
      simp only [step] at hs
      split at hs
      · rename_i wire hj
        cases hs
        exact h.arrive hj
      · cases hs
  | lose j =>
      simp only [step] at hs
      split at hs
      · rename_i wire hj
        cases hs
        exact h.quiet (fun m => ⟨rfl, rfl⟩) rfl fun p wire hp => (holds_of_landed hj hp).2
      · cases hs
  | send k value listening =>
      simp only [step] at hs
      split at hs
      · rename_i n handle hk
        cases hs
        exact h.release hk (released_send handle (w.nodes n) value listening)
      · cases hs
  | drop k =>
      simp only [step] at hs
      split at hs
      · rename_i n handle hk
        cases hs
        exact h.release hk (released_drop handle (w.nodes n))
      · cases hs
  | deliverReply n reply =>
      cases hs
      exact h.setNode (sameNode_deliverReply _ reply) (ClusterNode.deliverReply_routed _ reply)
  | forget n correlation =>
      cases hs
      exact h.setNode ⟨rfl, rfl⟩ rfl
  | abandonWaiting n =>
      cases hs
      exact h.setNode ⟨rfl, rfl⟩ rfl

/-! ## The result -/

theorem oneReply_of_inv {w : World} (h : Inv w) : OneReply w := by
  have hholds : ∀ (n : NodeId) (i : Nat) (o : NodeId) (r : Reply),
      (w.nodes n).routed[i]? = some (o, r) → Holds w (.reply n i) ⟨o, r.correlation⟩ :=
    fun n i o r hi => ⟨r.payload, hi⟩
  constructor
  · intro n m i j o o' r r' hi hj hcorrelation
    cases h.single _ _ _ _ (hholds n i o r hi) (hholds m j o' r' hj) hcorrelation
    exact ⟨rfl, rfl⟩
  · intro n i o r hi
    have hmem := h.registered _ _ (hholds n i o r hi)
    refine ⟨hmem, fun o' hmem' => ?_⟩
    obtain ⟨k, -, hk⟩ := h.minted o _ hmem
    obtain ⟨k', -, hk'⟩ := h.minted o' _ hmem'
    exact (pack_inj.mp (hk'.symm.trans hk)).1

theorem oneReply_of_encodedOnce {l : List Label} {w : World}
    (hC : Schedule.Along step (fun w a => InRange w a ∧ EncodedOnce w a) World.start l)
    (hrun : Schedule.run step World.start l = some w) : OneReply w :=
  oneReply_of_inv (Schedule.run_invariant (fun _ _ _ => inv_step) l inv_start hC hrun)

/-- **A handle ends one way**, and a request gets one reply, where no handle to a
caller elsewhere is encoded again once it was and no node goes through all its
correlations. -/
theorem handle_ends_oneWay (handle : ReplyTo) (life : ReplyTo.Life) (l : List Label) (w : World) :
    (handle.Fresh → handle.HandedOnOnce life → handle.EndsOneWay life) ∧
    (Schedule.Along step (fun w a => InRange w a ∧ EncodedOnce w a) World.start l →
      Schedule.run step World.start l = some w → OneReply w) :=
  ⟨ReplyTo.endsOneWay_of_handedOnOnce, oneReply_of_encodedOnce⟩

theorem inRange_start (n : NodeId) : (ClusterNode.start n).correlations.toNat + 1 < 2 ^ 64 := by
  show (0 : UInt64).toNat + 1 < 2 ^ 64
  decide

/-- A request of node 1 goes to node 2, which passes it on to node 3, which
answers. -/
def passedOn : List Label :=
  [.ask ⟨1⟩, .encode 0 (.ok ()), .arrive 0 ⟨2⟩, .encode 1 (.ok ()), .drop 1, .arrive 1 ⟨3⟩,
    .send 2 (.ok [7]) true]

/-- A serializer refuses, the next does not, and the handle is dropped. -/
def retriedLife : ReplyTo.Life where
  attempts := [(ClusterNode.start ⟨2⟩, .error "no"), (ClusterNode.start ⟨2⟩, .ok ())]
  answer := none
  last := ClusterNode.start ⟨2⟩

theorem handle_ends_oneWay_passedOn :
    (ReplyTo.fromWire ⟨⟨1⟩, 0⟩).EndsOneWay retriedLife ∧
    ∃ w, Schedule.run step World.start passedOn = some w ∧
      (w.nodes ⟨3⟩).routed = [(⟨1⟩, ⟨pack ⟨1⟩ 0, some [7]⟩)] ∧ OneReply w := by
  obtain ⟨hlife, hrun⟩ := handle_ends_oneWay (.fromWire ⟨⟨1⟩, 0⟩) retriedLife passedOn _
  refine ⟨hlife (Or.inr ⟨_, rfl⟩) ?_, _, rfl, rfl, hrun ?_ rfl⟩
  · intro wire _
    exact List.pairwise_cons.mpr ⟨fun a _ h => (by cases h), List.pairwise_singleton _ _⟩
  · refine .cons ⟨trivial, trivial⟩ rfl (.cons ⟨fun n _ _ _ => inRange_start n, nofun⟩ rfl
      (.cons ⟨trivial, trivial⟩ rfl
        (.cons ⟨nofun, nofun⟩ rfl (.cons ⟨trivial, trivial⟩ rfl (.cons ⟨trivial, trivial⟩ rfl
          (.cons ⟨trivial, trivial⟩ rfl trivial))))))

/-- Node 2 passes the request on to nodes 3 and 4; the one answers, the other gives
the caller up. -/
def passedOnTwice : List Label :=
  [.ask ⟨1⟩, .encode 0 (.ok ()), .arrive 0 ⟨2⟩, .encode 1 (.ok ()), .encode 1 (.ok ()),
    .arrive 1 ⟨3⟩, .arrive 2 ⟨4⟩, .send 2 (.ok [7]) true, .drop 3]

theorem two_replies :
    (¬ ∀ (handle : ReplyTo) (life : ReplyTo.Life), handle.Fresh → handle.EndsOneWay life) ∧
    ¬ ∀ (l : List Label) (w : World), Schedule.Along step InRange World.start l →
      Schedule.run step World.start l = some w → OneReply w := by
  constructor
  · intro hall
    exact ReplyTo.forwarded_twice (hall _ _ (Or.inr ⟨_, rfl⟩))
  · intro hall
    have honly := hall passedOnTwice _ (.cons trivial rfl (.cons
      (fun n _ _ _ => inRange_start n) rfl (.cons trivial rfl (.cons nofun rfl
        (.cons nofun rfl (.cons trivial rfl (.cons trivial rfl (.cons trivial rfl
          (.cons trivial rfl trivial))))))))) rfl
    cases (honly.single ⟨3⟩ ⟨4⟩ 0 0 ⟨1⟩ ⟨1⟩ ⟨pack ⟨1⟩ 0, some [7]⟩ ⟨pack ⟨1⟩ 0, none⟩ rfl rfl rfl).1

end HorsieActor.Ports.Forwarding
