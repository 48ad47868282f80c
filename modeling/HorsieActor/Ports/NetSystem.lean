import HorsieActor.Ports.Net
import HorsieActor.Ports.RefusedCommand

/-!
# One process of the machine, and the system it runs

`System` is a node seen from inside: whole calls of `deliver_to_shard` and
`dispatch`, each a function of the node it runs on.  `Net` is the cluster seen
from outside, in steps small enough for other tasks to come between.  Both are
built from the same `ClusterNode`, and this file says that they agree: what a
call does to its node is what some schedule of the machine does to the process,
with the replies the call routes to other nodes put in flight.

So every behaviour of the system's functions is among the runs the results on
`Net` quantify over.

## Main results

* `dispatch_run` — an arriving command.
* `reply_run` — an arriving reply.
* `deliver_run` — a command that leaves the node, up to its first send.
-/

namespace HorsieActor.Ports.Net

open HorsieActor.Verified
open HorsieActor.Verified.Schedule

/-! ## Agreement -/

/-- The process is the node a system runs on. -/
structure Stands (p : Process) (sys : System) : Prop where
  node : sys.cluster = some p.node
  seen : sys.seen = p.seen

/-- A reply in flight as the transport sees it. -/
def Returning.sent (r : Returning) : NodeId × Reply := (r.dest, r.reply)

/-- Only node `n` has moved, no command has come or gone, and `sent` has joined
the replies in flight. -/
structure Aside (n : NodeId) (sent : List (NodeId × Reply)) (w w' : World) : Prop where
  procs : ∀ m, m ≠ n → w'.procs m = w.procs m
  net : w'.net = w.net
  replies : w'.replies.map Returning.sent = w.replies.map Returning.sent ++ sent

theorem Aside.refl (n : NodeId) (w : World) : Aside n [] w w :=
  ⟨fun _ _ => rfl, rfl, (List.append_nil _).symm⟩

theorem Aside.trans {n : NodeId} {s₁ s₂ : List (NodeId × Reply)} {w₁ w₂ w₃ : World}
    (h₁ : Aside n s₁ w₁ w₂) (h₂ : Aside n s₂ w₂ w₃) : Aside n (s₁ ++ s₂) w₁ w₃ where
  procs m hm := (h₂.procs m hm).trans (h₁.procs m hm)
  net := h₂.net.trans h₁.net
  replies := by rw [h₂.replies, h₁.replies, List.append_assoc]

/-- The abandons among `wires` that have to leave the node. -/
def abandonsFrom (localId : NodeId) (wires : List Wire) : List (NodeId × Reply) :=
  (wires.map fun wire => (wire.origin, (⟨wire.correlation, none⟩ : Reply))).filter
    fun r => decide (r.1 ≠ localId)

/-! ## Dropping handles -/

section Runs

variable {w : World} {n : NodeId} {p : Process}

theorem procs_put_self (w : World) (n : NodeId) (p : Process) :
    (w.put n p).procs n = some p := by
  simp [World.put]

theorem procs_put_ne {m : NodeId} (w : World) (p : Process) (h : m ≠ n) :
    (w.put n p).procs m = w.procs m := by
  simp [World.put, h]

/-- Dropping a held handle is abandoning its request. -/
theorem step_drop {i : Nat} {handle : Handle} (hp : w.procs n = some p)
    (hi : p.held[i]? = some handle) :
    ∃ w', step w (.respond n i none) = some w' ∧
      w'.procs n = some { p with
        node := p.node.abandon handle.wire.origin handle.wire.correlation
        held := p.held.eraseIdx i } ∧
      Aside n (abandonsFrom p.node.localId [handle.wire]) w w' := by
  simp only [step, heldAt_eq_some.mpr ⟨hp, hi⟩]
  refine ⟨_, rfl, procs_put_self _ _ _, fun m hm => procs_put_ne w _ hm, rfl, ?_⟩
  by_cases hhere : handle.wire.origin = p.node.localId
  · simp [abandonsFrom, hhere]
  · simp [abandonsFrom, hhere, Returning.sent]

/-- Dropping handles one after another, from the same place. -/
theorem run_drops {before after : List Handle} (taken : List Handle) :
    ∀ {w : World} {p : Process}, w.procs n = some p → p.held = before ++ taken ++ after →
      ∃ w', run step w (List.replicate taken.length (.respond n before.length none)) = some w' ∧
        w'.procs n = some { p with
          node := (taken.map Handle.wire).foldl
            (fun node wire => node.abandon wire.origin wire.correlation) p.node
          held := before ++ after } ∧
        Aside n (abandonsFrom p.node.localId (taken.map Handle.wire)) w w' := by
  induction taken with
  | nil =>
      intro w p hp hheld
      rw [List.append_nil] at hheld
      refine ⟨w, rfl, ?_, Aside.refl n w⟩
      rw [hp, ← hheld]
      rfl
  | cons handle rest ih =>
      intro w p hp hheld
      have hi : p.held[before.length]? = some handle := by
        rw [hheld]
        simp
      obtain ⟨w₁, hstep, hp₁, haside⟩ := step_drop hp hi
      have hheld₁ : p.held.eraseIdx before.length = before ++ rest ++ after := by
        rw [hheld, List.append_assoc, List.eraseIdx_append_of_length_le (Nat.le_refl _)]
        simp
      obtain ⟨w', hrun, hp', haside'⟩ := ih hp₁ hheld₁
      refine ⟨w', ?_, hp', ?_⟩
      · rw [List.length_cons, List.replicate_succ, run_cons, hstep]
        exact hrun
      · rw [abandon_localId] at haside'
        have := haside.trans haside'
        rwa [abandonsFrom, abandonsFrom, ← List.filter_append, ← List.map_append] at this

end Runs

/-! ## Arrivals -/

section Arrivals

variable {sys : System} {shard : Shard} {payload : Payload} {w : World} {p : Process}

/-- The armed handles a read leaves come from the payload, in its order. -/
theorem wiresOf_readValues_sublist (reader : Reader) (inContext : Bool) (payload : Payload) :
    ∀ k : Nat, (wiresOf (readValues reader inContext k payload).1).Sublist payload.wires := by
  induction payload with
  | nil => intro k; exact List.Sublist.slnil
  | cons value rest ih =>
      intro k
      rw [readValues]
      cases reader.read k value with
      | refuse => exact List.nil_sublist _
      | skip =>
          cases value with
          | data bytes => exact ih (k + 1)
          | handle wire => exact (ih (k + 1)).cons wire
      | take =>
          cases value with
          | data bytes => exact ih (k + 1)
          | handle wire =>
              cases inContext with
              | false => exact List.nil_sublist _
              | true => exact (ih (k + 1)).cons_cons wire

/-- What the `receive` closure does to the node: nothing when it delivers, and
otherwise it drops the handles it has read. -/
theorem receive_effect {node : ClusterNode} (hnode : sys.cluster = some node) (id : Nat)
    (meanwhile : Meanwhile) :
    ∃ fields, (wiresOf fields).Sublist payload.wires ∧
      ((sys.receive shard id payload meanwhile).1 = .ok () →
        (sys.receive shard id payload meanwhile).2.cluster = some node) ∧
      ((sys.receive shard id payload meanwhile).1 ≠ .ok () →
        (sys.receive shard id payload meanwhile).2.cluster = some (dropFields node fields)) := by
  cases hreader : sys.wires.lookup shard.command with
  | none =>
      refine ⟨[], List.nil_sublist _, ?_, ?_⟩
      · intro hok
        simp only [System.receive, hreader] at hok
        cases hok
      · intro _
        simp only [System.receive, hreader]
        exact hnode
  | some reader =>
      refine ⟨(readValues reader true 0 payload).1, wiresOf_readValues_sublist reader true _ 0, ?_,
        receive_refused hreader hnode⟩
      intro hok
      unfold System.receive at hok ⊢
      simp only [hreader, decodeFields, hnode, Option.isSome_some] at hok ⊢
      split at hok
      · cases hok
      · rename_i cmd cluster hdec
        split at hdec
        · cases hdec
          generalize ({ sys with cluster := some node } : System).ensureActor shard _ meanwhile
            = built at hok ⊢
          cases built with
          | error e => cases hok
          | ok host =>
              dsimp only at hok ⊢
              generalize (meanwhile 1 host).resolve shard.command _ = found at hok ⊢
              cases found with
              | none => cases hok
              | some inst =>
                  dsimp only at hok ⊢
                  split
                  · rfl
                  · rename_i hdead
                    rw [if_neg hdead] at hok
                    cases hok
        · cases hdec

/-- Receiving does not touch the dedup window. -/
theorem receive_seen (sys : System) (shard : Shard) (id : Nat) (payload : Payload)
    (meanwhile : Meanwhile) : (sys.receive shard id payload meanwhile).2.seen = sys.seen := by
  unfold System.receive
  cases sys.wires.lookup shard.command with
  | none => rfl
  | some reader =>
      dsimp only
      obtain ⟨decoded, cluster⟩ := decodeFields reader sys.cluster payload
      cases decoded with
      | none => rfl
      | some cmd =>
          dsimp only
          split
          · rfl
          · split
            · rfl
            · split <;> rfl

/-- A repeat, or a command for a node that does not serve, is gone without a
trace. -/
theorem step_arrive_ignored {packet : Packet} {j : Nat} (hj : w.net[j]? = some packet)
    (hp : w.procs packet.dest = some p)
    (h : p.node.serving = false ∨ packet.messageId ∈ p.seen.seen) (taken : List Handle) :
    step w (.arrive j taken) = some { w with net := w.net.eraseIdx j } := by
  rcases h with hserve | hseen
  · simp [step, hj, hp, hserve]
  · simp [step, hj, hp, Dedup.acceptId_of_mem hseen]

/-- The process once a new command has entered its window and `taken` has been
read of it. -/
def Process.taking (p : Process) (packet : Packet) (taken : List Handle) : Process :=
  { p with
    seen := (p.seen.acceptId packet.messageId).2
    held := p.held ++ taken
    accepted := p.accepted ++ [(packet.messageId, packet.call)] }

theorem step_arrive_new {packet : Packet} {j : Nat} {taken : List Handle}
    (hj : w.net[j]? = some packet) (hp : w.procs packet.dest = some p)
    (hserve : p.node.serving = true) (hnew : packet.messageId ∉ p.seen.seen)
    (htaken : taken.Sublist packet.handles) :
    step w (.arrive j taken) = some
      { w.put packet.dest (p.taking packet taken) with net := w.net.eraseIdx j } := by
  have hfst := Dedup.acceptId_fst p.seen packet.messageId
  simp only [Process.taking, step, hj, hp, hserve, if_true]
  generalize p.seen.acceptId packet.messageId = out at hfst ⊢
  obtain ⟨fresh, seen⟩ := out
  have hfresh : fresh = true := by simpa [hnew] using hfst
  subst hfresh
  dsimp only
  rw [if_pos htaken]

theorem routedSince_self {before after : System} (h : after.cluster = before.cluster) :
    routedSince before after = [] := by
  unfold routedSince
  rw [h]
  cases before.cluster with
  | none => rfl
  | some node => simp

/-- Some run of the machine takes the packet `j` out of flight and does to the
process what the outcome `out` of a `dispatch` does to the system: the window
and the node end the same, the replies routed to other nodes are in flight, and
the handles of a command that was delivered are held. -/
def Arrives (w : World) (j : Nat) (packet : Packet) (p : Process) (sys : System)
    (out : Except DispatchError Unit × System) : Prop :=
  ∃ schedule w' p' taken, run step w schedule = some w' ∧ w'.procs packet.dest = some p' ∧
    Stands p' out.2 ∧
    p'.held = p.held ++ taken ∧ taken.Sublist packet.handles ∧ (out.1 ≠ .ok () → taken = []) ∧
    Aside packet.dest ((routedSince sys out.2).filter fun r => decide (r.1 ≠ p.node.localId))
      { w with net := w.net.eraseIdx j } w'

section Arriving

variable {packet : Packet} {j : Nat} {seen : Dedup}

theorem arrives_ignored (hj : w.net[j]? = some packet) (hp : w.procs packet.dest = some p)
    (hstands : Stands p sys) (h : p.node.serving = false ∨ packet.messageId ∈ p.seen.seen)
    (out : Except DispatchError Unit) : Arrives w j packet p sys (out, sys) := by
  refine ⟨[.arrive j []], { w with net := w.net.eraseIdx j }, p, [], ?_, hp, hstands,
    (List.append_nil _).symm, List.nil_sublist _, fun _ => rfl, ?_⟩
  · rw [run_cons, step_arrive_ignored hj hp h]
    rfl
  · rw [routedSince_self rfl]
    exact Aside.refl _ _

/-- A new command that leaves the node as it was; what was taken of it is
held. -/
theorem arrives_kept {taken : List Handle} {out : Except DispatchError Unit × System}
    (hj : w.net[j]? = some packet) (hp : w.procs packet.dest = some p) (hstands : Stands p sys)
    (hserve : p.node.serving = true) (hnew : packet.messageId ∉ p.seen.seen)
    (htaken : taken.Sublist packet.handles) (hnone : out.1 ≠ .ok () → taken = [])
    (hseen : out.2.seen = (p.seen.acceptId packet.messageId).2)
    (hnode : out.2.cluster = some p.node) : Arrives w j packet p sys out := by
  refine ⟨[.arrive j taken],
    { w.put packet.dest (p.taking packet taken) with net := w.net.eraseIdx j },
    p.taking packet taken, taken, ?_, procs_put_self w _ _, ⟨hnode, hseen⟩, rfl, htaken, hnone, ?_⟩
  · rw [run_cons, step_arrive_new hj hp hserve hnew htaken]
    rfl
  · rw [routedSince_self (hnode.trans hstands.node.symm)]
    exact ⟨fun m hm => procs_put_ne w _ hm, rfl, (List.append_nil _).symm⟩

/-- A new command that is refused once handles of it were taken: they are
dropped again. -/
theorem arrives_dropped {fields : List Field} {out : Except DispatchError Unit × System}
    (hj : w.net[j]? = some packet) (hp : w.procs packet.dest = some p) (hstands : Stands p sys)
    (hserve : p.node.serving = true) (hnew : packet.messageId ∉ p.seen.seen)
    (hfields : (wiresOf fields).Sublist (packet.handles.map Handle.wire))
    (hseen : out.2.seen = (p.seen.acceptId packet.messageId).2)
    (hnode : out.2.cluster = some (dropFields p.node fields)) :
    Arrives w j packet p sys out := by
  obtain ⟨taken, htaken, hmap⟩ := List.sublist_map_iff.mp hfields
  have hput : ({ w.put packet.dest (p.taking packet taken) with
      net := w.net.eraseIdx j } : World).procs packet.dest = some (p.taking packet taken) :=
    procs_put_self w _ _
  obtain ⟨w', hrun, hp', haside⟩ := run_drops taken hput (List.append_nil _).symm
  refine ⟨.arrive j taken :: List.replicate taken.length (.respond packet.dest p.held.length none),
    w', _, [], ?_, hp', ⟨?_, hseen⟩, rfl, List.nil_sublist _, fun _ => rfl, ?_⟩
  · rw [run_cons, step_arrive_new hj hp hserve hnew htaken]
    exact hrun
  · rw [hnode, dropFields_eq, hmap]
    rfl
  · have hrouted : routedSince sys out.2 =
        (wiresOf fields).map fun wire => (wire.origin, ⟨wire.correlation, none⟩) := by
      simp only [routedSince, hstands.node, hnode, dropFields_routed, List.drop_left]
    rw [hrouted, hmap]
    exact ⟨fun m hm => (haside.procs m hm).trans (procs_put_ne w _ hm), haside.net, haside.replies⟩

end Arriving

/-- **An arriving command.**  What `dispatch` does to its node is a run of the
machine. -/
theorem dispatch_run {packet : Packet} {env : Envelope} {j : Nat} (meanwhile : Meanwhile)
    (hj : w.net[j]? = some packet) (hp : w.procs packet.dest = some p) (hstands : Stands p sys)
    (hid : packet.messageId = env.messageId)
    (hwires : packet.handles.map Handle.wire = env.payload.wires) :
    Arrives w j packet p sys (sys.dispatch (.command env) meanwhile) := by
  have hmay : sys.mayServe = p.node.serving := by simp [System.mayServe, hstands.node]
  cases hserve : p.node.serving with
  | false =>
      rw [dispatch_notServing (hmay.trans hserve)]
      exact arrives_ignored hj hp hstands (Or.inl hserve) _
  | true =>
      by_cases hold : env.messageId ∈ p.seen.seen
      · rw [dispatch_repeat (hmay.trans hserve) (hstands.seen ▸ hold)]
        exact arrives_ignored hj hp hstands (Or.inr (hid ▸ hold)) _
      · have hnew : packet.messageId ∉ p.seen.seen := hid ▸ hold
        have hseen : (sys.seen.acceptId env.messageId).2 =
            (p.seen.acceptId packet.messageId).2 := by rw [hstands.seen, hid]
        rw [dispatch_new meanwhile (hmay.trans hserve) (hstands.seen ▸ hold)]
        dsimp only
        cases sys.shards.lookup env.typeName with
        | none =>
            exact arrives_kept hj hp hstands hserve hnew (List.nil_sublist _) (fun _ => rfl) hseen
              hstands.node
        | some shard =>
            dsimp only
            rw [hseen]
            generalize hsys : ({ sys with seen := (p.seen.acceptId packet.messageId).2 } : System)
              = sys₁
            have hnode : sys₁.cluster = some p.node := hsys ▸ hstands.node
            have hseen₁ : (sys₁.receive shard env.messageId env.payload meanwhile).2.seen =
                (p.seen.acceptId packet.messageId).2 := by
              rw [receive_seen, ← hsys]
            obtain ⟨fields, hsub, hok, herr⟩ := receive_effect hnode env.messageId meanwhile
            rw [← hwires] at hsub
            by_cases hres : (sys₁.receive shard env.messageId env.payload meanwhile).1 = .ok ()
            · obtain ⟨taken, htaken, -⟩ := List.sublist_map_iff.mp hsub
              exact arrives_kept hj hp hstands hserve hnew htaken (absurd hres) hseen₁ (hok hres)
            · exact arrives_dropped hj hp hstands hserve hnew hsub hseen₁ (herr hres)

/-- **An arriving reply.**  It does to the waiting table what `dispatch` does,
in one step. -/
theorem reply_run {r : Returning} {j : Nat} (meanwhile : Meanwhile)
    (hj : w.replies[j]? = some r) (hp : w.procs r.dest = some p) (hstands : Stands p sys) :
    ∃ w' p', step w (.deliver j) = some w' ∧ w'.procs r.dest = some p' ∧
      Stands p' (sys.dispatch (.reply r.reply) meanwhile).2 := by
  simp only [step, hj, hp]
  refine ⟨_, { p with node := (p.node.deliverReply r.reply).1 }, rfl, procs_put_self w _ _, ?_,
    hstands.seen⟩
  simp [System.dispatch, hstands.node]

end Arrivals

/-! ## Commands that leave -/

section Leaving

variable {w : World} {n : NodeId} {p : Process} {k : Nat} {call : Call}

/-- The steps in which one field is encoded.  A remote handle is the first the
process holds. -/
def labelsOf (n : NodeId) (k : Nat) : Field → List Label
  | .reply ⟨.localTx _, _⟩ => [.mint n k, .insert n k]
  | .reply ⟨.remote _ _, _⟩ => [.forward n k 0]
  | .data _ => []

/-- A call that is still encoding its command. -/
structure Encoding (w : World) (n : NodeId) (p : Process) (k : Nat) (call : Call) : Prop where
  proc : w.procs n = some p
  ours : p.calls[k]? = some call
  pending : call.pending = none
  messageId : call.messageId = none

/-- The process once its call has encoded one more handle. -/
def Process.encoded (p : Process) (k : Nat) (call : Call) (node : ClusterNode)
    (held handles : List Handle) : Process :=
  { p with node := node, held := held, calls := p.calls.set k { call with handles := handles } }

theorem Encoding.encoded {w' : World} {node : ClusterNode} {held handles : List Handle}
    (h : Encoding w n p k call) (hp : w'.procs n = some (p.encoded k call node held handles)) :
    Encoding w' n (p.encoded k call node held handles) k { call with handles := handles } where
  proc := hp
  ours := by
    have hlt : k < p.calls.length := (List.getElem?_eq_some_iff.mp h.ours).1
    simp [Process.encoded, hlt]
  pending := h.pending
  messageId := h.messageId

/-- Encoding a local handle: mint, then insert. -/
theorem run_encodeLocal (h : Encoding w n p k call) :
    ∃ w', run step w [.mint n k, .insert n k] = some w' ∧
      w'.procs n = some (p.encoded k call (p.node.register w.encodes).2 p.held
        (call.handles ++ [⟨⟨p.node.localId, (p.node.register w.encodes).1⟩, w.encodes⟩])) ∧
      w'.encodes = w.encodes + 1 ∧ Aside n [] w w' := by
  have hlt : k < p.calls.length := (List.getElem?_eq_some_iff.mp h.ours).1
  obtain ⟨w₁, hstep, hp₁, henc₁, haside₁⟩ : ∃ w₁, step w (.mint n k) = some w₁ ∧
      w₁.procs n = some { p with
        node := p.node.mintCorrelation.2
        calls := p.calls.set k
          { call with pending := some (p.node.mintCorrelation.1, w.encodes) } } ∧
      w₁.encodes = w.encodes + 1 ∧ Aside n [] w w₁ := by
    simp only [step, callAt_eq_some.mpr ⟨h.proc, h.ours⟩]
    rw [if_pos ⟨h.pending, h.messageId⟩]
    exact ⟨_, rfl, procs_put_self w _ _, rfl, fun m hm => procs_put_ne w _ hm, rfl,
      (List.append_nil _).symm⟩
  have hat : w₁.callAt n k = some (_, { call with
      pending := some (p.node.mintCorrelation.1, w.encodes) }) :=
    callAt_eq_some.mpr ⟨hp₁, by simp [hlt]⟩
  rw [run_cons, hstep]
  show ∃ w', ((step w₁ (.insert n k)).bind fun s => run step s []) = some w' ∧ _
  simp only [step, hat]
  refine ⟨_, rfl, ?_, henc₁, ?_⟩
  · rw [procs_put_self, List.set_set]
    have hpend := h.pending
    obtain ⟨id, typeName, shardId, pending, handles, messageId, attempts⟩ := call
    cases hpend
    rfl
  · exact haside₁.trans ⟨fun m hm => procs_put_ne w₁ _ hm, rfl, (List.append_nil _).symm⟩

/-- Encoding a remote handle: it passes from the process to the call. -/
theorem step_encodeRemote {handle : Handle} {rest : List Handle} (h : Encoding w n p k call)
    (hheld : p.held = handle :: rest) :
    ∃ w', step w (.forward n k 0) = some w' ∧
      w'.procs n = some (p.encoded k call p.node rest (call.handles ++ [handle])) ∧
      w'.encodes = w.encodes ∧ Aside n [] w w' := by
  have hat := heldAt_eq_some.mpr ⟨h.proc, (show p.held[0]? = some handle by rw [hheld]; rfl)⟩
  simp only [step, callAt_eq_some.mpr ⟨h.proc, h.ours⟩, hat]
  rw [if_pos ⟨h.pending, h.messageId⟩, hheld]
  exact ⟨_, rfl, procs_put_self w _ _, rfl, fun m hm => procs_put_ne w _ hm, rfl,
    (List.append_nil _).symm⟩

theorem Process.encoded_encoded (p : Process) (k : Nat) (call : Call) (node node' : ClusterNode)
    (held held' handles handles' : List Handle) :
    (p.encoded k call node held handles).encoded k { call with handles := handles } node' held'
      handles' = p.encoded k call node' held' handles' := by
  simp [Process.encoded, List.set_set]

/-- Reading the handles off a payload that a value is put in front of. -/
theorem map_wires_cons {result : Except String Payload} {wires : List Wire}
    (h : result.map Payload.wires = .ok wires) (wire : Wire) :
    (result.map (.handle wire :: ·)).map Payload.wires = .ok (wire :: wires) := by
  cases result with
  | error e => cases h
  | ok payload =>
      cases h
      rfl

/-- Encoding a command field by field leaves in the node what `encodeFields`
leaves there, and in the call the handles `encodeFields` writes. -/
theorem run_encode {rest : List Handle} (fields : List Field) :
    ∀ {w : World} {p : Process} {call : Call} {given : List Handle}, Encoding w n p k call →
      FreshFields fields → (∀ field ∈ fields, field.encodable = true) →
      given.map Handle.wire = wiresOf fields → p.held = given ++ rest →
      callersOf fields = List.range' w.encodes (callersOf fields).length →
      ∃ w' handles, run step w (fields.flatMap (labelsOf n k)) = some w' ∧
        w'.procs n = some (p.encoded k call (registerAll p.node (callersOf fields)) rest
          (call.handles ++ handles)) ∧
        (encodeFields p.node fields).1.map Payload.wires = .ok (handles.map Handle.wire) ∧
        Aside n [] w w' := by
  induction fields with
  | nil =>
      intro w p call given h _ _ hgiven hheld _
      obtain rfl : given = [] := List.map_eq_nil_iff.mp hgiven
      refine ⟨w, [], rfl, ?_, rfl, Aside.refl n w⟩
      obtain ⟨hlt, hget⟩ := List.getElem?_eq_some_iff.mp h.ours
      have hset : p.calls.set k call = p.calls := hget ▸ List.set_getElem_self hlt
      rw [h.proc, List.append_nil]
      show some p = some { p with held := rest, calls := p.calls.set k call }
      rw [hset, show rest = p.held from hheld.symm]
  | cons field fields ih =>
      intro w p call given h hfresh hall hgiven hheld hnames
      have hall' : ∀ field ∈ fields, field.encodable = true :=
        fun f hf => hall f (List.mem_cons_of_mem _ hf)
      cases field with
      | data encoded =>
          cases encoded with
          | error e => exact absurd (hall _ (List.mem_cons_self ..)) nofun
          | ok bytes =>
              obtain ⟨w', handles, hrun, hp', hwires, haside⟩ :=
                ih h hfresh.tail hall' hgiven hheld hnames
              refine ⟨w', handles, hrun, hp', ?_, haside⟩
              show ((encodeFields p.node fields).1.map _).map _ = _
              rw [← hwires]
              cases (encodeFields p.node fields).1 <;> rfl
      | reply handle =>
          rcases hfresh handle (List.mem_cons_self ..) with ⟨tx, rfl⟩ | ⟨wire, rfl⟩
          · -- the callback's number is the encode that makes it
            have hnames' : tx :: callersOf fields =
                List.range' w.encodes (callersOf fields).length.succ := hnames
            rw [List.range'_succ, List.cons.injEq] at hnames'
            obtain ⟨rfl, hnames'⟩ := hnames'
            obtain ⟨w₁, hrun₁, hp₁, henc₁, haside₁⟩ := run_encodeLocal h
            rw [← henc₁] at hnames'
            obtain ⟨w', handles, hrun, hp', hwires, haside⟩ :=
              ih (h.encoded hp₁) hfresh.tail hall' hgiven hheld hnames'
            refine ⟨w', ⟨⟨p.node.localId, (p.node.register w.encodes).1⟩, w.encodes⟩ :: handles,
              ?_, ?_, map_wires_cons hwires _, haside₁.trans haside⟩
            · rw [List.flatMap_cons, run_append]
              show (run step w [.mint n k, .insert n k]).bind _ = some w'
              rw [hrun₁]
              exact hrun
            · rw [hp', Process.encoded_encoded, List.append_assoc]
              rfl
          · cases given with
            | nil => cases hgiven
            | cons handle given =>
                obtain ⟨hwire, hgiven'⟩ := List.cons.inj hgiven
                obtain ⟨w₁, hstep₁, hp₁, henc₁, haside₁⟩ := step_encodeRemote h hheld
                rw [show callersOf (Field.reply (ReplyTo.fromWire wire) :: fields) =
                  callersOf fields from rfl, ← henc₁] at hnames
                obtain ⟨w', handles, hrun, hp', hwires, haside⟩ :=
                  ih (h.encoded hp₁) hfresh.tail hall' hgiven' rfl hnames
                refine ⟨w', handle :: handles, ?_, ?_, ?_, haside₁.trans haside⟩
                · rw [List.flatMap_cons, run_append]
                  show ((step w (.forward n k 0)).bind fun s => run step s []).bind _ = some w'
                  rw [hstep₁]
                  exact hrun
                · rw [hp', Process.encoded_encoded, List.append_assoc]
                  rfl
                · rw [List.map_cons, show handle.wire = wire from hwire]
                  exact map_wires_cons hwires wire

/-- The call once it has encoded `handles`. -/
def Call.holding (w : World) (shard : Shard) (cmd : Command) (handles : List Handle) : Call :=
  { Call.start w.callIds shard.typeName (contextOf shard cmd).shardId with handles := handles }

@[simp] theorem holding_pending (w : World) (shard : Shard) (cmd : Command)
    (handles : List Handle) : (Call.holding w shard cmd handles).pending = none := rfl

@[simp] theorem holding_messageId (w : World) (shard : Shard) (cmd : Command)
    (handles : List Handle) : (Call.holding w shard cmd handles).messageId = none := rfl

/-- From the decision to forward to the end of the encode. -/
theorem run_calling {shard : Shard} {cmd : Command} {given rest : List Handle}
    (hp : w.procs n = some p)
    (howns : p.node.owns shard.typeName (contextOf shard cmd).shardId = false)
    (hfresh : FreshFields cmd) (hgiven : given.map Handle.wire = wiresOf (exposed cmd))
    (hheld : p.held = given ++ rest)
    (hnames : callersOf (exposed cmd) =
      List.range' w.encodes (callersOf (exposed cmd)).length) :
    ∃ schedule w' handles, run step w schedule = some w' ∧
      w'.procs n = some { p with
        node := registerAll p.node (callersOf (exposed cmd))
        held := rest
        calls := p.calls ++ [Call.holding w shard cmd handles] } ∧
      (encodeFields p.node (exposed cmd)).1.map Payload.wires = .ok (handles.map Handle.wire) ∧
      Aside n [] w w' := by
  have hstep : step w (.call n shard.typeName (contextOf shard cmd).shardId) = some
      { w.put n { p with calls := p.calls ++ [Call.holding w shard cmd []] }
        with callIds := w.callIds + 1 } := by
    simp only [step, hp]
    rw [if_pos howns]
    rfl
  have hopen : Encoding { w.put n { p with calls := p.calls ++ [Call.holding w shard cmd []] }
      with callIds := w.callIds + 1 } n
      { p with calls := p.calls ++ [Call.holding w shard cmd []] } p.calls.length
      (Call.holding w shard cmd []) :=
    ⟨procs_put_self w _ _, by simp, rfl, rfl⟩
  obtain ⟨w', handles, hrun, hp', hwires, haside⟩ := run_encode (exposed cmd) hopen
    (fun handle hm => hfresh handle (List.takeWhile_sublist _ |>.mem hm))
    (List.all_eq_true.mp List.all_takeWhile) hgiven hheld hnames
  refine ⟨_ :: _, w', handles, by rw [run_cons, hstep]; exact hrun, ?_, hwires, ?_⟩
  · rw [hp']
    simp [Process.encoded, Call.holding]
  · exact ⟨fun m hm => (haside.procs m hm).trans (procs_put_ne w _ hm), haside.net,
      haside.replies⟩

end Leaving

/-! ## What the call leaves -/

section Deliver

variable {sys : System} {shard : Shard} {cmd : Command} {node : ClusterNode}

@[simp] theorem registerAll_counter (callers : List Caller) :
    ∀ node : ClusterNode, (registerAll node callers).counter = node.counter := by
  induction callers with
  | nil => intro node; rfl
  | cons caller rest ih => intro node; exact ih (node.register caller).2

theorem not_owns_of_forwarded (hfwd : Forwarded sys shard cmd) (hnode : sys.cluster = some node) :
    node.owns shard.typeName (contextOf shard cmd).shardId = false := by
  have hours := hfwd.1
  rwa [System.ours, hnode] at hours

/-- Some run of the machine does to the process what a forward that ends in
`sys'` does to the system, and leaves `rest` of the handles it held and `calls`
of its calls in progress. -/
def Leaves (w : World) (n : NodeId) (p : Process) (sys sys' : System) (rest : List Handle)
    (calls : List Call) : Prop :=
  ∃ schedule w' p', run step w schedule = some w' ∧ w'.procs n = some p' ∧ Stands p' sys' ∧
    p'.held = rest ∧ p'.calls = calls ∧
    Aside n ((routedSince sys sys').filter fun r => decide (r.1 ≠ p.node.localId)) w w'

section Outgoing

variable {w : World} {n : NodeId} {p : Process} {given unsent rest : List Handle}

/-- An encode that fails: what it did not reach is dropped and the call ends. -/
theorem leaves_failed (meanwhile : Meanwhile) (route : ClusterNode.Route)
    (hp : w.procs n = some p) (hstands : Stands p sys) (hfwd : Forwarded sys shard cmd)
    (hfresh : FreshFields cmd) (hgiven : given.map Handle.wire = wiresOf (exposed cmd))
    (hunsent : unsent.map Handle.wire = wiresOf (untouched cmd))
    (hheld : p.held = given ++ (unsent ++ rest))
    (hnames : callersOf (exposed cmd) =
      List.range' w.encodes (callersOf (exposed cmd)).length)
    (hne : untouched cmd ≠ []) :
    Leaves w n p sys (sys.deliverToShard shard cmd meanwhile route).2.2 rest p.calls := by
  obtain ⟨-, -, hseen, hcluster⟩ := deliver_left meanwhile route hfwd hstands.node hfresh
  rw [if_neg hne] at hcluster
  obtain ⟨schedule₁, w₁, handles, hrun₁, hp₁, -, haside₁⟩ :=
    run_calling hp (not_owns_of_forwarded hfwd hstands.node) hfresh hgiven hheld hnames
  obtain ⟨w₂, hrun₂, hp₂, haside₂⟩ :=
    run_drops unsent hp₁ (show _ = [] ++ unsent ++ rest from rfl)
  have hat := callAt_eq_some.mpr ⟨hp₂, List.getElem?_concat_length⟩
  obtain ⟨w₃, hstep₃, hp₃, haside₃⟩ : ∃ w₃, step w₂ (.finish n p.calls.length) = some w₃ ∧
      w₃.procs n = some { p with
        node := (unsent.map Handle.wire).foldl
          (fun node wire => node.abandon wire.origin wire.correlation)
          (registerAll p.node (callersOf (exposed cmd)))
        held := rest } ∧
      Aside n [] w₂ w₃ := by
    simp only [step, hat]
    rw [if_pos (holding_pending ..)]
    refine ⟨_, rfl, ?_, fun m hm => procs_put_ne w₂ _ hm, rfl, (List.append_nil _).symm⟩
    rw [procs_put_self, List.eraseIdx_append_of_length_le (Nat.le_refl _), Nat.sub_self]
    simp
  refine ⟨schedule₁ ++ (List.replicate unsent.length (.respond n 0 none) ++
      [.finish n p.calls.length]), w₃, _, ?_, hp₃, ⟨?_, hseen.trans hstands.seen⟩, rfl, rfl, ?_⟩
  · rw [run_append, hrun₁]
    exact run_snoc hrun₂ hstep₃
  · rw [hcluster, dropFields_eq, hunsent]
  · have hrouted : routedSince sys (sys.deliverToShard shard cmd meanwhile route).2.2 =
        (wiresOf (untouched cmd)).map fun wire => (wire.origin, ⟨wire.correlation, none⟩) := by
      simp only [routedSince, hstands.node, hcluster, dropFields_routed, registerAll_routed,
        List.drop_left]
    have haside := (haside₁.trans haside₂).trans haside₃
    rw [List.nil_append, List.append_nil, registerAll_localId, hunsent] at haside
    rw [hrouted]
    exact haside

/-- An encode that goes through: the call has its message id and is ready to be
sent. -/
theorem leaves_ready (meanwhile : Meanwhile) (route : ClusterNode.Route)
    (hp : w.procs n = some p) (hstands : Stands p sys) (hfwd : Forwarded sys shard cmd)
    (hfresh : FreshFields cmd) (hgiven : given.map Handle.wire = wiresOf cmd)
    (hheld : p.held = given ++ rest)
    (hnames : callersOf cmd = List.range' w.encodes (callersOf cmd).length)
    (hnil : untouched cmd = []) :
    ∃ handles, (encodeFields p.node cmd).1.map Payload.wires = .ok (handles.map Handle.wire) ∧
      Leaves w n p sys (sys.deliverToShard shard cmd meanwhile route).2.2 rest
        (p.calls ++ [{ Call.holding w shard cmd handles with
          messageId := some (pack p.node.localId p.node.counter) }]) := by
  obtain ⟨-, -, hseen, hcluster⟩ := deliver_left meanwhile route hfwd hstands.node hfresh
  rw [if_pos hnil] at hcluster
  have hexposed : exposed cmd = cmd := by
    have := exposed_append_untouched cmd
    rwa [hnil, List.append_nil] at this
  obtain ⟨schedule₁, w₁, handles, hrun₁, hp₁, hwires, haside₁⟩ :=
    run_calling hp (not_owns_of_forwarded hfwd hstands.node) hfresh (by rwa [hexposed]) hheld
      (by rwa [hexposed])
  rw [hexposed] at hp₁ hwires hcluster
  have hat := callAt_eq_some.mpr ⟨hp₁, List.getElem?_concat_length⟩
  have hid : (registerAll p.node (callersOf cmd)).nextMessageId.1 =
      pack p.node.localId p.node.counter := by
    simp [ClusterNode.nextMessageId]
  obtain ⟨w₂, hstep₂, hp₂, haside₂⟩ : ∃ w₂, step w₁ (.nextMessageId n p.calls.length) = some w₂ ∧
      w₂.procs n = some { p with
        node := (registerAll p.node (callersOf cmd)).nextMessageId.2
        held := rest
        calls := p.calls ++ [{ Call.holding w shard cmd handles with
          messageId := some (pack p.node.localId p.node.counter) }]
        messageIds := p.messageIds + 1 } ∧
      Aside n [] w₁ w₂ := by
    simp only [step, hat]
    rw [if_pos ⟨holding_pending .., holding_messageId ..⟩]
    refine ⟨_, rfl, ?_, fun m hm => procs_put_ne w₁ _ hm, rfl, (List.append_nil _).symm⟩
    rw [procs_put_self, hid]
    simp
  refine ⟨handles, hwires, schedule₁ ++ [.nextMessageId n p.calls.length], w₂, _,
    run_snoc hrun₁ hstep₂, hp₂, ⟨hcluster, hseen.trans hstands.seen⟩, rfl, rfl, ?_⟩
  have hrouted : routedSince sys (sys.deliverToShard shard cmd meanwhile route).2.2 = [] := by
    simp [routedSince, hstands.node, hcluster, ClusterNode.nextMessageId]
  rw [hrouted]
  exact haside₁.trans haside₂

/-- **A command that leaves the node.**  What `deliver_to_shard` does to its
node is a run of the machine.  If the encode fails, the call is over; otherwise
it is in progress with the payload's handles and the message id it was given,
and its attempts to send come next. -/
theorem deliver_run (meanwhile : Meanwhile) (route : ClusterNode.Route)
    (hp : w.procs n = some p) (hstands : Stands p sys) (hfwd : Forwarded sys shard cmd)
    (hfresh : FreshFields cmd) (hgiven : given.map Handle.wire = wiresOf cmd)
    (hheld : p.held = given ++ rest)
    (hnames : callersOf (exposed cmd) =
      List.range' w.encodes (callersOf (exposed cmd)).length) :
    match (encodeFields p.node cmd).1 with
    | .error _ =>
        Leaves w n p sys (sys.deliverToShard shard cmd meanwhile route).2.2 rest p.calls
    | .ok payload => ∃ handles : List Handle, handles.map Handle.wire = payload.wires ∧
        Leaves w n p sys (sys.deliverToShard shard cmd meanwhile route).2.2 rest
          (p.calls ++ [{ Call.holding w shard cmd handles with
            messageId := some (pack p.node.localId p.node.counter) }]) := by
  have hok := encodeFields_isOk p.node hfresh
  cases hres : (encodeFields p.node cmd).1 with
  | error e =>
      have hne : untouched cmd ≠ [] := by
        intro hnil
        have := hok.mpr hnil
        rw [hres] at this
        cases this
      rw [← exposed_append_untouched cmd, wiresOf_append] at hgiven
      obtain ⟨given, unsent, rfl, hgiven, hunsent⟩ := List.map_eq_append_iff.mp hgiven
      rw [List.append_assoc] at hheld
      exact leaves_failed meanwhile route hp hstands hfwd hfresh hgiven hunsent hheld hnames hne
  | ok payload =>
      have hnil : untouched cmd = [] := hok.mp (by rw [hres]; rfl)
      have hexposed : exposed cmd = cmd := by
        have := exposed_append_untouched cmd
        rwa [hnil, List.append_nil] at this
      rw [hexposed] at hnames
      obtain ⟨handles, hwires, hleaves⟩ :=
        leaves_ready meanwhile route hp hstands hfwd hfresh hgiven hheld hnames hnil
      rw [hres] at hwires
      exact ⟨handles, (Except.ok.inj hwires).symm, hleaves⟩

end Outgoing

end Deliver

end HorsieActor.Ports.Net
