import HorsieActor.Ports.FailedForward
import HorsieActor.Ports.RefusedCommand
import HorsieActor.Ports.RefusedRegistration

/-!
# A command there, and its answers back

One command on its whole way between two nodes: `deliver_to_shard` on a node that does
not own the shard, `dispatch` on the one that does, the answers its actor sends, and
`dispatch` of those where the callers wait.  Each of the functions is ported elsewhere;
here they are put end to end.

What arrives is `landed`: the data as it was sent, and in place of each handle one that
names its caller, the sender's own callers by the correlation of their turn and those of
other nodes as before.  The extractors look at data only, so the command is for the same
actor on both nodes, and what the arrival does to the host is what a command given to the
owner itself would do.

## Main results

* `readValues_encodeFields` — what one node encodes the other reads as `landed`.
* `receive_reached`, `deliver_reached` — an arrival does to the host what a local delivery
  does.
* `ask_round_trip` — the command is delivered at its address, and every answer runs the
  callback of its own caller, once, in whatever order they come.
-/

namespace HorsieActor.Ports

open HorsieActor.Verified

/-! ## What arrives -/

/-- What the other node reads of a command, correlations from `n` on. -/
def landed (localId : NodeId) : UInt64 → List Field → List Field
  | _, [] => []
  | n, .reply ⟨.localTx (some _), _⟩ :: rest =>
      .reply (ReplyTo.fromWire ⟨localId, pack localId n⟩) :: landed localId (n + 1) rest
  | n, .reply ⟨.remote wire _, _⟩ :: rest =>
      .reply (ReplyTo.fromWire wire) :: landed localId n rest
  | n, field :: rest => field :: landed localId n rest

/-- What an extractor can look at. -/
def Field.data? : Field → Option (Except String Octets)
  | .data encoded => some encoded
  | .reply _ => none

/-- The extractors see data, and nothing of the handles. -/
structure Shard.ByData (shard : Shard) : Prop where
  shardId : ∀ {cmd cmd' : Command}, cmd.map Field.data? = cmd'.map Field.data? →
    shard.shardId cmd = shard.shardId cmd'
  entityId : ∀ {cmd cmd' : Command}, cmd.map Field.data? = cmd'.map Field.data? →
    shard.entityId cmd = shard.entityId cmd'

/-- The reader knows this command type: it takes every value, and finds all it requires. -/
structure Reader.Takes (reader : Reader) (payload : Payload) : Prop where
  all : ∀ (i : Nat) (value : WireValue), payload[i]? = some value → reader.read i value = .take
  complete : reader.complete payload = true

/-- Hand replies to their callers one after another; what is run, and with what. -/
def deliverAll : ClusterNode → List Reply → List (Caller × Octets)
  | _, [] => []
  | node, reply :: rest =>
      (node.deliverReply reply).2.toList ++ deliverAll (node.deliverReply reply).1 rest

theorem data_landed (localId : NodeId) (fields : List Field) :
    ∀ n : UInt64, (landed localId n fields).map Field.data? = fields.map Field.data? := by
  induction fields with
  | nil => intro n; rfl
  | cons field rest ih =>
      intro n
      cases field with
      | data encoded => exact congrArg (_ :: ·) (ih n)
      | reply handle =>
          obtain ⟨inner, deregister⟩ := handle
          cases inner with
          | localTx tx =>
              cases tx with
              | none => exact congrArg (_ :: ·) (ih n)
              | some tx => exact congrArg (_ :: ·) (ih (n + 1))
          | remote wire armed => exact congrArg (_ :: ·) (ih n)

/-- The command is for the same actor on both nodes. -/
theorem contextOf_landed {shard : Shard} (h : shard.ByData) (localId : NodeId) (n : UInt64)
    (cmd : Command) : contextOf shard (landed localId n cmd) = contextOf shard cmd := by
  have hdata := data_landed localId cmd n
  simp only [contextOf, h.shardId hdata, h.entityId hdata]

/-- A handle of the sender's own names its caller by the correlation of its turn. -/
theorem getElem?_landed_local {fields : List Field} (localId : NodeId) {tx : Caller} :
    ∀ {n : UInt64} {i : Nat}, fields[i]? = some (.reply (ReplyTo.fromSender tx)) →
      (landed localId n fields)[i]? = some (.reply (ReplyTo.fromWire
        ⟨localId, pack localId (n + UInt64.ofNat (turn fields i))⟩)) := by
  induction fields with
  | nil => intro n i h; cases h
  | cons field rest ih =>
      intro n i h
      cases i with
      | zero =>
          cases h
          simp [landed, ReplyTo.fromSender, turn, callersOf]
      | succ i =>
          rw [List.getElem?_cons_succ] at h
          have hsucc : n + 1 + UInt64.ofNat (turn rest i) =
              n + UInt64.ofNat (turn rest i + 1) := by
            rw [UInt64.ofNat_add, UInt64.add_assoc, UInt64.add_comm 1]
            rfl
          cases field with
          | data encoded => exact ih h
          | reply handle =>
              obtain ⟨inner, deregister⟩ := handle
              cases inner with
              | localTx tx' =>
                  cases tx' with
                  | none => exact ih h
                  | some tx' =>
                      rw [turn_succ, ← hsucc]
                      exact ih h
              | remote wire armed => exact ih h

/-- A handle that came from elsewhere goes on naming its origin. -/
theorem getElem?_landed_remote {fields : List Field} (localId : NodeId) {wire : Wire} :
    ∀ {n : UInt64} {i : Nat}, fields[i]? = some (.reply (ReplyTo.fromWire wire)) →
      (landed localId n fields)[i]? = some (.reply (ReplyTo.fromWire wire)) := by
  induction fields with
  | nil => intro n i h; cases h
  | cons field rest ih =>
      intro n i h
      cases i with
      | zero =>
          cases h
          rfl
      | succ i =>
          rw [List.getElem?_cons_succ] at h
          cases field with
          | data encoded => exact ih h
          | reply handle =>
              obtain ⟨inner, deregister⟩ := handle
              cases inner with
              | localTx tx =>
                  cases tx with
                  | none => exact ih h
                  | some tx => exact ih h
              | remote wire armed => exact ih h

/-! ## Encoding here, reading there -/

theorem exposed_of_untouched_nil {fields : List Field} (h : untouched fields = []) :
    exposed fields = fields := by
  have := exposed_append_untouched fields
  rwa [h, List.append_nil] at this

theorem exists_of_map_eq_ok {α β : Type} {f : α → β} {x : Except String α} {b : β}
    (h : x.map f = .ok b) : ∃ a, x = .ok a ∧ f a = b := by
  cases x with
  | error e => cases h
  | ok a => exact ⟨a, rfl, Except.ok.inj h⟩

/-- What one node encodes, the other reads as `landed`. -/
theorem readValues_encodeFields {reader : Reader} {fields : List Field} :
    ∀ {node : ClusterNode} {payload : Payload} {k : Nat}, FreshFields fields →
      (encodeFields node fields).1 = .ok payload →
      (∀ (i : Nat) (value : WireValue), payload[i]? = some value →
        reader.read (k + i) value = .take) →
      readValues reader true k payload =
        (landed node.localId node.correlations fields, true) := by
  induction fields with
  | nil =>
      intro node payload k _ henc _
      cases henc
      rfl
  | cons field rest ih =>
      intro node payload k hfresh henc htakes
      -- The value in front is taken, and the rest is read from the next position on.
      have hcons : ∀ {value values node' field}, payload = value :: values →
          (encodeFields node' rest).1 = .ok values → takeValue true value = some field →
          readValues reader true k payload =
            (field :: landed node'.localId node'.correlations rest, true) := by
        intro value values node' field hpayload hrest hvalue
        subst hpayload
        have htake : reader.read k value = .take := htakes 0 value rfl
        have hread := ih hfresh.tail hrest (k := k + 1) fun i value hi => by
          rw [Nat.add_assoc, Nat.add_comm 1]
          exact htakes (i + 1) value hi
        simp only [readValues, htake, hvalue, hread]
      cases field with
      | data encoded =>
          cases encoded with
          | error e => cases henc
          | ok bytes =>
              obtain ⟨values, hvalues, rfl⟩ := exists_of_map_eq_ok henc
              exact hcons rfl hvalues rfl
      | reply handle =>
          rcases hfresh handle (List.mem_cons_self ..) with ⟨tx, rfl⟩ | ⟨wire, rfl⟩
          · obtain ⟨values, hvalues, rfl⟩ := exists_of_map_eq_ok henc
            exact hcons rfl hvalues rfl
          · obtain ⟨values, hvalues, rfl⟩ := exists_of_map_eq_ok henc
            exact hcons rfl hvalues rfl

/-- The envelope of a command that is forwarded: the payload of an encode, under the next
message id. -/
theorem shipped_eq {sys : System} {shard : Shard} {cmd : Command} {node : ClusterNode}
    (hfwd : Forwarded sys shard cmd) (hnode : sys.cluster = some node)
    (hfresh : FreshFields cmd) (hall : untouched cmd = []) :
    ∃ payload, (encodeFields node cmd).1 = .ok payload ∧
      sys.shipped shard cmd = some
        ⟨shard.typeName, (registerAll node (callersOf cmd)).nextMessageId.1, payload⟩ := by
  obtain ⟨hours, hwires⟩ := hfwd
  obtain ⟨reader, hreader⟩ := Option.isSome_iff_exists.mp hwires
  have hok := (encodeFields_isOk node hfresh).mpr hall
  have heq := encodeFields_eq node hfresh
  rw [exposed_of_untouched_nil hall] at heq
  unfold System.shipped
  rw [hours, hnode, hreader]
  dsimp only
  generalize encodeFields node cmd = encoded at hok heq ⊢
  obtain ⟨result, left, node'⟩ := encoded
  cases result with
  | error e => cases hok
  | ok payload =>
      obtain ⟨-, rfl⟩ := Prod.mk.inj heq
      exact ⟨payload, rfl, rfl⟩

/-! ## Delivered there, or here -/

/-- Nothing else moves. -/
abbrev quiet : Meanwhile := fun _ host => host

section Delivery

variable {sys : System} {shard : Shard} {node : ClusterNode} {reader : Reader}
variable {cmd cmd' : Command} {payload : Payload}

/-- What finding or building an actor comes to when nothing else moves: whether it is
reached, and the host. -/
def reached (sys : System) (shard : Shard) (path : ActorPath) : Bool × Host :=
  match sys.host.resolve shard.command path with
  | some _ => (true, sys.host)
  | none =>
      match sys.build shard sys.host path with
      | .error _ => (false, sys.host)
      | .ok host => ((host.resolve shard.command path).isSome, host)

theorem isOk_unit_iff {ε : Type} {x : Except ε Unit} : x.isOk = true ↔ x = .ok () := by
  cases x with
  | error e => exact ⟨nofun, nofun⟩
  | ok u => exact ⟨fun _ => rfl, fun _ => rfl⟩

/-- The `receive` closure on a payload it reads. -/
theorem receive_reached (id : Nat) (hreader : sys.wires.lookup shard.command = some reader)
    (hdecode : decodeFields reader sys.cluster payload = (some cmd', sys.cluster)) :
    ((sys.receive shard id payload quiet).1.isOk,
        (sys.receive shard id payload quiet).2.host) =
      reached sys shard (addressOf (contextOf shard cmd')) := by
  unfold System.receive reached System.ensureActor
  rw [hreader]
  dsimp only
  rw [hdecode]
  dsimp only [quiet]
  cases hfound : sys.host.resolve shard.command (addressOf (contextOf shard cmd')) with
  | some inst =>
      dsimp only
      rw [hfound]
      dsimp only
      rw [if_pos (Host.alive_of_resolve hfound)]
      rfl
  | none =>
      dsimp only
      cases hbuild : sys.build shard sys.host (addressOf (contextOf shard cmd')) with
      | error e => rfl
      | ok host =>
          dsimp only
          cases hagain : host.resolve shard.command (addressOf (contextOf shard cmd')) with
          | none => rfl
          | some inst =>
              dsimp only
              rw [if_pos (Host.alive_of_resolve hagain)]
              rfl

/-- A command the node keeps, for a shard type it knows. -/
theorem deliver_reached (route : ClusterNode.Route) (hours : sys.ours shard cmd = true)
    (hregistered : sys.shards.lookup shard.typeName = some shard) :
    ((sys.deliverToShard shard cmd quiet route).1.isOk,
        (sys.deliverToShard shard cmd quiet route).2.2.host) =
      reached sys shard (addressOf (contextOf shard cmd)) := by
  unfold System.deliverToShard reached System.startShardActor System.buildShardActor
  rw [hours, hregistered]
  dsimp only [quiet]
  rw [if_pos rfl, if_pos rfl]
  cases hfound : sys.host.resolve shard.command (addressOf (contextOf shard cmd)) with
  | some inst =>
      dsimp only
      rw [if_pos (Host.alive_of_resolve hfound)]
      rfl
  | none =>
      dsimp only
      cases hbuild : sys.build shard sys.host (addressOf (contextOf shard cmd)) with
      | error e => rfl
      | ok host =>
          dsimp only
          cases hagain : host.resolve shard.command (addressOf (contextOf shard cmd)) with
          | none => rfl
          | some inst =>
              dsimp only
              rw [if_pos (Host.alive_of_resolve hagain)]
              rfl

/-- The node has what an actor of this command needs: it serves, it knows the type and its
wire format, the entity's name can be one, nothing of another type is filed at its
address, and the next instance is not closed before it is started. -/
structure Ready (sys : System) (node : ClusterNode) (shard : Shard) (reader : Reader)
    (cmd : Command) : Prop where
  cluster : sys.cluster = some node
  serving : node.serving = true
  registered : sys.shards.lookup shard.typeName = some shard
  format : sys.wires.lookup shard.command = some reader
  buildable : sys.host.Buildable shard.command (addressOf (contextOf shard cmd))

theorem Ready.mayServe (h : Ready sys node shard reader cmd) : sys.mayServe = true := by
  unfold System.mayServe
  rw [h.cluster]
  exact h.serving

/-- Such a node finds the actor, or builds it and finds it then. -/
theorem Ready.reached (h : Ready sys node shard reader cmd) :
    ∃ host inst, reached sys shard (addressOf (contextOf shard cmd)) = (true, host) ∧
      host.resolve shard.command (addressOf (contextOf shard cmd)) = some inst := by
  unfold Ports.reached
  cases hfound : sys.host.resolve shard.command (addressOf (contextOf shard cmd)) with
  | some inst => exact ⟨sys.host, inst, rfl, hfound⟩
  | none =>
      obtain ⟨host, inst, hbuild, hinst⟩ := System.build_of_buildable h.mayServe h.buildable
      dsimp only
      rw [hbuild]
      dsimp only
      rw [hinst]
      exact ⟨host, inst, rfl, hinst⟩

/-- An envelope it reads and has not seen is delivered. -/
theorem Ready.dispatch {env : Envelope} (h : Ready sys node shard reader cmd)
    (htype : env.typeName = shard.typeName) (hnew : env.messageId ∉ sys.seen.seen)
    (hdecode : decodeFields reader (some node) env.payload = (some cmd', some node))
    (hcontext : contextOf shard cmd' = contextOf shard cmd) :
    ((sys.dispatch (.command env) quiet).1.isOk, (sys.dispatch (.command env) quiet).2.host) =
      Ports.reached sys shard (addressOf (contextOf shard cmd)) := by
  rw [dispatch_new quiet h.mayServe hnew, htype]
  dsimp only
  rw [h.registered]
  dsimp only
  rw [← hcontext]
  have hread : decodeFields reader sys.cluster env.payload = (some cmd', sys.cluster) := by
    rw [h.cluster]
    exact hdecode
  exact receive_reached env.messageId h.format hread

end Delivery

/-! ## Answers -/

section Answers

variable {node : ClusterNode} {cmd : Command}

/-- An actor answers field `i` of its command. -/
def answerField (node : ClusterNode) (cmd : Command) (i : Nat) (bytes : Octets) : ClusterNode :=
  match cmd[i]? with
  | some (.reply ⟨.remote wire true, _⟩) => (node.answer wire.origin wire.correlation bytes).1
  | _ => node

theorem answerField_routed {i : Nat} {wire : Wire} (bytes : Octets)
    (h : cmd[i]? = some (.reply (ReplyTo.fromWire wire))) :
    (answerField node cmd i bytes).routed =
      node.routed ++ [(wire.origin, ⟨wire.correlation, some bytes⟩)] := by
  unfold answerField
  rw [h]
  exact ClusterNode.routeReply_routed ..

theorem deliverReply_of_mem {c : Nat} {tx : Caller} (bytes : Octets)
    (h : (c, tx) ∈ node.waiting.rows) :
    node.deliverReply ⟨c, some bytes⟩ =
      ({ node with waiting := node.waiting.erase c }, some (tx, bytes)) := by
  unfold ClusterNode.deliverReply
  rw [OrdMap.get?_eq_some_iff.mpr h]
  rfl

/-- Answers for different callers run each the callback of its own, in whatever order. -/
theorem deliverAll_eq (answers : List (Nat × Caller × Octets)) :
    ∀ {node : ClusterNode}, (answers.map Prod.fst).Nodup →
      (∀ x ∈ answers, (x.1, x.2.1) ∈ node.waiting.rows) →
      deliverAll node (answers.map fun x => ⟨x.1, some x.2.2⟩) = answers.map Prod.snd := by
  induction answers with
  | nil => intro node _ _; rfl
  | cons x rest ih =>
      intro node hnodup hrows
      obtain ⟨hx, hrest⟩ := List.nodup_cons.mp (List.map_cons .. ▸ hnodup)
      simp only [List.map_cons, deliverAll,
        deliverReply_of_mem x.2.2 (hrows x (List.mem_cons_self ..))]
      refine congrArg (x.2 :: ·) (ih hrest fun y hy => OrdMap.mem_erase.mpr ⟨?_, ?_⟩)
      · intro heq
        exact hx (List.mem_map.mpr ⟨y, hy, heq⟩)
      · exact hrows y (List.mem_cons_of_mem _ hy)

end Answers

/-! ## The whole way -/

/-- The correlation of the local handle in field `i`. -/
def correlationOf (node : ClusterNode) (cmd : Command) (i : Nat) : Nat :=
  pack node.localId (node.correlations + UInt64.ofNat (turn cmd i))

section Turns

variable {node : ClusterNode} {cmd : Command}

theorem turn_lt {i : Nat} {tx : Caller} (h : cmd[i]? = some (.reply (ReplyTo.fromSender tx))) :
    turn cmd i < (callersOf cmd).length :=
  (List.getElem?_eq_some_iff.mp (callersOf_turn h)).1

/-- No two handles have one correlation. -/
theorem correlationOf_inj (hroom : node.correlations.toNat + (callersOf cmd).length < 2 ^ 64)
    {i j : Nat} {tx ty : Caller} (hi : cmd[i]? = some (.reply (ReplyTo.fromSender tx)))
    (hj : cmd[j]? = some (.reply (ReplyTo.fromSender ty)))
    (h : correlationOf node cmd i = correlationOf node cmd j) : i = j := by
  have hsum := congrArg UInt64.toNat (pack_inj.mp h).2
  have hlt := turn_lt hi
  have hlt' := turn_lt hj
  rw [toNat_add_ofNat (by omega), toNat_add_ofNat (by omega)] at hsum
  exact turn_inj hi hj (by omega)

/-- After the encode its caller waits under it. -/
theorem mem_rows_of_local {sys : System} (hnode : sys.cluster = some node)
    (hsend : Sendable sys cmd) (hfits : (callersOf cmd).length ≤ waitingCapacity) {i : Nat}
    {tx : Caller} (hi : cmd[i]? = some (.reply (ReplyTo.fromSender tx))) :
    (correlationOf node cmd i, tx) ∈ (registerAll node (callersOf cmd)).waiting.rows := by
  have hmem : node ∈ sys.cluster := hnode
  have hidle : ∀ row ∈ node.waiting.rows, row.2 ≠ tx := fun row hrow heq =>
    hsend.idle node hmem row hrow (heq ▸ List.mem_of_getElem? (callersOf_turn hi))
  refine (mem_registerAll (hsend.minted node hmem) (hsend.fits node hmem)
    (hsend.room node hmem) hidle).mpr ⟨turn cmd i, callersOf_turn hi, rfl, ?_⟩
  omega

/-- Answers to handles of the command, wherever their callers wait under them. -/
theorem answers_run {node' : ClusterNode}
    (hroom : node.correlations.toNat + (callersOf cmd).length < 2 ^ 64)
    (hrows : ∀ (i : Nat) (tx : Caller), cmd[i]? = some (.reply (ReplyTo.fromSender tx)) →
      (correlationOf node cmd i, tx) ∈ node'.waiting.rows)
    (answers : List (Nat × Caller × Octets)) (hnodup : (answers.map Prod.fst).Nodup)
    (hlocal : ∀ x ∈ answers, cmd[x.1]? = some (.reply (ReplyTo.fromSender x.2.1))) :
    deliverAll node' (answers.map fun x => ⟨correlationOf node cmd x.1, some x.2.2⟩) =
      answers.map Prod.snd := by
  have hkeys : ((answers.map fun x => (correlationOf node cmd x.1, x.2)).map Prod.fst).Nodup := by
    rw [List.map_map]
    refine List.Nodup.map_on ?_ (List.Nodup.of_map _ hnodup)
    intro x hx y hy heq
    exact List.inj_on_of_nodup_map hnodup hx hy
      (correlationOf_inj hroom (hlocal x hx) (hlocal y hy) heq)
  have hwaiting : ∀ y ∈ answers.map fun x => (correlationOf node cmd x.1, x.2),
      (y.1, y.2.1) ∈ node'.waiting.rows := by
    intro y hy
    obtain ⟨x, hx, rfl⟩ := List.mem_map.mp hy
    exact hrows x.1 x.2.1 (hlocal x hx)
  have hdeliver := deliverAll_eq _ hkeys hwaiting
  rw [List.map_map, List.map_map] at hdeliver
  exact hdeliver

end Turns

/-- What the command and its answers come to.  `env` is what was shipped, `arrived` what
the owner makes of it, `a` and `a'` the sender before and after. -/
structure RoundTrips (owner : System) (a a' b : ClusterNode) (shard : Shard)
    (cmd arrived : Command) (env : Envelope) (route : ClusterNode.Route) : Prop where
  /-- The owner decodes the payload, by the format its receiver uses, and is left as it
  was. -/
  decoded : ∃ reader, owner.wires.lookup shard.command = some reader ∧
    decodeFields reader owner.cluster env.payload = (some arrived, owner.cluster)
  /-- It is delivered at its address, to what a command given to the owner would reach. -/
  delivered : (owner.dispatch (.command env) quiet).1 = .ok () ∧
    (∃ inst, (owner.dispatch (.command env) quiet).2.host.resolve shard.command
      (addressOf (contextOf shard cmd)) = some inst) ∧
    (owner.ours shard cmd = true →
      (owner.deliverToShard shard cmd quiet route).1 = .ok () ∧
        (owner.deliverToShard shard cmd quiet route).2.2.host =
          (owner.dispatch (.command env) quiet).2.host)
  /-- Its data is what was sent. -/
  data : arrived.map Field.data? = cmd.map Field.data?
  /-- A handle from elsewhere is answered to where it came from. -/
  passed : ∀ (i : Nat) (wire : Wire) (bytes : Octets),
    cmd[i]? = some (.reply (ReplyTo.fromWire wire)) →
      (answerField b arrived i bytes).routed =
        b.routed ++ [(wire.origin, ⟨wire.correlation, some bytes⟩)]
  /-- A handle of the sender's own is answered to the sender. -/
  sent : ∀ (i : Nat) (tx : Caller) (bytes : Octets),
    cmd[i]? = some (.reply (ReplyTo.fromSender tx)) →
      (answerField b arrived i bytes).routed =
        b.routed ++ [(a.localId, ⟨correlationOf a cmd i, some bytes⟩)]
  /-- And the answers run the callbacks of their own callers there. -/
  answered : ∀ answers : List (Nat × Caller × Octets), (answers.map Prod.fst).Nodup →
    (∀ x ∈ answers, cmd[x.1]? = some (.reply (ReplyTo.fromSender x.2.1))) →
      deliverAll a' (answers.map fun x => ⟨correlationOf a cmd x.1, some x.2.2⟩) =
        answers.map Prod.snd

/-- **There and back.**  A node that does not own the shard sends a command that encodes;
the owner knows the type, reads it and has not seen the message.  The owner delivers it at
the address the sender would have delivered it at, and leaves its host as a command of its
own would.  What it decodes there has the data that was sent and a handle in place of each
handle; every answer goes to the node of its caller, and there runs that caller's callback
and no other, once, in whatever order the answers come. -/
theorem ask_round_trip (asker owner : System) (a b : ClusterNode) (shard : Shard)
    (reader : Reader) (cmd : Command) (meanwhile : Meanwhile) (route : ClusterNode.Route)
    (hnode : asker.cluster = some a) (hfwd : Forwarded asker shard cmd)
    (hsend : Sendable asker cmd) (hall : untouched cmd = [])
    (haccepted : Accepted route shard.typeName (contextOf shard cmd).shardId)
    (hfits : (callersOf cmd).length ≤ waitingCapacity) (hready : Ready owner b shard reader cmd)
    (hdata : shard.ByData)
    (hreads : ∀ env, asker.shipped shard cmd = some env →
      reader.Takes env.payload ∧ env.messageId ∉ owner.seen.seen) :
    ∃ env arrived a', asker.shipped shard cmd = some env ∧
      (asker.deliverToShard shard cmd meanwhile route).1 = .ok () ∧
      (asker.deliverToShard shard cmd meanwhile route).2.2.cluster = some a' ∧
      RoundTrips owner a a' b shard cmd arrived env route := by
  obtain ⟨payload, hpayload, hshipped⟩ := shipped_eq hfwd hnode hsend.fresh hall
  obtain ⟨htakes, hnew⟩ := hreads _ hshipped
  obtain ⟨hok, -, -, hcluster⟩ := deliver_left meanwhile route hfwd hnode hsend.fresh
  rw [if_pos hall, exposed_of_untouched_nil hall] at hcluster
  have hdecode : decodeFields reader (some b) payload =
      (some (landed a.localId a.correlations cmd), some b) := by
    have hread := readValues_encodeFields (k := 0) hsend.fresh hpayload fun i value hi => by
      rw [Nat.zero_add]
      exact htakes.all i value hi
    unfold decodeFields
    rw [Option.isSome_some, hread]
    dsimp only
    rw [Bool.true_and, htakes.complete, if_pos rfl]
  refine ⟨_, landed a.localId a.correlations cmd, _, hshipped, hok.mpr ⟨hall, haccepted⟩, hcluster,
    ?_, ?_, ?_, ?_, ?_, ?_⟩
  · exact ⟨reader, hready.format, by rw [hready.cluster]; exact hdecode⟩
  · have hcontext := contextOf_landed hdata a.localId a.correlations cmd
    have hdispatch := hready.dispatch rfl hnew hdecode hcontext
    obtain ⟨host, inst, hreached, hinst⟩ := hready.reached
    rw [hreached] at hdispatch
    obtain ⟨hfine, hhost⟩ := Prod.mk.inj hdispatch
    refine ⟨isOk_unit_iff.mp hfine, ⟨inst, by rw [hhost]; exact hinst⟩, fun hours => ?_⟩
    have hlocal := deliver_reached route hours hready.registered
    rw [hreached] at hlocal
    obtain ⟨hfine', hhost'⟩ := Prod.mk.inj hlocal
    exact ⟨isOk_unit_iff.mp hfine', hhost'.trans hhost.symm⟩
  · exact data_landed _ _ _
  · intro i wire bytes hi
    exact answerField_routed bytes (getElem?_landed_remote _ hi)
  · intro i tx bytes hi
    exact answerField_routed bytes (getElem?_landed_local _ hi)
  · exact answers_run (hsend.room a hnode) fun i tx hi => mem_rows_of_local hnode hsend hfits hi

/-- The member that owns every shard, and knows the counter. -/
def owningNode : System where
  cluster := some { ClusterNode.start ⟨2⟩ with
    serving := true
    table := PlacementTable.new.setMembers [⟨2⟩] }
  shards := AList.singleton "counter" counterShard
  wires := AList.singleton 7 { read := fun _ _ => .take, complete := fun _ => true }
  seen := Dedup.withCapacity dedupWindow
  host := ⟨∅, 0, ∅⟩

def openRoute : ClusterNode.Route where
  table _ := PlacementTable.new.setMembers [⟨2⟩]
  transport _ _ := .ok ()

/-- `ask`'s own handle, some data, and a request forwarded for node 3. -/
def askAndPass : Command :=
  [.reply (ReplyTo.fromSender 0), .data (.ok [5]), .reply (ReplyTo.fromWire ⟨⟨3⟩, 5⟩)]

theorem ask_round_trip_askAndPass :
    ∃ env arrived a a' b, forwardingNode.cluster = some a ∧ owningNode.cluster = some b ∧
      forwardingNode.shipped counterShard askAndPass = some env ∧
      (forwardingNode.deliverToShard counterShard askAndPass quiet openRoute).1 = .ok () ∧
      (forwardingNode.deliverToShard counterShard askAndPass quiet openRoute).2.2.cluster =
        some a' ∧
      RoundTrips owningNode a a' b counterShard askAndPass arrived env openRoute := by
  have hfresh : FreshFields askAndPass := by
    intro handle hmem
    simp only [askAndPass, List.mem_cons, List.not_mem_nil, or_false, Field.reply.injEq,
      reduceCtorEq, false_or] at hmem
    rcases hmem with rfl | rfl
    · exact Or.inl ⟨0, rfl⟩
    · exact Or.inr ⟨_, rfl⟩
  have hsend : Sendable forwardingNode askAndPass :=
    sendable_forwardingNode hfresh (by decide) (by decide) (by decide) (by decide)
  have haccepted : Accepted openRoute "counter" "c1" :=
    ⟨0, by decide, ⟨⟨2⟩, rfl, rfl⟩, fun m hm => absurd hm (Nat.not_lt_zero m)⟩
  have hready : Ready owningNode _ counterShard _ askAndPass :=
    ⟨rfl, rfl, rfl, rfl, ⟨"c1", rfl, by decide⟩, (fun _ hentry => by cases hentry), by decide⟩
  obtain ⟨env, arrived, a', htrip⟩ := ask_round_trip forwardingNode owningNode _ _ counterShard _
    askAndPass quiet openRoute rfl ⟨rfl, rfl⟩ hsend rfl haccepted (by decide) hready
    ⟨fun _ => rfl, fun _ => rfl⟩ fun _ _ => ⟨⟨fun _ _ _ => rfl, rfl⟩, Finset.notMem_empty _⟩
  exact ⟨env, arrived, _, a', _, rfl, rfl, htrip⟩

end HorsieActor.Ports
