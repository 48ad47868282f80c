import HorsieActor.Ports.System

/-!
# What a refused registration leaves behind

`register` writes two tables: the wire formats, keyed by command type, and the
shard types, keyed by name.  Only the second one is looked at before the call is
refused, and by then the first has been written.  Two places read it back.  The
`receive` closure of a registered type looks up that type's own command, which
its own registration has recorded already.  `deliver_to_shard` looks up the
command of whatever type it is called for, registered or not, once placement has
said that the shard is another node's.

`leavesNoTrace_iff` compares a node that has refused a registration with the
same node without that call, over everything that can follow.  The two cannot be
told apart exactly when the node is in no cluster, where nothing is sent
elsewhere, or when a type that was accepted has the same command type, so that
the format was known anyway.  In every other case the node goes on to encode the
refused type's commands and to ship them under a name that belongs to another
type.

`codec` is the wire format of each command type: `record_wire` builds it from the
type's own serializer, so that two registrations with one command type record the
same.
-/

namespace HorsieActor.Ports

namespace System

/-- A node before anything is registered on it. -/
def new (cluster : Option ClusterNode) (host : Host) : System where
  cluster := cluster
  shards := ∅
  wires := ∅
  seen := Dedup.withCapacity dedupWindow
  host := host

/-- The type stands in the table of shard types. -/
def Registered (sys : System) (shard : Shard) : Prop :=
  ∃ name, sys.shards.lookup name = some shard

/-- The envelope `deliver_to_shard` hands to `send` for a command, if the
command gets that far. -/
def shipped (sys : System) (shard : Shard) (cmd : Command) : Option Envelope :=
  if sys.ours shard cmd then none
  else
    match sys.cluster with
    | none => none
    | some node =>
        match sys.wires.lookup shard.command with
        | none => none
        | some _ =>
            match encodeFields node cmd with
            | (.error _, _, _) => none
            | (.ok payload, _, node) =>
                some ⟨shard.typeName, node.nextMessageId.1, payload⟩

/-! ## Sequences of calls -/

/-- A call on a node.  `elsewhere` is anything that touches neither table: the
cluster moving on, replies, actors started and stopped. -/
inductive Call where
  | register (shard : Shard)
  | deliver (shard : Shard) (cmd : Command) (meanwhile : Meanwhile) (route : ClusterNode.Route)
  | dispatch (message : Message) (meanwhile : Meanwhile)
  | elsewhere (node : ClusterNode → ClusterNode) (host : Host → Host)

/-- What a call returns, and for a send the command as it was given up and the
envelope that was shipped. -/
inductive Returned where
  | registered (result : Except ActorOfError Unit)
  | delivered (result : Except TellError Unit) (cmd : Command) (envelope : Option Envelope)
  | dispatched (result : Except DispatchError Unit)
  | nothing

variable (codec : TypeId → Reader)

def call (sys : System) : Call → Returned × System
  | .register shard =>
      let (result, sys) := sys.register shard (codec shard.command)
      (.registered result, sys)
  | .deliver shard cmd meanwhile route =>
      let envelope := sys.shipped shard cmd
      let (result, cmd, sys) := sys.deliverToShard shard cmd meanwhile route
      (.delivered result cmd envelope, sys)
  | .dispatch message meanwhile =>
      let (result, sys) := sys.dispatch message meanwhile
      (.dispatched result, sys)
  | .elsewhere node host =>
      (.nothing, { sys with cluster := sys.cluster.map node, host := host sys.host })

/-- What a sequence of calls returns, and the node after it. -/
def calls : System → List Call → List Returned × System
  | sys, [] => ([], sys)
  | sys, c :: rest =>
      let (returned, sys) := sys.call codec c
      let (others, sys) := calls sys rest
      (returned :: others, sys)

/-! ## The property -/

/-- The node with other wire formats. -/
def withWires (sys : System) (wires : AList fun _ : TypeId => Reader) : System :=
  { sys with wires := wires }

/-- The registration of `shard` leaves no trace.  Every sequence of later calls
returns what it would without that call, and leaves the node as it would but for
the wire formats.  No command of its type is shipped while every registration
with that command type has been refused. -/
structure LeavesNoTrace (sys : System) (shard : Shard) : Prop where
  later : ∀ rest : List Call,
    (calls codec (sys.register shard (codec shard.command)).2 rest).1 = (calls codec sys rest).1 ∧
      ∃ wires, (calls codec (sys.register shard (codec shard.command)).2 rest).2 =
        (calls codec sys rest).2.withWires wires
  unshipped : ∀ (rest : List Call) (sender : Shard) (cmd : Command),
    sender.command = shard.command →
    (∀ accepted, (calls codec (sys.register shard (codec shard.command)).2 rest).2.Registered
      accepted → accepted.command ≠ shard.command) →
    (calls codec (sys.register shard (codec shard.command)).2 rest).2.shipped sender cmd = none

/-! ## What calls keep -/

variable {codec} {sys sys' : System} {shard : Shard}

/-- A call that is not a registration leaves both tables, and a node outside any
cluster stays outside. -/
structure Keeps (sys sys' : System) : Prop where
  shards : sys'.shards = sys.shards
  wires : sys'.wires = sys.wires
  cluster : sys.cluster = none → sys'.cluster = none

theorem Keeps.refl (sys : System) : Keeps sys sys := ⟨rfl, rfl, id⟩

theorem Keeps.trans {sys'' : System} (h : Keeps sys sys') (h' : Keeps sys' sys'') :
    Keeps sys sys'' where
  shards := h'.shards.trans h.shards
  wires := h'.wires.trans h.wires
  cluster hnone := h'.cluster (h.cluster hnone)

theorem Keeps.drop (h : Keeps sys sys') (cmd : Command) : Keeps sys (sys'.dropCommand cmd) := by
  refine ⟨h.shards, h.wires, fun hnone => ?_⟩
  show sys'.cluster.map _ = none
  rw [h.cluster hnone]
  rfl

theorem keeps_host (sys : System) (host : Host) : Keeps sys { sys with host := host } :=
  ⟨rfl, rfl, id⟩

theorem keeps_deliverToShard (sys : System) (shard : Shard) (cmd : Command)
    (meanwhile : Meanwhile) (route : ClusterNode.Route) :
    Keeps sys (sys.deliverToShard shard cmd meanwhile route).2.2 := by
  unfold deliverToShard
  dsimp only
  split
  · split
    · exact (keeps_host sys _).drop cmd
    · split
      · exact keeps_host sys _
      · exact (keeps_host sys _).drop cmd
  · split
    · exact (Keeps.refl sys).drop cmd
    · rename_i node hnode
      have hcluster (node' : ClusterNode) : Keeps sys { sys with cluster := some node' } :=
        ⟨rfl, rfl, fun hnone => by rw [hnode] at hnone; cases hnone⟩
      split
      · exact (Keeps.refl sys).drop cmd
      · split
        · exact (hcluster _).drop _
        · split
          · exact (hcluster _).drop _
          · exact (hcluster _).drop _

theorem decodeFields_none (reader : Reader) (payload : Payload) :
    (decodeFields reader none payload).2 = none := by
  unfold decodeFields
  dsimp only
  split <;> rfl

theorem keeps_receive (sys : System) (shard : Shard) (messageId : Nat) (payload : Payload)
    (meanwhile : Meanwhile) : Keeps sys (sys.receive shard messageId payload meanwhile).2 := by
  unfold receive
  split
  · exact Keeps.refl sys
  · rename_i reader _
    have hdecoded (host : Host) :
        Keeps sys { sys with
          cluster := (decodeFields reader sys.cluster payload).2, host := host } :=
      ⟨rfl, rfl, fun hnone => by
        show (decodeFields reader sys.cluster payload).2 = none
        rw [hnone, decodeFields_none]⟩
    split
    · rename_i hdec
      rw [hdec] at hdecoded
      exact hdecoded sys.host
    · rename_i hdec
      rw [hdec] at hdecoded
      dsimp only
      split
      · exact (hdecoded _).drop _
      · split
        · exact (hdecoded _).drop _
        · split
          · exact hdecoded _
          · exact (hdecoded _).drop _

theorem keeps_dispatch (sys : System) (message : Message) (meanwhile : Meanwhile) :
    Keeps sys (sys.dispatch message meanwhile).2 := by
  unfold dispatch
  split
  · refine ⟨rfl, rfl, fun hnone => ?_⟩
    show sys.cluster.map _ = none
    rw [hnone]
    rfl
  · split
    · split
      · exact Keeps.refl sys
      · rename_i seen _
        have hseen : Keeps sys { sys with seen := seen } := ⟨rfl, rfl, id⟩
        dsimp only
        split
        · exact hseen
        · exact hseen.trans (keeps_receive _ _ _ _ _)
    · exact Keeps.refl sys

/-! ## Two nodes that differ in their wire formats -/

variable {wires : AList fun _ : TypeId => Reader}

/-- The other formats will never be told from the node's own: they agree on the
command of every registered type, and on all commands if the node can send one
elsewhere. -/
structure Covers (sys : System) (wires : AList fun _ : TypeId => Reader) : Prop where
  registered : ∀ shard, sys.Registered shard →
    wires.lookup shard.command = sys.wires.lookup shard.command
  sent : sys.cluster = none ∨ ∀ command, wires.lookup command = sys.wires.lookup command

theorem Covers.of_keeps (h : Covers sys wires) (hkeeps : Keeps sys sys') : Covers sys' wires where
  registered shard := by
    unfold Registered
    rw [hkeeps.shards, hkeeps.wires]
    exact h.registered shard
  sent := by
    rw [hkeeps.wires]
    exact h.sent.imp_left hkeeps.cluster

theorem shipped_withWires (h : Covers sys wires) (shard : Shard) (cmd : Command) :
    (sys.withWires wires).shipped shard cmd = sys.shipped shard cmd := by
  have hours : (sys.withWires wires).ours shard cmd = sys.ours shard cmd := rfl
  unfold shipped
  rw [hours]
  dsimp only [withWires]
  rcases h.sent with hnone | hall
  · rw [hnone]
  · rw [hall]

theorem deliverToShard_withWires (h : Covers sys wires) (shard : Shard) (cmd : Command)
    (meanwhile : Meanwhile) (route : ClusterNode.Route) :
    (sys.withWires wires).deliverToShard shard cmd meanwhile route =
      Prod.map id (Prod.map id (·.withWires wires))
        (sys.deliverToShard shard cmd meanwhile route) := by
  have hours : (sys.withWires wires).ours shard cmd = sys.ours shard cmd := rfl
  have hstart : (sys.withWires wires).startShardActor shard (contextOf shard cmd) meanwhile =
    sys.startShardActor shard (contextOf shard cmd) meanwhile := rfl
  unfold deliverToShard
  dsimp only
  rw [hours, hstart]
  by_cases hkept : sys.ours shard cmd = true
  · rw [if_pos hkept, if_pos hkept]
    cases sys.startShardActor shard (contextOf shard cmd) meanwhile with
    | mk result host =>
        cases result with
        | error e => rfl
        | ok inst =>
            dsimp only
            split <;> rfl
  · rw [if_neg hkept, if_neg hkept]
    obtain ⟨cluster, shards, own, seen, host⟩ := sys
    cases cluster with
    | none => rfl
    | some node =>
        have hlookup : wires.lookup shard.command = own.lookup shard.command :=
          h.sent.resolve_left (by simp) shard.command
        dsimp only [withWires]
        rw [hlookup]
        cases own.lookup shard.command with
        | none => rfl
        | some reader =>
            dsimp only
            cases encodeFields node cmd with
            | mk result rest =>
                cases result with
                | error e => rfl
                | ok payload =>
                    dsimp only
                    cases ClusterNode.send route shard.typeName
                      (contextOf shard cmd).shardId <;> rfl

theorem receive_withWires (sys : System)
    (hlookup : wires.lookup shard.command = sys.wires.lookup shard.command)
    (messageId : Nat) (payload : Payload) (meanwhile : Meanwhile) :
    (sys.withWires wires).receive shard messageId payload meanwhile =
      Prod.map id (·.withWires wires) (sys.receive shard messageId payload meanwhile) := by
  unfold receive
  dsimp only [withWires]
  rw [hlookup]
  cases sys.wires.lookup shard.command with
  | none => rfl
  | some reader =>
      dsimp only
      cases decodeFields reader sys.cluster payload with
      | mk result cluster =>
          cases result with
          | none => rfl
          | some cmd =>
              have hensure (path : ActorPath) :
                  { sys with cluster := cluster, wires := wires }.ensureActor shard path meanwhile =
                    { sys with cluster := cluster }.ensureActor shard path meanwhile := rfl
              dsimp only
              rw [hensure]
              cases { sys with cluster := cluster }.ensureActor shard
                (addressOf (contextOf shard cmd)) meanwhile with
              | error e => rfl
              | ok host =>
                  dsimp only
                  cases (meanwhile 1 host).resolve shard.command
                    (addressOf (contextOf shard cmd)) with
                  | none => rfl
                  | some inst =>
                      dsimp only
                      split <;> rfl

theorem dispatch_withWires (h : Covers sys wires) (message : Message) (meanwhile : Meanwhile) :
    (sys.withWires wires).dispatch message meanwhile =
      Prod.map id (·.withWires wires) (sys.dispatch message meanwhile) := by
  cases message with
  | reply reply => rfl
  | command env =>
      have hmay : (sys.withWires wires).mayServe = sys.mayServe := rfl
      unfold dispatch
      dsimp only
      rw [hmay]
      by_cases hserve : sys.mayServe = true
      · rw [if_pos hserve, if_pos hserve]
        dsimp only [withWires]
        cases sys.seen.accept env with
        | mk fresh seen =>
            cases fresh with
            | false => rfl
            | true =>
                dsimp only
                cases hshard : sys.shards.lookup env.typeName with
                | none => rfl
                | some shard =>
                    have hsame := h.registered shard ⟨_, hshard⟩
                    exact receive_withWires { sys with seen := seen } hsame _ _ _
      · rw [if_neg hserve, if_neg hserve]
        rfl

theorem register_withWires (shard : Shard) (reader : Reader) :
    (sys.withWires wires).register shard reader =
      Prod.map id (·.withWires (wires.insert shard.command reader))
        (sys.register shard reader) := by
  unfold register
  dsimp only [withWires]
  cases sys.shards.lookup shard.typeName <;> rfl

theorem lookup_insert_congr {a b : AList fun _ : TypeId => Reader} (key : TypeId)
    (reader : Reader) {command : TypeId} (h : a.lookup command = b.lookup command) :
    (a.insert key reader).lookup command = (b.insert key reader).lookup command := by
  by_cases hkey : command = key
  · rw [hkey, AList.lookup_insert, AList.lookup_insert]
  · rw [AList.lookup_insert_ne hkey, AList.lookup_insert_ne hkey, h]

/-- What is registered after a registration. -/
theorem registered_register {reader : Reader} {other : Shard}
    (h : (sys.register shard reader).2.Registered other) :
    other = shard ∨ sys.Registered other := by
  unfold register at h
  dsimp only at h
  cases htaken : sys.shards.lookup shard.typeName with
  | some _ =>
      rw [htaken] at h
      exact Or.inr h
  | none =>
      rw [htaken] at h
      obtain ⟨name, hname⟩ := h
      by_cases hsame : name = shard.typeName
      · subst hsame
        rw [AList.lookup_insert] at hname
        exact Or.inl (Option.some.inj hname).symm
      · rw [AList.lookup_insert_ne hsame] at hname
        exact Or.inr ⟨name, hname⟩

@[simp] theorem register_wires (sys : System) (shard : Shard) (reader : Reader) :
    (sys.register shard reader).2.wires = sys.wires.insert shard.command reader := by
  unfold register
  dsimp only
  cases sys.shards.lookup shard.typeName <;> rfl

@[simp] theorem register_cluster (sys : System) (shard : Shard) (reader : Reader) :
    (sys.register shard reader).2.cluster = sys.cluster := by
  unfold register
  dsimp only
  cases sys.shards.lookup shard.typeName <;> rfl

theorem Covers.register (h : Covers sys wires) (shard : Shard) (reader : Reader) :
    Covers (sys.register shard reader).2 (wires.insert shard.command reader) where
  registered other hother := by
    rw [register_wires]
    rcases registered_register hother with rfl | hold
    · rw [AList.lookup_insert, AList.lookup_insert]
    · exact lookup_insert_congr _ _ (h.registered other hold)
  sent := by
    rw [register_wires, register_cluster]
    exact h.sent.imp_right fun hall command => lookup_insert_congr _ _ (hall command)

theorem keeps_elsewhere (sys : System) (node : ClusterNode → ClusterNode) (host : Host → Host) :
    Keeps sys { sys with cluster := sys.cluster.map node, host := host sys.host } := by
  refine ⟨rfl, rfl, fun hnone => ?_⟩
  show sys.cluster.map node = none
  rw [hnone]
  rfl

/-- One call on either node: the same is returned, and what they differ in is
still only the wire formats. -/
theorem call_withWires (codec : TypeId → Reader) (h : Covers sys wires) (c : Call) :
    ∃ wires', (sys.withWires wires).call codec c =
        ((sys.call codec c).1, (sys.call codec c).2.withWires wires') ∧
      Covers (sys.call codec c).2 wires' := by
  cases c with
  | register shard =>
      refine ⟨wires.insert shard.command (codec shard.command), ?_, h.register _ _⟩
      dsimp only [call]
      rw [register_withWires]
      rfl
  | deliver shard cmd meanwhile route =>
      refine ⟨wires, ?_, h.of_keeps (keeps_deliverToShard ..)⟩
      dsimp only [call]
      rw [deliverToShard_withWires h, shipped_withWires h]
      rfl
  | dispatch message meanwhile =>
      refine ⟨wires, ?_, h.of_keeps (keeps_dispatch ..)⟩
      dsimp only [call]
      rw [dispatch_withWires h]
      rfl
  | elsewhere node host => exact ⟨wires, rfl, h.of_keeps (keeps_elsewhere ..)⟩

theorem calls_withWires (rest : List Call) : ∀ {sys : System} {wires}, Covers sys wires →
    (calls codec (sys.withWires wires) rest).1 = (calls codec sys rest).1 ∧
      ∃ wires', (calls codec (sys.withWires wires) rest).2 =
        (calls codec sys rest).2.withWires wires' := by
  induction rest with
  | nil => intro sys wires _; exact ⟨rfl, wires, rfl⟩
  | cons c rest ih =>
      intro sys wires h
      obtain ⟨wires', hcall, hcovers⟩ := call_withWires codec h c
      have hrest := ih hcovers
      dsimp only [calls]
      rw [hcall]
      exact ⟨congrArg _ hrest.1, hrest.2⟩

/-! ## What a run of calls has recorded -/

/-- Every registered type's command has its own format recorded. -/
def Recorded (codec : TypeId → Reader) (sys : System) : Prop :=
  ∀ shard, sys.Registered shard → sys.wires.lookup shard.command = some (codec shard.command)

theorem Recorded.of_keeps (h : Recorded codec sys) (hkeeps : Keeps sys sys') :
    Recorded codec sys' := by
  unfold Recorded Registered
  rw [hkeeps.shards, hkeeps.wires]
  exact h

theorem Recorded.register (h : Recorded codec sys) (shard : Shard) :
    Recorded codec (sys.register shard (codec shard.command)).2 := by
  intro other hother
  rw [register_wires]
  by_cases hcommand : other.command = shard.command
  · rw [hcommand, AList.lookup_insert]
  · rw [AList.lookup_insert_ne hcommand]
    rcases registered_register hother with rfl | hold
    · exact absurd rfl hcommand
    · exact h other hold

theorem Recorded.call (h : Recorded codec sys) (c : Call) :
    Recorded codec (sys.call codec c).2 := by
  cases c with
  | register shard => exact h.register shard
  | deliver shard cmd meanwhile route => exact h.of_keeps (keeps_deliverToShard ..)
  | dispatch message meanwhile => exact h.of_keeps (keeps_dispatch ..)
  | elsewhere node host => exact h.of_keeps (keeps_elsewhere ..)

theorem Recorded.calls (before : List Call) :
    ∀ {sys : System}, Recorded codec sys → Recorded codec (calls codec sys before).2 := by
  induction before with
  | nil => intro sys h; exact h
  | cons c rest ih => intro sys h; exact ih (h.call c)

theorem recorded_new (cluster : Option ClusterNode) (host : Host) :
    Recorded codec (new cluster host) := by
  rintro shard ⟨name, hname⟩
  cases hname

/-! ## What a run of calls cannot undo -/

/-- A node outside any cluster stays outside, and an accepted type stays
registered. -/
structure Persists (sys sys' : System) : Prop where
  cluster : sys.cluster = none → sys'.cluster = none
  registered : ∀ shard, sys.Registered shard → sys'.Registered shard

theorem Keeps.persists (h : Keeps sys sys') : Persists sys sys' where
  cluster := h.cluster
  registered shard := by
    unfold Registered
    rw [h.shards]
    exact id

theorem persists_register (sys : System) (shard : Shard) (reader : Reader) :
    Persists sys (sys.register shard reader).2 where
  cluster := by
    rw [register_cluster]
    exact id
  registered other := by
    rintro ⟨name, hname⟩
    unfold register
    dsimp only
    cases htaken : sys.shards.lookup shard.typeName with
    | some _ => exact ⟨name, hname⟩
    | none =>
        have hother : name ≠ shard.typeName := by
          intro hsame
          rw [hsame, htaken] at hname
          cases hname
        exact ⟨name, (AList.lookup_insert_ne hother).trans hname⟩

theorem persists_call (codec : TypeId → Reader) (sys : System) (c : Call) :
    Persists sys (sys.call codec c).2 := by
  cases c with
  | register shard => exact persists_register ..
  | deliver shard cmd meanwhile route => exact (keeps_deliverToShard ..).persists
  | dispatch message meanwhile => exact (keeps_dispatch ..).persists
  | elsewhere node host => exact (keeps_elsewhere ..).persists

theorem persists_calls (codec : TypeId → Reader) (rest : List Call) :
    ∀ sys : System, Persists sys (calls codec sys rest).2 := by
  induction rest with
  | nil => intro sys; exact (Keeps.refl sys).persists
  | cons c rest ih =>
      intro sys
      have hcall := persists_call codec sys c
      have hrest := ih (sys.call codec c).2
      exact ⟨fun hnone => hrest.cluster (hcall.cluster hnone),
        fun shard h => hrest.registered shard (hcall.registered shard h)⟩

/-! ## The exact condition -/

/-- A refused registration has recorded its format and nothing else. -/
theorem register_of_refused {reader : Reader}
    (h : (sys.register shard reader).1 = .error (.typeCollision shard.typeName)) :
    (sys.register shard reader).2 = sys.withWires (sys.wires.insert shard.command reader) := by
  unfold register at h ⊢
  dsimp only at h ⊢
  cases htaken : sys.shards.lookup shard.typeName with
  | some _ => rfl
  | none =>
      rw [htaken] at h
      cases h

/-- Recording a format is nothing to a node without a cluster, nor to one that
has recorded it for a registered type. -/
theorem Recorded.covers (h : Recorded codec sys)
    (hknown : sys.cluster = none ∨
      ∃ accepted, sys.Registered accepted ∧ accepted.command = shard.command) :
    Covers sys (sys.wires.insert shard.command (codec shard.command)) where
  registered other hother := by
    by_cases hcommand : other.command = shard.command
    · rw [← hcommand, AList.lookup_insert, h other hother]
    · rw [AList.lookup_insert_ne hcommand]
  sent := by
    refine hknown.imp_right ?_
    rintro ⟨accepted, haccepted, hsame⟩ command
    by_cases hcommand : command = shard.command
    · rw [hcommand, AList.lookup_insert, ← hsame, h accepted haccepted]
    · rw [AList.lookup_insert_ne hcommand]

theorem shipped_of_cluster_none (h : sys.cluster = none) (shard : Shard) (cmd : Command) :
    sys.shipped shard cmd = none := by
  unfold shipped ours
  rw [h]
  rfl

/-- The node loses its quorum. -/
def standDown (node : ClusterNode) : ClusterNode := { node with serving := false }

/-- A node that keeps nothing for itself ships any command whose format it has
recorded. -/
theorem shipped_standDown (sys : System) (shard : Shard) {node : ClusterNode} {reader : Reader}
    (hnode : sys.cluster = some node) (hwire : sys.wires.lookup shard.command = some reader) :
    { sys with cluster := sys.cluster.map standDown, host := id sys.host }.shipped shard [] =
      some ⟨shard.typeName, node.nextMessageId.1, []⟩ := by
  unfold shipped ours
  rw [hnode, hwire]
  rfl

/-- A refused registration leaves no trace exactly on a node that is in no
cluster or has accepted a type with the same command type. -/
theorem leavesNoTrace_iff (codec : TypeId → Reader) (cluster : Option ClusterNode) (host : Host)
    (before : List Call) (shard : Shard)
    (hrefused : ((calls codec (new cluster host) before).2.register shard
      (codec shard.command)).1 = .error (.typeCollision shard.typeName)) :
    LeavesNoTrace codec (calls codec (new cluster host) before).2 shard ↔
      (calls codec (new cluster host) before).2.cluster = none ∨
        ∃ accepted, (calls codec (new cluster host) before).2.Registered accepted ∧
          accepted.command = shard.command := by
  have hrecorded : Recorded codec (calls codec (new cluster host) before).2 :=
    Recorded.calls before (recorded_new cluster host)
  generalize (calls codec (new cluster host) before).2 = sys at hrefused hrecorded ⊢
  have hafter := register_of_refused hrefused
  constructor
  · intro htrace
    cases hnode : sys.cluster with
    | none => exact Or.inl rfl
    | some node =>
        right
        by_contra hnew
        have hnone := htrace.unshipped [.elsewhere standDown id] shard [] rfl
        rw [hafter] at hnone
        have hsome := shipped_standDown
          (sys.withWires (sys.wires.insert shard.command (codec shard.command))) shard
          hnode (AList.lookup_insert _)
        have hnothing := hnone fun accepted haccepted hsame => hnew ⟨accepted, haccepted, hsame⟩
        cases hsome.symm.trans hnothing
  · intro hknown
    have hcovers := hrecorded.covers hknown
    constructor
    · intro rest
      rw [hafter]
      exact calls_withWires rest hcovers
    · intro rest sender cmd hsender hrefusedOnly
      rw [hafter] at hrefusedOnly ⊢
      have hpersists := persists_calls codec rest
        (sys.withWires (sys.wires.insert shard.command (codec shard.command)))
      rcases hknown with hnone | ⟨accepted, haccepted, hsame⟩
      · exact shipped_of_cluster_none (hpersists.cluster hnone) sender cmd
      · exact absurd hsame (hrefusedOnly accepted (hpersists.registered accepted haccepted))

/-! ## Runs of it -/

/-- Commands that are one number. -/
def numberCodec : TypeId → Reader := fun _ =>
  { read := fun _ _ => .take, complete := fun _ => true }

/-- A shard type called `counter` with the given command type, all in one
shard. -/
def counterType (shardType command : TypeId) : Shard where
  typeName := "counter"
  shardType := shardType
  command := command
  shardId := fun _ => "s"
  entityId := fun _ => "e"

/-- A member of a cluster on which a counter is registered. -/
def counting : System :=
  (calls numberCodec (new (some (ClusterNode.start ⟨1⟩)) ⟨∅, 0, ∅⟩) [.register (counterType 1 7)]).2

/-- An impostor with the counter's own command type leaves no trace. -/
theorem leavesNoTrace_sameCommand :
    LeavesNoTrace numberCodec counting (counterType 2 7) :=
  (leavesNoTrace_iff numberCodec (some (ClusterNode.start ⟨1⟩)) ⟨∅, 0, ∅⟩
    [.register (counterType 1 7)] (counterType 2 7) rfl).mpr
    (Or.inr ⟨counterType 1 7, ⟨"counter", rfl⟩, rfl⟩)

/-- An impostor with a command type of its own has it shipped as a counter's. -/
theorem refused_command_shipped :
    ¬ ∀ (codec : TypeId → Reader) (cluster : Option ClusterNode) (host : Host)
      (before : List Call) (shard : Shard),
      ((calls codec (new cluster host) before).2.register shard (codec shard.command)).1 =
        .error (.typeCollision shard.typeName) →
      LeavesNoTrace codec (calls codec (new cluster host) before).2 shard := by
  intro h
  have htrace := h numberCodec (some (ClusterNode.start ⟨1⟩)) ⟨∅, 0, ∅⟩
    [.register (counterType 1 7)] (counterType 2 8) rfl
  have hnone := htrace.unshipped [.elsewhere standDown id] (counterType 2 8) [] rfl ?_
  · have hsome : (calls numberCodec (counting.register (counterType 2 8) (numberCodec 8)).2
        [.elsewhere standDown id]).2.shipped (counterType 2 8) [] =
          some ⟨"counter", pack ⟨1⟩ 0, []⟩ := rfl
    cases hsome.symm.trans hnone
  · intro accepted haccepted hcommand
    have hregistered : ((new (some (ClusterNode.start ⟨1⟩)) ⟨∅, 0, ∅⟩).register
      (counterType 1 7) (numberCodec 7)).2.Registered accepted := haccepted
    rcases registered_register hregistered with rfl | ⟨name, hname⟩
    · exact absurd hcommand (by decide)
    · cases hname

end System

end HorsieActor.Ports
