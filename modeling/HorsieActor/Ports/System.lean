import HorsieActor.Ports.Registry
import HorsieActor.Ports.Reply

/-!
# The actor system at its edges

Port of the parts of `src/system.rs` a command passes through on its way out of
a node and into one: `deliver_to_shard` with `start_shard_actor` and
`build_shard_actor`, `register`, and `dispatch` with the `receive` closure.
`cancel` is what is left of `ActorRef::ask` after a failed send: its `Cancelled`
guard.

These functions release the registry between the steps in which they use it.
What the rest of the node does in those gaps is an argument, `Meanwhile`: any
change to the host, at each of the three gaps.
-/

namespace HorsieActor.Ports

/-! ## What a node hosts -/

/-- The registry, the instances started so far, and those whose mailbox has
been closed. -/
structure Host where
  live : Live
  started : Nat
  closed : Finset Nat

namespace Host

/-- `Link::is_alive` for the mailbox of an instance. -/
def alive (host : Host) (inst : Nat) : Bool := decide (inst ∉ host.closed)

def resolve (host : Host) (command : TypeId) (path : ActorPath) : Option Nat :=
  host.live.resolve host.alive command path

def getOrCreate (host : Host) (mayServe : Bool) (parent : ActorPath) (name : String)
    (command : TypeId) : Except ActorOfError Host :=
  match host.live.getOrCreate host.alive mayServe host.started parent name command with
  | .error e => .error e
  | .ok (inst, live) =>
      .ok { host with
        live := live
        started := if inst = host.started then host.started + 1 else host.started }

theorem alive_of_resolve {host : Host} {command : TypeId} {path : ActorPath} {inst : Nat}
    (h : host.resolve command path = some inst) : host.alive inst = true :=
  (Live.resolve_eq_some_iff.mp h).2

/-- An actor can be built at the path: its last segment can be a name, nothing of
another type is filed there, and the next instance is not closed before it is
started. -/
structure Buildable (host : Host) (command : TypeId) (path : ActorPath) : Prop where
  name : ∃ name, path.name = some name ∧ ActorPath.isValidName name = true
  free : ∀ entry, host.live.lookup path = some entry → entry.command = command
  fresh : host.started ∉ host.closed

end Host

/-- What other tasks do to the host, gap by gap. -/
abbrev Meanwhile : Type := Nat → Host → Host

/-! ## Shard types -/

/-- A shard type: its stable name, its own identity and its command's, and the
two extractors. -/
structure Shard where
  typeName : String
  shardType : TypeId
  command : TypeId
  shardId : Command → String
  entityId : Command → String

/-- Which actor a command is for, and which shard it belongs to. -/
def contextOf (shard : Shard) (cmd : Command) : EntityContext :=
  ⟨shard.typeName, shard.shardId cmd, shard.entityId cmd⟩

/-- Why an inbound envelope could not be delivered. -/
inductive DispatchError where
  | noActor (path : ActorPath)
  | unknownShardType (typeName : String)
  | decode (typeName : String) (messageId : Nat)
  | resolve (e : ActorOfError)
  | mailboxClosed
  deriving DecidableEq, Repr

/-- Why a command could not be delivered. -/
inductive TellError where
  | mailboxClosed
  | undeliverable
  | noAnswer
  deriving DecidableEq, Repr

/-- How many recent message ids a node remembers. -/
def dedupWindow : Nat := 4096

/-- Process-wide state: the cluster node if there is one, the shard types
registered by name, the wire formats by command type, the dedup window and the
host. -/
structure System where
  cluster : Option ClusterNode
  shards : AList fun _ : String => Shard
  wires : AList fun _ : TypeId => Reader
  seen : Dedup
  host : Host

namespace System

/-- `require_serving` as a flag. -/
def mayServe (sys : System) : Bool :=
  match sys.cluster with
  | some node => node.serving
  | none => true

/-- Dropping a command in this process. -/
def dropCommand (sys : System) (cmd : Command) : System :=
  { sys with cluster := sys.cluster.map fun node => dropFields node cmd }

/-- Teach this node a shard type.  The wire format is recorded first, whether
or not the name is taken. -/
def register (sys : System) (shard : Shard) (reader : Reader) :
    Except ActorOfError Unit × System :=
  let sys := { sys with wires := sys.wires.insert shard.command reader }
  match sys.shards.lookup shard.typeName with
  | some _ => (.error (.typeCollision shard.typeName), sys)
  | none => (.ok (), { sys with shards := sys.shards.insert shard.typeName shard })

/-- The recipe a registration closes over. -/
def build (sys : System) (shard : Shard) (host : Host) (path : ActorPath) :
    Except ActorOfError Host :=
  match path.parent, path.name with
  | some parent, some name => host.getOrCreate sys.mayServe parent name shard.command
  | _, _ => .error (.unclaimed path)

/-- Where an actor can be built, a serving node builds it or finds it there, and it
answers. -/
theorem build_of_buildable {sys : System} {shard : Shard} {host : Host} {path : ActorPath}
    (hserve : sys.mayServe = true) (h : host.Buildable shard.command path) :
    ∃ host' inst, sys.build shard host path = .ok host' ∧
      host'.resolve shard.command path = some inst := by
  obtain ⟨name, hname, hvalid⟩ := h.name
  obtain ⟨parent, hparent, rfl⟩ := ActorPath.exists_parent hname
  obtain ⟨inst, live, hcreate⟩ :=
    Live.getOrCreate_of_free host.alive host.started hvalid h.free
  have hbuild : sys.build shard host (parent.child name) = .ok { host with
      live := live
      started := if inst = host.started then host.started + 1 else host.started } := by
    simp only [build, hparent, hname, Host.getOrCreate, hserve, hcreate]
  refine ⟨_, inst, hbuild, Live.resolve_eq_some_iff.mpr ?_⟩
  rcases Live.getOrCreate_ok hcreate with ⟨hrow, halive, rfl⟩ | ⟨rfl, rfl, -⟩
  · exact ⟨hrow, halive⟩
  · exact ⟨AList.lookup_insert _, decide_eq_true h.fresh⟩

/-- Run the registered recipe for the actor a context names. -/
def buildShardActor (sys : System) (shard : Shard) (host : Host) (path : ActorPath) :
    Except ActorOfError Host :=
  match sys.shards.lookup shard.typeName with
  | none => .error (.unclaimed path)
  | some registered =>
      if registered.shardType = shard.shardType then sys.build registered host path
      else .error (.typeCollision shard.typeName)

/-- The actor a context names on this node, building it if it is not running. -/
def startShardActor (sys : System) (shard : Shard) (entity : EntityContext)
    (meanwhile : Meanwhile) : Except ActorOfError Nat × Host :=
  let path := addressOf entity
  match sys.host.resolve shard.command path with
  | some inst => (.ok inst, sys.host)
  | none =>
      let host := meanwhile 0 sys.host
      match sys.buildShardActor shard host path with
      | .error e => (.error e, host)
      | .ok host =>
          let host := meanwhile 1 host
          match host.resolve shard.command path with
          | some inst => (.ok inst, host)
          | none => (.error (.unclaimed path), host)

/-- Whether this node keeps a command for that shard. -/
def ours (sys : System) (shard : Shard) (cmd : Command) : Bool :=
  match sys.cluster with
  | some node => node.owns shard.typeName (contextOf shard cmd).shardId
  | none => true

/-- Hand a command to the actor it names, wherever the cluster puts it.
Returns the command as it was when the call gave it up: enqueued, or dropped
after a failure. -/
def deliverToShard (sys : System) (shard : Shard) (cmd : Command) (meanwhile : Meanwhile)
    (route : ClusterNode.Route) : Except TellError Unit × Command × System :=
  let entity := contextOf shard cmd
  if sys.ours shard cmd then
    match sys.startShardActor shard entity meanwhile with
    | (.error _, host) =>
        (.error .undeliverable, cmd, { sys with host := host }.dropCommand cmd)
    | (.ok inst, host) =>
        let host := meanwhile 2 host
        if host.alive inst then (.ok (), cmd, { sys with host := host })
        else (.error .mailboxClosed, cmd, { sys with host := host }.dropCommand cmd)
  else
    match sys.cluster with
    | none => (.error .undeliverable, cmd, sys.dropCommand cmd)
    | some node =>
        match sys.wires.lookup shard.command with
        | none => (.error .undeliverable, cmd, sys.dropCommand cmd)
        | some _ =>
            match encodeFields node cmd with
            | (.error _, cmd, node) =>
                (.error .undeliverable, cmd, { sys with cluster := some node }.dropCommand cmd)
            | (.ok _, cmd, node) =>
                let (_, node) := node.nextMessageId
                let sys := { sys with cluster := some node }
                match ClusterNode.send route shard.typeName entity.shardId with
                | .ok () => (.ok (), cmd, sys.dropCommand cmd)
                | .error _ => (.error .undeliverable, cmd, sys.dropCommand cmd)

/-- The `Cancelled` guard of an `ask` whose own handle is field `i` of the
command: forget the correlation the handle was encoded under, if it was. -/
def cancel (sys : System) (cmd : Command) (i : Nat) : System :=
  match cmd[i]? with
  | some (.reply ⟨_, some correlation⟩) =>
      { sys with cluster := sys.cluster.map fun node => node.forget correlation }
  | _ => sys

/-! ## Arrivals -/

/-- Build the actor at `path` unless something reachable is there already. -/
def ensureActor (sys : System) (shard : Shard) (path : ActorPath) (meanwhile : Meanwhile) :
    Except ActorOfError Host :=
  match sys.host.resolve shard.command path with
  | some _ => .ok sys.host
  | none => sys.build shard (meanwhile 0 sys.host) path

/-- The `receive` closure: decode, find or build the actor, deliver. -/
def receive (sys : System) (shard : Shard) (messageId : Nat) (payload : Payload)
    (meanwhile : Meanwhile) : Except DispatchError Unit × System :=
  match sys.wires.lookup shard.command with
  | none => (.error (.decode shard.typeName messageId), sys)
  | some reader =>
      match decodeFields reader sys.cluster payload with
      | (none, cluster) =>
          (.error (.decode shard.typeName messageId), { sys with cluster := cluster })
      | (some cmd, cluster) =>
          let sys := { sys with cluster := cluster }
          let path := addressOf (contextOf shard cmd)
          match sys.ensureActor shard path meanwhile with
          | .error e => (.error (.resolve e), sys.dropCommand cmd)
          | .ok host =>
              let host := meanwhile 1 host
              let sys := { sys with host := host }
              match host.resolve shard.command path with
              | none => (.error (.noActor path), sys.dropCommand cmd)
              | some inst =>
                  let host := meanwhile 2 host
                  let sys := { sys with host := host }
                  if host.alive inst then (.ok (), sys)
                  else (.error .mailboxClosed, sys.dropCommand cmd)

/-- Feed one inbound message to whoever it is for. -/
def dispatch (sys : System) (message : Message) (meanwhile : Meanwhile) :
    Except DispatchError Unit × System :=
  match message with
  | .reply reply =>
      (.ok (), { sys with cluster := sys.cluster.map fun node => (node.deliverReply reply).1 })
  | .command env =>
      if sys.mayServe then
        match sys.seen.accept env with
        | (false, _) => (.ok (), sys)
        | (true, seen) =>
            let sys := { sys with seen := seen }
            match sys.shards.lookup env.typeName with
            | none => (.error (.unknownShardType env.typeName), sys)
            | some shard => sys.receive shard env.messageId env.payload meanwhile
      else (.error (.resolve .notServing), sys)

end System

end HorsieActor.Ports
