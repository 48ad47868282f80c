import HorsieActor.Ports.Lifecycle
import HorsieActor.Ports.System

/-!
# The host behind a system's calls

`deliver_to_shard` and `dispatch` look into the registry, build what is missing
and look again, and other tasks run in between.  In `System` those tasks are a
parameter.  Here they are runs of the lifecycle machine, and so is everything
the calls themselves do to the registry: a call on a host that the machine
accounts for leaves a host that it accounts for.

The results on the lifecycle therefore speak of shard actors too, started by a
command from here or from another node.

## Main results

* `deliverToShard_reaches`, `dispatch_reaches` — whole calls are schedules of
  the lifecycle machine.
-/

namespace HorsieActor.Ports.Lifecycle

open HorsieActor.Verified.Schedule

/-! ## Agreement -/

/-- The machine accounts for the host: the same rows, the same instances, and
the mailboxes closed are those of the tasks that are gone. -/
structure Hosts (w : World) (host : Host) : Prop where
  live : host.live = w.live
  started : host.started = w.insts.length
  closed : ∀ i, i ∈ host.closed ↔ ∃ inst, w.insts[i]? = some inst ∧ inst.pc = .gone

section Agreement

variable {w : World} {host : Host} {command : TypeId} {path : ActorPath}

/-- A row leads to an instance both know. -/
theorem Hosts.alive_row (h : Hosts w host) (hfiled : Filed w) {entry : Entry}
    (hrow : w.live.lookup path = some entry) : host.alive entry.inst = w.alive entry.inst := by
  obtain ⟨inst, hinst, -⟩ := hfiled path entry hrow
  simp [Host.alive, World.alive, World.pcAt, h.closed, hinst]

theorem Hosts.getOrCreate_eq (h : Hosts w host) (hfiled : Filed w) (parent : ActorPath)
    (name : String) :
    host.live.getOrCreate host.alive w.mayServe host.started parent name command =
      w.live.getOrCreate w.alive w.mayServe w.insts.length parent name command := by
  unfold Live.getOrCreate
  simp only [h.live, h.started]
  cases hrow : w.live.lookup (parent.child name) with
  | none => rfl
  | some entry => simp only [h.alive_row hfiled hrow]

/-- Starting an instance closes no mailbox. -/
theorem Hosts.spawn (h : Hosts w host) {inst : Inst} (hpc : inst.pc ≠ .gone) (i : Nat) :
    i ∈ host.closed ↔ ∃ x, (w.insts ++ [inst])[i]? = some x ∧ x.pc = .gone := by
  rw [h.closed i]
  constructor
  · rintro ⟨x, hx, hgone⟩
    exact ⟨x, by rw [List.getElem?_append_left (List.getElem?_eq_some_iff.mp hx).1, hx], hgone⟩
  · rintro ⟨x, hx, hgone⟩
    rw [List.getElem?_append] at hx
    split at hx
    · exact ⟨x, hx, hgone⟩
    · cases List.mem_singleton.mp (List.mem_of_getElem? hx)
      exact absurd hgone hpc

/-- `get_or_create` on the host is the machine's. -/
theorem Hosts.getOrCreate (h : Hosts w host) (hfiled : Filed w) {parent : ActorPath}
    {name : String} {host' : Host}
    (hok : host.getOrCreate w.mayServe parent name command = .ok host') :
    Hosts (w.getOrCreate [] parent name command) host' := by
  unfold Host.getOrCreate at hok
  unfold World.getOrCreate
  rw [h.getOrCreate_eq hfiled, h.started] at hok
  generalize w.live.getOrCreate w.alive w.mayServe w.insts.length parent name command = out
    at hok ⊢
  cases out with
  | error e => cases hok
  | ok made =>
      obtain ⟨inst, live⟩ := made
      cases hok
      dsimp only
      by_cases hnew : inst = w.insts.length
      · rw [if_pos hnew, if_pos hnew]
        exact ⟨rfl, by simp, h.spawn nofun⟩
      · rw [if_neg hnew, if_neg hnew]
        exact ⟨rfl, rfl, h.closed⟩

end Agreement

/-! ## Whole calls -/

/-- Some run of the machine from `w` ends in a world that accounts for the
host, still serving or not as before. -/
def Reaches (w : World) (host : Host) : Prop :=
  ∃ schedule w', run step w schedule = some w' ∧ Hosts w' host ∧ w'.mayServe = w.mayServe

/-- What other tasks do in a gap, the machine can do. -/
def Tasks (meanwhile : Meanwhile) : Prop :=
  ∀ gap w host, Filed w → Hosts w host → Reaches w (meanwhile gap host)

section Calls

variable {w : World} {sys : System} {shard : Shard} {meanwhile : Meanwhile}

theorem Reaches.refl {host : Host} (h : Hosts w host) : Reaches w host := ⟨[], w, rfl, h, rfl⟩

/-- One call after another, each on a host the machine accounts for. -/
theorem Reaches.bind {host host' : Host} (h : Reaches w host) (hfiled : Filed w)
    (hnext : ∀ w', Filed w' → Hosts w' host → w'.mayServe = w.mayServe → Reaches w' host') :
    Reaches w host' := by
  obtain ⟨schedule, w', hrun, hhosts, hmay⟩ := h
  have hfiled' : Filed w' :=
    run_invariant_all (fun _ _ _ hI hs => filed_step hI (step_moves hs)) schedule hfiled hrun
  obtain ⟨schedule', w'', hrun', hhosts', hmay'⟩ := hnext w' hfiled' hhosts hmay
  exact ⟨schedule ++ schedule', w'', by rw [run_append, hrun]; exact hrun', hhosts',
    hmay'.trans hmay⟩

theorem Reaches.gap {host : Host} (h : Reaches w host) (hfiled : Filed w) (htasks : Tasks meanwhile)
    (gap : Nat) : Reaches w (meanwhile gap host) :=
  h.bind hfiled fun w' hfiled' hhosts _ => htasks gap w' host hfiled' hhosts

/-- Running a recipe is one `get_or_create`. -/
theorem build_reaches {host host' : Host} {path : ActorPath} (hfiled : Filed w)
    (hhosts : Hosts w host) (hmay : sys.mayServe = w.mayServe)
    (hok : sys.build shard host path = .ok host') : Reaches w host' := by
  unfold System.build at hok
  split at hok
  · rename_i parent name _ _
    rw [hmay] at hok
    refine ⟨[.create parent name shard.command], _, rfl, hhosts.getOrCreate hfiled hok, ?_⟩
    rcases getOrCreate_eq w [] parent name shard.command with heq | ⟨-, heq⟩
    · rw [heq]
    · rw [heq]
      rfl
  · cases hok

theorem startShardActor_reaches (shard : Shard) (entity : EntityContext) (hfiled : Filed w)
    (hhosts : Hosts w sys.host) (hmay : sys.mayServe = w.mayServe) (htasks : Tasks meanwhile) :
    Reaches w (sys.startShardActor shard entity meanwhile).2 := by
  unfold System.startShardActor
  dsimp only
  split
  · exact Reaches.refl hhosts
  · have hgap := (Reaches.refl hhosts).gap hfiled htasks 0
    split
    · exact hgap
    · rename_i host' hbuild
      have hbuilt : Reaches w host' := hgap.bind hfiled fun w' hfiled' hhosts' hmay' => by
        unfold System.buildShardActor at hbuild
        split at hbuild
        · cases hbuild
        · split at hbuild
          · exact build_reaches hfiled' hhosts' (hmay.trans hmay'.symm) hbuild
          · cases hbuild
      have hgap' := hbuilt.gap hfiled htasks 1
      split
      · exact hgap'
      · exact hgap'

/-- **A command sent from here.**  Whatever becomes of it, the host it leaves is
one the machine reaches. -/
theorem deliverToShard_reaches (cmd : Command) (route : ClusterNode.Route) (hfiled : Filed w)
    (hhosts : Hosts w sys.host) (hmay : sys.mayServe = w.mayServe) (htasks : Tasks meanwhile) :
    Reaches w (sys.deliverToShard shard cmd meanwhile route).2.2.host := by
  have hstart := startShardActor_reaches shard (contextOf shard cmd) hfiled hhosts hmay htasks
  unfold System.deliverToShard
  dsimp only
  split
  · generalize sys.startShardActor shard (contextOf shard cmd) meanwhile = out at hstart ⊢
    obtain ⟨result, host⟩ := out
    cases result with
    | error e => exact hstart
    | ok inst =>
        have hgap := hstart.gap hfiled htasks 2
        dsimp only
        split
        · exact hgap
        · exact hgap
  · -- a command that leaves the node does not touch its registry
    split
    · exact Reaches.refl hhosts
    · split
      · exact Reaches.refl hhosts
      · split
        · exact Reaches.refl hhosts
        · split
          · exact Reaches.refl hhosts
          · exact Reaches.refl hhosts

/-- Decoding that goes through leaves the node as it was. -/
theorem decodeFields_some {reader : Reader} {router cluster : Option ClusterNode}
    {payload : Payload} {cmd : Command}
    (h : decodeFields reader router payload = (some cmd, cluster)) : cluster = router := by
  unfold decodeFields at h
  dsimp only at h
  split at h
  · cases h
    rfl
  · cases h

theorem receive_reaches (shard : Shard) (id : Nat) (payload : Payload) (hfiled : Filed w)
    (hhosts : Hosts w sys.host) (hmay : sys.mayServe = w.mayServe) (htasks : Tasks meanwhile) :
    Reaches w (sys.receive shard id payload meanwhile).2.host := by
  unfold System.receive
  split
  · exact Reaches.refl hhosts
  · split
    · exact Reaches.refl hhosts
    · rename_i cmd cluster hdec
      obtain rfl := decodeFields_some hdec
      dsimp only
      split
      · exact Reaches.refl hhosts
      · rename_i host hensure
        have hfound : Reaches w host := by
          unfold System.ensureActor at hensure
          split at hensure
          · cases hensure
            exact Reaches.refl hhosts
          · exact ((Reaches.refl hhosts).gap hfiled htasks 0).bind hfiled
              fun w' hfiled' hhosts' hmay' =>
                build_reaches hfiled' hhosts' (hmay.trans hmay'.symm) hensure
        have hgap := hfound.gap hfiled htasks 1
        split
        · exact hgap
        · have hgap' := hgap.gap hfiled htasks 2
          split
          · exact hgap'
          · exact hgap'

/-- **A message from another node.**  Whatever `dispatch` makes of it, the host
it leaves is one the machine reaches. -/
theorem dispatch_reaches (message : Message) (hfiled : Filed w) (hhosts : Hosts w sys.host)
    (hmay : sys.mayServe = w.mayServe) (htasks : Tasks meanwhile) :
    Reaches w (sys.dispatch message meanwhile).2.host := by
  unfold System.dispatch
  cases message with
  | reply reply => exact Reaches.refl hhosts
  | command env =>
      dsimp only
      split
      · split
        · exact Reaches.refl hhosts
        · split
          · exact Reaches.refl hhosts
          · rename_i shard _
            exact receive_reaches shard env.messageId env.payload hfiled hhosts hmay htasks
      · exact Reaches.refl hhosts

end Calls

end HorsieActor.Ports.Lifecycle
