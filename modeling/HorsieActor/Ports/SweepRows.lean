import HorsieActor.Ports.Guardian
import HorsieActor.Ports.Sweep
import HorsieActor.Verified.Slots

/-!
# Which rows a sweep stops

`address_of` and `PlacedShard::root` write shard addresses, `shard_root_of` reads
them back, and the sweep stops a shard by a prefix scan of the registry.  The ids
are any strings, one segment each, so that neither an empty one nor one with the
separator in it can be mistaken for another: writer, reader and scan agree on
every path (`readsBack`), and what `stop_at` selects under a shard's root are the
rows of that shard (`mem_selected_root`).

The rest is about the sweep as it runs, with everything else going on between its
steps.  `begun` records the `stop_at` calls it has made, each with the placement
it had asked just before.  However late the steps of such a call come, the rows it
takes out are of the shard it was made for, and so are the rows the actors behind
them take along when they stop.
-/

namespace HorsieActor.Ports.Sweep

open HorsieActor.Verified

/-! ## The grammar of addresses -/

/-- What is written as an address is read back, from it and from below it. -/
structure ReadsBack : Prop where
  address : ∀ entity path, path.startsWith (addressOf entity) = true →
    shardRootOf path = some ⟨entity.typeName, entity.shardId⟩
  distinct : ∀ entity entity', addressOf entity = addressOf entity' → entity = entity'
  root : ∀ path shard, shardRootOf path = some shard ↔ path.startsWith shard.root = true

/-- The rows `stop_at` takes out of a registry: the one at the path and those
under it. -/
def selected (live : Live) (path : ActorPath) : List ActorPath :=
  (if (live.lookup path).isSome then [path] else []) ++ live.doomed path

/-! ## The sweep and what it has begun -/

/-- A `stop_at` of the sweep: which call it is, for which shard, and the placement
it had asked about it. -/
structure Vacating where
  call : Nat
  shard : PlacedShard
  asked : PlacementTable

/-- The `stop_at` a step begins for the sweep. -/
def vacating (w : World) : Label → List Vacating
  | .check =>
      match w.sweep with
      | .checking (shard :: _) =>
          if w.node.ownerOf shard.typeName shard.shardId = some w.node.localId then []
          else [⟨w.actors.calls.length, shard, w.node.table⟩]
      | _ => []
  | _ => []

/-- A step of a node that sweeps, or an actor created anywhere in the tree. -/
inductive Act where
  | sweep (label : Label)
  | actorOf (parent : ActorPath) (name : String) (command : TypeId)

structure Watched where
  world : World
  /-- History: what the sweep has begun to stop. -/
  begun : List Vacating

namespace Watched

def init (localId : NodeId) (live : List NodeId) : Watched := ⟨World.init localId live, []⟩

def step (w : Watched) : Act → Option Watched
  | .sweep label =>
      (Sweep.step w.world label).map fun world => ⟨world, w.begun ++ vacating w.world label⟩
  | .actorOf parent name command =>
      let actors := w.world.actors.getOrCreate ([] : List Nat) parent name command
      some { w with world := { w.world with actors := actors } }

end Watched

/-! ## The property -/

/-- There was a row at the path, and there is none. -/
def Gone (w w' : World) (path : ActorPath) : Prop :=
  (w.actors.live.lookup path).isSome = true ∧ w'.actors.live.lookup path = none

/-- The path is of the shard that was to be stopped: of none this node was the
owner of when it asked, and nowhere but under `/system/shard`. -/
structure Vacated (localId : NodeId) (v : Vacating) (path : ActorPath) : Prop where
  shard : shardRootOf path = some v.shard
  owned : ∀ shard, v.asked.ownerOf shard.typeName shard.shardId = some localId →
    shardRootOf path ≠ some shard
  inside : path.startsWith ((ActorPath.root.child "system").child "shard") = true

/-- What the sweep touches from here on. -/
structure SweepsExactly (w : Watched) : Prop where
  /-- The sweep's own steps leave the registry alone. -/
  control : ∀ label ∈ [Label.wake, .read, .check, .resume], ∀ w', w.step (.sweep label) = some w' →
    w'.world.actors.live = w.world.actors.live
  /-- Its `stop_at` calls take out rows of their shard. -/
  stops : ∀ v ∈ w.begun, ∀ order w', w.step (.sweep (.actors (.call v.call order))) = some w' →
    ∀ path, Gone w.world w'.world path → Vacated w.world.node.localId v path
  /-- An actor that stops takes along rows of its own shard. -/
  cascade : ∀ i inst shard, w.world.actors.insts[i]? = some inst →
    shardRootOf inst.path = some shard →
    ∀ order w', w.step (.sweep (.actors (.task i order))) = some w' →
      ∀ path, Gone w.world w'.world path → shardRootOf path = some shard

/-! ## Writer, reader and scan -/

theorem startsWith_trans {p q r : ActorPath} (h : p.startsWith q = true)
    (h' : q.startsWith r = true) : p.startsWith r = true := by
  rw [ActorPath.startsWith_iff] at h h' ⊢
  exact h'.trans h

/-- A path below one of a shard is of that shard. -/
theorem shardRootOf_of_startsWith {path base : ActorPath} {shard : PlacedShard}
    (h : path.startsWith base = true) (hbase : shardRootOf base = some shard) :
    shardRootOf path = some shard := by
  rw [shardRootOf_eq_some_iff] at hbase ⊢
  exact startsWith_trans h hbase

theorem readsBack : ReadsBack where
  address entity _ h := shardRootOf_of_startsWith h (shardRootOf_addressOf entity)
  distinct := by
    rintro ⟨t, s, e⟩ ⟨t', s', e'⟩ h
    have hsegments : ["system", "shard", t, s, e] = ["system", "shard", t', s', e'] :=
      congrArg ActorPath.segments h
    cases hsegments
    rfl
  root _ _ := shardRootOf_eq_some_iff

theorem mem_selected {live : Live} {base path : ActorPath} :
    path ∈ selected live base ↔
      (live.lookup path).isSome = true ∧ path.startsWith base = true := by
  unfold selected
  rw [List.mem_append, Live.mem_doomed, ActorPath.under_iff]
  by_cases hpath : path = base
  · subst hpath
    have hself : path.startsWith path = true := ActorPath.startsWith_iff.mpr (List.prefix_refl _)
    by_cases hrow : (live.lookup path).isSome = true
    · simp [hrow, hself]
    · simp [hrow]
  · constructor
    · rintro (hroot | ⟨hrow, hunder, -⟩)
      · split at hroot
        · exact absurd (List.mem_singleton.mp hroot) hpath
        · cases hroot
      · exact ⟨hrow, hunder⟩
    · rintro ⟨hrow, hunder⟩
      exact Or.inr ⟨hrow, hunder, hpath⟩

/-- What `stop_at` selects at a shard's root are the rows of that shard. -/
theorem mem_selected_root {live : Live} {shard : PlacedShard} {path : ActorPath} :
    path ∈ selected live shard.root ↔
      (live.lookup path).isSome = true ∧ shardRootOf path = some shard := by
  rw [mem_selected, shardRootOf_eq_some_iff]

theorem Vacated.of_shard {localId : NodeId} {v : Vacating} {path : ActorPath}
    (hnot : v.asked.ownerOf v.shard.typeName v.shard.shardId ≠ some localId)
    (h : path.startsWith v.shard.root = true) : Vacated localId v path where
  shard := shardRootOf_eq_some_iff.mpr h
  owned shard howned hshard := by
    cases (shardRootOf_eq_some_iff.mpr h).symm.trans hshard
    exact hnot howned
  inside := startsWith_trans h
    (ActorPath.startsWith_iff.mpr ⟨[v.shard.typeName, v.shard.shardId], rfl⟩)

/-! ## The invariant -/

structure Watched.Inv (w : Watched) : Prop where
  tasks : Lifecycle.TasksWithin w.world.actors
  calls : Lifecycle.CallsWithin w.world.actors
  begun : ∀ v ∈ w.begun, ∃ call, w.world.actors.calls[v.call]? = some call ∧
    call.path = v.shard.root
  asked : ∀ v ∈ w.begun,
    v.asked.ownerOf v.shard.typeName v.shard.shardId ≠ some w.world.node.localId

theorem Watched.inv_init (localId : NodeId) (live : List NodeId) :
    Watched.Inv (Watched.init localId live) where
  tasks _ _ _ h := by cases h
  calls _ h := by cases h
  begun _ h := by cases h
  asked _ h := by cases h

section Steps

variable {w w' : World} {label : Label}

/-- What a step does to the actors is nothing, or a step of theirs; a node keeps
its name. -/
theorem step_actors (h : step w label = some w') :
    w'.node.localId = w.node.localId ∧
      (w'.actors = w.actors ∨ ∃ a, Lifecycle.Moves w.actors a w'.actors) := by
  have hstart (entity : EntityContext) (command : TypeId) :
      ∃ a, Lifecycle.Moves w.actors a (w.start entity command).actors :=
    ⟨.create ((regionOf entity.typeName).child entity.shardId) entity.entityId command,
      Lifecycle.moves_getOrCreate rfl⟩
  cases label with
  | setServing serving =>
      cases h
      exact ⟨rfl, Or.inr ⟨_, .setServing⟩⟩
  | dispatch entity command =>
      cases h
      exact ⟨rfl, Or.inr (hstart entity command)⟩
  | startShard k =>
      simp only [step] at h
      split at h
      · cases h
      · cases h
        exact ⟨rfl, Or.inr (hstart _ _)⟩
  | check =>
      simp only [step] at h
      split at h
      · split at h
        · cases h
          exact ⟨rfl, Or.inl rfl⟩
        · obtain ⟨actors, hstop, rfl⟩ := Option.map_eq_some_iff.mp h
          exact ⟨rfl, Or.inr ⟨_, Lifecycle.step_moves hstop⟩⟩
      · cases h
  | actors a =>
      simp only [step] at h
      split at h
      · obtain ⟨actors, hstep, rfl⟩ := Option.map_eq_some_iff.mp h
        exact ⟨rfl, Or.inr ⟨a, Lifecycle.step_moves hstep⟩⟩
      · cases h
  | setMembers live =>
      simp only [step] at h
      split at h <;> cases h
      exact ⟨rfl, Or.inl rfl⟩
  | announce =>
      simp only [step] at h
      split at h <;> cases h
      exact ⟨rfl, Or.inl rfl⟩
  | checkOwns entity command =>
      simp only [step] at h
      split at h <;> cases h <;> exact ⟨rfl, Or.inl rfl⟩
  | wake =>
      simp only [step] at h
      split at h <;> cases h
      exact ⟨rfl, Or.inl rfl⟩
  | read =>
      simp only [step] at h
      split at h <;> cases h
      exact ⟨rfl, Or.inl rfl⟩
  | resume =>
      simp only [step] at h
      split at h
      · cases h
        exact ⟨rfl, Or.inl rfl⟩
      · split at h <;> cases h
        exact ⟨rfl, Or.inl rfl⟩
      · cases h

/-- A call keeps its number and its path. -/
theorem call_path {w w' : Lifecycle.World} {a : Lifecycle.Label} {k : Nat}
    {call : Lifecycle.StopCall} (h : Lifecycle.Moves w a w') (hk : w.calls[k]? = some call) :
    ∃ call', w'.calls[k]? = some call' ∧ call'.path = call.path := by
  cases h with
  | setServing | kept | spawn | goes | retire => exact ⟨call, hk, rfl⟩
  | task hi hpc hdone => exact ⟨call, by rw [← hk, ← hdone.frame.1]; rfl, rfl⟩
  | stop => exact ⟨call, Slots.getElem?_snoc_iff.mpr (Or.inr hk), rfl⟩
  | @call j order other item rest next w₁ taken hj htodo hdone =>
      rw [← hdone.frame.1] at hj hk
      exact Slots.exists_getElem?_set (P := fun c => c.path = call.path)
        (y := other.after item (next ++ rest) taken) hj hk rfl fun _ hpath => hpath

/-- What the sweep begins to stop is another node's, and the call is for it. -/
theorem vacating_spec {v : Vacating} (h : step w label = some w') (hv : v ∈ vacating w label) :
    v.asked.ownerOf v.shard.typeName v.shard.shardId ≠ some w.node.localId ∧
      ∃ call, w'.actors.calls[v.call]? = some call ∧ call.path = v.shard.root := by
  cases label with
  | check =>
      simp only [step] at h
      simp only [vacating] at hv
      split at h
      · rename_i shard rest hsweep
        rw [hsweep] at hv
        dsimp only at hv
        split at h
        · rename_i howned
          rw [if_pos howned] at hv
          cases hv
        · rename_i hnot
          rw [if_neg hnot] at hv
          cases List.mem_singleton.mp hv
          obtain ⟨actors, hstop, rfl⟩ := Option.map_eq_some_iff.mp h
          cases hstop
          exact ⟨hnot, _, List.getElem?_concat_length, rfl⟩
      · rename_i hother
        split at hv
        · rename_i shard rest hsweep
          exact absurd hsweep (hother shard rest)
        · cases hv
  | _ => cases hv

end Steps

theorem Watched.Inv.moves {w : Watched} {world : World} (h : w.Inv)
    (hlocal : world.node.localId = w.world.node.localId)
    (hactors : world.actors = w.world.actors ∨
      ∃ a, Lifecycle.Moves w.world.actors a world.actors) : Watched.Inv ⟨world, w.begun⟩ := by
  rcases hactors with hsame | ⟨a, hmoves⟩
  · constructor
    · exact hsame ▸ h.tasks
    · exact hsame ▸ h.calls
    · exact hsame ▸ h.begun
    · exact hlocal ▸ h.asked
  · refine ⟨Lifecycle.tasksWithin_step h.tasks hmoves,
      Lifecycle.callsWithin_step h.calls hmoves, fun v hv => ?_, hlocal ▸ h.asked⟩
    obtain ⟨call, hk, hpath⟩ := h.begun v hv
    obtain ⟨call', hk', hpath'⟩ := call_path hmoves hk
    exact ⟨call', hk', hpath'.trans hpath⟩

theorem Watched.inv_step {w w' : Watched} {act : Act} (h : w.Inv)
    (hstep : w.step act = some w') : w'.Inv := by
  cases act with
  | actorOf parent name command =>
      cases hstep
      have hmade : Lifecycle.creates w.world.actors (.create parent name command) =
        some ([], parent.child name) := rfl
      exact h.moves rfl (Or.inr ⟨_, Lifecycle.moves_getOrCreate hmade⟩)
  | sweep label =>
      obtain ⟨world, hworld, rfl⟩ := Option.map_eq_some_iff.mp hstep
      obtain ⟨hlocal, hactors⟩ := step_actors hworld
      have hold := h.moves hlocal hactors
      refine ⟨hold.tasks, hold.calls, fun v hv => ?_, fun v hv => ?_⟩
      · rcases List.mem_append.mp hv with hv | hnew
        · exact hold.begun v hv
        · exact (vacating_spec hworld hnew).2
      · rcases List.mem_append.mp hv with hv | hnew
        · exact hold.asked v hv
        · exact hlocal ▸ (vacating_spec hworld hnew).1

/-! ## What is gone -/

/-- Only a `halt` takes a row out, and it is the row it names. -/
theorem halt_of_gone {w w₁ : Lifecycle.World} {item : Lifecycle.Work} {next : List Lifecycle.Work}
    {taken : Option Nat} {path : ActorPath} (h : Lifecycle.Performs w item next w₁ taken)
    (hrow : (w.live.lookup path).isSome = true) (hgone : w₁.live.lookup path = none) :
    item = .halt path := by
  cases h with
  | @halt base entry hlook =>
      by_contra hne
      have hother : path ≠ base := fun heq => hne (congrArg _ heq.symm)
      have hkept : (w.live.erase base).lookup path = none := hgone
      rw [AList.lookup_erase_ne hother] at hkept
      rw [hkept] at hrow
      cases hrow
  | missing | raise | wait | scan =>
      have hkept : w.live.lookup path = none := hgone
      rw [hkept] at hrow
      cases hrow

theorem startsWith_of_within {base path : ActorPath}
    (h : Lifecycle.Work.halt path = .halt base ∨ Lifecycle.Within base (.halt path)) :
    path.startsWith base = true := by
  rcases h with heq | hunder
  · cases heq
    exact ActorPath.startsWith_iff.mpr (List.prefix_refl _)
  · exact (ActorPath.under_iff.mp hunder).1

theorem step_actors_moves {w w' : Watched} {a : Lifecycle.Label}
    (h : w.step (.sweep (.actors a)) = some w') :
    Lifecycle.Moves w.world.actors a w'.world.actors := by
  obtain ⟨world, hworld, rfl⟩ := Option.map_eq_some_iff.mp h
  simp only [step] at hworld
  split at hworld
  · obtain ⟨actors, hstep, rfl⟩ := Option.map_eq_some_iff.mp hworld
    exact Lifecycle.step_moves hstep
  · cases hworld

/-- The steps of the sweep itself take nothing out. -/
theorem live_of_control {w w' : World} {label : Label}
    (hlabel : label ∈ [Label.wake, .read, .check, .resume]) (h : step w label = some w') :
    w'.actors.live = w.actors.live := by
  simp only [List.mem_cons, List.not_mem_nil, or_false] at hlabel
  rcases hlabel with rfl | rfl | rfl | rfl
  · simp only [step] at h
    split at h <;> cases h
    rfl
  · simp only [step] at h
    split at h <;> cases h
    rfl
  · simp only [step] at h
    split at h
    · split at h
      · cases h
        rfl
      · obtain ⟨actors, hstop, rfl⟩ := Option.map_eq_some_iff.mp h
        cases hstop
        rfl
    · cases h
  · simp only [step] at h
    split at h
    · cases h
      rfl
    · split at h <;> cases h
      rfl
    · cases h

theorem Watched.Inv.touches {w : Watched} (h : w.Inv) : SweepsExactly w where
  control label hlabel w' hstep := by
    obtain ⟨world, hworld, rfl⟩ := Option.map_eq_some_iff.mp hstep
    exact live_of_control hlabel hworld
  stops v hv order w' hstep path hgone := by
    obtain ⟨call, hk, hpath⟩ := h.begun v hv
    have hmoves := step_actors_moves hstep
    obtain ⟨hrow, hnone⟩ := hgone
    generalize w'.world.actors = actors at hmoves hnone
    cases hmoves with
    | kept ha => cases ha
    | spawn ha => cases ha
    | goes hi hgo => cases hgo
    | @call _ _ other item rest next w₁ taken hk' htodo hdone =>
        cases hk.symm.trans hk'
        cases halt_of_gone hdone hrow hnone
        have hitem := h.calls call (List.mem_of_getElem? hk) (.halt path)
          (by rw [htodo]; exact List.mem_cons_self ..)
        apply Vacated.of_shard (h.asked v hv)
        rw [← hpath]
        exact startsWith_of_within hitem
  cascade i inst shard hi hshard order w' hstep path hgone := by
    have hmoves := step_actors_moves hstep
    obtain ⟨hrow, hnone⟩ := hgone
    generalize w'.world.actors = actors at hmoves hnone
    cases hmoves with
    | kept ha => cases ha
    | spawn ha => cases ha
    | goes hi hgo => cases hgo
    | @task _ _ other item rest next w₁ taken hi' hpc hdone =>
        cases hi.symm.trans hi'
        cases halt_of_gone hdone hrow hnone
        have hitem := h.tasks i inst _ hi hpc (.halt path) (List.mem_cons_self ..)
        exact shardRootOf_of_startsWith (startsWith_of_within (Or.inr hitem)) hshard

/-- **The sweep stops exactly the shards it names.**  Addresses read back as they
were written, what `stop_at` selects under a shard's root are the rows of that
shard, and in every run what the sweep has begun touches nothing else. -/
theorem sweepsExactly (localId : NodeId) (live : List NodeId) (l : List Act) (w : Watched)
    (hrun : Schedule.run Watched.step (Watched.init localId live) l = some w) :
    ReadsBack ∧
      (∀ (registry : Live) (shard : PlacedShard) (path : ActorPath),
        path ∈ selected registry shard.root ↔
          (registry.lookup path).isSome = true ∧ shardRootOf path = some shard) ∧
      SweepsExactly w := by
  refine ⟨readsBack, fun registry shard path => mem_selected_root, ?_⟩
  exact (Schedule.run_invariant_all (fun _ _ _ h hstep => Watched.inv_step h hstep) l
    (Watched.inv_init localId live) hrun).touches

/-- A shard moves away and is swept to the end, on a node that also runs an actor
of its own. -/
def movedBeside : List Act :=
  (movedAway.take 2).map .sweep ++ .actorOf ActorPath.root "app" 1 ::
    (movedAway.drop 2).map .sweep

theorem sweepsExactly_movedBeside :
    ∃ w, Schedule.run Watched.step (Watched.init ⟨1⟩ [⟨1⟩]) movedBeside = some w ∧
      w.begun.map Vacating.shard = [⟨"counter", "7"⟩] ∧
      w.world.actors.live.keys = [⟨["app"]⟩] ∧ SweepsExactly w :=
  ⟨_, rfl, rfl, rfl, (sweepsExactly ⟨1⟩ [⟨1⟩] movedBeside _ rfl).2.2⟩

end HorsieActor.Ports.Sweep
