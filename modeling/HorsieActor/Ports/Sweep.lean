import HorsieActor.Ports.ClusterNode
import HorsieActor.Ports.PendingStops
import HorsieActor.Verified.Watch
import Mathlib.Data.Prod.Lex
import Mathlib.Data.String.Basic

/-!
# Whose shards a node runs

Placement against the registry: `set_live` and its announcement
(`src/cluster/node.rs`), the task that sweeps the registry when the live set
moves (`watch_placement`, `release_vacated_shards` in `src/system.rs`), and the
two ways an entity is started — a local send, which asks `owns` first and starts
the actor in a later step, and an inbound dispatch, which does not ask.

The actors themselves, and whoever stops them, are the machine of
`HorsieActor.Ports.Lifecycle`; the sweep stops a shard by a `stop_at` of that
machine and waits for it.  Every entity starts through one of the two ways, and
actors create children as they like.

An entity started for a shard that is not this node's is not swept until the
live set moves again: the sweep is over, and a dispatch from a node that has not
applied the new set yet is let in (`dispatch_after_sweep_leaves_row`).  If every
actor is started while this node is the owner, then whenever the sweep has
caught up and nothing is stopping, every row is this node's
(`ownsRows_of_ownedStarts`).
-/

namespace HorsieActor.Ports.Sweep

open HorsieActor.Verified

/-! ## The machine -/

theorem placedShard_injective :
    Function.Injective fun shard : PlacedShard => toLex (shard.typeName, shard.shardId) := by
  rintro ⟨t, s⟩ ⟨t', s'⟩ h
  cases h
  rfl

/-- The derived `Ord`: by type, then by shard. -/
instance : LinearOrder PlacedShard := LinearOrder.lift' _ placedShard_injective

/-- Where `watch_placement` is. -/
inductive Sweeping where
  /-- Waiting for the live set to change. -/
  | idle
  /-- Woken, about to read the registry. -/
  | reading
  /-- In the loop, with these shards left. -/
  | checking (todo : List PlacedShard)
  /-- In `stop_at`, with these shards left. -/
  | stopping (call : Nat) (todo : List PlacedShard)
  deriving DecidableEq, Repr

structure World where
  actors : Lifecycle.World
  node : ClusterNode
  /-- The live watch. -/
  live : Watch (List NodeId)
  /-- What the sweep's receiver of it has seen. -/
  seen : Nat
  /-- A `set_live` that has replaced the members and not announced them yet. -/
  announcing : Option (List NodeId)
  /-- Local sends past their `owns` check. -/
  sends : List (EntityContext × TypeId)
  sweep : Sweeping

/-- A system just built on a serving node that places over `live`. -/
def World.init (localId : NodeId) (live : List NodeId) : World where
  actors := Lifecycle.World.init
  node := { (ClusterNode.start localId).setLive live with serving := true }
  live := .new live
  seen := 0
  announcing := none
  sends := []
  sweep := .idle

inductive Label where
  | setServing (serving : Bool)
  /-- `set_live` replaces the members. -/
  | setMembers (live : List NodeId)
  /-- `set_live` announces them. -/
  | announce
  /-- A local send asks `owns`. -/
  | checkOwns (entity : EntityContext) (command : TypeId)
  /-- A local send goes on to `start_shard_actor`. -/
  | startShard (k : Nat)
  /-- An inbound command reaches the `receive` of its type. -/
  | dispatch (entity : EntityContext) (command : TypeId)
  /-- The sweep sees that the live set has changed. -/
  | wake
  /-- It reads the registry. -/
  | read
  /-- It looks at its next shard. -/
  | check
  /-- Its `stop_at` has returned, or it has no shard left. -/
  | resume
  /-- A step of the actors or of whoever stops them. -/
  | actors (a : Lifecycle.Label)
  deriving DecidableEq, Repr

/-- The shards of the registry's rows, each once and in order. -/
def running (live : Live) : List PlacedShard :=
  (OrdMap.ofKeys (live.keys.filterMap shardRootOf)).keys

/-- Resolve or build: `get_or_create` at the entity's address. -/
def World.start (w : World) (entity : EntityContext) (command : TypeId) : World :=
  let parent := (regionOf entity.typeName).child entity.shardId
  { w with actors := w.actors.getOrCreate ([] : List Nat) parent entity.entityId command }

/-- The labels of the lifecycle machine that are steps of this one: actors are
started by `startShard` and `dispatch` only. -/
def admitted : Lifecycle.Label → Bool
  | .setServing _ | .create _ _ _ => false
  | _ => true

def step (w : World) : Label → Option World
  | .setServing serving => some { w with
      node := { w.node with serving := serving }
      actors := { w.actors with mayServe := serving } }
  | .setMembers live =>
      if w.announcing = none then
        some { w with node := w.node.setLive live, announcing := some live }
      else none
  | .announce =>
      match w.announcing with
      | none => none
      | some live => some { w with announcing := none, live := w.live.sendIfModified live }
  | .checkOwns entity command =>
      if w.node.owns entity.typeName entity.shardId then
        some { w with sends := w.sends ++ [(entity, command)] }
      else some w
  | .startShard k =>
      match w.sends[k]? with
      | none => none
      | some (entity, command) =>
          some { w.start entity command with sends := w.sends.eraseIdx k }
  | .dispatch entity command => some (w.start entity command)
  | .wake =>
      if w.sweep = .idle ∧ w.seen ≠ w.live.version then
        some { w with seen := w.live.version, sweep := .reading }
      else none
  | .read =>
      if w.sweep = .reading then some { w with sweep := .checking (running w.actors.live) }
      else none
  | .check =>
      match w.sweep with
      | .checking (shard :: rest) =>
          if w.node.ownerOf shard.typeName shard.shardId = some w.node.localId then
            some { w with sweep := .checking rest }
          else
            (Lifecycle.step w.actors (.stop shard.root)).map fun actors =>
              { w with actors := actors, sweep := .stopping w.actors.calls.length rest }
      | _ => none
  | .resume =>
      match w.sweep with
      | .checking [] => some { w with sweep := .idle }
      | .stopping k rest =>
          if (w.actors.calls[k]?.map Lifecycle.StopCall.todo) = some [] then
            some { w with sweep := .checking rest }
          else none
      | _ => none
  | .actors a =>
      if admitted a then
        (Lifecycle.step w.actors a).map fun actors => { w with actors := actors }
      else none

/-! ## The property -/

/-- The sweep for the latest change has completed and no stop is in progress. -/
structure Settled (w : World) : Prop where
  announced : w.announcing = none
  seen : w.seen = w.live.version
  swept : w.sweep = .idle
  calls : ∀ call ∈ w.actors.calls, call.todo = []
  tasks : ∀ inst ∈ w.actors.insts, ∀ todo, inst.pc = .stopping todo → todo = []

/-- Whether this node is the owner of the shard. -/
def Owned (w : World) (shard : PlacedShard) : Prop :=
  w.node.ownerOf shard.typeName shard.shardId = some w.node.localId

instance (w : World) (shard : PlacedShard) : Decidable (Owned w shard) :=
  inferInstanceAs (Decidable (_ = some _))

/-- Every row of a shard is of a shard this node owns. -/
def OwnsRows (w : World) : Prop :=
  ∀ path entry shard, w.actors.live.lookup path = some entry →
    shardRootOf path = some shard → Owned w shard

/-- The entity a step would start an actor for. -/
def starts (w : World) : Label → Option EntityContext
  | .startShard k => w.sends[k]?.map Prod.fst
  | .dispatch entity _ => some entity
  | _ => none

/-- An actor is started only for a shard of this node. -/
def OwnedStarts (w : World) (label : Label) : Prop :=
  ∀ entity ∈ starts w label, Lifecycle.Free w.actors (addressOf entity) →
    Owned w ⟨entity.typeName, entity.shardId⟩

instance (w : World) (label : Label) : Decidable (OwnedStarts w label) :=
  inferInstanceAs (Decidable (∀ entity ∈ starts w label, _ → _))

/-! ## The invariant -/

/-- The sweep still has to come to this shard: there is a change it has not
seen, or it has yet to read the registry, or the shard is on its list. -/
def ToSweep (w : World) (shard : PlacedShard) : Prop :=
  (∃ live ∈ w.announcing, live ≠ w.live.value) ∨ w.seen ≠ w.live.version ∨ w.sweep = .reading ∨
    ∃ todo, (w.sweep = .checking todo ∨ ∃ k, w.sweep = .stopping k todo) ∧ shard ∈ todo

/-- The shards the sweep has read and not come to yet. -/
def Sweeping.left : Sweeping → List PlacedShard
  | .idle | .reading => []
  | .checking todo | .stopping _ todo => todo

/-- Every row of a shard that is another node's will be seen to. -/
def Covered (w : World) : Prop :=
  ∀ path entry shard, w.actors.live.lookup path = some entry →
    shardRootOf path = some shard → ¬ Owned w shard →
      ToSweep w shard ∨ Lifecycle.Doomed w.actors path

/-- What every reachable world satisfies. -/
structure Swept (w : World) : Prop where
  tended : Lifecycle.Tended w.actors
  /-- Every actor is an entity or below one. -/
  deep : ∀ (i : Nat) (inst : Lifecycle.Inst), w.actors.insts[i]? = some inst →
    5 ≤ inst.path.segments.length
  table : w.node.table = PlacementTable.new.setMembers (w.announcing.getD w.live.value)
  seen : w.seen ≤ w.live.version
  covered : Covered w

theorem toSweep_iff {w : World} {shard : PlacedShard} :
    ToSweep w shard ↔ (∃ live ∈ w.announcing, live ≠ w.live.value) ∨ w.seen ≠ w.live.version ∨
      w.sweep = .reading ∨ shard ∈ w.sweep.left := by
  unfold ToSweep
  cases w.sweep with
  | idle | reading => simp [Sweeping.left]
  | checking todo | stopping k todo => simp [Sweeping.left]

theorem swept_init (localId : NodeId) (live : List NodeId) : Swept (World.init localId live) where
  tended := Lifecycle.tended_init
  deep := nofun
  table := rfl
  seen := Nat.le_refl 0
  covered := nofun

theorem Swept.ownsRows {w : World} (h : Swept w) (hsettled : Settled w) : OwnsRows w := by
  intro path entry shard hlook hshard
  by_contra howned
  rcases h.covered path entry shard hlook hshard howned with hsweep | hdoomed
  · rw [toSweep_iff, hsettled.announced, hsettled.swept] at hsweep
    rcases hsweep with ⟨live, hlive, -⟩ | hseen | hread | hleft
    · cases hlive
    · exact hseen hsettled.seen
    · cases hread
    · cases hleft
  · obtain ⟨item, hpending⟩ := hdoomed.pending
    rcases hpending with ⟨k, call, hk, hitem⟩ | ⟨i, inst, todo, hi, hpc, hitem⟩
    · rw [hsettled.calls call (List.mem_of_getElem? hk)] at hitem
      cases hitem
    · rw [hsettled.tasks inst (List.mem_of_getElem? hi) todo hpc] at hitem
      cases hitem

/-! ## Steps of the actors -/

section Actors

variable {w : World} {a : Lifecycle.Label} {actors : Lifecycle.World}

theorem shardRootOf_addressOf (entity : EntityContext) :
    shardRootOf (addressOf entity) = some ⟨entity.typeName, entity.shardId⟩ := by
  rw [shardRootOf_eq_some_iff, ActorPath.startsWith_iff]
  exact ⟨[entity.entityId], rfl⟩

/-- A child is in the shard its parent is in. -/
theorem shardRootOf_of_child {path : ActorPath} {name : String} {shard : PlacedShard}
    (hdeep : 5 ≤ path.segments.length) (h : shardRootOf (path.child name) = some shard) :
    shardRootOf path = some shard := by
  rw [shardRootOf_eq_some_iff, ActorPath.startsWith_iff] at h ⊢
  apply List.prefix_of_prefix_length_le h (List.prefix_append _ _)
  exact Nat.le_trans (by decide : 4 ≤ 5) hdeep

/-- A step of the actors keeps what is covered, if what it files is. -/
theorem Swept.moves (h : Swept w) (hm : Lifecycle.Moves w.actors a actors)
    (hnew : ∀ line path, Lifecycle.creates w.actors a = some (line, path) →
      Lifecycle.Free w.actors path → 5 ≤ path.segments.length ∧
        ∀ shard, shardRootOf path = some shard → ¬ Owned w shard →
          ToSweep w shard ∨ Lifecycle.Doomed w.actors path) :
    Swept { w with actors := actors } := by
  have htended : Lifecycle.Tended actors := Lifecycle.tended_step h.tended hm
  refine ⟨htended, fun i x' hx' => ?_, h.table, h.seen, ?_⟩
  · rcases hm.older with hold | ⟨line, path, command, ha, hfree, hspawn⟩
    · obtain ⟨x, hx, hpath, -⟩ := hold.back i x' hx'
      rw [hpath]
      exact h.deep i x hx
    · have hx'' : actors.insts[i]? = some x' := hx'
      rw [hspawn] at hx''
      rcases Lifecycle.getElem?_spawn hx'' with hx | ⟨-, rfl⟩
      · exact h.deep i x' hx
      · exact (hnew line path ha hfree).1
  · intro path entry shard hlook hshard howned
    rcases hm.refiles.lookup hlook with hold | ⟨line, command, ha, hfree, hspawn⟩
    · rcases h.covered path entry shard hold hshard howned with hsweep | hdoomed
      · exact Or.inl hsweep
      · exact Or.inr (hm.doomed htended hold hlook hdoomed)
    · rcases (hnew line path ha hfree).2 shard hshard howned with hsweep | hdoomed
      · exact Or.inl hsweep
      · refine Or.inr ?_
        show Lifecycle.Doomed actors path
        rw [hspawn]
        exact hdoomed.spawn

/-- A step that creates nothing. -/
theorem Swept.moves_quiet (h : Swept w) (hm : Lifecycle.Moves w.actors a actors)
    (ha : Lifecycle.creates w.actors a = none) : Swept { w with actors := actors } := by
  apply h.moves hm
  intro line path hmade
  rw [ha] at hmade
  cases hmade

theorem createChild_active {i : Nat} {name : String} {command : TypeId}
    (h : Lifecycle.step w.actors (.createChild i name command) = some actors) :
    ∃ inst, w.actors.insts[i]? = some inst ∧ inst.pc.rank ≤ 2 := by
  simp only [Lifecycle.step] at h
  split at h
  · cases h
  · rename_i inst hi
    split at h
    · rename_i hactive
      refine ⟨inst, hi, ?_⟩
      cases hpc : inst.pc with
      | starting | serving => decide
      | retiring | stopping | actorDropped | ended | gone =>
          rw [hpc] at hactive
          cases hactive
    · cases h

/-- A child is covered as its parent is. -/
theorem Swept.createChild (h : Swept w) {i : Nat} {name : String} {command : TypeId}
    (hstep : Lifecycle.step w.actors (.createChild i name command) = some actors) :
    Swept { w with actors := actors } := by
  obtain ⟨inst, hi, hrank⟩ := createChild_active hstep
  have hdeep := h.deep i inst hi
  apply h.moves (Lifecycle.step_moves hstep)
  intro line path hmade _
  simp only [Lifecycle.creates, hi, Option.map_some, Option.some.injEq, Prod.mk.injEq] at hmade
  obtain ⟨-, rfl⟩ := hmade
  refine ⟨?_, fun shard hshard howned => ?_⟩
  · simp only [ActorPath.child, List.length_append, List.length_singleton]
    omega
  · rcases h.tended i inst hi hrank with hreg | hwait
    · obtain ⟨entry, hlook, -⟩ := Option.map_eq_some_iff.mp hreg
      have hparent := shardRootOf_of_child hdeep hshard
      rcases h.covered inst.path entry shard hlook hparent howned with hsweep | hdoomed
      · exact Or.inl hsweep
      · exact Or.inr (Lifecycle.Doomed.child hi hrank name (Or.inr hdoomed))
    · exact Or.inr (Lifecycle.Doomed.child hi hrank name (Or.inl hwait))

/-- An entity is started for a shard of this node. -/
theorem Swept.start (h : Swept w) {entity : EntityContext} (command : TypeId)
    (howned : Lifecycle.Free w.actors (addressOf entity) →
      Owned w ⟨entity.typeName, entity.shardId⟩) : Swept (w.start entity command) := by
  have hmade : Lifecycle.creates w.actors (.create ((regionOf entity.typeName).child
      entity.shardId) entity.entityId command) = some ([], addressOf entity) := rfl
  apply h.moves (Lifecycle.moves_getOrCreate hmade)
  intro line path hmade' hfree
  rw [hmade] at hmade'
  cases hmade'
  refine ⟨Nat.le_refl 5, fun shard hshard hnot => absurd ?_ hnot⟩
  rw [shardRootOf_addressOf] at hshard
  cases hshard
  exact howned hfree

end Actors

/-! ## Steps of the sweep -/

section Control

variable {w w' : World}

/-- A step of the sweep alone: what it had to come to it still has to, as far as
there is a row of it that is another node's. -/
theorem Swept.control (h : Swept w) (hactors : w'.actors = w.actors) (hnode : w'.node = w.node)
    (hlive : w'.live = w.live ∧ w'.announcing = w.announcing) (hseen : w'.seen ≤ w'.live.version)
    (hsweep : ∀ path entry shard, w.actors.live.lookup path = some entry →
      shardRootOf path = some shard → ¬ Owned w shard → ToSweep w shard → ToSweep w' shard) :
    Swept w' := by
  obtain ⟨hannounced, hannouncing⟩ := hlive
  refine ⟨hactors ▸ h.tended, hactors ▸ h.deep, ?_, hseen, ?_⟩
  · rw [hnode, hannounced, hannouncing]
    exact h.table
  · intro path entry shard hlook hshard howned
    rw [hactors] at hlook ⊢
    rw [Owned, hnode] at howned
    exact (h.covered path entry shard hlook hshard howned).imp_left
      (hsweep path entry shard hlook hshard howned)

/-- The sweep goes on in its loop: what leaves its list is this node's own. -/
theorem Swept.advance (h : Swept w) (sweep : Sweeping) (hread : w.sweep ≠ .reading)
    (hleft : ∀ shard ∈ w.sweep.left, ¬ Owned w shard → shard ∈ sweep.left) :
    Swept { w with sweep := sweep } := by
  refine h.control rfl rfl ⟨rfl, rfl⟩ h.seen fun _ _ shard _ _ howned hsweep => ?_
  rw [toSweep_iff] at hsweep ⊢
  rcases hsweep with hlive | hseen | hreading | hmem
  · exact Or.inl hlive
  · exact Or.inr (Or.inl hseen)
  · exact absurd hreading hread
  · exact Or.inr (Or.inr (Or.inr (hleft shard hmem howned)))

theorem mem_running {live : Live} {path : ActorPath} {entry : Entry} {shard : PlacedShard}
    (hlook : live.lookup path = some entry) (hshard : shardRootOf path = some shard) :
    shard ∈ running live := by
  refine OrdMap.mem_ofKeys.mpr (List.mem_filterMap.mpr ⟨path, ?_, hshard⟩)
  rw [← AList.mem_keys, ← AList.lookup_isSome, hlook]
  rfl

/-- New members: if they are other than those announced, there is a change the
sweep has not seen. -/
theorem Swept.setMembers (h : Swept w) (hnone : w.announcing = none) (live : List NodeId) :
    Swept { w with node := w.node.setLive live, announcing := some live } := by
  refine ⟨h.tended, h.deep, rfl, h.seen, ?_⟩
  intro path entry shard hlook hshard howned
  by_cases hsame : live = w.live.value
  · have htable : w.node.table.setMembers live = w.node.table := by
      rw [h.table, hnone, hsame]
      rfl
    have howned' : ¬ Owned w shard := by
      intro howned'
      apply howned
      show (w.node.table.setMembers live).ownerOf _ _ = _
      rw [htable]
      exact howned'
    refine (h.covered path entry shard hlook hshard howned').imp_left ?_
    rintro (⟨live', hlive', -⟩ | hrest)
    · rw [hnone] at hlive'
      cases hlive'
    · exact Or.inr hrest
  · exact Or.inl (Or.inl ⟨live, rfl, hsame⟩)

/-- The announcement: either it says nothing new, or the sweep has not seen it. -/
theorem Swept.announce (h : Swept w) {live : List NodeId} (hsome : w.announcing = some live) :
    Swept { w with announcing := none, live := w.live.sendIfModified live } := by
  have htable := h.table
  rw [hsome] at htable
  by_cases hsame : w.live.value = live
  · rw [Watch.sendIfModified, if_pos hsame]
    refine ⟨h.tended, h.deep, by rw [htable, ← hsame]; rfl, h.seen, ?_⟩
    intro path entry shard hlook hshard howned
    refine (h.covered path entry shard hlook hshard howned).imp_left ?_
    rintro (⟨live', hlive', hne⟩ | hrest)
    · rw [hsome] at hlive'
      cases hlive'
      exact absurd hsame.symm hne
    · exact Or.inr hrest
  · rw [Watch.sendIfModified, if_neg hsame]
    refine ⟨h.tended, h.deep, htable, w.live.le_send live h.seen, fun _ _ _ _ _ _ => ?_⟩
    exact Or.inl (Or.inr (Or.inl (w.live.send_unseen live h.seen)))

/-- The sweep stops a shard: its rows are to be halted from now on, and it goes
on to the rest. -/
theorem Swept.stop (h : Swept w) {shard : PlacedShard} {rest : List PlacedShard}
    {actors : Lifecycle.World} {k : Nat} (hsweep : w.sweep = .checking (shard :: rest))
    (hstep : Lifecycle.step w.actors (.stop shard.root) = some actors) :
    Swept { w with actors := actors, sweep := .stopping k rest } := by
  have hm := Lifecycle.step_moves hstep
  have hactors := h.moves_quiet hm rfl
  cases hstep
  refine ⟨hactors.tended, hactors.deep, h.table, h.seen, ?_⟩
  intro path entry other hlook hshard howned
  have hleft : ∀ item ∈ [Lifecycle.Work.halt shard.root, .scan shard.root],
      Lifecycle.Pending { w.actors with calls := w.actors.calls ++ [⟨shard.root,
        [.halt shard.root, .scan shard.root], false, none, w.actors.insts.length⟩] } item :=
    fun item hitem => Or.inl ⟨w.actors.calls.length, _, List.getElem?_concat_length, hitem⟩
  by_cases hother : other = shard
  · subst hother
    refine Or.inr ?_
    have hstarts := shardRootOf_eq_some_iff.mp hshard
    by_cases hroot : path = other.root
    · subst hroot
      exact .halted (hleft _ (List.mem_cons_self ..))
    · exact .scanned other.root (hleft _ (List.mem_cons_of_mem _ (List.mem_cons_self ..)))
        (ActorPath.under_iff.mpr ⟨hstarts, hroot⟩)
  · refine (hactors.covered path entry other hlook hshard howned).imp_left ?_
    rw [toSweep_iff, toSweep_iff, hsweep]
    rintro (hlive | hseen | hread | hleft)
    · exact Or.inl hlive
    · exact Or.inr (Or.inl hseen)
    · cases hread
    · exact Or.inr (Or.inr (Or.inr ((List.mem_cons.mp hleft).resolve_left hother)))

end Control

/-! ## Steps and runs -/

theorem swept_step (w : World) (label : Label) (w' : World) (h : Swept w)
    (howned : OwnedStarts w label) (hs : step w label = some w') : Swept w' := by
  cases label with
  | setServing serving =>
      cases hs
      have hactors := h.moves_quiet (a := .setServing serving) .setServing rfl
      exact ⟨hactors.tended, hactors.deep, hactors.table, hactors.seen, hactors.covered⟩
  | setMembers live =>
      simp only [step] at hs
      split at hs
      · cases hs
        exact h.setMembers ‹_› live
      · cases hs
  | announce =>
      simp only [step] at hs
      split at hs
      · cases hs
      · cases hs
        exact h.announce ‹_›
  | checkOwns entity command =>
      simp only [step] at hs
      split at hs
      · cases hs
        exact ⟨h.tended, h.deep, h.table, h.seen, h.covered⟩
      · cases hs
        exact h
  | startShard k =>
      simp only [step] at hs
      split at hs
      · cases hs
      · rename_i entity command hk
        cases hs
        have hstart := h.start command (howned entity (by simp [starts, hk]))
        exact ⟨hstart.tended, hstart.deep, hstart.table, hstart.seen, hstart.covered⟩
  | dispatch entity command =>
      cases hs
      exact h.start command (howned entity rfl)
  | wake =>
      simp only [step] at hs
      split at hs
      · cases hs
        refine h.control rfl rfl ⟨rfl, rfl⟩ (Nat.le_refl _) fun _ _ _ _ _ _ _ => ?_
        exact Or.inr (Or.inr (Or.inl rfl))
      · cases hs
  | read =>
      simp only [step] at hs
      split at hs
      · cases hs
        refine h.control rfl rfl ⟨rfl, rfl⟩ h.seen fun path entry shard hlook hshard _ _ => ?_
        exact Or.inr (Or.inr (Or.inr ⟨_, Or.inl rfl, mem_running hlook hshard⟩))
      · cases hs
  | check =>
      simp only [step] at hs
      split at hs
      · rename_i shard rest hsweep
        split at hs
        · rename_i hmine
          cases hs
          apply h.advance
          · rw [hsweep]
            nofun
          · rw [hsweep]
            intro other hmem hnot
            refine (List.mem_cons.mp hmem).resolve_left ?_
            rintro rfl
            exact hnot hmine
        · obtain ⟨actors, hstop, rfl⟩ := Option.map_eq_some_iff.mp hs
          exact h.stop hsweep hstop
      · cases hs
  | resume =>
      simp only [step] at hs
      split at hs
      · rename_i hsweep
        cases hs
        apply h.advance
        · rw [hsweep]
          nofun
        · rw [hsweep]
          exact nofun
      · rename_i k rest hsweep
        split at hs
        · cases hs
          apply h.advance
          · rw [hsweep]
            nofun
          · rw [hsweep]
            exact fun _ hmem _ => hmem
        · cases hs
      · cases hs
  | actors a =>
      simp only [step] at hs
      split at hs
      · rename_i hadmitted
        obtain ⟨actors, hstep, rfl⟩ := Option.map_eq_some_iff.mp hs
        cases a with
        | createChild i name command => exact h.createChild hstep
        | setServing | create => cases hadmitted
        | started | leave | retire | task | dropActor | dropEnded | closeMailbox | stop | call =>
            exact h.moves_quiet (Lifecycle.step_moves hstep) rfl
      · cases hs

/-- **What a node runs is its own**, once the sweep for the latest change has
completed and nothing is stopping, in every run in which every actor is started
while this node is the owner of its shard. -/
theorem ownsRows_of_ownedStarts (localId : NodeId) (live : List NodeId) (l : List Label)
    (w : World) (hrun : Schedule.run step (World.init localId live) l = some w)
    (howned : Schedule.Along step OwnedStarts (World.init localId live) l)
    (hsettled : Settled w) : OwnsRows w :=
  (Schedule.run_invariant swept_step l (swept_init localId live) howned hrun).ownsRows hsettled

/-- An entity of a shard the live set then moves away, swept to the end. -/
def movedAway : List Label :=
  [.checkOwns ⟨"counter", "7", "a"⟩ 0, .startShard 0, .actors (.started 0),
    .setMembers [⟨2⟩], .announce, .wake, .read, .check, .actors (.call 0 []),
    .actors (.call 0 [⟨["system", "shard", "counter", "7", "a"]⟩]),
    .actors (.call 0 []), .actors (.call 0 []), .actors (.leave 0), .actors (.retire 0),
    .actors (.task 0 []), .actors (.dropActor 0), .actors (.dropEnded 0), .actors (.call 0 []),
    .resume, .resume]

theorem ownsRows_movedAway :
    ∃ w, Schedule.run step (World.init ⟨1⟩ [⟨1⟩]) movedAway = some w ∧
      w.actors.insts.length = 1 ∧ OwnsRows w :=
  ⟨_, rfl, rfl, ownsRows_of_ownedStarts ⟨1⟩ [⟨1⟩] movedAway _ rfl (by decide)
    ⟨rfl, rfl, rfl, by decide, by
      intro inst hinst todo hpc
      cases List.mem_singleton.mp hinst
      cases hpc⟩⟩

/-- The live set moves every shard to another node and is swept; then a command
from a node that still has the old set arrives. -/
def dispatchAfterSweep : List Label :=
  [.setMembers [⟨2⟩], .announce, .wake, .read, .resume, .dispatch ⟨"counter", "7", "a"⟩ 0]

/-- The row it leaves is of the other node's shard. -/
theorem dispatch_after_sweep_leaves_row :
    ¬ ∀ (localId : NodeId) (live : List NodeId) (l : List Label) (w : World),
      Schedule.run step (World.init localId live) l = some w → Settled w → OwnsRows w := by
  intro h
  have howned := h ⟨1⟩ [⟨1⟩] dispatchAfterSweep _ rfl
    ⟨rfl, rfl, rfl, by decide, by
      intro inst hinst todo hpc
      cases List.mem_singleton.mp hinst
      cases hpc⟩
    ⟨["system", "shard", "counter", "7", "a"]⟩ ⟨0, 0⟩ ⟨"counter", "7"⟩ rfl rfl
  exact absurd howned (by decide)

end HorsieActor.Ports.Sweep
