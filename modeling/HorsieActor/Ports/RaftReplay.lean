import HorsieActor.Ports.RaftStore

/-!
# Replay and snapshot give one placement

A node learns the applied state by applying the log entry by entry, or by
installing a snapshot another node built and applying what follows it.  The
replicated state machine as such is `Applied` with `Applied.apply`; a store's
entries, vote and purge mark are no part of it.  Applying an entry refines
`Applied.apply` (`taken_applyEntry`), building a snapshot records the state and
installing it replaces whatever was there, so the two routes meet
(`replay_agrees_with_snapshot`).

The programs run alone here, each store on its own disk, and the disks work: every
call succeeds, whatever the directories are.
-/

namespace HorsieActor.Ports.Raft

open HorsieActor.Verified

/-! ## The replicated state machine -/

namespace Applied

/-- Before the first entry. -/
def initial : Applied := Persisted.default.taken

def apply (a : Applied) (entry : Entry) : Applied :=
  match entry.payload with
  | .membership m => { a with applied := some entry.logId, membership := ⟨some entry.logId, m⟩ }
  | .normal live => { a with applied := some entry.logId, live := live }
  | .blank => { a with applied := some entry.logId }

end Applied

theorem taken_applyEntry (s : Persisted) (entry : Entry) :
    (s.applyEntry entry).taken = s.taken.apply entry := by
  obtain ⟨logId, payload⟩ := entry
  cases payload with
  | blank => rfl
  | normal live => rfl
  | membership m => rfl

theorem taken_foldl_applyEntry (entries : List Entry) : ∀ s : Persisted,
    (entries.foldl (fun s e => s.applyEntry e) s).taken = entries.foldl Applied.apply s.taken := by
  induction entries with
  | nil => intro s; rfl
  | cons e rest ih =>
      intro s
      rw [List.foldl_cons, ih, taken_applyEntry, List.foldl_cons]

theorem usable_eq_of_taken_eq {s s' : Persisted} (h : s.taken = s'.taken) :
    s.usable = s'.usable := by
  have hmembership : s.membership = s'.membership := congrArg Applied.membership h
  have hlive : s.live = s'.live := congrArg Applied.live h
  unfold Persisted.usable Persisted.liveAndVoters
  rw [hmembership, hlive]

/-! ## Programs that run alone on a disk that works -/

section Alone

variable (serde : Serde) (path : PathBuf) (dirs : Directories) (sizes : FileSystem Place → Nat)

/-- Run a program of one store to its end. -/
def alone {α : Type} (program : OverFiles α) (s : Persisted) (fs : FileSystem Place) :
    Persisted × α × FileSystem Place :=
  (program s).drive (working (PathBuf.place dirs) sizes) fs

theorem alone_bind {α β : Type} {m : OverFiles α} {s s' : Persisted} {fs fs' : FileSystem Place}
    {a : α} (f : α → OverFiles β) (h : alone dirs sizes m s fs = (s', a, fs')) :
    alone dirs sizes (m >>= f) s fs = alone dirs sizes (f a) s' fs' := by
  unfold alone at h ⊢
  rw [Async.bind_apply, Task.drive_bind, h]

theorem alone_flush (s : Persisted) (fs : FileSystem Place) :
    ∃ fs', alone dirs sizes (flush serde path) s fs = (s, .ok (), fs') := by
  unfold alone
  cases hempty : path.isEmpty with
  | true => exact ⟨fs, by rw [flush_of_isEmpty serde path hempty]; rfl⟩
  | false =>
      rw [flush_of_not_isEmpty serde path hempty]
      let created := fs.create (path.sibling.place dirs)
      obtain ⟨fs', hwrite, hslot⟩ := drive_writeAll sizes created.1 s
        (serde.state.encode s).length [] (serde.state.encode s) created.2 (le_refl _)
        (FileSystem.slot_create fs (path.sibling.place dirs))
      -- what is left of `flush` syncs and renames the file the bytes are in
      have hsynced : (fs'.sync created.1).slot (path.sibling.place dirs) = _ :=
        FileSystem.slot_modify hslot
      refine ⟨(fs'.sync created.1).move (path.sibling.place dirs) (path.place dirs), ?_⟩
      refine (alone_bind dirs sizes (afterWrite path created.1) hwrite).trans ?_
      show (s, working (PathBuf.place dirs) sizes (.rename path.sibling path)
        (fs'.sync created.1)) = _
      rw [working, perform_rename hsynced]
      rfl

/-- A closure runs, and what it leaves is what is kept. -/
theorem alone_update (f : Persisted → Persisted) (s : Persisted) (fs : FileSystem Place) :
    ∃ fs', alone dirs sizes (update serde path f) s fs = (f s, .ok (), fs') :=
  alone_flush serde path dirs sizes (f s) fs

theorem alone_apply (entries : List Entry) : ∀ (s : Persisted) (fs : FileSystem Place),
    ∃ fs', alone dirs sizes (apply serde path (entries.map .ok)) s fs =
      (entries.foldl (fun s e => s.applyEntry e) s, .ok (), fs') := by
  induction entries with
  | nil => intro s fs; exact ⟨fs, rfl⟩
  | cons e rest ih =>
      intro s fs
      obtain ⟨fs', hupdate⟩ := alone_update serde path dirs sizes (Persisted.applyEntry e) s fs
      obtain ⟨fs'', hrest⟩ := ih (s.applyEntry e) fs'
      exact ⟨fs'', (alone_bind dirs sizes _ hupdate).trans hrest⟩

theorem alone_buildSnapshot (s : Persisted) (fs : FileSystem Place) :
    ∃ s' fs', alone dirs sizes (buildSnapshot serde path) s fs =
      (s', .ok (snapshotOf serde s.taken), fs') := by
  obtain ⟨fs', hupdate⟩ :=
    alone_update serde path dirs sizes (Persisted.storeSnapshot (snapshotOf serde s.taken)) s fs
  exact ⟨_, fs', alone_bind dirs sizes _ hupdate⟩

theorem alone_installSnapshot (a : Applied) (s : Persisted) (fs : FileSystem Place) :
    ∃ s' fs', alone dirs sizes (installSnapshot serde path (snapshotOf serde a)) s fs =
      (s', .ok (), fs') ∧ s'.taken = a := by
  obtain ⟨fs', hupdate⟩ :=
    alone_update serde path dirs sizes (Persisted.install (snapshotOf serde a) a) s fs
  have hdecode : serde.snapshot.decode (snapshotOf serde a).snapshot = some a :=
    serde.snapshot.decode_encode a
  refine ⟨s.install (snapshotOf serde a) a, fs', ?_, rfl⟩
  rw [← hupdate, installSnapshot, hdecode]

end Alone

/-! ## The result -/

/-- **Replay and snapshot agree.**  One store applies the whole log.  Another
applies its first `k` entries and builds a snapshot; a third, whatever state it
is in, installs that and applies the rest.  Everything succeeds, the first and
the third end in the same applied state, and nodes reading the one and the other
place every shard alike. -/
theorem replay_agrees_with_snapshot (serde : Serde) (dirs : Directories)
    (sizes : FileSystem Place → Nat) (entries : List Entry) (k : Nat)
    (path₁ path₂ path₃ : PathBuf) (fs₁ fs₂ fs₃ : FileSystem Place)
    (s₁ s₂ earlier : Persisted)
    (h₁ : s₁.taken = Applied.initial) (h₂ : s₂.taken = Applied.initial) :
    ∃ full built stored installed joined : Persisted, ∃ snapshot : Snapshot,
      ∃ fs₁' fs₂' fs₂'' fs₃' fs₃'' : FileSystem Place,
        alone dirs sizes (apply serde path₁ (entries.map .ok)) s₁ fs₁ = (full, .ok (), fs₁') ∧
        alone dirs sizes (apply serde path₂ ((entries.take k).map .ok)) s₂ fs₂ =
          (built, .ok (), fs₂') ∧
        alone dirs sizes (buildSnapshot serde path₂) built fs₂' = (stored, .ok snapshot, fs₂'') ∧
        alone dirs sizes (installSnapshot serde path₃ snapshot) earlier fs₃ =
          (installed, .ok (), fs₃') ∧
        alone dirs sizes (apply serde path₃ ((entries.drop k).map .ok)) installed fs₃' =
          (joined, .ok (), fs₃'') ∧
        joined.applied = full.applied ∧ joined.membership = full.membership ∧
        joined.live = full.live ∧ joined.usable = full.usable ∧
        ∀ (a b : ClusterNode) (typeName shardId : String),
          (a.setLive joined.usable).ownerOf typeName shardId =
            (b.setLive full.usable).ownerOf typeName shardId := by
  obtain ⟨fs₁', hfull⟩ := alone_apply serde path₁ dirs sizes entries s₁ fs₁
  obtain ⟨fs₂', hbuilt⟩ := alone_apply serde path₂ dirs sizes (entries.take k) s₂ fs₂
  obtain ⟨stored, fs₂'', hstored⟩ := alone_buildSnapshot serde path₂ dirs sizes
    ((entries.take k).foldl (fun s e => s.applyEntry e) s₂) fs₂'
  obtain ⟨installed, fs₃', hinstalled, htaken⟩ := alone_installSnapshot serde path₃ dirs sizes
    ((entries.take k).foldl (fun s e => s.applyEntry e) s₂).taken earlier fs₃
  obtain ⟨fs₃'', hjoined⟩ := alone_apply serde path₃ dirs sizes (entries.drop k) installed fs₃'
  -- both routes fold the same entries over the same applied state
  have hagree : ((entries.drop k).foldl (fun s e => s.applyEntry e) installed).taken =
      (entries.foldl (fun s e => s.applyEntry e) s₁).taken := by
    rw [taken_foldl_applyEntry, taken_foldl_applyEntry, htaken, taken_foldl_applyEntry, h₁, h₂,
      ← List.foldl_append, List.take_append_drop]
  have husable := usable_eq_of_taken_eq hagree
  refine ⟨_, _, stored, installed, _, _, fs₁', fs₂', fs₂'', fs₃', fs₃'', hfull, hbuilt, hstored,
    hinstalled, hjoined, congrArg Applied.applied hagree, congrArg Applied.membership hagree,
    congrArg Applied.live hagree, husable, fun a b typeName shardId => ?_⟩
  rw [husable]
  rfl

/-- Three voters, of which the leader then loses one. -/
def loseOne : List Entry :=
  let voters := OrdMap.ofKeys [⟨1⟩, ⟨2⟩, ⟨3⟩]
  [⟨⟨⟨1, ⟨1⟩⟩, ⟨0⟩⟩, .membership ⟨[voters], OrdMap.empty⟩⟩,
    ⟨⟨⟨1, ⟨1⟩⟩, ⟨1⟩⟩, .blank⟩,
    ⟨⟨⟨1, ⟨1⟩⟩, ⟨2⟩⟩, .normal ⟨OrdMap.ofKeys [⟨1⟩, ⟨3⟩]⟩⟩]

theorem replay_agrees_with_snapshot_loseOne :
    ∃ full joined installed : Persisted, ∃ fs fs' fs'' : FileSystem Place,
      alone .rootOnly (fun _ => 0) (apply Serde.ofCountable ⟨true, ["a".toList]⟩ (loseOne.map .ok))
        .default .empty = (full, .ok (), fs) ∧
      alone .rootOnly (fun _ => 0) (apply Serde.ofCountable ⟨true, ["c".toList]⟩
        ((loseOne.drop 2).map .ok)) installed fs' = (joined, .ok (), fs'') ∧
      joined.live = full.live ∧ joined.usable = full.usable := by
  obtain ⟨full, _, _, installed, joined, _, fs, _, _, fs', fs'', hfull, _, _, _, hjoined, _, _,
      hlive, husable, _⟩ :=
    replay_agrees_with_snapshot Serde.ofCountable .rootOnly (fun _ => 0) loseOne 2
      ⟨true, ["a".toList]⟩ ⟨true, ["b".toList]⟩ ⟨true, ["c".toList]⟩ .empty .empty .empty
      .default .default .default rfl rfl
  exact ⟨full, joined, installed, fs, fs', fs'', hfull, hjoined, hlive, husable⟩

end HorsieActor.Ports.Raft
