import HorsieActor.Ports.RaftStore
import HorsieActor.Verified.Schedule
import HorsieActor.Verified.Slots

/-!
# Raft stores sharing a disk

Any number of stores of `src/cluster/store.rs` in one file system.  A store takes
its lock and edits its state in one step, then makes the system calls of `flush`
one by one, each of which the schedule may let fail, and gives the lock back when
`update` returns.  Between any two calls of one store the others may make theirs.

The sibling a store writes is computed from its path by replacing the extension,
so two stores may have one sibling, a store's sibling may be a store's own file,
and the empty path has no file at all.  Nor need paths that are spelled
differently lead to different places, and a file of one store may stand where the
path of another goes on.  `Separate` says that none of this is so, and then a
crash at any point leaves every store the state of its last completed update or
of the one in progress (`reopens_of_separate`).  Otherwise it need not
(`shared_sibling_mixes_stores`).

A rename is the last thing `flush` does, and it is taken to survive a crash once
it has been made, although nobody syncs the directory.

## Layout

* `separate_of_plain` — plain paths in directories that exist are separate when no
  sibling is a path or another's sibling.
* `safe_flush` — what a flush does to the files while the others do theirs.
* `OwnNames.forall_set` — a store moves and the others need not care.
* `AllKept`, `allKept_step`, `allKept_run` — every store's file is what it should be.
-/

namespace HorsieActor.Ports.Raft

open HorsieActor.Verified
open HorsieActor.Verified.Schedule

/-! ## The machine -/

/-- An `update` that holds the lock. -/
structure Update where
  op : Op
  /-- The state when it took the lock. -/
  before : Persisted
  /-- One of its calls has failed. -/
  failed : Bool
  task : Verified.Task Persisted (FileCall PathBuf) FileCall.Resp (Except IoError Unit)

structure Store where
  path : PathBuf
  inner : Persisted
  /-- The state after the last update that returned `Ok`. -/
  completed : Persisted
  update : Option Update

/-- The place that decides what is read under a path. -/
def PathBuf.gate (dirs : Directories) (path : PathBuf) : Place := dirs.gate path.route

/-- It goes on from something that is no directory. -/
def PathBuf.blocked (dirs : Directories) (path : PathBuf) : Bool := (dirs.block path.route).isSome

structure World where
  dirs : Directories
  fs : FileSystem Place
  stores : List Store

inductive Label where
  /-- Take the lock, and run as far as the first system call. -/
  | start (i : Nat) (op : Op)
  /-- The next system call. -/
  | io (i : Nat) (outcome : Outcome)
  /-- Return, and give the lock back. -/
  | returns (i : Nat)
  deriving DecidableEq

def World.paths (w : World) : List PathBuf := w.stores.map Store.path

def World.setStore (w : World) (i : Nat) (store : Store) : World :=
  { w with stores := w.stores.set i store }

def step (serde : Serde) (w : World) : Label → Option World
  | .start i op =>
      match w.stores[i]? with
      | some ⟨path, inner, completed, none⟩ =>
          some (w.setStore i ⟨path, (op.edit serde).getD id inner, completed,
            some ⟨op, inner, false, op.program serde path inner⟩⟩)
      | _ => none
  | .io i outcome =>
      match w.stores[i]? with
      | some ⟨path, inner, completed, some ⟨op, before, failed, .await _ c k⟩⟩ =>
          if outcome.isFailure || w.dirs.admits PathBuf.route c then
            let (r, fs) := perform (PathBuf.place w.dirs) c outcome w.fs
            some { w with
              fs := fs
              stores := w.stores.set i ⟨path, inner, completed,
                some ⟨op, before, failed || outcome.isFailure, k r⟩⟩ }
          else none
      | _ => none
  | .returns i =>
      match w.stores[i]? with
      | some ⟨path, _, completed, some ⟨_, _, _, .done s r⟩⟩ =>
          some (w.setStore i ⟨path, s,
            match r with
            | .ok () => s
            | .error _ => completed, none⟩)
      | _ => none

/-- What reading a path gives. -/
def World.read (w : World) (path : PathBuf) : Except IoError Octets :=
  w.dirs.read w.fs.read path.route

/-- Every store has just been opened, on a disk as a boot finds it. -/
structure Opened (serde : Serde) (w : World) : Prop where
  settled : w.fs.Settled
  distinct : w.paths.Nodup
  opened : ∀ store ∈ w.stores, openStore serde (w.read store.path) = .ok store.inner ∧
    store.completed = store.inner ∧ store.update = none

/-- No store's sibling is another's, or a store's own file, or in the way to one; and no
store's file is another's, or in the way to it. -/
def Separate (dirs : Directories) (paths : List PathBuf) : Prop :=
  (∀ p ∈ paths, p.isEmpty = false) ∧
    (∀ p ∈ paths, ∀ q ∈ paths, p.sibling.place dirs ≠ q.gate dirs) ∧
    (paths.map fun p => p.sibling.place dirs).Nodup ∧
    paths.Pairwise fun p q =>
      p.gate dirs = q.gate dirs → p.blocked dirs = true ∧ q.blocked dirs = true

instance (dirs : Directories) (paths : List PathBuf) : Decidable (Separate dirs paths) :=
  inferInstanceAs (Decidable (_ ∧ _ ∧ _ ∧ _))

-- one file spelled in two ways, and a file in the way of another
example : ¬ Separate .rootOnly [⟨true, ["a".toList]⟩, ⟨true, [".".toList, "a".toList]⟩] := by
  decide

example : ¬ Separate .rootOnly [⟨true, ["a".toList]⟩, ⟨true, ["a".toList, "b".toList]⟩] := by
  decide

/-- Reopening after a crash that left `after` gives the state of the last
completed update, or of the one in progress. -/
def Reopens (serde : Serde) (dirs : Directories) (after : Place → Option Octets) (store : Store) :
    Prop :=
  openStore serde (dirs.read after store.path.route) = .ok store.completed ∨
    (store.update.isSome = true ∧
      openStore serde (dirs.read after store.path.route) = .ok store.inner)

/-! ## Paths -/

section Paths

variable {dirs : Directories} {path : PathBuf}

theorem PathBuf.isEmpty_route : path.route.isEmpty = path.isEmpty := by
  simp [route, Route.isEmpty, isEmpty]

theorem PathBuf.blocked_eq_false_iff :
    path.blocked dirs = false ↔ dirs.block path.route = none := by
  simp [blocked]

theorem PathBuf.gate_of_unblocked (h : path.blocked dirs = false) :
    path.gate dirs = path.place dirs :=
  Folders.gate_of_unblocked (blocked_eq_false_iff.mp h)

/-- From the root, by names, into a directory that exists. -/
structure PathBuf.Plain (dirs : Directories) (path : PathBuf) : Prop where
  absolute : path.absolute = true
  nonempty : path.components ≠ []
  names : ∀ c ∈ path.components, segment c = .name c
  folder : dirs.isFolder path.components.dropLast = true

instance : Decidable (path.Plain dirs) :=
  decidable_of_iff (path.absolute = true ∧ path.components ≠ [] ∧
      (∀ c ∈ path.components, PathBuf.segment c = .name c) ∧
      dirs.isFolder path.components.dropLast = true)
    ⟨fun ⟨absolute, nonempty, names, folder⟩ => ⟨absolute, nonempty, names, folder⟩,
      fun h => ⟨h.absolute, h.nonempty, h.names, h.folder⟩⟩

theorem PathBuf.Plain.segments (h : path.Plain dirs) :
    path.route.segments = path.components.map Segment.name :=
  List.map_congr_left h.names

theorem PathBuf.Plain.place_eq (h : path.Plain dirs) : path.place dirs = path.components := by
  have hstart : dirs.start path.route = [] := if_pos h.absolute
  rw [place, Folders.locate, hstart, h.segments]
  exact Folders.foldl_enter_name path.components []

theorem PathBuf.Plain.not_blocked (h : path.Plain dirs) : path.blocked dirs = false := by
  have hstart : dirs.start path.route = [] := if_pos h.absolute
  rw [blocked_eq_false_iff, Folders.block, hstart, h.segments,
    ← List.dropLast_append_getLast h.nonempty]
  exact Folders.blockFrom_name _ _ h.folder

theorem PathBuf.Plain.eq_of_place {other : PathBuf} (h : path.Plain dirs)
    (h' : other.Plain dirs) (heq : path.place dirs = other.place dirs) : path = other := by
  rw [h.place_eq, h'.place_eq] at heq
  have habsolute := h.absolute.trans h'.absolute.symm
  cases path
  cases other
  simp_all

/-- **Plain paths are separate** when no sibling is a path or another's sibling. -/
theorem separate_of_plain {paths : List PathBuf} (hdistinct : paths.Nodup)
    (hplain : ∀ p ∈ paths, p.Plain dirs ∧ p.sibling.Plain dirs)
    (hsibling : ∀ p ∈ paths, ∀ q ∈ paths, p.sibling ≠ q)
    (hsiblings : (paths.map PathBuf.sibling).Nodup) : Separate dirs paths := by
  have hgate : ∀ p ∈ paths, p.gate dirs = p.place dirs := fun p hp =>
    PathBuf.gate_of_unblocked (hplain p hp).1.not_blocked
  refine ⟨fun p hp => ?_, fun p hp q hq heq => ?_, ?_, ?_⟩
  · simp [PathBuf.isEmpty, (hplain p hp).1.absolute]
  · rw [hgate q hq] at heq
    exact hsibling p hp q hq ((hplain p hp).2.eq_of_place (hplain q hq).1 heq)
  · refine List.Nodup.map_on (fun p hp q hq heq => ?_) hdistinct
    exact List.inj_on_of_nodup_map hsiblings hp hq
      ((hplain p hp).2.eq_of_place (hplain q hq).2 heq)
  · refine hdistinct.imp_of_mem fun {p q} hp hq hne heq => absurd ?_ hne
    rw [hgate p hp, hgate q hq] at heq
    exact (hplain p hp).1.eq_of_place (hplain q hq).1 heq

end Paths

/-! ## One flush -/

/-- What is read under `path` is `s`, and all of it has reached the disk. -/
structure Durable (serde : Serde) (dirs : Directories) (path : PathBuf) (s : Persisted)
    (fs : FileSystem Place) : Prop where
  place : path.blocked dirs = false → dirs.isFolder (path.place dirs) = false
  file : match fs.slot (path.gate dirs) with
    | none => s = .default
    | some (_, file) => path.blocked dirs = false ∧ file.synced = true ∧
        serde.state.decode file.bytes = some s

/-- The places a store writes: its sibling's, and its own if nothing is in the way. -/
def Writes (dirs : Directories) (path : PathBuf) (q : Place) : Prop :=
  q = path.sibling.place dirs ∨ path.blocked dirs = false ∧ q = path.place dirs

/-- Calls go as the directories let them. -/
def Admitted (dirs : Directories) (A : FileCall PathBuf → Outcome → Prop) : Prop :=
  ∀ c outcome, A c outcome → outcome.isFailure = false → dirs.admits PathBuf.route c = true

section Flush

variable {serde : Serde} {dirs : Directories} {path : PathBuf} {old new : Persisted}
  {fs fs' : FileSystem Place}

theorem Durable.of_slot_eq (h : fs'.slot (path.gate dirs) = fs.slot (path.gate dirs))
    (hfs : Durable serde dirs path old fs) : Durable serde dirs path old fs' := by
  refine ⟨hfs.place, ?_⟩
  rw [h]
  exact hfs.file

/-- What an update returns with: the new state in the file or, after a failure,
the old one. -/
def Flushed (serde : Serde) (dirs : Directories) (path : PathBuf)
    (A : FileCall PathBuf → Outcome → Prop) (old new : Persisted) (fs : FileSystem Place)
    (s : Persisted) (r : Except IoError Unit) : Prop :=
  s = new ∧
    match r with
    | .ok () => Durable serde dirs path new fs
    | .error _ => Durable serde dirs path old fs ∧
        ∃ c outcome, A c outcome ∧ outcome.isFailure = true

abbrev flushContract (serde : Serde) (dirs : Directories) (path : PathBuf)
    (A : FileCall PathBuf → Outcome → Prop) (old : Persisted) :
    Contract Persisted (FileCall PathBuf) FileCall.Resp (FileSystem Place) :=
  ownNames (PathBuf.place dirs) A (path.sibling.place dirs) (path.gate dirs) (Writes dirs path)
    (Durable serde dirs path old)

variable {A : FileCall PathBuf → Outcome → Prop}

/-- After a failure there is nothing to do: the file is the old one. -/
theorem safe_error (hold : Durable serde dirs path old fs) (e : IoError)
    (hfailed : ∃ c outcome, A c outcome ∧ outcome.isFailure = true) :
    Safe (flushContract serde dirs path A old) (Flushed serde dirs path A old new) fs
      (.done new (.error e)) :=
  fun _ hrely => ⟨rfl, hold.of_slot_eq hrely.2, hfailed⟩

/-- Once the sibling is synced, renaming it is all there is to do. -/
theorem safe_afterSync (hA : Admitted dirs A) (i : Nat)
    (hslot : fs.slot (path.sibling.place dirs) = some (i, ⟨serde.state.encode new, true⟩))
    (hold : Durable serde dirs path old fs) :
    Safe (flushContract serde dirs path A old) (Flushed serde dirs path A old new) fs
      (afterSync path (.ok ()) new) := by
  intro fs₁ hrely
  have hold₁ := hold.of_slot_eq hrely.2
  have hslot₁ := hrely.1.trans hslot
  refine ⟨hold₁, fun _ r fs₂ hexec => ?_⟩
  obtain ⟨outcome, hallowed, hexec⟩ := hexec
  cases outcome with
  | succeeds n =>
      have hadmits := hA _ _ hallowed rfl
      simp only [Folders.admits, Bool.and_eq_true, Option.isNone_iff_eq_none] at hadmits
      have hunblocked : path.blocked dirs = false :=
        PathBuf.blocked_eq_false_iff.mpr hadmits.1.2
      rw [perform_rename hslot₁] at hexec
      cases hexec
      refine ⟨fun q hq => FileSystem.slot_move_of_ne (fun heq => hq (Or.inl heq))
        fun heq => hq (Or.inr ⟨hunblocked, heq⟩), fun fs₃ hrely₃ => ⟨rfl, hold.place, ?_⟩⟩
      have hmoved : fs₃.slot (path.gate dirs) = some (i, ⟨serde.state.encode new, true⟩) := by
        rw [hrely₃.2, PathBuf.gate_of_unblocked hunblocked, FileSystem.slot_move, hslot₁]
      rw [hmoved]
      exact ⟨hunblocked, rfl, serde.state.decode_encode new⟩
  | fails error n =>
      cases hexec
      exact ⟨fun _ _ => rfl, safe_error hold₁ error ⟨_, _, hallowed, rfl⟩⟩

theorem safe_afterWrite (hA : Admitted dirs A) (hsep : path.gate dirs ≠ path.sibling.place dirs)
    (i : Nat)
    (hslot : fs.slot (path.sibling.place dirs) = some (i, ⟨serde.state.encode new, false⟩))
    (hold : Durable serde dirs path old fs) :
    Safe (flushContract serde dirs path A old) (Flushed serde dirs path A old new) fs
      (afterWrite path i (.ok ()) new) := by
  intro fs₁ hrely
  have hold₁ := hold.of_slot_eq hrely.2
  have hslot₁ := hrely.1.trans hslot
  refine ⟨hold₁, fun _ r fs₂ hexec => ?_⟩
  obtain ⟨outcome, hallowed, hexec⟩ := hexec
  cases outcome with
  | succeeds n =>
      cases hexec
      have hother : ∀ q, q ≠ path.sibling.place dirs → (fs₁.sync i).slot q = fs₁.slot q :=
        fun q hq => FileSystem.slot_modify_of_ne hslot₁ hq
      exact ⟨fun q hq => hother q fun heq => hq (Or.inl heq),
        safe_afterSync hA i (FileSystem.slot_modify hslot₁) (hold₁.of_slot_eq (hother _ hsep))⟩
  | fails error n =>
      cases hexec
      exact ⟨fun _ _ => rfl, safe_error hold₁ error ⟨_, _, hallowed, rfl⟩⟩

/-- **One flush**: whatever the others do to the other places, the file holds the
old state until the flush returns, and the new one after it returns `Ok`. -/
theorem safe_flush (hA : Admitted dirs A) (hempty : path.isEmpty = false)
    (hsep : path.gate dirs ≠ path.sibling.place dirs) (hold : Durable serde dirs path old fs) :
    Safe (flushContract serde dirs path A old) (Flushed serde dirs path A old new) fs
      (flush serde path new) := by
  rw [flush_of_not_isEmpty serde path hempty]
  intro fs₁ hrely
  have hold₁ := hold.of_slot_eq hrely.2
  refine ⟨hold₁, fun _ r fs₂ hexec => ?_⟩
  obtain ⟨outcome, hallowed, hexec⟩ := hexec
  cases outcome with
  | succeeds n =>
      cases hexec
      have hother : ∀ q, q ≠ path.sibling.place dirs →
          (fs₁.create (path.sibling.place dirs)).2.slot q = fs₁.slot q :=
        fun q hq => FileSystem.slot_create_of_ne fs₁ hq
      refine ⟨fun q hq => hother q fun heq => hq (Or.inl heq), ?_⟩
      have hkeep : ∀ fs fs' : FileSystem Place,
          fs'.slot (path.gate dirs) = fs.slot (path.gate dirs) →
          Durable serde dirs path old fs → Durable serde dirs path old fs' :=
        fun _ _ hslot hfs => hfs.of_slot_eq hslot
      refine safe_bind (ownNames_lawful _ A _ _ _ _) ?_ _ _ (safe_writeAll hsep (Or.inl rfl) hkeep
        (fs₁.create (path.sibling.place dirs)).1 new (serde.state.encode new).length []
        (serde.state.encode new) (fs₁.create (path.sibling.place dirs)).2 (le_refl _)
        (FileSystem.slot_create fs₁ _) (hold₁.of_slot_eq (hother _ hsep)))
      rintro fs₃ s wrote ⟨rfl, hold₃, hwrote⟩
      cases wrote with
      | ok u => exact safe_afterWrite hA hsep _ hwrote hold₃
      | error e => exact safe_error hold₃ e hwrote
  | fails error n =>
      cases hexec
      exact ⟨fun _ _ => rfl, safe_error hold₁ error ⟨_, _, hallowed, rfl⟩⟩

end Flush

/-! ## All stores -/

/-- Calls may go either way, if the directories let them. -/
abbrev anyOutcome (dirs : Directories) : FileCall PathBuf → Outcome → Prop := fun c outcome =>
  (outcome.isFailure || dirs.admits PathBuf.route c) = true

theorem admitted_anyOutcome (dirs : Directories) : Admitted dirs (anyOutcome dirs) := by
  intro c outcome hany hsuccess
  rwa [anyOutcome, hsuccess, Bool.false_or] at hany

/-- A store's file holds its last completed state, or is on the way to the next. -/
def Kept (serde : Serde) (dirs : Directories) (fs : FileSystem Place) (store : Store) : Prop :=
  match store.update with
  | none => Durable serde dirs store.path store.completed fs
  | some u =>
      Safe (flushContract serde dirs store.path (anyOutcome dirs) store.completed)
        (Flushed serde dirs store.path (anyOutcome dirs) store.completed store.inner) fs u.task

section Kept

variable {serde : Serde} {dirs : Directories} {fs fs' : FileSystem Place} {store : Store}

theorem Kept.durable (h : Kept serde dirs fs store) (hupdate : store.update = none) :
    Durable serde dirs store.path store.completed fs := by
  unfold Kept at h
  rw [hupdate] at h
  exact h

theorem Kept.safe {u : Update} (h : Kept serde dirs fs store) (hupdate : store.update = some u) :
    Safe (flushContract serde dirs store.path (anyOutcome dirs) store.completed)
      (Flushed serde dirs store.path (anyOutcome dirs) store.completed store.inner) fs u.task := by
  unfold Kept at h
  rw [hupdate] at h
  exact h

/-- An operation before its first call. -/
theorem safe_program {path : PathBuf} {old s : Persisted} (op : Op)
    (hempty : path.isEmpty = false) (hsep : path.gate dirs ≠ path.sibling.place dirs)
    (hold : Durable serde dirs path old fs) :
    Safe (flushContract serde dirs path (anyOutcome dirs) old)
      (Flushed serde dirs path (anyOutcome dirs) old ((op.edit serde).getD id s)) fs
      (op.program serde path s) := by
  rw [Op.program_eq]
  cases op.edit serde with
  | none => exact safe_error hold .invalidData ⟨.sync 0, .fails .invalidData 0, rfl, rfl⟩
  | some f => exact safe_flush (admitted_anyOutcome dirs) hempty hsep hold

/-- A step that touches neither of a store's places keeps its file. -/
theorem Kept.frame (h : Kept serde dirs fs store)
    (hsibling : fs'.slot (store.path.sibling.place dirs) = fs.slot (store.path.sibling.place dirs))
    (hpath : fs'.slot (store.path.gate dirs) = fs.slot (store.path.gate dirs)) :
    Kept serde dirs fs' store := by
  unfold Kept
  cases hu : store.update with
  | none => exact (h.durable hu).of_slot_eq hpath
  | some u => exact safe_rely (ownNames_lawful _ _ _ _ _ _) (h.safe hu) ⟨hsibling, hpath⟩

end Kept

/-- The stores' places are their own. -/
structure OwnNames (w : World) : Prop where
  separate : Separate w.dirs w.paths

namespace OwnNames

variable {w : World} {i : Nat} {store store' : Store} {fs : FileSystem Place}

theorem path_mem (hi : w.stores[i]? = some store) : store.path ∈ w.paths :=
  List.mem_map_of_mem (List.mem_of_getElem? hi)

theorem isEmpty (h : OwnNames w) (hi : w.stores[i]? = some store) : store.path.isEmpty = false :=
  h.separate.1 _ (path_mem hi)

theorem gate_ne_sibling (h : OwnNames w) (hi : w.stores[i]? = some store) :
    store.path.gate w.dirs ≠ store.path.sibling.place w.dirs :=
  (h.separate.2.1 _ (path_mem hi) _ (path_mem hi)).symm

/-- What one store writes no other store depends on. -/
theorem not_writes (h : OwnNames w) (hi : w.stores[i]? = some store) {j : Nat} {other : Store}
    (hj : w.stores[j]? = some other) (hij : j ≠ i) :
    ¬ Writes w.dirs store.path (other.path.sibling.place w.dirs) ∧
      ¬ Writes w.dirs store.path (other.path.gate w.dirs) := by
  obtain ⟨-, hclear, hsiblings, hpaths⟩ := h.separate
  have hpi : w.paths[i]? = some store.path := by simp [World.paths, hi]
  have hpj : w.paths[j]? = some other.path := by simp [World.paths, hj]
  refine ⟨?_, ?_⟩
  · rintro (heq | ⟨hunblocked, heq⟩)
    · exact Slots.pairwise_getElem? (fun _ _ => Ne.symm) (List.pairwise_map.mp hsiblings) hpj hpi
        hij heq
    · rw [← PathBuf.gate_of_unblocked hunblocked] at heq
      exact hclear _ (path_mem hj) _ (path_mem hi) heq
  · rintro (heq | ⟨hunblocked, heq⟩)
    · exact hclear _ (path_mem hi) _ (path_mem hj) heq.symm
    · rw [← PathBuf.gate_of_unblocked hunblocked] at heq
      have happart := Slots.pairwise_getElem? (fun _ _ hR heq => (hR heq.symm).symm) hpaths hpj hpi
        hij heq
      rw [hunblocked] at happart
      exact Bool.noConfusion happart.2

/-- A step keeps every store's path. -/
theorem set (h : OwnNames w) (hi : w.stores[i]? = some store) (hpath : store'.path = store.path) :
    OwnNames ⟨w.dirs, fs, w.stores.set i store'⟩ := by
  have hpaths : World.paths ⟨w.dirs, fs, w.stores.set i store'⟩ = w.paths := by
    show (w.stores.set i store').map Store.path = w.stores.map Store.path
    obtain ⟨hlt, rfl⟩ := List.getElem?_eq_some_iff.mp hi
    have hlt' : i < (w.stores.map Store.path).length := by rw [List.length_map]; exact hlt
    rw [List.map_set, hpath, ← List.getElem_map Store.path (h := hlt'), List.set_getElem_self]
  exact ⟨hpaths ▸ h.separate⟩

/-- A property of each store and its own places holds of all stores again once
one of them has moved, if it holds of that one. -/
theorem forall_set (h : OwnNames w) {R : FileSystem Place → Store → Prop}
    (hframe : ∀ {fs fs' : FileSystem Place} {store : Store}, R fs store →
      fs'.slot (store.path.sibling.place w.dirs) = fs.slot (store.path.sibling.place w.dirs) →
      fs'.slot (store.path.gate w.dirs) = fs.slot (store.path.gate w.dirs) → R fs' store)
    (hR : ∀ (j : Nat) (other : Store), w.stores[j]? = some other → R w.fs other)
    (hi : w.stores[i]? = some store) (hstore' : R fs store')
    (hown : ∀ q, ¬ Writes w.dirs store.path q → fs.slot q = w.fs.slot q) :
    ∀ (j : Nat) (other : Store), (w.stores.set i store')[j]? = some other → R fs other := by
  intro j other hj
  rcases (Slots.getElem?_set_iff hi).mp hj with ⟨-, rfl⟩ | ⟨hij, hj⟩
  · exact hstore'
  · obtain ⟨hsibling, hgate⟩ := h.not_writes hi hj hij
    exact hframe (hR j other hj) (hown _ hsibling) (hown _ hgate)

end OwnNames

/-- Each store's file is as it should be, and nobody else's. -/
structure AllKept (serde : Serde) (w : World) : Prop extends OwnNames w where
  kept : ∀ (i : Nat) (store : Store), w.stores[i]? = some store → Kept serde w.dirs w.fs store

theorem AllKept.set {serde : Serde} {w : World} {i : Nat} {store store' : Store}
    {fs : FileSystem Place} (h : AllKept serde w) (hi : w.stores[i]? = some store)
    (hpath : store'.path = store.path) (hkept : Kept serde w.dirs fs store')
    (hown : ∀ q, ¬ Writes w.dirs store.path q → fs.slot q = w.fs.slot q) :
    AllKept serde ⟨w.dirs, fs, w.stores.set i store'⟩ :=
  ⟨h.toOwnNames.set hi hpath, h.forall_set Kept.frame h.kept hi hkept hown⟩

theorem allKept_step {serde : Serde} (w : World) (label : Label) (w' : World)
    (h : AllKept serde w) (hs : step serde w label = some w') : AllKept serde w' := by
  cases label with
  | start i op =>
      simp only [step] at hs
      split at hs
      · rename_i path inner completed hi
        cases hs
        have hempty := h.isEmpty hi
        have hsep := h.gate_ne_sibling hi
        have hdurable : Durable serde w.dirs path completed w.fs := h.kept i _ hi
        exact h.set hi rfl (safe_program op hempty hsep hdurable) fun _ _ => rfl
      · cases hs
  | io i outcome =>
      simp only [step] at hs
      split at hs
      · rename_i path inner completed op before failed s c k hi
        split at hs
        · rename_i hadmits
          cases hs
          obtain ⟨hown, hsafe⟩ := safe_call (ownNames_lawful _ _ _ _ _ _) (h.kept i _ hi) trivial
            ⟨outcome, hadmits, rfl⟩
          exact h.set hi rfl hsafe hown
        · cases hs
      · cases hs
  | returns i =>
      simp only [step] at hs
      split at hs
      · rename_i path inner completed op before failed s r hi
        cases hs
        obtain ⟨hinner, hfile⟩ := safe_done (ownNames_lawful _ _ _ _ _ _) (h.kept i _ hi)
        refine h.set hi rfl ?_ fun _ _ => rfl
        cases r with
        | ok u =>
            show Durable serde w.dirs path s w.fs
            rw [hinner]
            exact hfile
        | error e => exact hfile.1
      · cases hs

/-! ## Opening -/

section Opening

variable {serde : Serde} {dirs : Directories} {path : PathBuf} {s : Persisted}
  {fs : FileSystem Place}

/-- What is durable is what is found, whatever the crash did to the rest. -/
theorem Durable.openStore_eq (h : Durable serde dirs path s fs) (hempty : path.isEmpty = false)
    {after : Place → Option Octets} (hcrash : fs.Crash after) :
    openStore serde (dirs.read after path.route) = .ok s := by
  have hread := Folders.read_eq after (PathBuf.isEmpty_route.trans hempty) fun hblock =>
    h.place (PathBuf.blocked_eq_false_iff.mpr hblock)
  have hafter := hcrash (path.gate dirs)
  have hfile := h.file
  rw [hread]
  cases hslot : fs.slot (path.gate dirs) with
  | none =>
      rw [hslot] at hfile hafter
      rw [show after (dirs.gate path.route) = none from hafter, hfile]
      rfl
  | some entry =>
      obtain ⟨i, file⟩ := entry
      rw [hslot] at hfile hafter
      obtain ⟨hunblocked, hsynced, hdecode⟩ := hfile
      rw [show after (dirs.gate path.route) = some file.bytes from hafter hsynced]
      simp only [PathBuf.blocked_eq_false_iff.mp hunblocked, Option.isSome_none,
        Bool.false_eq_true, if_false, openStore, hdecode]

theorem durable_of_openStore (hsettled : fs.Settled) (hempty : path.isEmpty = false)
    (h : openStore serde (dirs.read fs.read path.route) = .ok s) :
    Durable serde dirs path s fs := by
  have hroute : path.route.isEmpty = false := PathBuf.isEmpty_route.trans hempty
  have hplace : dirs.block path.route = none → dirs.isFolder (dirs.locate path.route) = false := by
    intro hblock
    cases hfolder : dirs.isFolder (dirs.locate path.route) with
    | false => rfl
    | true =>
        rw [Folders.read, hroute] at h
        simp only [Bool.false_eq_true, if_false, hblock, hfolder, if_true] at h
        cases h
  refine ⟨fun hunblocked => hplace (PathBuf.blocked_eq_false_iff.mp hunblocked), ?_⟩
  rw [Folders.read_eq fs.read hroute hplace] at h
  cases hslot : fs.slot (path.gate dirs) with
  | none =>
      rw [show fs.read (dirs.gate path.route) = none from
        (congrArg (Option.map _) hslot).trans rfl] at h
      cases h
      rfl
  | some entry =>
      obtain ⟨i, file⟩ := entry
      rw [show fs.read (dirs.gate path.route) = some file.bytes from
        (congrArg (Option.map _) hslot).trans rfl] at h
      obtain ⟨hdir, rfl⟩ := FileSystem.slot_eq_some_iff.mp hslot
      cases hblocked : path.blocked dirs with
      | true =>
          simp only [show (dirs.block path.route).isSome = true from hblocked, if_true] at h
          cases h
      | false =>
          simp only [show (dirs.block path.route).isSome = false from hblocked,
            Bool.false_eq_true, if_false, openStore] at h
          refine ⟨rfl, hsettled _ i hdir, ?_⟩
          cases hdecode : serde.state.decode (fs.files i).bytes with
          | none => rw [hdecode] at h; cases h
          | some s' => rw [hdecode] at h; cases h; rfl

end Opening

theorem allKept_of_opened {serde : Serde} {w : World} (h : Opened serde w)
    (hsep : Separate w.dirs w.paths) : AllKept serde w := by
  refine ⟨⟨hsep⟩, fun i store hi => ?_⟩
  obtain ⟨hopen, hcompleted, hupdate⟩ := h.opened store (List.mem_of_getElem? hi)
  unfold Kept
  rw [hupdate, hcompleted]
  exact durable_of_openStore h.settled (hsep.1 _ (OwnNames.path_mem hi)) hopen

theorem allKept_run {serde : Serde} {w₀ w : World} {l : List Label} (hopened : Opened serde w₀)
    (hsep : Separate w₀.dirs w₀.paths) (hrun : run (step serde) w₀ l = some w) :
    AllKept serde w :=
  run_invariant_all allKept_step l (allKept_of_opened hopened hsep) hrun

/-! ## The results -/

/-- **A crash leaves the old state or the new one**: stores whose files and siblings are
nobody else's, any interleaving of their flushes, calls failing at will, a crash
anywhere; reopening each file gives the state of its store's last completed
update, or of the update in progress. -/
theorem reopens_of_separate (serde : Serde) (w₀ w : World) (l : List Label)
    (after : Place → Option Octets) (hopened : Opened serde w₀)
    (hsep : Separate w₀.dirs w₀.paths) (hrun : run (step serde) w₀ l = some w)
    (hcrash : w.fs.Crash after) : ∀ store ∈ w.stores, Reopens serde w.dirs after store := by
  have hall := allKept_run hopened hsep hrun
  intro store hstore
  obtain ⟨i, hi⟩ := List.mem_iff_getElem?.mp hstore
  have hempty := hall.isEmpty hi
  have hkept := hall.kept i store hi
  cases hupdate : store.update with
  | none => exact Or.inl ((hkept.durable hupdate).openStore_eq hempty hcrash)
  | some u =>
      have hsafe := hkept.safe hupdate
      cases htask : u.task with
      | done s r =>
          rw [htask] at hsafe
          obtain ⟨-, hfile⟩ := safe_done (ownNames_lawful _ _ _ _ _ _) hsafe
          cases r with
          | ok _ =>
              refine Or.inr ⟨by rw [hupdate]; rfl, ?_⟩
              exact Durable.openStore_eq hfile hempty hcrash
          | error _ => exact Or.inl (hfile.1.openStore_eq hempty hcrash)
      | await s c k =>
          rw [htask] at hsafe
          have hdurable := safe_before (ownNames_lawful _ _ _ _ _ _) hsafe
          exact Or.inl (Durable.openStore_eq hdurable hempty hcrash)

/-- Voting for oneself in the first term. -/
def votesFor (node : NodeIdx) : Vote := ⟨⟨1, node⟩, false⟩

/-- A serializer that writes the two votes in one byte each. -/
noncomputable def voteSerde : Serde where
  state := (Codec.ofCountable Persisted).short (Persisted.default.saveVote (votesFor ⟨1⟩))
    (Persisted.default.saveVote (votesFor ⟨2⟩))
  snapshot := .ofCountable Applied

/-- New stores on an empty disk. -/
def newStores (paths : List PathBuf) : World where
  dirs := .rootOnly
  fs := .empty
  stores := paths.map fun path => ⟨path, .default, .default, none⟩

theorem opened_newStores (serde : Serde) (paths : List PathBuf) (hdistinct : paths.Nodup)
    (hplace : ∀ p ∈ paths, p.isEmpty = false ∧
      Folders.rootOnly.isFolder (p.place .rootOnly) = false) :
    Opened serde (newStores paths) := by
  have hpaths : (newStores paths).paths = paths := by
    simp [newStores, World.paths, Function.comp_def]
  refine ⟨nofun, by rw [hpaths]; exact hdistinct, fun store hstore => ?_⟩
  obtain ⟨path, hpath, rfl⟩ := List.mem_map.mp hstore
  refine ⟨?_, rfl, rfl⟩
  obtain ⟨hempty, hfolder⟩ := hplace path hpath
  exact congrArg (openStore serde)
    (Folders.read_eq _ (PathBuf.isEmpty_route.trans hempty) fun _ => hfolder)

/-- The first store saves a vote while the second is about to write its own. -/
def besideEachOther : List Label :=
  [.start 0 (.saveVote (votesFor ⟨1⟩)), .start 1 (.saveVote (votesFor ⟨2⟩)), .io 0 (.succeeds 0),
    .io 1 (.succeeds 0), .io 0 (.succeeds 0), .io 0 (.succeeds 0), .io 0 (.succeeds 0), .returns 0]

def twoNames : List PathBuf := [⟨true, ["n1.json".toList]⟩, ⟨true, ["n2.json".toList]⟩]

theorem reopens_besideEachOther :
    ∃ w, run (step voteSerde) (newStores twoNames) besideEachOther = some w ∧
      (w.stores.map fun store => store.completed.vote) = [some (votesFor ⟨1⟩), none] ∧
      ∀ store ∈ w.stores, Reopens voteSerde w.dirs w.fs.read store :=
  ⟨_, rfl, rfl, reopens_of_separate voteSerde (newStores twoNames) _ besideEachOther _
    (opened_newStores voteSerde twoNames (by decide) (by decide))
    (separate_of_plain (by decide) (by decide) (by decide) (by decide)) rfl
    (FileSystem.crash_read _)⟩

/-- Two stores with one sibling: the second writes it after the first has synced
it and before the first renames it. -/
def sharedSibling : List Label :=
  [.start 0 (.saveVote (votesFor ⟨1⟩)), .start 1 (.saveVote (votesFor ⟨2⟩)), .io 0 (.succeeds 0),
    .io 0 (.succeeds 0), .io 0 (.succeeds 0), .io 1 (.succeeds 0), .io 1 (.succeeds 0),
    .io 1 (.succeeds 0), .io 0 (.succeeds 0), .returns 0]

def twoExtensions : List PathBuf := [⟨true, ["n1.a".toList]⟩, ⟨true, ["n1.b".toList]⟩]

theorem shared_sibling_mixes_stores :
    ¬ ∀ (serde : Serde) (w₀ w : World) (l : List Label) (after : Place → Option Octets),
      Opened serde w₀ → run (step serde) w₀ l = some w → w.fs.Crash after →
      ∀ store ∈ w.stores, Reopens serde w.dirs after store := by
  intro h
  have hreopens := h voteSerde (newStores twoExtensions) _ sharedSibling _
    (opened_newStores voteSerde twoExtensions (by decide) (by decide)) rfl
    (FileSystem.crash_read _) _ (List.mem_cons_self ..)
  rcases hreopens with hcompleted | ⟨hupdate, -⟩
  · have hother : Except.ok (Persisted.default.saveVote (votesFor ⟨2⟩)) =
        (Except.ok (Persisted.default.saveVote (votesFor ⟨1⟩)) : Except IoError Persisted) :=
      hcompleted
    injection hother with hother
    exact absurd hother (by decide)
  · cases hupdate

end HorsieActor.Ports.Raft
