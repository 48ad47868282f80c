import HorsieActor.Ports.RaftFiles

/-!
# Writes that fail

`update` edits the state in memory before it writes the file, and a flush that
fails does not take the edit back.  So a failed operation returns its error and
its effect is read back all the same (`failed_vote_is_read_back`), unless there
was nothing to change: the vote was already that vote, the entries were already
there, nothing lay beyond the cut.  `Op.Idle` is that table.

In every run in which a system call fails only for an operation that is idle, a
failed operation leaves every read as it was, and what the readers see is what
reopening the file would give (`readsKept_of_failsIdle`).

The operations stop at the first call that fails (`failStops_program`), and a
flush none of whose calls fail returns `Ok` (`safe_flush` at `onlySuccess`).
-/

namespace HorsieActor.Ports.Raft

open HorsieActor.Verified
open HorsieActor.Verified.Schedule

/-! ## The property -/

/-- No call fails, and those that succeed are such as the directories let. -/
abbrev onlySuccess (dirs : Directories) : FileCall PathBuf → Outcome → Prop := fun c outcome =>
  outcome.isFailure = false ∧ dirs.admits PathBuf.route c = true

/-- What has become of an operation so far. -/
structure InStep (serde : Serde) (dirs : Directories) (fs : FileSystem Place) (store : Store)
    (u : Update) : Prop where
  before : u.before = store.completed
  inner : store.inner = (u.op.edit serde).getD id u.before
  stops : FailStops (PathBuf.place dirs) u.task
  /-- A failure has ended it, and it had nothing to change. -/
  failed : u.failed = true → (∃ s e, u.task = .done s (.error e)) ∧ store.inner = u.before
  /-- Without one it is refused at once or on the way to returning `Ok`. -/
  going : u.failed = false → store.inner = u.before ∨
    Safe (flushContract serde dirs store.path (onlySuccess dirs) store.completed)
      (Flushed serde dirs store.path (onlySuccess dirs) store.completed store.inner) fs u.task

/-- Between operations the state in memory is the one last written. -/
def Matches (serde : Serde) (dirs : Directories) (fs : FileSystem Place) (store : Store) : Prop :=
  match store.update with
  | none => store.inner = store.completed
  | some u => InStep serde dirs fs store u

section Matches

variable {serde : Serde} {dirs : Directories} {fs fs' : FileSystem Place} {store : Store}
  {u : Update}

theorem Matches.idle (h : Matches serde dirs fs store) (hupdate : store.update = none) :
    store.inner = store.completed := by
  unfold Matches at h
  rw [hupdate] at h
  exact h

theorem Matches.inStep (h : Matches serde dirs fs store) (hupdate : store.update = some u) :
    InStep serde dirs fs store u := by
  unfold Matches at h
  rw [hupdate] at h
  exact h

theorem Matches.frame (h : Matches serde dirs fs store)
    (hsibling : fs'.slot (store.path.sibling.place dirs) = fs.slot (store.path.sibling.place dirs))
    (hpath : fs'.slot (store.path.gate dirs) = fs.slot (store.path.gate dirs)) :
    Matches serde dirs fs' store := by
  unfold Matches
  cases hu : store.update with
  | none => exact h.idle hu
  | some u =>
      have hstep := h.inStep hu
      refine ⟨hstep.before, hstep.inner, hstep.stops, hstep.failed, fun hfailed => ?_⟩
      exact (hstep.going hfailed).imp_right fun hsafe =>
        safe_rely (ownNames_lawful _ _ _ _ _ _) hsafe ⟨hsibling, hpath⟩

end Matches

structure AllMatch (serde : Serde) (w : World) : Prop extends AllKept serde w where
  matching : ∀ (i : Nat) (store : Store), w.stores[i]? = some store →
    Matches serde w.dirs w.fs store

theorem AllMatch.set {serde : Serde} {w : World} {i : Nat} {store store' : Store}
    {fs : FileSystem Place} (h : AllMatch serde w) (hi : w.stores[i]? = some store)
    (hkept : AllKept serde ⟨w.dirs, fs, w.stores.set i store'⟩)
    (hmatch : Matches serde w.dirs fs store')
    (hown : ∀ q, ¬ Writes w.dirs store.path q → fs.slot q = w.fs.slot q) :
    AllMatch serde ⟨w.dirs, fs, w.stores.set i store'⟩ :=
  ⟨hkept, h.forall_set Matches.frame h.matching hi hmatch hown⟩

end HorsieActor.Ports.Raft
