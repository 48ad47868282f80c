import HorsieActor.Ports.Lifecycle

/-!
# How many instances run at one path

`get_or_create` decides over the registry under its lock, so no two of them
start an instance at once.  But a row says who can be reached, not who is
running: `halt` and `retire` take it out long before the task has dropped its
actor value, and a `get_or_create` in between starts a second instance at the
same path.

`oneRunning_of_registered` is what does hold: if at every `get_or_create` each
instance still running at that path has its row, then at most one instance is
running at any path at any time.
-/

namespace HorsieActor.Ports.Lifecycle

open HorsieActor.Verified

/-- At most one instance is running at a path. -/
def OneRunning (w : World) : Prop :=
  ∀ (i j : Nat) (x y : Inst), w.insts[i]? = some x → w.insts[j]? = some y → x.path = y.path →
    x.Running → y.Running → i = j

/-- Wherever an instance may be created, whoever is still running there has its
row. -/
def RunningRegistered (w : World) (a : Label) : Prop :=
  ∀ made ∈ creates w a, ∀ i < w.insts.length, ∀ inst ∈ w.insts[i]?, inst.path = made.2 →
    inst.Running → (w.live.lookup made.2).map Entry.inst = some i

instance (w : World) (a : Label) : Decidable (RunningRegistered w a) :=
  inferInstanceAs (Decidable (∀ made ∈ creates w a, _))

section Preservation

variable {w w' : World}

theorem OneRunning.older (h : OneRunning w) (hold : Older w w') : OneRunning w' := by
  intro i j x' y' hx' hy' hpath hrx hry
  obtain ⟨x, hx, hxpath, -, hxrank⟩ := hold.back i x' hx'
  obtain ⟨y, hy, hypath, -, hyrank⟩ := hold.back j y' hy'
  rw [hxpath, hypath] at hpath
  exact h i j x y hx hy hpath (Nat.le_trans hxrank hrx) (Nat.le_trans hyrank hry)

/-- Nobody is running where an instance is created. -/
theorem not_running_of_free {a : Label} {line : List Nat} {path : ActorPath}
    (hreg : RunningRegistered w a) (ha : creates w a = some (line, path)) (hfree : Free w path)
    {i : Nat} {x : Inst} (hx : w.insts[i]? = some x) (hpath : x.path = path) : ¬ x.Running := by
  intro hrunning
  have hlt := (List.getElem?_eq_some_iff.mp hx).1
  have hrow := hreg (line, path) ha i hlt x hx hpath hrunning
  obtain ⟨entry, hlook, rfl⟩ := Option.map_eq_some_iff.mp hrow
  have hdead := hfree entry hlook
  -- its mailbox is open, so its row is reachable
  have hgone : x.pc = .gone := by simpa [World.alive, World.pcAt, hx] using hdead
  rw [Inst.Running, hgone] at hrunning
  exact absurd hrunning (by decide)

theorem oneRunning_step (w : World) (a : Label) (w' : World) (h : OneRunning w)
    (hreg : RunningRegistered w a) (hstep : step w a = some w') : OneRunning w' := by
  rcases (step_moves hstep).older with hold | ⟨line, path, command, ha, hfree, rfl⟩
  · exact h.older hold
  · intro i j x y hx hy hpath hrx hry
    rcases getElem?_spawn hx with hx | ⟨rfl, rfl⟩
    · rcases getElem?_spawn hy with hy | ⟨rfl, rfl⟩
      · exact h i j x y hx hy hpath hrx hry
      · exact absurd hrx (not_running_of_free hreg ha hfree hx hpath)
    · rcases getElem?_spawn hy with hy | ⟨rfl, -⟩
      · exact absurd hry (not_running_of_free hreg ha hfree hy hpath.symm)
      · rfl

end Preservation

/-- **One path, one running instance**, in every run in which whoever runs at
the path of a `get_or_create` still has its row. -/
theorem oneRunning_of_registered (l : List Label) (w : World)
    (hrun : Schedule.run step World.init l = some w)
    (hreg : Schedule.Along step RunningRegistered World.init l) : OneRunning w :=
  Schedule.run_invariant oneRunning_step l (by nofun) hreg hrun

/-- Two callers name one path; the actor there stops itself, and only then is
the path named again. -/
def namedAgain : List Label :=
  [.create ActorPath.root "p" 0, .create ActorPath.root "p" 0, .started 0, .leave 0, .retire 0,
    .task 0 [], .dropActor 0, .create ActorPath.root "p" 0]

theorem oneRunning_namedAgain :
    ∃ w, Schedule.run step World.init namedAgain = some w ∧ w.insts.length = 2 ∧ OneRunning w :=
  ⟨_, rfl, rfl, oneRunning_of_registered namedAgain _ rfl (by decide)⟩

/-- A stop has taken the row out of the registry, and the actor is still
serving when its path is named again. -/
def namedDuringStop : List Label :=
  [.create ActorPath.root "p" 0, .started 0, .stop ⟨["p"]⟩, .call 0 [],
    .create ActorPath.root "p" 0]

theorem recreation_during_stop_runs_two :
    ¬ ∀ (l : List Label) (w : World), Schedule.run step World.init l = some w → OneRunning w := by
  intro h
  have hsame := h namedDuringStop _ rfl 0 1 _ _ rfl rfl rfl (by decide) (by decide)
  cases hsame

end HorsieActor.Ports.Lifecycle
