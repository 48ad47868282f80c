import HorsieActor.Ports.PersistentLog

/-!
# The write fence under split brain

Any number of instances share one log, and nothing but the sequence number a
writer expects keeps their histories apart.  The number alone is a sound fence
only if an instance that holds number `n` also holds the fold of the first `n`
events (`Held`).  Every operation of an instance keeps that — a batch is folded
exactly when it was appended, a snapshot is stored exactly when it stands for
the whole log — with one exception.

Recovery reads the snapshot and the events in two calls.  When another instance
snapshots, compacts and appends between the two, the replay skips the events
compacted away and still ends at the last number: the recovered instance holds
the right number and the wrong state, and the fence lets it write
(`recovery_across_compaction_loses_update`).

The replay goes right exactly when the first event the journal still holds
comes no later than right after the snapshot the recovery read; `ReplayCovered`
asks that of every replay of a schedule, and under it no update is lost in any
interleaving (`noLostUpdate_of_replayCovered`).

The proof is one rely–guarantee argument: `fence` is the contract of an
instance, `safe_recover`, `safe_handle` show that start-up and every command
meet it, and the pool rule of `HorsieActor.Verified.Task` does the
interleaving.
-/

namespace HorsieActor.Ports.Persistent

open HorsieActor.Verified
open HorsieActor.Verified.Schedule
open HorsieActor.Ports.Journal

variable {A : EventSourcedActor}

/-! ## The property -/

/-- The call writes to the log — a non-empty batch or a snapshot — and the
journal would admit it now. -/
def AdmittedWrite (st : Store) : JournalCall → Prop
  | .persist pid (b :: bs) n => (st.journal.persist pid (b :: bs) n).1 = .ok ()
  | .saveSnapshot pid b n => (st.journal.saveSnapshot pid b n).1 = .ok ()
  | _ => False

/-- Every instance whose next call is an admitted write holds the fold of
everything ever appended to the log, and the number of those events. -/
def NoLostUpdate (pid : PersistenceId) (w : World A) : Prop :=
  ∀ (i : Nat) (self : Persistent A) (c : JournalCall) (k : c.Answer → Instance A),
    w.instances[i]? = some (some (.await self c k)) → AdmittedWrite w.store c →
      foldLog A (w.store.appended pid) = .ok self.state ∧
        self.seqNr = (w.store.appended pid).length

/-- The log and the starting number of the replay a step makes, if it makes
one. -/
def replayOf (w : World A) : Label A → Option (PersistenceId × Nat)
  | .call i _ =>
      match w.instances[i]? with
      | some (some (.await _ (.replay pid afterSeq) _)) => some (pid, afterSeq)
      | _ => none
  | _ => none

/-- A step that replays finds every event past the snapshot the recovery read,
or no events at all. -/
def ReplayCovered (w : World A) (label : Label A) : Prop :=
  ∀ r ∈ replayOf w label, Covers (w.store.journal.entryOf r.1) r.2

instance (w : World A) (label : Label A) : Decidable (ReplayCovered w label) :=
  inferInstanceAs (Decidable (∀ r ∈ replayOf w label, _))

/-! ## The contract -/

/-- What an instance may assume of the others, and what it owes.

The environment keeps `LogInv`, only appends to the history and never moves
the snapshot back. -/
def fence (A : EventSourcedActor) (pid : PersistenceId) :
    Contract (Persistent A) JournalCall JournalCall.Answer Store where
  exec c st r st' := ∃ fault, st.answer c fault = some (r, st')
  rely st st' := LogInv A pid st → Advances A pid st st'
  guarantee st st' := LogInv A pid st → Advances A pid st st'
  enabled st _ c :=
    match c with
    | .replay p afterSeq => Covers (st.journal.entryOf p) afterSeq
    | _ => True
  before st self c := LogInv A pid st → AdmittedWrite st c →
    foldLog A (st.appended pid) = .ok self.state ∧ self.seqNr = (st.appended pid).length

theorem fence_lawful (pid : PersistenceId) : (fence A pid).Lawful where
  refl _ := fun h => ⟨h, List.prefix_refl _, Nat.le_refl _⟩
  trans hab hbc := fun ha => by
    obtain ⟨hb, hp, hs⟩ := hab ha
    obtain ⟨hc, hp', hs'⟩ := hbc hb
    exact ⟨hc, hp.trans hp', Nat.le_trans hs hs'⟩

section Proof

variable {pid : PersistenceId} {st st' : Store} {state : A.State} {seqNr : Nat}

/-- A step that leaves the log alone is interference anyone allows. -/
theorem rely_of_same (h : SameLog pid st st') : (fence A pid).rely st st' :=
  fun hInv => hInv.advances h

/-! ### Start-up and commands meet the contract -/

/-- The log is in order and the instance holds a prefix of it. -/
def Holds (A : EventSourcedActor) (pid : PersistenceId) (st : Store) (s : Persistent A) : Prop :=
  LogInv A pid st ∧ s.pid = pid ∧ Held A pid st s.state s.seqNr

theorem Holds.rely {s : Persistent A} (h : Holds A pid st s)
    (hr : (fence A pid).rely st st') : Holds A pid st' s := by
  obtain ⟨hInv, hpid, hHeld⟩ := h
  obtain ⟨hInv', hp, -⟩ := hr hInv
  exact ⟨hInv', hpid, hHeld.mono hp⟩

/-- An instance that holds a prefix and returns is safe. -/
theorem Holds.safe {s : Persistent A} {α : Type} (h : Holds A pid st s) (a : α) :
    Safe (fence A pid) (fun st s (_ : α) => Holds A pid st s) st (.done s a) :=
  fun _ hr => h.rely hr

/-- Recovery returns only folds of a prefix, and does not touch the instance. -/
theorem safe_recover {self : Persistent A} (h : Holds A pid st self) :
    Safe (fence A pid)
      (fun st s r => s = self ∧ Holds A pid st self ∧ ∀ v, r = .ok v → Held A pid st v.1 v.2)
      st (recover A pid self) := by
  intro st₁ hr₁
  have h₁ : Holds A pid st₁ self := h.rely hr₁
  refine ⟨fun _ hw => hw.elim, fun _ r st₂ hx => ?_⟩
  obtain ⟨fault, hx⟩ := hx
  obtain ⟨rfl, hsame⟩ := answer_latestSnapshot hx
  have h₂ : Holds A pid st₂ self := h₁.rely (rely_of_same hsame)
  refine ⟨rely_of_same hsame, ?_⟩
  cases hs : startFrom A (st₁.journal.entryOf pid).snapshot with
  | error e =>
      simp only [Async.pure_apply, Task.bind_done, hs]
      exact fun _ hr₃ => ⟨rfl, h₂.rely hr₃, fun _ hv => nomatch hv⟩
  | ok start =>
      obtain ⟨state, seqNr⟩ := start
      have hHeld : Held A pid st₂ state seqNr :=
        startFrom_held h₂.1 (by rw [hsame.entry]; exact hs)
      simp only [Task.bind_done, hs]
      intro st₃ hr₃
      obtain ⟨hInv₃, hp₃, -⟩ := hr₃ h₂.1
      refine ⟨fun _ hw => hw.elim, fun hcov r st₄ hx => ?_⟩
      obtain ⟨fault, hx⟩ := hx
      obtain ⟨rfl, hsame'⟩ := answer_replay hx
      have h₄ : Holds A pid st₄ self := (h₂.rely hr₃).rely (rely_of_same hsame')
      refine ⟨rely_of_same hsame', fun st₅ hr₅ => ⟨rfl, h₄.rely hr₅, fun v hv => ?_⟩⟩
      obtain ⟨-, hp₅, -⟩ := hr₅ h₄.1
      have hdrained := drain_held hInv₃ (hHeld.mono hp₃) hcov hv
      rw [hsame'.appended] at hp₅
      exact hdrained.mono hp₅

theorem safe_onStart {self : Persistent A} (h : Holds A pid st self) :
    Safe (fence A pid) (fun st s _ => Holds A pid st s) st (onStart self) := by
  have hpid : self.pid = pid := h.2.1
  simp only [onStart, Async.bind_apply, Async.get_apply, Task.bind_done, hpid]
  refine safe_bind (fence_lawful pid) ?_ _ _ (safe_recover h)
  rintro st₁ s r ⟨rfl, hself, hv⟩
  cases r with
  | error e => exact hself.safe _
  | ok v =>
      have hHeld : Held A pid st₁ v.1 v.2 := hv v rfl
      exact Holds.safe (s := { s with state := v.1, seqNr := v.2 }) ⟨hself.1, hpid, hHeld⟩ _

theorem safe_persistEvents (hA : A.RoundTrips) (events : List A.Event) {self : Persistent A}
    (h : Holds A pid st self) :
    Safe (fence A pid) (fun st s _ => Holds A pid st s) st (persistEvents events self) := by
  unfold persistEvents
  cases henc : encodeAll A events with
  | error e => exact h.safe _
  | ok bs =>
      simp only [Async.bind_apply, Async.get_apply, Task.bind_done]
      intro st₁ hr₁
      have h₁ : Holds A pid st₁ self := h.rely hr₁
      obtain ⟨hInv₁, hpid, hHeld₁⟩ := h₁
      rw [hpid]
      refine ⟨fun _ hw => ?_, fun _ r st₂ hx => ?_⟩
      · -- an admitted batch comes from the end of the log
        have hn : (st₁.journal.entryOf pid).lastSeq = self.seqNr := by
          cases bs with
          | nil => exact hw.elim
          | cons b bs => exact (InMemoryJournal.persist_ok_iff _ _ _ _).mp hw
        exact hHeld₁.whole hInv₁ hn
      · obtain ⟨fault, hx⟩ := hx
        rcases answer_persist hx with ⟨rfl, hn, hentry, happ⟩ | ⟨e, rfl, hsame, -⟩
        · obtain ⟨hkept, hpid', hHeld'⟩ :=
            persist_keeps hA hInv₁ hpid hHeld₁ henc hn hentry happ
          exact ⟨fun _ => hkept, Holds.safe ⟨hkept.inv, hpid', hHeld'⟩ _⟩
        · have h₂ : Holds A pid st₂ self :=
            Holds.rely ⟨hInv₁, hpid, hHeld₁⟩ (rely_of_same hsame)
          exact ⟨rely_of_same hsame, h₂.safe _⟩

theorem safe_snapshotState (hA : A.RoundTrips) {self : Persistent A}
    (h : Holds A pid st self) :
    Safe (fence A pid) (fun st s _ => Holds A pid st s) st (snapshotState self) := by
  unfold snapshotState
  simp only [Async.bind_apply, Async.get_apply, Task.bind_done]
  cases henc : A.encodeState self.state with
  | error e => exact h.safe _
  | ok b =>
      intro st₁ hr₁
      have h₁ : Holds A pid st₁ self := h.rely hr₁
      obtain ⟨hInv₁, hpid, hHeld₁⟩ := h₁
      rw [hpid]
      refine ⟨fun _ hw => ?_, fun _ r st₂ hx => ?_⟩
      · exact hHeld₁.whole hInv₁ ((InMemoryJournal.saveSnapshot_ok_iff _ _ _ _).mp hw)
      · obtain ⟨fault, hx⟩ := hx
        rcases answer_saveSnapshot hx with ⟨rfl, hn, hentry, happ⟩ | ⟨e, rfl, hsame⟩
        · have hkept := saveSnapshot_keeps hA hInv₁ hHeld₁ henc hn hentry happ
          have h₂ : Holds A pid st₂ self := ⟨hkept.inv, hpid, hHeld₁.mono hkept.appended⟩
          have hsnap : snapshotSeq (st₂.journal.entryOf pid) = self.seqNr := by rw [hentry]; rfl
          refine ⟨fun _ => hkept, ?_⟩
          -- the compaction: by now another snapshot may stand, but a later one
          intro st₃ hr₃
          have h₃ : Holds A pid st₃ self := h₂.rely hr₃
          refine ⟨fun _ hw => hw.elim, fun _ r st₄ hx => ?_⟩
          obtain ⟨fault, hx⟩ := hx
          obtain ⟨hentry', happ'⟩ := answer_deleteEventsBefore hx
          have hle : self.seqNr ≤ snapshotSeq (st₃.journal.entryOf pid) := by
            rw [← hsnap]
            exact (hr₃ h₂.1).snapshot
          have hkept' := deleteEventsBefore_keeps h₃.1 hle hentry' happ'
          have h₄ : Holds A pid st₄ self := ⟨hkept'.inv, hpid, h₃.2.2.mono hkept'.appended⟩
          exact ⟨fun _ => hkept', h₄.safe _⟩
        · have h₂ : Holds A pid st₂ self :=
            Holds.rely ⟨hInv₁, hpid, hHeld₁⟩ (rely_of_same hsame)
          exact ⟨rely_of_same hsame, h₂.safe _⟩

theorem safe_handle (hA : A.RoundTrips) (effect : CommandEffect A.Event)
    {self : Persistent A} (h : Holds A pid st self) :
    Safe (fence A pid) (fun st s _ => Holds A pid st s) st (handle effect self) := by
  unfold handle
  simp only [Async.bind_apply]
  refine safe_bind (fence_lawful pid) ?_ _ _ (safe_persistEvents hA effect.events h)
  rintro st₁ s ⟨persisted, result⟩ h₁
  by_cases hsnap : (effect.snapshot && result.isOk && !effect.stop) = true
  · simp only [hsnap, if_true, Async.bind_apply]
    refine safe_bind (fence_lawful pid) ?_ _ _ (safe_snapshotState hA h₁)
    intro st₂ s₂ _ h₂
    exact h₂.safe _
  · simp only [hsnap]
    exact h₁.safe _

/-! ## The pool -/

/-- What every reachable world satisfies as long as every replay is covered:
the log is in order and every instance meets its contract from here on. -/
structure Fenced (pid : PersistenceId) (w : World A) : Prop where
  log : LogInv A pid w.store
  pool : PoolSafe (fence A pid) (fun st s _ => Holds A pid st s) w.store w.instances

theorem fenced_init (pid : PersistenceId) : Fenced pid (World.init A) where
  log := ⟨⟨0, Represents.new⟩, fun _ _ h => nomatch h⟩
  pool := PoolSafe.nil

/-- A task that runs `m` and wraps what it returns is as safe as `m`. -/
theorem safe_wrap {α β : Type} {m : JournalTask A α} (f : α → β)
    (h : Safe (fence A pid) (fun st s _ => Holds A pid st s) st m) :
    Safe (fence A pid) (fun st s _ => Holds A pid st s) st
      (m.bind fun a => (pure (f a) : OverJournal A β)) := by
  refine safe_bind (fence_lawful pid) ?_ _ _ h
  intro st₁ s a h₁
  exact h₁.safe _

theorem safe_startUp (hInv : LogInv A pid st) :
    Safe (fence A pid) (fun st s _ => Holds A pid st s) st (startUp A pid) := by
  have hnew : Holds A pid st (Persistent.new A pid) := ⟨hInv, rfl, Held.initial pid st⟩
  exact safe_wrap _ (safe_onStart hnew)

theorem safe_serveOne (hA : A.RoundTrips) {self : Persistent A} (h : Holds A pid st self)
    (effect : CommandEffect A.Event) :
    Safe (fence A pid) (fun st s _ => Holds A pid st s) st (serveOne self effect) :=
  safe_wrap _ (safe_handle hA effect h)

/-- The step lemma: one label, whichever it is. -/
theorem fenced_step (hA : A.RoundTrips) (w : World A) (label : Label A) (w' : World A)
    (h : Fenced pid w) (hcov : ReplayCovered w label) (hs : step pid w label = some w') :
    Fenced pid w' := by
  cases label with
  | spawn =>
      cases hs
      exact ⟨h.log, h.pool.snoc (safe_startUp h.log)⟩
  | call i fault =>
      obtain ⟨self, c, k, r, st', hi, hans, rfl⟩ := step_call hs
      have henabled : (fence A pid).enabled w.store self c := by
        cases c with
        | replay p n => exact hcov (p, n) (by simp [replayOf, hi])
        | _ => trivial
      obtain ⟨hrely, hpool⟩ :=
        h.pool.call (fence_lawful pid) (fun _ _ hg => hg) hi henabled ⟨fault, hans⟩
      exact ⟨(hrely h.log).inv, hpool⟩
  | command i effect =>
      obtain ⟨self, r, hi, -, rfl⟩ := step_command hs
      have hself : Holds A pid w.store self := safe_done (fence_lawful pid) (h.pool i _ hi)
      exact ⟨h.log, h.pool.set i (safe_serveOne hA hself effect)⟩
  | drop i =>
      cases hs
      exact ⟨h.log, h.pool.drop i⟩

theorem Fenced.noLostUpdate {w : World A} (h : Fenced pid w) : NoLostUpdate pid w := by
  intro i self c k hi hw
  exact safe_before (fence_lawful pid) (h.pool i _ hi) h.log hw

end Proof

/-! ## The results -/

/-- **No update is lost in an interleaving whose replays are covered.**  Along
any schedule of any number of instances, with failing writes and dropped
instances anywhere in it, every admitted write comes from an instance that
holds the fold of the whole log. -/
theorem noLostUpdate_of_replayCovered (hA : A.RoundTrips) (pid : PersistenceId)
    (l : List (Label A)) (w : World A) (hrun : run (step pid) (World.init A) l = some w)
    (hcov : Along (step pid) ReplayCovered (World.init A) l) : NoLostUpdate pid w :=
  (run_invariant (fun w label w' => fenced_step hA w label w') l (fenced_init pid) hcov
    hrun).noLostUpdate

/-- Two instances recover side by side and one of them writes and compacts
before the other writes. -/
def sideBySide : List (Label tally) :=
  [.spawn, .call 0 none, .spawn, .call 1 none, .call 0 none, .call 1 none,
    .command 1 { events := [(1 : Nat)], snapshot := true },
    .call 1 none, .command 0 { events := [(1 : Nat)] }, .call 1 none, .call 1 none,
    .command 1 { events := [(1 : Nat)] }]

theorem noLostUpdate_sideBySide :
    ∃ w, run (step ⟨"Tally", "1"⟩) (World.init tally) sideBySide = some w ∧
      NoLostUpdate ⟨"Tally", "1"⟩ w :=
  ⟨_, rfl, noLostUpdate_of_replayCovered tally_roundTrips _ sideBySide _ rfl (by decide)⟩

/-- Instance 0 reads that there is no snapshot; instance 1 appends an event,
snapshots and compacts it away, and appends another; then instance 0 replays
and is given a command. -/
def recoveryAcrossCompaction : List (Label tally) :=
  [.spawn, .call 0 none, .spawn, .call 1 none, .call 1 none,
    .command 1 { events := [(1 : Nat)], snapshot := true },
    .call 1 none, .call 1 none, .call 1 none,
    .command 1 { events := [(1 : Nat)] }, .call 1 none,
    .call 0 none, .command 0 { events := [(1 : Nat)] }]

/-- The recovered instance has the log's last number and half its state, and
its write is admitted. -/
theorem recovery_across_compaction_loses_update :
    ¬ ∀ (A : EventSourcedActor), A.RoundTrips →
      ∀ (pid : PersistenceId) (l : List (Label A)) (w : World A),
        run (step pid) (World.init A) l = some w → NoLostUpdate pid w := by
  intro h
  have hlost := h tally tally_roundTrips ⟨"Tally", "1"⟩ recoveryAcrossCompaction _ rfl 0
    ⟨⟨"Tally", "1"⟩, (1 : Nat), 2⟩ (.persist ⟨"Tally", "1"⟩ [[1]] 2) _ rfl rfl
  have hstate : (Except.ok (2 : Nat) : Except String Nat) = .ok 1 := hlost.1
  cases hstate

end HorsieActor.Ports.Persistent
