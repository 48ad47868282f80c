import HorsieActor.Ports.PersistentLog

/-!
# What the writers of a log leave of its history

Any number of instances write to one log.  Appends and snapshots are conditional
on where the log ends; the compaction after a snapshot is not, and it is a call
of its own, so it may land after any number of other writers' appends and
snapshots.

`Stage` says where an instance can be: recovering, idle, or at one of the three
writes of `handle`, and with what it goes on from each answer.  What is needed here
of each point is `Stands`: an instance about to compact has had its snapshot
admitted, and an admitted number is never above the snapshot that stands now.  That
is all the entry needs to keep its shape.

## Main results

* `serveOne_eq`, `startUp_eq` — `handle` and `on_start` laid out call by call.
* `Stage.call` — what the next call of an instance does to the log.
* `history_kept` — in every run the entry is a cut of the history, its snapshot
  moves forward only, and a number keeps its bytes.
-/

namespace HorsieActor.Ports.Persistent

open HorsieActor.Verified
open HorsieActor.Verified.Schedule
open HorsieActor.Ports.Journal

variable {A : EventSourcedActor}

/-! ## Commands and start-up, call by call -/

/-- What `handle` returns when its write came out as `result`. -/
def outcome (effect : CommandEffect A.Event) (result : JournalResult Unit) : Handled A where
  published := if result.isOk && !effect.events.isEmpty then some effect.events else none
  acked := effect.ack.map fun ack => (ack, result)
  flow := if effect.stop || conflicted result then .stop else .continue

/-- After the answer to its `save_snapshot`. -/
def afterSave (self : Persistent A) (effect : CommandEffect A.Event) :
    JournalResult Unit → Instance A
  | .error _ => .done self (.handled (outcome effect (.ok ())))
  | .ok () => .await self (.deleteEventsBefore self.pid self.seqNr) fun _ =>
      .done self (.handled (outcome effect (.ok ())))

/-- After its write has been admitted and folded. -/
def afterWrite (self : Persistent A) (effect : CommandEffect A.Event) : Instance A :=
  if effect.snapshot && !effect.stop then
    match A.encodeState self.state with
    | .error _ => .done self (.handled (outcome effect (.ok ())))
    | .ok bytes => .await self (.saveSnapshot self.pid bytes self.seqNr) (afterSave self effect)
  else .done self (.handled (outcome effect (.ok ())))

/-- After the answer to its `persist`. -/
def afterPersist (self : Persistent A) (effect : CommandEffect A.Event) :
    JournalResult Unit → Instance A
  | .error e => .done self (.handled (outcome effect (.error e)))
  | .ok () => afterWrite (effect.events.foldl Persistent.fold self) effect

theorem serveOne_eq (self : Persistent A) (effect : CommandEffect A.Event) :
    serveOne self effect =
      match encodeAll A effect.events with
      | .error e => .done self (.handled (outcome effect (.error (.serialization e))))
      | .ok bs => .await self (.persist self.pid bs self.seqNr) (afterPersist self effect) := by
  unfold serveOne handle persistEvents
  cases encodeAll A effect.events with
  | error e => simp [outcome, Except.isOk, Except.toBool]
  | ok bs =>
      simp only [Async.bind_apply, Async.get_apply, Task.bind_done, Task.bind_await,
        Async.call_apply]
      congr 1
      funext r
      cases r with
      | error e => simp [afterPersist, outcome, Except.isOk, Except.toBool]
      | ok u =>
          have hok : Except.isOk (Except.ok () : JournalResult Unit) = true := rfl
          simp only [Async.bind_apply, Async.modify, Task.bind_done, Async.pure_apply, hok,
            Bool.and_true, afterPersist, afterWrite]
          by_cases hsnap : (effect.snapshot && !effect.stop) = true
          · simp only [hsnap, if_true, snapshotState, Async.bind_apply, Async.get_apply,
              Task.bind_done]
            cases A.encodeState (effect.events.foldl Persistent.fold self).state with
            | error e => rfl
            | ok bytes =>
                simp only [Async.call_apply, Async.bind_apply, Task.bind_await]
                congr 1
                funext r
                cases r with
                | error e => rfl
                | ok u => rfl
          · simp only [hsnap]
            rfl

/-- After the events have been replayed over a decoded snapshot. -/
def afterReplay (pid : PersistenceId) (state : A.State) (seqNr : Nat)
    (stream : List (JournalResult (Nat × Bytes))) : Instance A :=
  match drainReplay A state seqNr stream with
  | .error e => .done (Persistent.new A pid) (.started (.error (.recovery e)))
  | .ok (state, seqNr) => .done ⟨pid, state, seqNr⟩ (.started (.ok ()))

/-- After the answer to its `latest_snapshot`. -/
def afterLookup (A : EventSourcedActor) (pid : PersistenceId) :
    JournalResult (Option (Bytes × Nat)) → Instance A
  | .error e => .done (Persistent.new A pid) (.started (.error (.recovery e)))
  | .ok found =>
      match startFrom A found with
      | .error e => .done (Persistent.new A pid) (.started (.error (.recovery e)))
      | .ok (state, seqNr) =>
          .await (Persistent.new A pid) (.replay pid seqNr) (afterReplay pid state seqNr)

theorem startUp_eq (A : EventSourcedActor) (pid : PersistenceId) :
    startUp A pid = .await (Persistent.new A pid) (.latestSnapshot pid) (afterLookup A pid) := by
  unfold startUp onStart recover
  simp only [Async.bind_apply, Async.get_apply, Async.call_apply, Task.bind_done, Task.bind_await]
  congr 1
  funext r
  cases r with
  | error e => rfl
  | ok found =>
      simp only [afterLookup]
      cases startFrom A found with
      | error e => rfl
      | ok start =>
          obtain ⟨state, seqNr⟩ := start
          simp only [Async.bind_apply, Async.call_apply, Task.bind_await, Task.bind_done,
            Async.pure_apply]
          congr 1
          funext stream
          unfold afterReplay
          cases drainReplay A state seqNr stream with
          | error e => rfl
          | ok last => rfl

/-! ## Where an instance can be -/

/-- Somebody's `save_snapshot` at this number has been admitted. -/
def SnapshotAdmitted (pid : PersistenceId) (st : Store) (n : Nat) : Prop :=
  ∃ bytes, (⟨.saveSnapshot pid bytes n, Except.ok ()⟩ : Answered) ∈ st.trace

/-- What an instance is at. -/
inductive Phase (A : EventSourcedActor) where
  | starting
  | started
  | persisting (effect : CommandEffect A.Event)
  | saving (effect : CommandEffect A.Event)
  | compacting (effect : CommandEffect A.Event) (seqNr : Nat)
  | returned (effect : CommandEffect A.Event) (result : JournalResult Unit)

/-- Where an instance of a reachable world is, and how it goes on.  What else is known of
it there depends on what is looked at beside it, and is a parameter. -/
inductive Stage (pid : PersistenceId) (C : Phase A → Prop) : Instance A → Prop
  | lookingUp (hc : C .starting) : Stage pid C
      (.await (Persistent.new A pid) (.latestSnapshot pid) (afterLookup A pid))
  | replaying {state seqNr} (hc : C .starting) : Stage pid C
      (.await (Persistent.new A pid) (.replay pid seqNr) (afterReplay pid state seqNr))
  | started {self r} (hpid : self.pid = pid) (hc : C .started) :
      Stage pid C (.done self (.started r))
  | persisting {self effect bs} (hpid : self.pid = pid)
      (henc : encodeAll A effect.events = .ok bs) (hc : C (.persisting effect)) :
      Stage pid C (.await self (.persist pid bs self.seqNr) (afterPersist self effect))
  | saving {self effect bytes} (hpid : self.pid = pid) (hc : C (.saving effect)) :
      Stage pid C (.await self (.saveSnapshot pid bytes self.seqNr) (afterSave self effect))
  | compacting {self effect} (hpid : self.pid = pid) (hc : C (.compacting effect self.seqNr)) :
      Stage pid C (.await self (.deleteEventsBefore pid self.seqNr) fun _ =>
        .done self (.handled (outcome effect (.ok ()))))
  | returned {self effect result} (hpid : self.pid = pid) (hc : C (.returned effect result)) :
      Stage pid C (.done self (.handled (outcome effect result)))

/-- An instance that is about to compact has had its snapshot admitted, and the snapshot
that stands now is no older. -/
def Stands (pid : PersistenceId) (st : Store) : Phase A → Prop
  | .compacting _ n =>
      SnapshotAdmitted pid st n ∧ n ≤ snapshotSeq (st.journal.entryOf pid)
  | _ => True

/-- Calls have been answered: events appended, the snapshot moved forward. -/
structure Grows (pid : PersistenceId) (st st' : Store) : Prop where
  trace : st.trace <+: st'.trace
  appended : st.appended pid <+: st'.appended pid
  snapshot : ∀ s ∈ (st.journal.entryOf pid).snapshot,
    ∃ s' ∈ (st'.journal.entryOf pid).snapshot, s.2 ≤ s'.2

/-- What one call does to the log of `pid`. -/
inductive LogStep (pid : PersistenceId) (st st' : Store) : Prop
  | same (h : SameLog pid st st')
  | append (bs : List Bytes)
      (hentry : st'.journal.entryOf pid =
        { st.journal.entryOf pid with
          lastSeq := (st.journal.entryOf pid).lastSeq + bs.length
          events := (st.journal.entryOf pid).events ++
            numbered (st.journal.entryOf pid).lastSeq bs })
      (happ : st'.appended pid = st.appended pid ++ bs)
  | snapshot (bytes : Bytes) (n : Nat) (hn : (st.journal.entryOf pid).lastSeq = n)
      (hentry : st'.journal.entryOf pid =
        { st.journal.entryOf pid with snapshot := some (bytes, n) })
      (happ : st'.appended pid = st.appended pid)
  | compact (n : Nat) (hadmitted : SnapshotAdmitted pid st n)
      (hle : n ≤ snapshotSeq (st.journal.entryOf pid))
      (hentry : st'.journal.entryOf pid =
        { st.journal.entryOf pid with
          events := (st.journal.entryOf pid).events.filter fun p => decide (n < p.1) })
      (happ : st'.appended pid = st.appended pid)

section Stages

variable {pid : PersistenceId} {st st' : Store} {C C' : Phase A → Prop}

theorem Stage.mono {t : Instance A} (h : Stage pid C t) (hC : ∀ p, C p → C' p) :
    Stage pid C' t := by
  cases h with
  | lookingUp hc => exact .lookingUp (hC _ hc)
  | replaying hc => exact .replaying (hC _ hc)
  | started hpid hc => exact .started hpid (hC _ hc)
  | persisting hpid henc hc => exact .persisting hpid henc (hC _ hc)
  | saving hpid hc => exact .saving hpid (hC _ hc)
  | compacting hpid hc => exact .compacting hpid (hC _ hc)
  | returned hpid hc => exact .returned hpid (hC _ hc)

theorem Stage.pid_eq {self : Persistent A} {r : Returned A} (h : Stage pid C (.done self r)) :
    self.pid = pid := by
  cases h with
  | started hpid => exact hpid
  | returned hpid => exact hpid

theorem stage_startUp (hc : C .starting) : Stage pid C (startUp A pid) := by
  rw [startUp_eq]
  exact .lookingUp hc

theorem stage_serveOne {self : Persistent A} {effect : CommandEffect A.Event}
    (hpid : self.pid = pid) (hpersisting : C (.persisting effect))
    (hreturned : ∀ e, C (.returned effect (.error e))) : Stage pid C (serveOne self effect) := by
  rw [serveOne_eq]
  cases henc : encodeAll A effect.events with
  | error e => exact .returned hpid (hreturned _)
  | ok bs =>
      rw [hpid]
      exact .persisting hpid henc hpersisting

theorem stage_afterLookup (hstarting : C .starting) (hstarted : C .started)
    (found : JournalResult (Option (Bytes × Nat))) : Stage pid C (afterLookup A pid found) := by
  cases found with
  | error e => exact .started rfl hstarted
  | ok found =>
      simp only [afterLookup]
      cases startFrom A found with
      | error e => exact .started rfl hstarted
      | ok start => exact .replaying hstarting

theorem stage_afterReplay (hstarted : C .started) (state : A.State) (seqNr : Nat)
    (stream : List (JournalResult (Nat × Bytes))) :
    Stage pid C (afterReplay pid state seqNr stream) := by
  unfold afterReplay
  cases drainReplay A state seqNr stream with
  | error e => exact .started rfl hstarted
  | ok last => exact .started rfl hstarted

theorem stage_afterWrite {self : Persistent A} {effect : CommandEffect A.Event}
    (hpid : self.pid = pid) (hsaving : C (.saving effect))
    (hreturned : C (.returned effect (.ok ()))) : Stage pid C (afterWrite self effect) := by
  unfold afterWrite
  split
  · cases A.encodeState self.state with
    | error e => exact .returned hpid hreturned
    | ok bytes =>
        rw [hpid]
        exact .saving hpid hsaving
  · exact .returned hpid hreturned

theorem Grows.refl (pid : PersistenceId) (st : Store) : Grows pid st st where
  trace := List.prefix_refl _
  appended := List.prefix_refl _
  snapshot := fun s hs => ⟨s, hs, Nat.le_refl _⟩

theorem Grows.trans {st'' : Store} (h : Grows pid st st') (h' : Grows pid st' st'') :
    Grows pid st st'' where
  trace := h.trace.trans h'.trace
  appended := h.appended.trans h'.appended
  snapshot := by
    intro s hs
    obtain ⟨s', hs', hle⟩ := h.snapshot s hs
    obtain ⟨s'', hs'', hle'⟩ := h'.snapshot s' hs'
    exact ⟨s'', hs'', Nat.le_trans hle hle'⟩

theorem Grows.snapshotSeq_le (h : Grows pid st st') :
    snapshotSeq (st.journal.entryOf pid) ≤ snapshotSeq (st'.journal.entryOf pid) := by
  unfold snapshotSeq
  cases hs : (st.journal.entryOf pid).snapshot with
  | none => exact Nat.zero_le _
  | some s =>
      obtain ⟨s', hs', hle⟩ := h.snapshot s hs
      rw [Option.mem_def.mp hs']
      exact hle

theorem SnapshotAdmitted.mono {n : Nat} (h : SnapshotAdmitted pid st n)
    (hgrows : Grows pid st st') : SnapshotAdmitted pid st' n := by
  obtain ⟨bytes, hmem⟩ := h
  exact ⟨bytes, hgrows.trace.subset hmem⟩

theorem Stands.mono {p : Phase A} (h : Stands pid st p) (hgrows : Grows pid st st') :
    Stands pid st' p := by
  cases p with
  | compacting effect n =>
      exact ⟨h.1.mono hgrows, Nat.le_trans h.2 hgrows.snapshotSeq_le⟩
  | _ => trivial

/-- The next call of an instance: what it does to the log, and where the
instance is afterwards. -/
theorem Stage.call {self : Persistent A} {c : JournalCall} {k : c.Answer → Instance A}
    {fault : Option JournalError} {r : c.Answer} (h : Stage pid (Stands pid st) (.await self c k))
    (hx : st.answer c fault = some (r, st')) :
    LogStep pid st st' ∧ Stage pid (Stands pid st') (k r) := by
  have htrace := answer_trace hx
  cases h with
  | lookingUp =>
      obtain ⟨-, hsame⟩ := answer_latestSnapshot hx
      exact ⟨.same hsame, stage_afterLookup trivial trivial r⟩
  | replaying =>
      obtain ⟨-, hsame⟩ := answer_replay hx
      exact ⟨.same hsame, stage_afterReplay trivial _ _ r⟩
  | persisting hpid henc =>
      rcases answer_persist hx with ⟨rfl, -, hentry, happ⟩ | ⟨e, rfl, hsame, -⟩
      · refine ⟨.append _ hentry happ, stage_afterWrite ?_ trivial trivial⟩
        rw [foldl_fold_pid, hpid]
      · exact ⟨.same hsame, .returned hpid trivial⟩
  | @saving self effect bytes hpid =>
      subst hpid
      rcases answer_saveSnapshot hx with ⟨rfl, hn, hentry, happ⟩ | ⟨e, rfl, hsame⟩
      · refine ⟨.snapshot _ _ hn hentry happ, .compacting rfl ⟨⟨bytes, ?_⟩, ?_⟩⟩
        · rw [htrace]
          exact List.mem_append_right _ (List.mem_singleton_self _)
        · rw [hentry]
          exact Nat.le_refl _
      · exact ⟨.same hsame, .returned rfl trivial⟩
  | compacting hpid hc =>
      obtain ⟨hadmitted, hle⟩ := hc
      obtain ⟨hentry, happ⟩ := answer_deleteEventsBefore hx
      refine ⟨?_, .returned hpid trivial⟩
      rcases hentry with hentry | hentry
      · exact .compact _ hadmitted hle hentry happ
      · exact .same ⟨hentry, happ⟩

/-- A call keeps the log a cut of its history, and the log grows. -/
theorem LogStep.kept (h : LogStep pid st st') (htrace : st.trace <+: st'.trace)
    (hrep : ∃ cut, Represents (st.journal.entryOf pid) (st.appended pid) cut) :
    (∃ cut, Represents (st'.journal.entryOf pid) (st'.appended pid) cut) ∧
      Grows pid st st' := by
  obtain ⟨cut, hrep⟩ := hrep
  cases h with
  | same h =>
      refine ⟨⟨cut, ?_⟩, htrace, h.appended ▸ List.prefix_refl _, ?_⟩
      · rw [h.entry, h.appended]
        exact hrep
      · rw [h.entry]
        exact (Grows.refl pid st).snapshot
  | append bs hentry happ =>
      refine ⟨⟨cut, ?_⟩, htrace, ⟨bs, happ.symm⟩, ?_⟩
      · rw [hentry, happ]
        exact hrep.persist bs
      · rw [hentry]
        exact (Grows.refl pid st).snapshot
  | snapshot bytes n hn hentry happ =>
      refine ⟨⟨cut, ?_⟩, htrace, happ ▸ List.prefix_refl _, ?_⟩
      · rw [hentry, happ]
        exact hrep.saveSnapshot bytes hn
      · -- the snapshot replaced stood for a prefix of the log the new one stands for
        intro s hs
        refine ⟨(bytes, n), by rw [hentry]; rfl, ?_⟩
        have hsnap := hrep.snapLe
        rw [snapshotSeq, Option.mem_def.mp hs, ← hrep.lastSeq, hn] at hsnap
        exact hsnap
  | compact n hadmitted hle hentry happ =>
      refine ⟨⟨max cut n, ?_⟩, htrace, happ ▸ List.prefix_refl _, ?_⟩
      · rw [hentry, happ]
        exact hrep.deleteEventsBefore hle
      · rw [hentry]
        exact (Grows.refl pid st).snapshot

end Stages

/-! ## Worlds -/

/-- What every reachable world satisfies. -/
structure Kept (pid : PersistenceId) (w : World A) : Prop where
  log : ∃ cut, Represents (w.store.journal.entryOf pid) (w.store.appended pid) cut
  stages : PoolAll (Stage pid (Stands pid w.store)) w.instances

theorem kept_init (pid : PersistenceId) : Kept pid (World.init A) where
  log := ⟨0, Represents.new⟩
  stages := PoolAll.nil

/-- The step lemma. -/
theorem kept_step {pid : PersistenceId} {w w' : World A} {label : Label A} (h : Kept pid w)
    (hs : step pid w label = some w') : Kept pid w' ∧ Grows pid w.store w'.store := by
  cases label with
  | spawn =>
      cases hs
      exact ⟨⟨h.log, h.stages.snoc (stage_startUp trivial)⟩, Grows.refl _ _⟩
  | call i fault =>
      obtain ⟨self, c, k, r, st', hi, hans, rfl⟩ := step_call hs
      obtain ⟨hlog, hstage⟩ := (h.stages i _ hi).call hans
      obtain ⟨hrep, hgrows⟩ := hlog.kept ⟨_, (answer_trace hans).symm⟩ h.log
      have hstages := h.stages.mono fun t ht => ht.mono fun _ hc => Stands.mono hc hgrows
      exact ⟨⟨hrep, hstages.set i hstage⟩, hgrows⟩
  | command i effect =>
      obtain ⟨self, r, hi, -, rfl⟩ := step_command hs
      have hpid := (h.stages i _ hi).pid_eq
      have hstage : Stage pid (Stands pid w.store) (serveOne self effect) :=
        stage_serveOne hpid trivial fun _ => trivial
      exact ⟨⟨h.log, h.stages.set i hstage⟩, Grows.refl _ _⟩
  | drop i =>
      cases hs
      exact ⟨⟨h.log, h.stages.drop i⟩, Grows.refl _ _⟩

/-- The run lemma: the log grows from any point of a run to any later one. -/
theorem kept_run {pid : PersistenceId} (l : List (Label A)) {w w' : World A} (h : Kept pid w)
    (hrun : run (step pid) w l = some w') : Kept pid w' ∧ Grows pid w.store w'.store := by
  -- the invariant looks back to where the run began
  refine run_invariant_all (I := fun m => Kept pid m ∧ Grows pid w.store m.store) ?_ l
    ⟨h, Grows.refl _ _⟩ hrun
  rintro m label m' ⟨hkept, hgrows⟩ hm
  obtain ⟨hkept', hgrows'⟩ := kept_step hkept hm
  exact ⟨hkept', hgrows.trans hgrows'⟩

/-! ## The result -/

/-- The entry keeps a cut of the history: it ends at the number of events ever
appended, it retains those past some number with no gap, and that number is 0 or
covered by a snapshot taken no later than the end. -/
structure CutOf (e : Journal.Entry) (hist : List Bytes) : Prop where
  lastSeq : e.lastSeq = hist.length
  events : ∃ c, e.events = numbered c (hist.drop c) ∧ (c = 0 ∨ ∃ s ∈ e.snapshot, c ≤ s.2)
  snapshot : ∀ s ∈ e.snapshot, s.2 ≤ e.lastSeq

theorem Represents.cutOf {e : Journal.Entry} {hist : List Bytes} {cut : Nat}
    (h : Represents e hist cut) : CutOf e hist := by
  have hcut := h.cutLe
  have hsnap := h.snapLe
  refine ⟨h.lastSeq, ⟨cut, h.events, ?_⟩, fun s hs => ?_⟩
  · unfold snapshotSeq at hcut
    cases hs : e.snapshot with
    | none =>
        rw [hs] at hcut
        exact Or.inl (Nat.le_zero.mp hcut)
    | some s =>
        rw [hs] at hcut
        exact Or.inr ⟨s, rfl, hcut⟩
  · rw [snapshotSeq, Option.mem_def.mp hs] at hsnap
    rw [h.lastSeq]
    exact hsnap

/-- **The journal never loses or renumbers history.**  Between any two points of
any run — any number of instances, failing calls and dropped instances anywhere —
the entry is a cut of everything ever appended, its snapshot does not move back,
and a number assigned by the earlier point has the bytes it was assigned. -/
theorem history_kept (A : EventSourcedActor) (pid : PersistenceId) (l l' : List (Label A))
    (w w' : World A) (hrun : run (step pid) (World.init A) l = some w)
    (hrun' : run (step pid) w l' = some w') :
    CutOf (w'.store.journal.entryOf pid) (w'.store.appended pid) ∧
      (∀ s ∈ (w.store.journal.entryOf pid).snapshot,
        ∃ s' ∈ (w'.store.journal.entryOf pid).snapshot, s.2 ≤ s'.2) ∧
      ∀ n bytes, (n, bytes) ∈ (w'.store.journal.entryOf pid).events →
        n ≤ (w.store.appended pid).length → (w.store.appended pid)[n - 1]? = some bytes := by
  obtain ⟨hkept, -⟩ := kept_run l (kept_init pid) hrun
  obtain ⟨hkept', hgrows⟩ := kept_run l' hkept hrun'
  obtain ⟨cut, hrep⟩ := hkept'.log
  refine ⟨hrep.cutOf, hgrows.snapshot, fun n bytes hmem hn => ?_⟩
  rw [hrep.events, mem_numbered] at hmem
  obtain ⟨hlt, hget⟩ := hmem
  rw [List.getElem?_drop, show cut + (n - cut - 1) = n - 1 by omega] at hget
  obtain ⟨later, hlater⟩ := hgrows.appended
  rw [← hlater, List.getElem?_append_left (by omega)] at hget
  exact hget

/-- Two instances over one log: the second appends between the first one's
snapshot and its compaction. -/
def lateCompaction : List (Label tally) :=
  [.spawn, .call 0 none, .call 0 none, .command 0 { events := [(1 : Nat)], snapshot := true },
    .call 0 none, .call 0 none, .spawn, .call 1 none, .call 1 none,
    .command 1 { events := [(2 : Nat)] }, .call 1 none]

theorem history_kept_lateCompaction :
    ∃ w w', run (step ⟨"Tally", "1"⟩) (World.init tally) lateCompaction = some w ∧
      run (step ⟨"Tally", "1"⟩) w [.call 0 none] = some w' ∧
      (w'.store.journal.entryOf ⟨"Tally", "1"⟩).events = [(2, [2])] ∧
      CutOf (w'.store.journal.entryOf ⟨"Tally", "1"⟩) (w'.store.appended ⟨"Tally", "1"⟩) :=
  ⟨_, _, rfl, rfl, rfl, (history_kept tally _ lateCompaction [.call 0 none] _ _ rfl rfl).1⟩

end HorsieActor.Ports.Persistent
