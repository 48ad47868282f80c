import HorsieActor.Ports.PersistentLog

/-!
# Live state and recovery agree

One incarnation at a time, nobody else writing.  Each of them recovers, serves
commands whose effects may be anything, and ends wherever it ends: stopped, or
dropped between two journal calls.  Writes may fail, events and states may not
encode.  After every completed `handle` the state in memory is what `recover`
would rebuild from the journal at that moment, which is the fold of exactly the
batches that were persisted (`recovery_agrees`).

With one incarnation at a time the environment does nothing, so the contract of
an instance (`alone`) relies on equality and the judgement of
`HorsieActor.Verified.Task` is a Hoare triple: `alone_recover`,
`alone_persistEvents`, `alone_snapshotState` and `alone_handle` are the
specifications of the four source functions, and `Sole` carries them over every
schedule of incarnations.
-/

namespace HorsieActor.Ports.Persistent

open HorsieActor.Verified
open HorsieActor.Verified.Schedule
open HorsieActor.Ports.Journal

variable {A : EventSourcedActor}

/-! ## The property -/

/-- What `recover` returns from a journal nobody else is using. -/
def recovered (A : EventSourcedActor) (pid : PersistenceId) (j : InMemoryJournal) :
    JournalResult (A.State × Nat) :=
  ((recover A pid (Persistent.new A pid)).drive (fun c j => j.answer c) j).2.1

/-- Some persist returned `Ok` since the store was `st`. -/
def persistedSince (st st' : Store) : Bool :=
  (st'.trace.drop st.trace.length).any Answered.persistedOk

/-- What one completed `handle` leaves behind, against the store and the
instance it started from. -/
structure Agreement (pid : PersistenceId) (effect : CommandEffect A.Event) (st : Store)
    (inst : Persistent A) (st' : Store) (inst' : Persistent A) (h : Handled A) : Prop where
  recovers : recovered A pid st'.journal = .ok (inst'.state, inst'.seqNr)
  folds : foldLog A (st'.appended pid) = .ok inst'.state
  counts : (st'.appended pid).length = inst'.seqNr
  acks : h.acked.map Prod.fst = effect.ack
  acked : ∀ ack result, h.acked = some (ack, result) →
    (result = .ok () ↔ persistedSince st st' = true)
  failed : persistedSince st st' = false → inst' = inst ∧ SameLog pid st st'

/-- The instance may still act: it awaits a call, or it is ready for a
command. -/
def live : Instance A → Bool
  | .done _ r => r.ready
  | .await _ _ _ => true

/-- A new incarnation starts only when every earlier one is over. -/
def OneAtATime (w : World A) (label : Label A) : Prop :=
  label.isSpawn = true → ∀ slot ∈ w.instances, ∀ t ∈ slot, live t = false

instance (w : World A) (label : Label A) : Decidable (OneAtATime w label) :=
  inferInstanceAs (Decidable (_ → _))

/-- Instance `i` is in the middle of starting or of a `handle`. -/
def awaiting (w : World A) (i : Nat) : Bool :=
  match w.instances[i]? with
  | some (some (.await _ _ _)) => true
  | _ => false

/-- The step is taken while instance `i` is in the middle of a `handle`. -/
def During (i : Nat) (w : World A) (label : Label A) : Prop :=
  OneAtATime w label ∧ awaiting w i = true

instance (i : Nat) (w : World A) (label : Label A) : Decidable (During i w label) :=
  inferInstanceAs (Decidable (_ ∧ _))

/-! ## Logs and instances that are up to date -/

/-- A log in order whose whole history decodes. -/
structure SoundLog (A : EventSourcedActor) (pid : PersistenceId) (st : Store) : Prop where
  inv : LogInv A pid st
  folds : ∃ state, foldLog A (st.appended pid) = .ok state

/-- The instance holds the fold of the whole log, and its length. -/
structure Current (A : EventSourcedActor) (pid : PersistenceId) (st : Store)
    (inst : Persistent A) : Prop where
  inv : LogInv A pid st
  named : inst.pid = pid
  folds : foldLog A (st.appended pid) = .ok inst.state
  counts : inst.seqNr = (st.appended pid).length

section Proof

variable {pid : PersistenceId} {st st' st₀ : Store} {self self₀ : Persistent A}

theorem Current.sound (h : Current A pid st self) : SoundLog A pid st :=
  ⟨h.inv, _, h.folds⟩

theorem Current.held (h : Current A pid st self) : Held A pid st self.state self.seqNr where
  le := Nat.le_of_eq h.counts
  fold := by rw [h.counts, List.take_length]; exact h.folds

theorem SoundLog.of_same (h : SoundLog A pid st) (hs : SameLog pid st st') :
    SoundLog A pid st' where
  inv := h.inv.of_same hs
  folds := by rw [hs.appended]; exact h.folds

/-- A store with the same history is one the instance is still current for. -/
theorem Current.of_appended (h : Current A pid st self) (hInv : LogInv A pid st')
    (happ : st'.appended pid = st.appended pid) : Current A pid st' self where
  inv := hInv
  named := h.named
  folds := by rw [happ]; exact h.folds
  counts := by rw [happ]; exact h.counts

theorem Current.of_same (h : Current A pid st self) (hs : SameLog pid st st') :
    Current A pid st' self :=
  h.of_appended (h.inv.of_same hs) hs.appended

/-! ### What recovery reads -/

/-- The snapshot of a log in order decodes, and stands for the prefix it says. -/
theorem startFrom_sound (hInv : LogInv A pid st) :
    ∃ state, startFrom A (st.journal.entryOf pid).snapshot =
        .ok (state, snapshotSeq (st.journal.entryOf pid)) := by
  obtain ⟨-, hsound⟩ := hInv
  cases hsnap : (st.journal.entryOf pid).snapshot with
  | none => exact ⟨A.initialState, by simp [startFrom, snapshotSeq, hsnap]⟩
  | some snap =>
      obtain ⟨b, n⟩ := snap
      obtain ⟨state, hd, -⟩ := hsound b n hsnap
      exact ⟨state, by simp [startFrom, snapshotSeq, hsnap, hd]⟩

/-- From the snapshot of a log in order, the replay reads the rest. -/
theorem drain_sound {state folded : A.State} (hInv : LogInv A pid st)
    (hf : foldLog A (st.appended pid) = .ok folded)
    (hs : startFrom A (st.journal.entryOf pid).snapshot =
      .ok (state, snapshotSeq (st.journal.entryOf pid))) :
    drainReplay A state (snapshotSeq (st.journal.entryOf pid))
        (((st.journal.entryOf pid).events.filter fun p =>
          decide (snapshotSeq (st.journal.entryOf pid) < p.1)).map Except.ok) =
      .ok (folded, (st.appended pid).length) := by
  have hHeld := startFrom_held hInv hs
  obtain ⟨⟨cut, hrep⟩, -⟩ := hInv
  rw [drain_whole hrep hHeld hrep.cutLe, hf]

theorem recovered_eq (pid : PersistenceId) (j : InMemoryJournal) :
    recovered A pid j =
      match startFrom A (j.entryOf pid).snapshot with
      | .error e => .error e
      | .ok (state, seqNr) =>
          drainReplay A state seqNr
            (((j.entryOf pid).events.filter fun p => decide (seqNr < p.1)).map Except.ok) := by
  have hsnap : (j.answer (.latestSnapshot pid)).1 = .ok (j.entryOf pid).snapshot :=
    InMemoryJournal.latestSnapshot_eq j pid
  unfold recovered recover
  simp only [Async.bind_apply, Async.call_apply, Task.bind_await, Task.bind_done, Task.drive,
    hsnap]
  cases startFrom A (j.entryOf pid).snapshot with
  | error e => rfl
  | ok start =>
      obtain ⟨state, seqNr⟩ := start
      exact congrArg (drainReplay A state seqNr) (InMemoryJournal.replay_eq j pid seqNr)

/-- Recovery rebuilds exactly what an up-to-date instance holds. -/
theorem Current.recovers (h : Current A pid st self) :
    recovered A pid st.journal = .ok (self.state, self.seqNr) := by
  obtain ⟨state, hs⟩ := startFrom_sound h.inv
  rw [recovered_eq, hs, h.counts]
  exact drain_sound h.inv h.folds hs

/-! ## The contract of an instance that runs alone -/

def alone (A : EventSourcedActor) (pid : PersistenceId) :
    Contract (Persistent A) JournalCall JournalCall.Answer Store where
  exec c st r st' := ∃ fault, st.answer c fault = some (r, st')
  rely := Eq
  guarantee _ st' := SoundLog A pid st'
  enabled _ _ _ := True
  before _ _ _ := True

theorem alone_lawful (pid : PersistenceId) : (alone A pid).Lawful where
  refl _ := rfl
  trans := Eq.trans

variable {α : Type} {Q : Store → Persistent A → α → Prop}

theorem alone_done {a : α} (h : Q st self a) : Safe (alone A pid) Q st (.done self a) := by
  rintro _ rfl
  exact h

theorem alone_await {c : JournalCall} {k : c.Answer → JournalTask A α}
    (h : ∀ fault r st', st.answer c fault = some (r, st') →
      SoundLog A pid st' ∧ Safe (alone A pid) Q st' (k r)) :
    Safe (alone A pid) Q st (.await self c k) := by
  rintro _ rfl
  refine ⟨trivial, fun _ r st' hx => ?_⟩
  obtain ⟨fault, hx⟩ := hx
  exact h fault r st' hx

theorem alone_recover (h : SoundLog A pid st) {folded : A.State}
    (hf : foldLog A (st.appended pid) = .ok folded) :
    Safe (alone A pid)
      (fun st' s r => SameLog pid st st' ∧ s = self ∧
        r = .ok (folded, (st.appended pid).length))
      st (recover A pid self) := by
  obtain ⟨state, hs⟩ := startFrom_sound h.inv
  refine alone_await fun fault r st₁ hx => ?_
  obtain ⟨rfl, hsame⟩ := answer_latestSnapshot hx
  refine ⟨h.of_same hsame, ?_⟩
  simp only [Task.bind_done, hs]
  refine alone_await fun fault r st₂ hx => ?_
  obtain ⟨rfl, hsame'⟩ := answer_replay hx
  have hboth : SameLog pid st st₂ :=
    ⟨hsame'.entry.trans hsame.entry, hsame'.appended.trans hsame.appended⟩
  refine ⟨h.of_same hboth, alone_done ⟨hboth, rfl, ?_⟩⟩
  rw [hsame.entry]
  exact drain_sound h.inv hf hs

/-- Start-up always succeeds, and ends up to date. -/
theorem alone_onStart (h : SoundLog A pid st) (hpid : self.pid = pid) :
    Safe (alone A pid) (fun st s r => Current A pid st s ∧ r = .ok ()) st (onStart self) := by
  obtain ⟨folded, hf⟩ := h.folds
  simp only [onStart, Async.bind_apply, Async.get_apply, Task.bind_done, hpid]
  refine safe_bind (alone_lawful pid) ?_ _ _ (alone_recover h hf)
  rintro st₁ s r ⟨hsame, rfl, rfl⟩
  refine alone_done ⟨?_, rfl⟩
  exact
    { inv := h.inv.of_same hsame
      named := hpid
      folds := by rw [hsame.appended]; exact hf
      counts := by rw [hsame.appended] }

/-! ### One command -/

/-- How a command's write came out, against where the command started: the
result says whether a persist went through, and a write that failed left
everything as it was. -/
structure Written (pid : PersistenceId) (st₀ : Store) (inst₀ : Persistent A) (st : Store)
    (inst : Persistent A) (result : JournalResult Unit) : Prop where
  current : Current A pid st inst
  made : ∃ made, st.trace = st₀.trace ++ made ∧
    (result = .ok () ↔ made.any Answered.persistedOk = true)
  failed : result ≠ .ok () → inst = inst₀ ∧ SameLog pid st₀ st

theorem Written.since {result : JournalResult Unit}
    (h : Written pid st₀ self₀ st self result) :
    result = .ok () ↔ persistedSince st₀ st = true := by
  obtain ⟨made, htrace, hmade⟩ := h.made
  rw [persistedSince, htrace, List.drop_left]
  exact hmade

theorem alone_persistEvents (hA : A.RoundTrips) (events : List A.Event)
    (h : Current A pid st self) :
    Safe (alone A pid) (fun st' s r => Written pid st self st' s r.2) st
      (persistEvents events self) := by
  unfold persistEvents
  cases henc : encodeAll A events with
  | error e =>
      refine alone_done ⟨h, ⟨[], by simp, ?_⟩, fun _ => ⟨rfl, SameLog.refl pid st⟩⟩
      simp
  | ok bs =>
      simp only [Async.bind_apply, Async.get_apply, Task.bind_done, h.named]
      refine alone_await fun fault r st' hx => ?_
      have htrace := answer_trace hx
      rcases answer_persist hx with ⟨rfl, hn, hentry, happ⟩ | ⟨e, rfl, hsame, -⟩
      · obtain ⟨hkept, hpid', hHeld'⟩ :=
          persist_keeps hA h.inv h.named h.held henc hn hentry happ
        have hfold := foldFrom_encodeAll hA self henc
        have hcur : Current A pid st' (events.foldl Persistent.fold self) :=
          { inv := hkept.inv
            named := hpid'
            folds := by rw [happ, foldLog_append h.folds]; exact hfold
            counts := by
              rw [foldl_fold_seqNr, happ, List.length_append, length_encodeAll henc, h.counts] }
        refine ⟨hcur.sound, alone_done ⟨hcur, ⟨_, htrace, ?_⟩, fun hne => absurd rfl hne⟩⟩
        simp [Answered.persistedOk]
      · have hcur : Current A pid st' self := h.of_same hsame
        refine ⟨hcur.sound, alone_done ⟨hcur, ⟨_, htrace, ?_⟩, fun _ => ⟨rfl, hsame⟩⟩⟩
        simp [Answered.persistedOk]

/-- A call after the write that is not itself a persist, and leaves the
instance up to date, changes nothing about how the write came out. -/
theorem Written.snoc {c : JournalCall} {fault : Option JournalError} {r : c.Answer}
    (h : Written pid st₀ self₀ st self (.ok ()))
    (hx : st.answer c fault = some (r, st')) (hc : Answered.persistedOk ⟨c, r⟩ = false)
    (hcur : Current A pid st' self) : Written pid st₀ self₀ st' self (.ok ()) := by
  obtain ⟨made, htrace, hmade⟩ := h.made
  refine ⟨hcur, ⟨made ++ [⟨c, r⟩], ?_, ?_⟩, fun hne => absurd rfl hne⟩
  · rw [answer_trace hx, htrace, List.append_assoc]
  · rw [List.any_append, List.any_cons, hc]
    simpa using hmade

theorem alone_snapshotState (hA : A.RoundTrips) (h : Written pid st₀ self₀ st self (.ok ())) :
    Safe (alone A pid) (fun st' s _ => Written pid st₀ self₀ st' s (.ok ())) st
      (snapshotState self) := by
  have hcur := h.current
  unfold snapshotState
  simp only [Async.bind_apply, Async.get_apply, Task.bind_done, hcur.named]
  cases henc : A.encodeState self.state with
  | error e => exact alone_done h
  | ok b =>
      refine alone_await fun fault r st₁ hx => ?_
      rcases answer_saveSnapshot hx with ⟨rfl, hn, hentry, happ⟩ | ⟨e, rfl, hsame⟩
      · have hkept := saveSnapshot_keeps hA hcur.inv hcur.held henc hn hentry happ
        have hcur₁ := hcur.of_appended hkept.inv happ
        have h₁ := h.snoc hx rfl hcur₁
        refine ⟨hcur₁.sound, alone_await fun fault r st₂ hx => ?_⟩
        obtain ⟨hentry', happ'⟩ := answer_deleteEventsBefore hx
        have hle : self.seqNr ≤ snapshotSeq (st₁.journal.entryOf pid) := by
          rw [hentry]
          exact Nat.le_refl _
        have hkept' := deleteEventsBefore_keeps hcur₁.inv hle hentry' happ'
        have hcur₂ := hcur₁.of_appended hkept'.inv happ'
        exact ⟨hcur₂.sound, alone_done (h₁.snoc hx rfl hcur₂)⟩
      · have hcur₁ := hcur.of_same hsame
        exact ⟨hcur₁.sound, alone_done (h.snoc hx rfl hcur₁)⟩

theorem alone_handle (hA : A.RoundTrips) (effect : CommandEffect A.Event)
    (h : Current A pid st self) :
    Safe (alone A pid)
      (fun st' s r => ∃ result, Written pid st self st' s result ∧
        r.acked = effect.ack.map fun ack => (ack, result))
      st (handle effect self) := by
  unfold handle
  simp only [Async.bind_apply]
  refine safe_bind (alone_lawful pid) ?_ _ _ (alone_persistEvents hA effect.events h)
  rintro st₁ s ⟨persisted, result⟩ h₁
  by_cases hsnap : (effect.snapshot && result.isOk && !effect.stop) = true
  · -- a snapshot is attempted only after a write that went through
    have hok : result = .ok () := by
      cases result with
      | ok u => rfl
      | error e => simp [Except.isOk, Except.toBool] at hsnap
    subst hok
    simp only [hsnap, if_true, Async.bind_apply]
    refine safe_bind (alone_lawful pid) ?_ _ _ (alone_snapshotState hA h₁)
    intro st₂ s₂ _ h₂
    exact alone_done ⟨_, h₂, rfl⟩
  · simp only [hsnap]
    exact alone_done ⟨_, h₁, rfl⟩

theorem alone_startUp (h : SoundLog A pid st) :
    Safe (alone A pid) (fun st s _ => Current A pid st s) st (startUp A pid) := by
  refine safe_bind (alone_lawful pid) ?_ _ _ (alone_onStart h rfl)
  rintro st₁ s r ⟨hcur, -⟩
  exact alone_done hcur

/-- What a command's task ends in. -/
def Ended (pid : PersistenceId) (effect : CommandEffect A.Event) (st₀ : Store)
    (inst₀ : Persistent A) (st : Store) (inst : Persistent A) (r : Returned A) : Prop :=
  ∃ h result, r = .handled h ∧ Written pid st₀ inst₀ st inst result ∧
    h.acked = effect.ack.map fun ack => (ack, result)

theorem alone_serveOne (hA : A.RoundTrips) (effect : CommandEffect A.Event)
    (h : Current A pid st self) :
    Safe (alone A pid) (Ended pid effect st self) st (serveOne self effect) := by
  refine safe_bind (alone_lawful pid) ?_ _ _ (alone_handle hA effect h)
  rintro st₁ s handled ⟨result, hw, hack⟩
  exact alone_done ⟨handled, result, rfl, hw, hack⟩

theorem Ended.agreement {effect : CommandEffect A.Event} {handled : Handled A}
    (h : Ended pid effect st₀ self₀ st self (.handled handled)) :
    Agreement pid effect st₀ self₀ st self handled := by
  obtain ⟨_, result, hr, hw, hack⟩ := h
  cases hr
  refine
    { recovers := hw.current.recovers
      folds := hw.current.folds
      counts := hw.current.counts.symm
      acks := ?_
      acked := ?_
      failed := ?_ }
  · rw [hack]
    cases effect.ack <;> rfl
  · intro ack result' h'
    rw [hack] at h'
    obtain ⟨_, -, heq⟩ := Option.map_eq_some_iff.mp h'
    cases heq
    exact hw.since
  · intro hnone
    refine hw.failed fun hok => ?_
    rw [hw.since.mp hok] at hnone
    cases hnone

/-! ## One incarnation at a time -/

/-- What every world reached by one incarnation at a time satisfies: at most
one instance may still act, and that one is up to date whenever it is between
commands. -/
structure Sole (pid : PersistenceId) (w : World A) : Prop where
  log : SoundLog A pid w.store
  one : ∀ {i j : Nat} {t u : Instance A}, w.instances[i]? = some (some t) →
    w.instances[j]? = some (some u) → live t = true → live u = true → i = j
  safe : ∀ {i : Nat} {t : Instance A}, w.instances[i]? = some (some t) → live t = true →
    Safe (alone A pid) (fun st s _ => Current A pid st s) w.store t

theorem sole_init (pid : PersistenceId) : Sole pid (World.init A) where
  log := ⟨⟨⟨0, Represents.new⟩, fun _ _ h => nomatch h⟩, A.initialState, rfl⟩
  one h := by simp [World.init] at h
  safe h := by simp [World.init] at h

/-- Replacing the one live instance by what it becomes keeps it the only one. -/
theorem Sole.set {w : World A} (h : Sole pid w) {i : Nat} {t t' : Instance A}
    (hi : w.instances[i]? = some (some t)) (ht : live t = true) (hlog : SoundLog A pid st)
    (hsafe : Safe (alone A pid) (fun st s _ => Current A pid st s) st t') :
    Sole pid { store := st, instances := w.instances.set i (some t') } := by
  have honly : ∀ {j : Nat} {u : Instance A},
      (w.instances.set i (some t'))[j]? = some (some u) → live u = true → j = i := by
    intro j u hj hu
    by_cases hji : j = i
    · exact hji
    · rw [List.getElem?_set_ne (Ne.symm hji)] at hj
      exact h.one hj hi hu ht
  refine ⟨hlog, fun ha hb hta htb => (honly ha hta).trans (honly hb htb).symm, ?_⟩
  intro j u hj hu
  cases honly hj hu
  rw [List.getElem?_set_self (List.getElem?_eq_some_iff.mp hi).1] at hj
  cases hj
  exact hsafe

/-- The step lemma: one label, whichever it is. -/
theorem sole_step (hA : A.RoundTrips) (w : World A) (label : Label A) (w' : World A)
    (h : Sole pid w) (hone : OneAtATime w label) (hs : step pid w label = some w') :
    Sole pid w' := by
  cases label with
  | spawn =>
      cases hs
      -- every earlier instance is over, so the new one is the only live one
      have hlast : ∀ {j : Nat} {u : Instance A},
          (w.instances ++ [some (startUp A pid)])[j]? = some (some u) → live u = true →
          j = w.instances.length ∧ u = startUp A pid := by
        intro j u hj hu
        rw [List.getElem?_append] at hj
        split at hj
        · have hdead := hone rfl _ (List.mem_of_getElem? hj) u rfl
          rw [hu] at hdead
          cases hdead
        · rw [List.getElem?_singleton] at hj
          split at hj
          · cases hj
            exact ⟨by omega, rfl⟩
          · cases hj
      refine ⟨h.log, ?_, ?_⟩
      · intro i j t u hi hj ht hu
        rw [(hlast hi ht).1, (hlast hj hu).1]
      · intro i t hi ht
        rw [(hlast hi ht).2]
        exact alone_startUp h.log
  | call i fault =>
      obtain ⟨self, c, k, r, st', hi, hans, rfl⟩ := step_call hs
      obtain ⟨hlog, hsafe⟩ :=
        safe_call (alone_lawful pid) (h.safe hi rfl) trivial ⟨fault, hans⟩
      exact h.set hi rfl hlog hsafe
  | command i effect =>
      obtain ⟨self, r, hi, hready, rfl⟩ := step_command hs
      have hcur : Current A pid w.store self :=
        safe_done (alone_lawful pid) (h.safe hi hready)
      refine h.set hi hready h.log ?_
      refine safe_mono ?_ (alone_serveOne hA effect hcur)
      rintro st s r ⟨_, _, -, hw, -⟩
      exact hw.current
  | drop i =>
      cases hs
      have hkept : ∀ {j : Nat} {u : Instance A}, (w.instances.set i none)[j]? = some (some u) →
          w.instances[j]? = some (some u) := by
        intro j u hj
        rw [List.getElem?_set] at hj
        split at hj
        · split at hj <;> cases hj
        · exact hj
      exact ⟨h.log, fun hi hj => h.one (hkept hi) (hkept hj), fun hi => h.safe (hkept hi)⟩

theorem awaiting_iff {w : World A} {i : Nat} :
    awaiting w i = true ↔ ∃ self c k, w.instances[i]? = some (some (.await self c k)) := by
  unfold awaiting
  constructor
  · intro h
    split at h
    · rename_i self c k hi
      exact ⟨self, c, k, hi⟩
    · cases h
  · rintro ⟨self, c, k, hi⟩
    rw [hi]

/-- While instance `i` handles a command, no other instance acts, so what its
task owes from here on is not disturbed. -/
theorem tracked_step (hA : A.RoundTrips) {i : Nat}
    {Q : Store → Persistent A → Returned A → Prop} (w : World A) (label : Label A)
    (w' : World A)
    (h : Sole pid w ∧ ∀ t, w.instances[i]? = some (some t) → Safe (alone A pid) Q w.store t)
    (hd : During i w label) (hs : step pid w label = some w') :
    Sole pid w' ∧ ∀ t, w'.instances[i]? = some (some t) → Safe (alone A pid) Q w'.store t := by
  obtain ⟨hsole, htrack⟩ := h
  obtain ⟨hone, hwait⟩ := hd
  obtain ⟨self, c, k, hi⟩ := awaiting_iff.mp hwait
  refine ⟨sole_step hA w label w' hsole hone hs, ?_⟩
  intro t ht
  cases label with
  | spawn =>
      have hdead := hone rfl _ (List.mem_of_getElem? hi) _ rfl
      cases hdead
  | call j fault =>
      obtain ⟨self', c', k', r, st', hj, hans, rfl⟩ := step_call hs
      cases hsole.one hj hi rfl rfl
      rw [hi] at hj
      cases hj
      rw [List.getElem?_set_self (List.getElem?_eq_some_iff.mp hi).1] at ht
      cases ht
      exact (safe_call (alone_lawful pid) (htrack _ hi) trivial ⟨fault, hans⟩).2
  | command j effect =>
      obtain ⟨self', r, hj, hready, rfl⟩ := step_command hs
      cases hsole.one hj hi hready rfl
      rw [hi] at hj
      cases hj
  | drop j =>
      cases hs
      by_cases hji : j = i
      · subst hji
        rw [List.getElem?_set_self (List.getElem?_eq_some_iff.mp hi).1] at ht
        cases ht
      · rw [List.getElem?_set_ne hji] at ht
        exact htrack t ht

end Proof

/-- **Live state and recovery agree.**  Take any schedule of one incarnation at
a time, any command given to the instance it leaves ready, and anything that
can happen until that command's `handle` has completed. -/
theorem recovery_agrees (hA : A.RoundTrips) (pid : PersistenceId) (l : List (Label A))
    (w : World A) (hrun : run (step pid) (World.init A) l = some w)
    (hone : Along (step pid) OneAtATime (World.init A) l) (i : Nat) (self : Persistent A)
    (r : Returned A) (hi : w.instances[i]? = some (some (.done self r)))
    (effect : CommandEffect A.Event) (w₁ : World A)
    (hcmd : step pid w (.command i effect) = some w₁) (l₁ : List (Label A)) (w' : World A)
    (hrun₁ : run (step pid) w₁ l₁ = some w') (hduring : Along (step pid) (During i) w₁ l₁)
    (self' : Persistent A) (handled : Handled A)
    (hdone : w'.instances[i]? = some (some (.done self' (.handled handled)))) :
    Agreement pid effect w.store self w'.store self' handled := by
  have hsole : Sole pid w :=
    run_invariant (fun w label w' => sole_step hA w label w') l (sole_init pid) hone hrun
  have hsole₁ : Sole pid w₁ := sole_step hA w (.command i effect) w₁ hsole nofun hcmd
  obtain ⟨self₀, r₀, hi₀, hready, rfl⟩ := step_command hcmd
  rw [hi] at hi₀
  cases hi₀
  have hcur : Current A pid w.store self := safe_done (alone_lawful pid) (hsole.safe hi hready)
  have hstart : ∀ t, (w.instances.set i (some (serveOne self effect)))[i]? = some (some t) →
      Safe (alone A pid) (Ended pid effect w.store self) w.store t := by
    intro t ht
    rw [List.getElem?_set_self (List.getElem?_eq_some_iff.mp hi).1] at ht
    cases ht
    exact alone_serveOne hA effect hcur
  obtain ⟨-, hend⟩ := run_invariant (fun w label w' => tracked_step hA w label w') l₁
    ⟨hsole₁, hstart⟩ hduring hrun₁
  exact (safe_done (alone_lawful pid) (hend _ hdone)).agreement

/-- An incarnation persists a batch and is dropped before it answers; the next
one recovers. -/
def afterCrash : List (Label tally) :=
  [.spawn, .call 0 none, .call 0 none, .command 0 { events := [(1 : Nat)] }, .call 0 none,
    .command 0 { events := [(2 : Nat)], snapshot := true, ack := some 7 }, .call 0 none,
    .drop 0, .spawn, .call 1 none, .call 1 none]

theorem recovery_agrees_afterCrash :
    ∃ w w' self', run (step ⟨"Tally", "1"⟩) (World.init tally) afterCrash = some w ∧
      run (step ⟨"Tally", "1"⟩) w
        [.command 1 { events := [(4 : Nat)], snapshot := true, ack := some 8 },
          .call 1 none, .call 1 none, .call 1 (some (.backend "disk full"))] = some w' ∧
      Agreement (A := tally) ⟨"Tally", "1"⟩
        { events := [(4 : Nat)], snapshot := true, ack := some 8 } w.store
        ⟨⟨"Tally", "1"⟩, (3 : Nat), 2⟩ w'.store self'
        ⟨some [(4 : Nat)], some (8, .ok ()), .continue⟩ :=
  ⟨_, _, _, rfl, rfl,
    recovery_agrees tally_roundTrips _ afterCrash _ rfl (by decide) 1 _ (.started (.ok ())) rfl
      { events := [(4 : Nat)], snapshot := true, ack := some 8 } _ rfl
      [.call 1 none, .call 1 none, .call 1 (some (.backend "disk full"))] _ rfl (by decide)
      ⟨⟨"Tally", "1"⟩, (7 : Nat), 3⟩ _ rfl⟩

end HorsieActor.Ports.Persistent
