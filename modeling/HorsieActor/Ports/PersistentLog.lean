import HorsieActor.Ports.Persistent

/-!
# What a log says: histories, folds and cuts

A log is described by the history of everything ever appended to it.  The
journal's entry keeps only part of that — the suffix past a compaction cut, and
a snapshot standing for a prefix — and `Represents` says how the two are
related.  It is a statement about numbers and bytes, so it holds of any writers
whatever they hold; `SnapshotSound` adds that the snapshot's bytes are the fold
of the prefix they stand for.

The rest of the file is one lemma for each of the five calls a `Persistent`
instance makes: what the answer says, and what becomes of the entry and the
history.  Every proof about instances goes through these five and never unfolds
the journal again.

## Main results

* `drainReplay_numbered` — recovery's loop over consecutive numbers is the
  fold, and it ends at the number of the last event.
* `Represents.persist`, `Represents.saveSnapshot`,
  `Represents.deleteEventsBefore` — the three writes keep entry and history in
  step.
* `answer_persist`, `answer_saveSnapshot`, `answer_deleteEventsBefore`,
  `answer_latestSnapshot`, `answer_replay` — the calls over a store whose
  writes may fail without effect.
-/

namespace HorsieActor.Ports.Persistent

open HorsieActor.Verified
open HorsieActor.Ports.Journal

variable {A : EventSourcedActor}

/-! ## The fold -/

/-- Fold encoded events into a state. -/
def foldFrom (A : EventSourcedActor) : A.State → List Bytes → Except String A.State
  | state, [] => .ok state
  | state, bytes :: rest =>
      match A.decodeEvent bytes with
      | .error e => .error e
      | .ok event => foldFrom A (A.applyEvent state event) rest

/-- The fold of `apply_event` from `initial_state` over a history. -/
def foldLog (A : EventSourcedActor) (hist : List Bytes) : Except String A.State :=
  foldFrom A A.initialState hist

theorem foldFrom_append (xs ys : List Bytes) :
    ∀ state, foldFrom A state (xs ++ ys) =
      match foldFrom A state xs with
      | .error e => .error e
      | .ok state' => foldFrom A state' ys := by
  induction xs with
  | nil => intro state; rfl
  | cons b bs ih =>
      intro state
      simp only [List.cons_append, foldFrom]
      cases A.decodeEvent b with
      | error e => rfl
      | ok event => exact ih _

theorem foldLog_append {xs ys : List Bytes} {state : A.State}
    (h : foldLog A xs = .ok state) : foldLog A (xs ++ ys) = foldFrom A state ys := by
  have h' : foldFrom A A.initialState xs = .ok state := h
  rw [foldLog, foldFrom_append, h']

/-- Recovery's loop over consecutively numbered events is the fold, and its
counter ends at the number of the last one. -/
theorem drainReplay_numbered (bs : List Bytes) :
    ∀ (state : A.State) (n : Nat),
      drainReplay A state n ((numbered n bs).map Except.ok) =
        match foldFrom A state bs with
        | .error e => .error (.serialization e)
        | .ok state' => .ok (state', n + bs.length) := by
  induction bs with
  | nil => intro state n; rfl
  | cons b bs ih =>
      intro state n
      simp only [numbered, List.map_cons, drainReplay, foldFrom]
      cases A.decodeEvent b with
      | error e => rfl
      | ok event =>
          dsimp only
          rw [ih, List.length_cons, show n + 1 + bs.length = n + (bs.length + 1) by omega]

/-! ## A batch in memory and on the wire -/

theorem length_encodeAll {events : List A.Event} :
    ∀ {bs : List Bytes}, encodeAll A events = .ok bs → bs.length = events.length := by
  induction events with
  | nil => intro bs h; cases h; rfl
  | cons event rest ih =>
      intro bs h
      simp only [encodeAll] at h
      cases he : A.encodeEvent event with
      | error e => rw [he] at h; cases h
      | ok b =>
          cases hr : encodeAll A rest with
          | error e => rw [he, hr] at h; cases h
          | ok encoded =>
              rw [he, hr] at h
              cases h
              rw [List.length_cons, List.length_cons, ih hr]

/-- Folding a batch live and folding its encoding agree. -/
theorem foldFrom_encodeAll (hA : A.RoundTrips) {events : List A.Event} :
    ∀ {bs : List Bytes} (self : Persistent A), encodeAll A events = .ok bs →
      foldFrom A self.state bs = .ok (events.foldl Persistent.fold self).state := by
  induction events with
  | nil => intro bs self h; cases h; rfl
  | cons event rest ih =>
      intro bs self h
      simp only [encodeAll] at h
      cases he : A.encodeEvent event with
      | error e => rw [he] at h; cases h
      | ok b =>
          cases hr : encodeAll A rest with
          | error e => rw [he, hr] at h; cases h
          | ok encoded =>
              rw [he, hr] at h
              cases h
              have hd : A.decodeEvent b = .ok event := hA.event he
              simp only [foldFrom, hd, List.foldl_cons]
              exact ih (self.fold event) hr

theorem foldl_fold_seqNr (events : List A.Event) :
    ∀ self : Persistent A,
      (events.foldl Persistent.fold self).seqNr = self.seqNr + events.length := by
  induction events with
  | nil => intro self; rfl
  | cons event rest ih =>
      intro self
      rw [List.foldl_cons, ih, List.length_cons]
      show self.seqNr + 1 + rest.length = _
      omega

theorem foldl_fold_pid (events : List A.Event) :
    ∀ self : Persistent A, (events.foldl Persistent.fold self).pid = self.pid := by
  induction events with
  | nil => intro self; rfl
  | cons event rest ih => intro self; exact ih (self.fold event)

/-! ## Entries and histories -/

/-- The number of the stored snapshot, `0` when there is none. -/
def snapshotSeq (e : Journal.Entry) : Nat :=
  match e.snapshot with
  | none => 0
  | some (_, seq) => seq

/-- The entry is what is left of the history `hist` after compaction at `cut`. -/
structure Represents (e : Journal.Entry) (hist : List Bytes) (cut : Nat) : Prop where
  lastSeq : e.lastSeq = hist.length
  events : e.events = numbered cut (hist.drop cut)
  cutLe : cut ≤ snapshotSeq e
  snapLe : snapshotSeq e ≤ hist.length

theorem Represents.new : Represents {} [] 0 where
  lastSeq := rfl
  events := rfl
  cutLe := Nat.le_refl _
  snapLe := Nat.le_refl _

variable {e : Journal.Entry} {hist : List Bytes} {cut : Nat}

theorem Represents.persist (h : Represents e hist cut) (bs : List Bytes) :
    Represents
      { e with
        lastSeq := e.lastSeq + bs.length
        events := e.events ++ numbered e.lastSeq bs } (hist ++ bs) cut := by
  have hcut : cut ≤ hist.length := Nat.le_trans h.cutLe h.snapLe
  refine
    { lastSeq := by simp [h.lastSeq]
      events := ?_
      cutLe := h.cutLe
      snapLe := Nat.le_trans h.snapLe (by simp) }
  have hdrop : (hist ++ bs).drop cut = hist.drop cut ++ bs :=
    List.drop_append_of_le_length hcut
  have hend : cut + (hist.drop cut).length = hist.length := by
    rw [List.length_drop]; omega
  show e.events ++ numbered e.lastSeq bs = _
  rw [hdrop, numbered_append, hend, h.events, h.lastSeq]

theorem Represents.saveSnapshot (h : Represents e hist cut) (b : Bytes) {n : Nat}
    (hn : e.lastSeq = n) : Represents { e with snapshot := some (b, n) } hist cut := by
  have hlen : n = hist.length := by rw [← hn, h.lastSeq]
  exact
    { lastSeq := h.lastSeq
      events := h.events
      cutLe := by
        show cut ≤ n
        rw [hlen]
        exact Nat.le_trans h.cutLe h.snapLe
      snapLe := Nat.le_of_eq hlen }

theorem Represents.deleteEventsBefore (h : Represents e hist cut) {n : Nat}
    (hn : n ≤ snapshotSeq e) :
    Represents { e with events := e.events.filter fun p => decide (n < p.1) }
      hist (max cut n) := by
  refine
    { lastSeq := h.lastSeq
      events := ?_
      cutLe := Nat.max_le.mpr ⟨h.cutLe, hn⟩
      snapLe := h.snapLe }
  show e.events.filter _ = _
  rw [h.events, filter_numbered, List.drop_drop]
  congr 2
  omega

/-- The stored snapshot is the fold of the prefix it stands for. -/
def SnapshotSound (A : EventSourcedActor) (e : Journal.Entry) (hist : List Bytes) : Prop :=
  ∀ b n, e.snapshot = some (b, n) →
    ∃ state, A.decodeState b = .ok state ∧ foldLog A (hist.take n) = .ok state

/-- Appending does not disturb the prefix a snapshot stands for. -/
theorem SnapshotSound.append {e' : Journal.Entry} (h : SnapshotSound A e hist)
    (hle : snapshotSeq e ≤ hist.length) (hs : e'.snapshot = e.snapshot) (bs : List Bytes) :
    SnapshotSound A e' (hist ++ bs) := by
  intro b n hb
  rw [hs] at hb
  obtain ⟨state, hd, hf⟩ := h b n hb
  have hn : n ≤ hist.length := by simpa [snapshotSeq, hb] using hle
  exact ⟨state, hd, by rw [List.take_append_of_le_length hn]; exact hf⟩

/-! ## The five calls over a store whose writes may fail -/

section Calls

variable {st st' : Store} {pid : PersistenceId} {fault : Option JournalError}

/-- The log of `pid` and its history are what they were. -/
structure SameLog (pid : PersistenceId) (st st' : Store) : Prop where
  entry : st'.journal.entryOf pid = st.journal.entryOf pid
  appended : st'.appended pid = st.appended pid

theorem SameLog.refl (pid : PersistenceId) (st : Store) : SameLog pid st st := ⟨rfl, rfl⟩

theorem appended_snoc (st : Store) (j : InMemoryJournal) (x : Answered) :
    Store.appended { journal := j, trace := st.trace ++ [x] } pid =
      st.appended pid ++ x.appended pid := by
  simp [Store.appended, List.flatMap_append]

/-- A call that does not fail is answered by the journal and recorded. -/
theorem answer_none {c : JournalCall} {r : c.Answer}
    (h : st.answer c none = some (r, st')) :
    r = (st.journal.answer c).1 ∧
      st' = { journal := (st.journal.answer c).2, trace := st.trace ++ [⟨c, r⟩] } := by
  simp only [Store.answer, Option.some.injEq, Prod.mk.injEq] at h
  obtain ⟨rfl, rfl⟩ := h
  exact ⟨rfl, rfl⟩

/-- Every call is recorded with its answer, a failed one too. -/
theorem answer_trace {c : JournalCall} {r : c.Answer}
    (h : st.answer c fault = some (r, st')) : st'.trace = st.trace ++ [⟨c, r⟩] := by
  cases fault with
  | none =>
      obtain ⟨-, rfl⟩ := answer_none h
      rfl
  | some e =>
      obtain ⟨r', -, hr⟩ := Option.map_eq_some_iff.mp h
      cases hr
      rfl

theorem answer_latestSnapshot {r : JournalResult (Option (Bytes × Nat))}
    (h : st.answer (.latestSnapshot pid) fault = some (r, st')) :
    r = .ok (st.journal.entryOf pid).snapshot ∧ SameLog pid st st' := by
  cases fault with
  | some e => cases h
  | none =>
      cases h
      refine ⟨InMemoryJournal.latestSnapshot_eq _ _, rfl, ?_⟩
      rw [appended_snoc]
      simp [Answered.appended]

theorem answer_replay {n : Nat} {r : List (JournalResult (Nat × Bytes))}
    (h : st.answer (.replay pid n) fault = some (r, st')) :
    r = ((st.journal.entryOf pid).events.filter fun p => decide (n < p.1)).map Except.ok ∧
      SameLog pid st st' := by
  cases fault with
  | some e => cases h
  | none =>
      cases h
      refine ⟨InMemoryJournal.replay_eq _ _ _, rfl, ?_⟩
      rw [appended_snoc]
      simp [Answered.appended]

/-- A persist either takes effect as a whole, on a log that ended where the
writer said, or leaves the log and its history as they were. -/
theorem answer_persist {bs : List Bytes} {n : Nat} {r : JournalResult Unit}
    (h : st.answer (.persist pid bs n) fault = some (r, st')) :
    (r = .ok () ∧ (st.journal.entryOf pid).lastSeq = n ∧
        st'.journal.entryOf pid =
          { st.journal.entryOf pid with
            lastSeq := (st.journal.entryOf pid).lastSeq + bs.length
            events := (st.journal.entryOf pid).events ++
              numbered (st.journal.entryOf pid).lastSeq bs } ∧
        st'.appended pid = st.appended pid ++ bs) ∨
      (∃ e, r = .error e ∧ SameLog pid st st' ∧
        (fault = none →
          e = .conflict pid.toString n (st.journal.entryOf pid).lastSeq ∧
            (st.journal.entryOf pid).lastSeq ≠ n)) := by
  cases fault with
  | some e =>
      cases h
      refine Or.inr ⟨_, rfl, ⟨rfl, ?_⟩, fun hc => nomatch hc⟩
      rw [appended_snoc]
      simp [Answered.appended]
  | none =>
      obtain ⟨hr, hst⟩ := answer_none h
      have hentry := InMemoryJournal.entryOf_persist st.journal pid bs n
      have happ : st'.appended pid =
          st.appended pid ++ Answered.appended pid ⟨.persist pid bs n, r⟩ := by
        rw [hst, appended_snoc]
      by_cases hn : (st.journal.entryOf pid).lastSeq = n
      · have hok : r = .ok () := by
          rw [hr]
          exact (InMemoryJournal.persist_ok_iff _ _ _ _).mpr hn
        rw [if_pos hn] at hentry
        subst hok
        refine Or.inl ⟨rfl, hn, by rw [hst]; exact hentry, ?_⟩
        simpa [Answered.appended] using happ
      · have herr : r = .error (.conflict pid.toString n (st.journal.entryOf pid).lastSeq) := by
          rw [hr]
          exact InMemoryJournal.persist_error_of_ne st.journal pid hn
        rw [if_neg hn] at hentry
        subst herr
        refine Or.inr ⟨_, rfl, ⟨by rw [hst]; exact hentry, ?_⟩, fun _ => ⟨rfl, hn⟩⟩
        simpa [Answered.appended] using happ

theorem answer_saveSnapshot {b : Bytes} {n : Nat} {r : JournalResult Unit}
    (h : st.answer (.saveSnapshot pid b n) fault = some (r, st')) :
    (r = .ok () ∧ (st.journal.entryOf pid).lastSeq = n ∧
        st'.journal.entryOf pid = { st.journal.entryOf pid with snapshot := some (b, n) } ∧
        st'.appended pid = st.appended pid) ∨
      (∃ e, r = .error e ∧ SameLog pid st st') := by
  cases fault with
  | some e =>
      cases h
      refine Or.inr ⟨_, rfl, rfl, ?_⟩
      rw [appended_snoc]
      simp [Answered.appended]
  | none =>
      obtain ⟨hr, hst⟩ := answer_none h
      have happ : st'.appended pid = st.appended pid := by
        rw [hst, appended_snoc]
        simp [Answered.appended]
      have hentry := InMemoryJournal.entryOf_saveSnapshot st.journal pid b n
      by_cases hn : (st.journal.entryOf pid).lastSeq = n
      · have hok : r = .ok () := by
          rw [hr]
          exact (InMemoryJournal.saveSnapshot_ok_iff _ _ _ _).mpr hn
        rw [if_pos hn] at hentry
        exact Or.inl ⟨hok, hn, by rw [hst]; exact hentry, happ⟩
      · rw [if_neg hn] at hentry
        refine Or.inr ?_
        cases r with
        | ok u => exact absurd ((InMemoryJournal.saveSnapshot_ok_iff _ _ _ _).mp hr.symm) hn
        | error e => exact ⟨e, rfl, by rw [hst]; exact hentry, happ⟩

theorem answer_deleteEventsBefore {n : Nat} {r : JournalResult Unit}
    (h : st.answer (.deleteEventsBefore pid n) fault = some (r, st')) :
    (st'.journal.entryOf pid =
        { st.journal.entryOf pid with
          events := (st.journal.entryOf pid).events.filter fun p => decide (n < p.1) } ∨
      st'.journal.entryOf pid = st.journal.entryOf pid) ∧
      st'.appended pid = st.appended pid := by
  cases fault with
  | some e =>
      cases h
      refine ⟨Or.inr rfl, ?_⟩
      rw [appended_snoc]
      simp [Answered.appended]
  | none =>
      cases h
      refine ⟨Or.inl (InMemoryJournal.entryOf_deleteEventsBefore _ _ _), ?_⟩
      rw [appended_snoc]
      simp [Answered.appended]

end Calls

/-! ## Logs that mean what they say -/

/-- Entry and history in step, and a snapshot that means what it says. -/
def LogInv (A : EventSourcedActor) (pid : PersistenceId) (st : Store) : Prop :=
  (∃ cut, Represents (st.journal.entryOf pid) (st.appended pid) cut) ∧
    SnapshotSound A (st.journal.entryOf pid) (st.appended pid)

/-- What an instance holds is the fold of the first `seqNr` events. -/
structure Held (A : EventSourcedActor) (pid : PersistenceId) (st : Store)
    (state : A.State) (seqNr : Nat) : Prop where
  le : seqNr ≤ (st.appended pid).length
  fold : foldLog A ((st.appended pid).take seqNr) = .ok state

/-- A log that was in order still is; it has only been appended to and its
snapshot has not moved back. -/
structure Advances (A : EventSourcedActor) (pid : PersistenceId) (st st' : Store) : Prop where
  inv : LogInv A pid st'
  appended : st.appended pid <+: st'.appended pid
  snapshot : snapshotSeq (st.journal.entryOf pid) ≤ snapshotSeq (st'.journal.entryOf pid)

/-- The first event the log still holds comes no later than right after
`afterSeq`. -/
def Covers (e : Journal.Entry) (afterSeq : Nat) : Prop :=
  ∀ p ∈ e.events.head?, p.1 ≤ afterSeq + 1

instance (e : Journal.Entry) (afterSeq : Nat) : Decidable (Covers e afterSeq) :=
  inferInstanceAs (Decidable (∀ p ∈ e.events.head?, p.1 ≤ afterSeq + 1))

section Kept

variable {pid : PersistenceId} {st st' : Store} {state : A.State} {seqNr : Nat}

theorem Held.mono (h : Held A pid st state seqNr)
    (hp : st.appended pid <+: st'.appended pid) : Held A pid st' state seqNr := by
  obtain ⟨bs, hbs⟩ := hp
  refine ⟨?_, ?_⟩
  · rw [← hbs, List.length_append]
    exact Nat.le_trans h.le (Nat.le_add_right _ _)
  · rw [← hbs, List.take_append_of_le_length h.le]
    exact h.fold

/-- A fresh instance holds the fold of nothing. -/
theorem Held.initial (pid : PersistenceId) (st : Store) :
    Held A pid st A.initialState 0 := ⟨Nat.zero_le _, rfl⟩

/-- The fence: an instance whose number is where the log ends holds the fold of
the whole log. -/
theorem Held.whole (h : Held A pid st state seqNr) (hInv : LogInv A pid st)
    (hn : (st.journal.entryOf pid).lastSeq = seqNr) :
    foldLog A (st.appended pid) = .ok state ∧ seqNr = (st.appended pid).length := by
  obtain ⟨⟨cut, hrep⟩, -⟩ := hInv
  have hlen : seqNr = (st.appended pid).length := by rw [← hn, hrep.lastSeq]
  have hfold := h.fold
  rw [hlen, List.take_length] at hfold
  exact ⟨hfold, hlen⟩

theorem LogInv.of_same (hInv : LogInv A pid st) (h : SameLog pid st st') :
    LogInv A pid st' := by
  unfold LogInv
  rw [h.entry, h.appended]
  exact hInv

theorem LogInv.advances (hInv : LogInv A pid st) (h : SameLog pid st st') :
    Advances A pid st st' where
  inv := hInv.of_same h
  appended := h.appended ▸ List.prefix_refl _
  snapshot := h.entry ▸ Nat.le_refl _

/-- The snapshot a recovery starts from is the fold of the prefix it stands
for. -/
theorem startFrom_held (hInv : LogInv A pid st)
    (h : startFrom A (st.journal.entryOf pid).snapshot = .ok (state, seqNr)) :
    Held A pid st state seqNr := by
  cases hsnap : (st.journal.entryOf pid).snapshot with
  | none =>
      rw [hsnap] at h
      cases h
      exact Held.initial pid st
  | some snap =>
      obtain ⟨b, n⟩ := snap
      obtain ⟨⟨cut, hrep⟩, hsound⟩ := hInv
      obtain ⟨folded, hd, hf⟩ := hsound b n hsnap
      rw [hsnap] at h
      simp only [startFrom, hd] at h
      cases h
      refine ⟨?_, hf⟩
      simpa [snapshotSeq, hsnap] using hrep.snapLe

/-- The state after an admitted batch: the log has grown by it, and the writer,
which held the fold of the whole log, now holds the fold of the longer one. -/
theorem persist_keeps (hA : A.RoundTrips) (hInv : LogInv A pid st) {self : Persistent A}
    (hpid : self.pid = pid) (hHeld : Held A pid st self.state self.seqNr)
    {events : List A.Event} {bs : List Bytes} (henc : encodeAll A events = .ok bs)
    (hn : (st.journal.entryOf pid).lastSeq = self.seqNr)
    (hentry : st'.journal.entryOf pid =
      { st.journal.entryOf pid with
        lastSeq := (st.journal.entryOf pid).lastSeq + bs.length
        events := (st.journal.entryOf pid).events ++
          numbered (st.journal.entryOf pid).lastSeq bs })
    (happ : st'.appended pid = st.appended pid ++ bs) :
    Advances A pid st st' ∧
      (events.foldl Persistent.fold self).pid = pid ∧
      Held A pid st' (events.foldl Persistent.fold self).state
        (events.foldl Persistent.fold self).seqNr := by
  obtain ⟨hfold, hlen⟩ := hHeld.whole hInv hn
  obtain ⟨⟨cut, hrep⟩, hsound⟩ := hInv
  have hInv' : LogInv A pid st' := by
    refine ⟨⟨cut, ?_⟩, ?_⟩
    · rw [hentry, happ]
      exact hrep.persist bs
    · rw [happ]
      exact hsound.append hrep.snapLe (by rw [hentry]) bs
  have hseq : (events.foldl Persistent.fold self).seqNr = (st'.appended pid).length := by
    rw [foldl_fold_seqNr, happ, List.length_append, length_encodeAll henc, hlen]
  refine ⟨⟨hInv', ⟨bs, happ.symm⟩, ?_⟩, ?_, ?_, ?_⟩
  · rw [hentry]
    exact Nat.le_refl _
  · rw [foldl_fold_pid]
    exact hpid
  · exact Nat.le_of_eq hseq
  · rw [hseq, List.take_length, happ, foldLog_append hfold]
    exact foldFrom_encodeAll hA self henc

/-- An admitted snapshot stands for the whole log, because its writer's state
does. -/
theorem saveSnapshot_keeps (hA : A.RoundTrips) (hInv : LogInv A pid st) {n : Nat} {b : Bytes}
    (hHeld : Held A pid st state n) (henc : A.encodeState state = .ok b)
    (hn : (st.journal.entryOf pid).lastSeq = n)
    (hentry : st'.journal.entryOf pid = { st.journal.entryOf pid with snapshot := some (b, n) })
    (happ : st'.appended pid = st.appended pid) :
    Advances A pid st st' := by
  obtain ⟨-, hlen⟩ := hHeld.whole hInv hn
  obtain ⟨⟨cut, hrep⟩, -⟩ := hInv
  refine ⟨⟨⟨cut, ?_⟩, ?_⟩, ?_, ?_⟩
  · rw [hentry, happ]
    exact hrep.saveSnapshot b hn
  · rw [hentry, happ]
    intro b' n' hb'
    obtain ⟨rfl, rfl⟩ : b = b' ∧ n = n' := by simpa using hb'
    exact ⟨state, hA.state henc, hHeld.fold⟩
  · exact happ ▸ List.prefix_refl _
  · rw [hentry]
    show snapshotSeq (st.journal.entryOf pid) ≤ n
    rw [hlen]
    exact hrep.snapLe

/-- Compacting at or below the stored snapshot loses nothing a recovery that
starts from it needs. -/
theorem deleteEventsBefore_keeps (hInv : LogInv A pid st) {n : Nat}
    (hn : n ≤ snapshotSeq (st.journal.entryOf pid))
    (hentry : st'.journal.entryOf pid =
        { st.journal.entryOf pid with
          events := (st.journal.entryOf pid).events.filter fun p => decide (n < p.1) } ∨
      st'.journal.entryOf pid = st.journal.entryOf pid)
    (happ : st'.appended pid = st.appended pid) :
    Advances A pid st st' := by
  rcases hentry with hentry | hentry
  · obtain ⟨⟨cut, hrep⟩, hsound⟩ := hInv
    refine ⟨⟨⟨max cut n, ?_⟩, ?_⟩, ?_, ?_⟩
    · rw [hentry, happ]
      exact hrep.deleteEventsBefore hn
    · rw [hentry, happ]
      exact hsound
    · exact happ ▸ List.prefix_refl _
    · exact Nat.le_of_eq (congrArg snapshotSeq hentry).symm
  · exact hInv.advances ⟨hentry, happ⟩

/-- Recovery's loop over a log not compacted past where it starts ends at the
end of the log, with the fold of all of it. -/
theorem drain_whole {cut : Nat}
    (hrep : Represents (st.journal.entryOf pid) (st.appended pid) cut)
    (hHeld : Held A pid st state seqNr) (hcut : cut ≤ seqNr) :
    drainReplay A state seqNr
        (((st.journal.entryOf pid).events.filter fun p => decide (seqNr < p.1)).map Except.ok) =
      match foldLog A (st.appended pid) with
      | .error e => .error (.serialization e)
      | .ok folded => .ok (folded, (st.appended pid).length) := by
  have hend : seqNr + ((st.appended pid).drop seqNr).length = (st.appended pid).length := by
    rw [List.length_drop]
    have := hHeld.le
    omega
  have hfold : foldLog A (st.appended pid) = foldFrom A state ((st.appended pid).drop seqNr) := by
    rw [← foldLog_append hHeld.fold, List.take_append_drop]
  rw [hrep.events, filter_numbered_drop hcut, drainReplay_numbered, hend, hfold]

/-- A replay that covers where it starts ends in a state that is the fold of a
prefix. -/
theorem drain_held (hInv : LogInv A pid st) (hHeld : Held A pid st state seqNr)
    (hcov : Covers (st.journal.entryOf pid) seqNr) {state' : A.State} {seqNr' : Nat}
    (h : drainReplay A state seqNr
      (((st.journal.entryOf pid).events.filter fun p => decide (seqNr < p.1)).map Except.ok) =
        .ok (state', seqNr')) :
    Held A pid st state' seqNr' := by
  obtain ⟨⟨cut, hrep⟩, -⟩ := hInv
  by_cases hcut : cut ≤ seqNr
  · rw [drain_whole hrep hHeld hcut] at h
    cases hf : foldLog A (st.appended pid) with
    | error e => rw [hf] at h; cases h
    | ok folded =>
        rw [hf] at h
        cases h
        exact ⟨Nat.le_refl _, by rw [List.take_length]; exact hf⟩
  · -- compacted past the snapshot: nothing may be left, or the replay would skip
    rw [hrep.events] at h
    unfold Covers at hcov
    rw [hrep.events] at hcov
    have hnil : (st.appended pid).drop cut = [] := by
      cases hd : (st.appended pid).drop cut with
      | nil => rfl
      | cons b bs =>
          have hle := hcov (cut + 1, b) (by rw [hd]; simp [numbered])
          have hle' : cut + 1 ≤ seqNr + 1 := hle
          omega
    rw [hnil] at h
    cases h
    exact hHeld

end Kept

/-! ## A small actor to run -/

/-- A counter that adds its events up, both encoded as one byte. -/
def tally : EventSourcedActor where
  State := Nat
  Event := Nat
  initialState := 0
  applyEvent := Nat.add
  encodeState := encodeByte
  decodeState := decodeByte
  encodeEvent := encodeByte
  decodeEvent := decodeByte
where
  encodeByte (n : Nat) : Except String Bytes :=
    if n < 256 then .ok [n.toUInt8] else .error "out of range"
  decodeByte : Bytes → Except String Nat
    | [b] => .ok b.toNat
    | _ => .error "not one byte"

theorem tally_roundTrips : tally.RoundTrips := by
  have hbyte : ∀ {n b}, tally.encodeByte n = .ok b → tally.decodeByte b = .ok n := by
    intro n b h
    simp only [tally.encodeByte] at h
    split at h
    · cases h
      simp only [tally.decodeByte]
      rw [Nat.toUInt8, UInt8.toNat_ofNat', Nat.mod_eq_of_lt ‹_›]
    · cases h
  exact ⟨hbyte, hbyte⟩

end HorsieActor.Ports.Persistent
