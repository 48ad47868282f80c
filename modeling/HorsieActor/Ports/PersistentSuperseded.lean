import HorsieActor.Ports.PersistentHistory

/-!
# An instance the log has moved past

Another writer has appended, and an instance is left with a number below the
end of the log.  It may be anywhere: idle, about to persist, between its write
and its snapshot, between the snapshot and the compaction.  From there on its
persists and snapshots are refused, whatever the effect they come from, and the
compaction it may still owe is at a number whose snapshot was admitted.  The
first persist it makes ends its `handle` with `Flow::Stop`, after which it takes
no further command.

The number of an instance is what its start-up recovered; until that is done
there is nothing to supersede (`writerSeq`).
-/

namespace HorsieActor.Ports.Persistent

open HorsieActor.Verified
open HorsieActor.Verified.Schedule
open HorsieActor.Ports.Journal

variable {A : EventSourcedActor}

/-! ## The property -/

/-- The number an instance writes with, once its start-up has succeeded. -/
def writerSeq : Instance A → Option Nat
  | .await self (.persist _ _ _) _ => some self.seqNr
  | .await self (.saveSnapshot _ _ _) _ => some self.seqNr
  | .await self (.deleteEventsBefore _ _) _ => some self.seqNr
  | .await _ _ _ => none
  | .done self (.started (.ok ())) => some self.seqNr
  | .done _ (.started (.error _)) => none
  | .done self (.handled _) => some self.seqNr

/-- The log ends past the number the instance writes with. -/
def Superseded (pid : PersistenceId) (w : World A) (i : Nat) : Prop :=
  ∃ t n, w.instances[i]? = some (some t) ∧ writerSeq t = some n ∧
    n < (w.store.journal.entryOf pid).lastSeq

/-- Whose step it is. -/
def Label.actor : Label A → Option Nat
  | .spawn => none
  | .call i _ => some i
  | .command i _ => some i
  | .drop i => some i

/-- The step is the answer to a `persist` of instance `i`. -/
def persistsAt (i : Nat) (w : World A) : Label A → Bool
  | .call j _ =>
      j == i &&
        match w.instances[j]? with
        | some (some (.await _ (.persist _ _ _) _)) => true
        | _ => false
  | _ => false

/-- The calls of instance `i` reach the journal, and its events encode. -/
def CallsReach (i : Nat) (_ : World A) : Label A → Prop
  | .call j fault => j = i → fault = none
  | .command j effect => j = i → (encodeAll A effect.events).isOk = true
  | _ => True

instance (i : Nat) (w : World A) : ∀ label : Label A, Decidable (CallsReach i w label)
  | .call j fault => inferInstanceAs (Decidable (j = i → fault = none))
  | .command j effect =>
      inferInstanceAs (Decidable (j = i → (encodeAll A effect.events).isOk = true))
  | .spawn | .drop _ => isTrue trivial

/-- The log ends where it did and has the snapshot it had; at most it has been
compacted at a number whose snapshot was admitted. -/
structure Inert (pid : PersistenceId) (st st' : Store) : Prop where
  lastSeq : (st'.journal.entryOf pid).lastSeq = (st.journal.entryOf pid).lastSeq
  snapshot : (st'.journal.entryOf pid).snapshot = (st.journal.entryOf pid).snapshot
  events : (st'.journal.entryOf pid).events = (st.journal.entryOf pid).events ∨
    ∃ n, SnapshotAdmitted pid st n ∧ (st'.journal.entryOf pid).events =
      (st.journal.entryOf pid).events.filter fun p => decide (n < p.1)

theorem SameLog.inert {pid : PersistenceId} {st st' : Store} (h : SameLog pid st st') :
    Inert pid st st' where
  lastSeq := congrArg Journal.Entry.lastSeq h.entry
  snapshot := congrArg Journal.Entry.snapshot h.entry
  events := Or.inl (congrArg Journal.Entry.events h.entry)

/-- What the persist of a superseded instance comes to: its `handle` returns on
the spot, stops the instance and acks the conflict. -/
structure Refused (pid : PersistenceId) (i : Nat) (w w' : World A) : Prop where
  handled : ∃ self effect, w.instances[i]? = some (some (serveOne self effect)) ∧
    ∃ h : Handled A, w'.instances[i]? = some (some (.done self (.handled h))) ∧
      h.flow = .stop ∧
      h.acked = effect.ack.map fun ack => (ack, .error (.conflict pid.toString self.seqNr
        (w.store.journal.entryOf pid).lastSeq))

/-! ## One call of a superseded instance -/

section Calls

variable {pid : PersistenceId} {st st' : Store} {self : Persistent A} {n : Nat}

theorem outcome_conflict (effect : CommandEffect A.Event) (name : String) (m k : Nat) :
    (outcome effect (.error (.conflict name m k)) : Handled A).flow = .stop := by
  simp [outcome, conflicted, JournalError.isConflict]

/-- Its number stays, and the log is as it was or compacted where it may be. -/
theorem Stage.superseded_call {c : JournalCall} {k : c.Answer → Instance A} {r : c.Answer}
    (h : Stage pid (Stands pid st) (.await self c k)) (hn : writerSeq (.await self c k) = some n)
    (hlt : n < (st.journal.entryOf pid).lastSeq) (hx : st.answer c none = some (r, st')) :
    Inert pid st st' ∧ writerSeq (k r) = some n := by
  cases h with
  | lookingUp => cases hn
  | replaying => cases hn
  | persisting hpid henc =>
      cases hn
      rcases answer_persist hx with ⟨-, hend, -⟩ | ⟨e, rfl, hsame, -⟩
      · omega
      · exact ⟨hsame.inert, rfl⟩
  | saving hpid =>
      cases hn
      rcases answer_saveSnapshot hx with ⟨-, hend, -⟩ | ⟨e, rfl, hsame⟩
      · omega
      · exact ⟨hsame.inert, rfl⟩
  | compacting hpid hc =>
      cases hn
      obtain ⟨hentry, happ⟩ := answer_deleteEventsBefore hx
      refine ⟨?_, rfl⟩
      rcases hentry with hentry | hentry
      · exact ⟨by rw [hentry], by rw [hentry], Or.inr ⟨_, hc.1, by rw [hentry]⟩⟩
      · exact SameLog.inert ⟨hentry, happ⟩

/-- A persist that comes too late. -/
theorem Stage.superseded_persist {bs : List Bytes} {p : PersistenceId} {m : Nat}
    {k : JournalResult Unit → Instance A} {r : JournalResult Unit}
    (h : Stage pid (Stands pid st) (.await self (.persist p bs m) k))
    (hlt : self.seqNr < (st.journal.entryOf pid).lastSeq)
    (hx : st.answer (.persist p bs m) none = some (r, st')) :
    ∃ effect : CommandEffect A.Event, serveOne self effect = .await self (.persist p bs m) k ∧
      k r = .done self (.handled (outcome effect
        (.error (.conflict pid.toString self.seqNr (st.journal.entryOf pid).lastSeq)))) := by
  cases h with
  | @persisting _ effect _ hpid henc =>
      refine ⟨effect, ?_, ?_⟩
      · rw [serveOne_eq, henc, hpid]
      · rcases answer_persist hx with ⟨-, hend, -⟩ | ⟨e, rfl, -, herr⟩
        · omega
        · obtain ⟨rfl, -⟩ := herr rfl
          rfl

end Calls

/-! ## Runs of a superseded instance -/

/-- The instance is dropped, or past start-up with a number the log has passed. -/
structure Stale (pid : PersistenceId) (i : Nat) (w : World A) : Prop where
  kept : Kept pid w
  existing : i < w.instances.length
  behind : ∀ t, w.instances[i]? = some (some t) →
    ∃ n, writerSeq t = some n ∧ n < (w.store.journal.entryOf pid).lastSeq

/-- The instance is dropped, or it has returned for good. -/
def Over (i : Nat) (w : World A) : Prop :=
  i < w.instances.length ∧ ∀ t, w.instances[i]? = some (some t) →
    ∃ self r, t = .done self r ∧ r.ready = false

section Runs

variable {pid : PersistenceId} {w w' : World A} {label : Label A} {i : Nat}

theorem Kept.lastSeq_mono (h : Kept pid w) (h' : Kept pid w')
    (hgrows : Grows pid w.store w'.store) :
    (w.store.journal.entryOf pid).lastSeq ≤ (w'.store.journal.entryOf pid).lastSeq := by
  obtain ⟨cut, hrep⟩ := h.log
  obtain ⟨cut', hrep'⟩ := h'.log
  rw [hrep.lastSeq, hrep'.lastSeq]
  exact hgrows.appended.length_le

/-- The step of another instance leaves this one where it is. -/
theorem step_other (hs : step pid w label = some w') (hother : label.actor ≠ some i)
    (hi : i < w.instances.length) :
    i < w'.instances.length ∧ w'.instances[i]? = w.instances[i]? := by
  cases label with
  | spawn =>
      cases hs
      refine ⟨?_, List.getElem?_append_left hi⟩
      rw [List.length_append]
      omega
  | call j fault =>
      obtain ⟨self, c, k, r, st', -, -, rfl⟩ := step_call hs
      have hne : j ≠ i := fun heq => hother (congrArg some heq)
      exact ⟨by rwa [List.length_set], List.getElem?_set_ne hne⟩
  | command j effect =>
      obtain ⟨self, r, -, -, rfl⟩ := step_command hs
      have hne : j ≠ i := fun heq => hother (congrArg some heq)
      exact ⟨by rwa [List.length_set], List.getElem?_set_ne hne⟩
  | drop j =>
      cases hs
      have hne : j ≠ i := fun heq => hother (congrArg some heq)
      exact ⟨by rwa [List.length_set], List.getElem?_set_ne hne⟩

theorem stale_step (w : World A) (label : Label A) (w' : World A) (h : Stale pid i w)
    (hreach : CallsReach i w label) (hs : step pid w label = some w') : Stale pid i w' := by
  obtain ⟨hkept, hgrows⟩ := kept_step h.kept hs
  have hmono := h.kept.lastSeq_mono hkept hgrows
  by_cases hown : label.actor = some i
  · cases label with
    | spawn => cases hown
    | call j fault =>
        cases hown
        obtain ⟨self, c, k, r, st', hi, hans, rfl⟩ := step_call hs
        obtain ⟨n, hn, hlt⟩ := h.behind _ hi
        rw [hreach rfl] at hans
        obtain ⟨-, hn'⟩ := (h.kept.stages i _ hi).superseded_call hn hlt hans
        refine ⟨hkept, by rw [List.length_set]; exact h.existing, fun t ht => ⟨n, ?_, ?_⟩⟩
        · rw [List.getElem?_set_self h.existing] at ht
          cases ht
          exact hn'
        · omega
    | command j effect =>
        cases hown
        obtain ⟨self, r, hi, hready, rfl⟩ := step_command hs
        obtain ⟨n, hn, hlt⟩ := h.behind _ hi
        refine ⟨hkept, by rw [List.length_set]; exact h.existing, fun t ht => ⟨n, ?_, hlt⟩⟩
        rw [List.getElem?_set_self h.existing] at ht
        cases ht
        rw [serveOne_eq]
        cases henc : encodeAll A effect.events with
        | error e =>
            have hok := hreach rfl
            rw [henc] at hok
            cases hok
        | ok bs =>
            rw [← hn]
            cases r with
            | started r =>
                cases r with
                | error e => cases hn
                | ok u => rfl
            | handled _ => rfl
    | drop j =>
        cases hown
        cases hs
        refine ⟨hkept, by rw [List.length_set]; exact h.existing, fun t ht => ?_⟩
        rw [List.getElem?_set_self h.existing] at ht
        cases ht
  · obtain ⟨hlen, hsame⟩ := step_other hs hown h.existing
    refine ⟨hkept, hlen, fun t ht => ?_⟩
    rw [hsame] at ht
    obtain ⟨n, hn, hlt⟩ := h.behind t ht
    exact ⟨n, hn, by omega⟩

theorem over_step (h : Over i w) (hs : step pid w label = some w') : Over i w' := by
  by_cases hown : label.actor = some i
  · cases label with
    | spawn => cases hown
    | call j fault =>
        cases hown
        obtain ⟨self, c, k, r, st', hi, -, -⟩ := step_call hs
        obtain ⟨self', r', heq, -⟩ := h.2 _ hi
        cases heq
    | command j effect =>
        cases hown
        obtain ⟨self, r, hi, hready, -⟩ := step_command hs
        obtain ⟨self', r', heq, hnot⟩ := h.2 _ hi
        cases heq
        rw [hready] at hnot
        cases hnot
    | drop j =>
        cases hown
        cases hs
        refine ⟨by rw [List.length_set]; exact h.1, fun t ht => ?_⟩
        rw [List.getElem?_set_self h.1] at ht
        cases ht
  · obtain ⟨hlen, hsame⟩ := step_other hs hown h.1
    exact ⟨hlen, fun t ht => h.2 t (hsame ▸ ht)⟩

theorem persistsAt_iff : persistsAt i w label = true ↔
    ∃ fault self p bs m k, label = .call i fault ∧
      w.instances[i]? = some (some (.await self (.persist p bs m) k)) := by
  constructor
  · intro h
    cases label with
    | call j fault =>
        rw [persistsAt, Bool.and_eq_true, beq_iff_eq] at h
        obtain ⟨rfl, h⟩ := h
        split at h
        · rename_i self p bs m k hi
          exact ⟨fault, self, p, bs, m, k, rfl, hi⟩
        · cases h
    | spawn | command | drop => cases h
  · rintro ⟨fault, self, p, bs, m, k, rfl, hi⟩
    simp [persistsAt, hi]

theorem Over.no_persist (h : Over i w) : persistsAt i w label ≠ true := by
  intro hp
  obtain ⟨fault, self, p, bs, m, k, rfl, hi⟩ := persistsAt_iff.mp hp
  obtain ⟨self', r, heq, -⟩ := h.2 _ hi
  cases heq

/-- A persist of a superseded instance is its last. -/
theorem Stale.refused (h : Stale pid i w) (hreach : CallsReach i w label)
    (hs : step pid w label = some w') (hp : persistsAt i w label = true) :
    Refused pid i w w' ∧ Over i w' := by
  obtain ⟨fault, self, p, bs, m, k, rfl, hi⟩ := persistsAt_iff.mp hp
  obtain ⟨self', c, k', r, st', hi', hans, rfl⟩ := step_call hs
  rw [hi] at hi'
  cases hi'
  rw [hreach rfl] at hans
  obtain ⟨n, hn, hlt⟩ := h.behind _ hi
  cases hn
  obtain ⟨effect, hserve, hdone⟩ := (h.kept.stages i _ hi).superseded_persist hlt hans
  have hget := List.getElem?_set_self (a := some (k r)) h.existing
  rw [hdone] at hget ⊢
  refine ⟨⟨self, effect, by rw [hserve]; exact hi, _, hget, outcome_conflict effect _ _ _, rfl⟩,
    by rw [List.length_set]; exact h.existing, ?_⟩
  intro t ht
  rw [hget] at ht
  cases ht
  refine ⟨self, _, rfl, ?_⟩
  simp only [Returned.ready, outcome_conflict]
  rfl

/-- The persists of instance `i` along a schedule. -/
def persists (pid : PersistenceId) (i : Nat) (w : World A) (l : List (Label A)) :
    List (World A × Label A × World A) :=
  (steps (step pid) w l).filter fun t => persistsAt i t.1 t.2.1

theorem persists_cons {rest : List (Label A)} (hs : step pid w label = some w') :
    persists pid i w (label :: rest) =
      if persistsAt i w label then (w, label, w') :: persists pid i w' rest
      else persists pid i w' rest := by
  rw [persists, steps_cons hs, List.filter_cons]
  rfl

theorem persists_cons_none {rest : List (Label A)} (hs : step pid w label = none) :
    persists pid i w (label :: rest) = [] := by
  rw [persists, steps_cons_none hs]
  rfl

theorem persists_over (l : List (Label A)) :
    ∀ {w : World A}, Over i w → persists pid i w l = [] := by
  induction l with
  | nil => intro w _; rfl
  | cons label rest ih =>
      intro w h
      cases hs : step pid w label with
      | none => exact persists_cons_none hs
      | some m =>
          rw [persists_cons hs, if_neg h.no_persist]
          exact ih (over_step h hs)

theorem length_persists_le (l : List (Label A)) :
    ∀ {w : World A}, Stale pid i w → Along (step pid) (CallsReach i) w l →
      (persists pid i w l).length ≤ 1 := by
  induction l with
  | nil => intro w _ _; exact Nat.zero_le 1
  | cons label rest ih =>
      intro w h hreach
      cases hs : step pid w label with
      | none => rw [persists_cons_none hs]; exact Nat.zero_le 1
      | some m =>
          obtain ⟨ha, hrest⟩ := along_cons hs hreach
          rw [persists_cons hs]
          by_cases hp : persistsAt i w label = true
          · -- the first one, after which it is over
            obtain ⟨-, hover⟩ := h.refused ha hs hp
            rw [if_pos hp, List.length_cons, persists_over rest hover]
            exact Nat.le_refl 1
          · rw [if_neg hp]
            exact ih (stale_step w label m h ha hs) hrest

theorem Stale.inert (h : Stale pid i w) (hreach : CallsReach i w label)
    (hs : step pid w label = some w') (hown : label.actor = some i) :
    Inert pid w.store w'.store := by
  cases label with
  | spawn => cases hown
  | call j fault =>
      cases hown
      obtain ⟨self, c, k, r, st', hi, hans, rfl⟩ := step_call hs
      obtain ⟨n, hn, hlt⟩ := h.behind _ hi
      rw [hreach rfl] at hans
      exact ((h.kept.stages i _ hi).superseded_call hn hlt hans).1
  | command j effect =>
      obtain ⟨self, r, -, -, rfl⟩ := step_command hs
      exact SameLog.inert (SameLog.refl pid w.store)
  | drop j =>
      cases hs
      exact SameLog.inert (SameLog.refl pid w.store)

end Runs

/-! ## The result -/

/-- **A superseded instance is inert and soon gone.**  From the moment the log
ends past its number, and as long as its calls reach the journal and its events
encode, in any interleaving with any number of other instances: none of its
steps moves the end of the log or the snapshot, or touches the events beyond a
compaction at a number whose snapshot was admitted; it makes at most one more
persist; and that one ends its `handle` with `Flow::Stop` and acks the
conflict. -/
theorem superseded_inert_and_gone (pid : PersistenceId) (l l' : List (Label A)) (w : World A)
    (i : Nat) (hrun : run (step pid) (World.init A) l = some w) (hsup : Superseded pid w i)
    (hreach : Along (step pid) (CallsReach i) w l') :
    (∀ t ∈ steps (step pid) w l', t.2.1.actor = some i → Inert pid t.1.store t.2.2.store) ∧
      (persists pid i w l').length ≤ 1 ∧
      ∀ t ∈ persists pid i w l', Refused pid i t.1 t.2.2 := by
  obtain ⟨hkept, -⟩ := kept_run l (kept_init pid) hrun
  have hstale : Stale pid i w := by
    obtain ⟨t, n, hi, hn, hlt⟩ := hsup
    refine ⟨hkept, (List.getElem?_eq_some_iff.mp hi).1, fun t' ht' => ⟨n, ?_, hlt⟩⟩
    rw [hi] at ht'
    cases ht'
    exact hn
  have hsteps := steps_invariant stale_step l' hstale hreach
  refine ⟨fun t ht hown => ?_, length_persists_le l' hstale hreach, fun t ht => ?_⟩
  · obtain ⟨h, ha, hs⟩ := hsteps t ht
    exact h.inert ha hs hown
  · obtain ⟨hmem, hp⟩ := List.mem_filter.mp ht
    obtain ⟨h, ha, hs⟩ := hsteps t hmem
    exact (h.refused ha hs hp).1

/-- Two instances have recovered and one of them has written. -/
def displaced : List (Label tally) :=
  [.spawn, .call 0 none, .call 0 none, .spawn, .call 1 none, .call 1 none,
    .command 1 { events := [(1 : Nat)] }, .call 1 none]

/-- The other one is given a read and, in vain, another command. -/
def servesOn : List (Label tally) :=
  [.command 0 { ack := some 7 }, .call 0 none, .command 0 { events := [(1 : Nat)] }]

theorem superseded_displaced :
    ∃ w, run (step ⟨"Tally", "1"⟩) (World.init tally) displaced = some w ∧
      (persists ⟨"Tally", "1"⟩ 0 w servesOn).length = 1 ∧
      ∀ t ∈ persists ⟨"Tally", "1"⟩ 0 w servesOn, Refused ⟨"Tally", "1"⟩ 0 t.1 t.2.2 :=
  ⟨_, rfl, rfl, (superseded_inert_and_gone ⟨"Tally", "1"⟩ displaced servesOn _ 0 rfl
    ⟨_, 0, rfl, rfl, by decide⟩ (by decide)).2.2⟩

end HorsieActor.Ports.Persistent
