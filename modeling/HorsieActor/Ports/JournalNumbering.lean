import HorsieActor.Ports.Persistent

/-!
# The numbers of a log

Everything a writer knows of a log is the number it last saw it end at, so the
fence is sound only if the end of a log never comes back to an earlier number and
no number is given out twice.  Appends, snapshots and compactions of any kind
keep that.  `copy_snapshot` does not look at the log it replaces: copied onto a
log that has been written, it sets the end of that log back, and the numbers past
it are given out again (`copy_reassigns_number`).

Onto a log that ends at 0 there is nothing to set back, and with every copy of
that kind the numbering of every log holds over any sequence of calls
(`numbering_of_freshCopies`).
-/

namespace HorsieActor.Ports.Numbering

open HorsieActor.Verified
open HorsieActor.Verified.Schedule
open HorsieActor.Ports.Journal
open HorsieActor.Ports.Persistent (Store Answered)

/-! ## Any sequence of calls -/

def init : Store := { journal := InMemoryJournal.new, trace := [] }

/-- One call of the trait, other than `clear`. -/
def step (st : Store) (c : JournalCall) : Option Store :=
  match c with
  | .clear _ => none
  | c => (st.answer c none).map Prod.snd

/-- The numbers one answered call assigned in the log of `pid`, with their
bytes. -/
def assignedBy (pid : PersistenceId) : Answered → List (Nat × Bytes)
  | ⟨.persist p events n, .ok ()⟩ => if p = pid then numbered n events else []
  | _ => []

/-- Every number ever assigned in the log of `pid`, in order. -/
def assigned (pid : PersistenceId) (st : Store) : List (Nat × Bytes) :=
  st.trace.flatMap (assignedBy pid)

/-- Where the log of `pid` ends. -/
def lastSeq (pid : PersistenceId) (st : Store) : Nat := (st.journal.entryOf pid).lastSeq

/-- A write with the expectation `n` would be admitted. -/
def Admits (pid : PersistenceId) (st : Store) (n : Nat) : Prop :=
  (∃ events, (st.journal.persist pid events n).1 = .ok ()) ∨
    ∃ state, (st.journal.saveSnapshot pid state n).1 = .ok ()

/-- From `st` to a later `st'`: the log does not end earlier, no number has two
contents, and a write that expects where the log ended at `st` finds the history
it had there. -/
structure SoundNumbers (pid : PersistenceId) (st st' : Store) : Prop where
  monotone : lastSeq pid st ≤ lastSeq pid st'
  once : ∀ n bytes bytes', (n, bytes) ∈ assigned pid st' → (n, bytes') ∈ assigned pid st' →
    bytes = bytes'
  fence : ∀ n, lastSeq pid st = n → Admits pid st' n → assigned pid st' = assigned pid st

/-- A snapshot is copied only onto a log that ends at 0. -/
def FreshCopies (st : Store) : JournalCall → Prop
  | .copySnapshot _ target => lastSeq target st = 0
  | _ => True

instance (st : Store) : ∀ c : JournalCall, Decidable (FreshCopies st c)
  | .copySnapshot _ target => inferInstanceAs (Decidable (lastSeq target st = 0))
  | .persist _ _ _ | .replay _ _ | .saveSnapshot _ _ _ | .latestSnapshot _
  | .deleteEventsBefore _ _ | .lastSeq _ | .clear _ => isTrue trivial

/-! ## What a call does to the numbers of one log -/

inductive NumberStep (pid : PersistenceId) (st st' : Store) (c : JournalCall) : Prop
  | same (hseq : lastSeq pid st' = lastSeq pid st) (hass : assigned pid st' = assigned pid st)
  | append (bs : List Bytes) (hseq : lastSeq pid st' = lastSeq pid st + bs.length)
      (hass : assigned pid st' = assigned pid st ++ numbered (lastSeq pid st) bs)
  | copied (source : PersistenceId) (hc : c = .copySnapshot source pid)
      (hass : assigned pid st' = assigned pid st)

/-- The log a call may write to. -/
def writes : JournalCall → Option PersistenceId
  | .persist pid _ _ => some pid
  | .saveSnapshot pid _ _ => some pid
  | .deleteEventsBefore pid _ => some pid
  | .copySnapshot _ target => some target
  | .clear pid => some pid
  | .replay _ _ | .latestSnapshot _ | .lastSeq _ => none

section Calls

variable {st st' : Store} {pid : PersistenceId} {c : JournalCall}

theorem entryOf_insert_ne {q : PersistenceId} (j : InMemoryJournal) (e : Journal.Entry)
    (h : q ≠ pid) : (j.insert q e).entryOf pid = j.entryOf pid := by
  simp [InMemoryJournal.entryOf, InMemoryJournal.insert, h.symm]

/-- A call leaves alone every log but the one it writes to. -/
theorem answer_frame (j : InMemoryJournal) (h : writes c ≠ some pid) :
    (j.answer c).2.entryOf pid = j.entryOf pid := by
  cases c with
  | replay | latestSnapshot | lastSeq => rfl
  | persist q events n =>
      have hne : q ≠ pid := fun heq => h (congrArg some heq)
      simp only [InMemoryJournal.answer, InMemoryJournal.persist]
      split <;> exact entryOf_insert_ne j _ hne
  | saveSnapshot q state n =>
      have hne : q ≠ pid := fun heq => h (congrArg some heq)
      simp only [InMemoryJournal.answer, InMemoryJournal.saveSnapshot]
      split <;> exact entryOf_insert_ne j _ hne
  | deleteEventsBefore q n =>
      have hne : q ≠ pid := fun heq => h (congrArg some heq)
      simp only [InMemoryJournal.answer, InMemoryJournal.deleteEventsBefore]
      split
      · rfl
      · exact entryOf_insert_ne j _ hne
  | copySnapshot source target =>
      have hne : target ≠ pid := fun heq => h (congrArg some heq)
      simp only [InMemoryJournal.answer, InMemoryJournal.copySnapshot]
      split
      · rfl
      · exact entryOf_insert_ne j _ hne
  | clear q =>
      have hne : q ≠ pid := fun heq => h (congrArg some heq)
      simp [InMemoryJournal.answer, InMemoryJournal.clear, InMemoryJournal.entryOf,
        InMemoryJournal.remove, hne.symm]

theorem step_eq (h : step st c = some st') :
    st' = { journal := (st.journal.answer c).2
            trace := st.trace ++ [⟨c, (st.journal.answer c).1⟩] } := by
  cases c with
  | clear => cases h
  | persist | replay | saveSnapshot | latestSnapshot | deleteEventsBefore | copySnapshot
  | lastSeq => exact (Option.some.inj h).symm

theorem assigned_step (h : step st c = some st') :
    assigned pid st' = assigned pid st ++ assignedBy pid ⟨c, (st.journal.answer c).1⟩ := by
  rw [step_eq h]
  simp [assigned, List.flatMap_append]

/-- Only an append to the log itself assigns numbers in it. -/
theorem assignedBy_frame {r : c.Answer} (h : writes c ≠ some pid) : assignedBy pid ⟨c, r⟩ = [] := by
  cases c with
  | persist q events n =>
      have hne : q ≠ pid := fun heq => h (congrArg some heq)
      cases r with
      | error e => rfl
      | ok u => simp [assignedBy, hne]
  | replay | saveSnapshot | latestSnapshot | deleteEventsBefore | copySnapshot | lastSeq
  | clear => rfl

theorem step_numbers (pid : PersistenceId) (h : step st c = some st') :
    NumberStep pid st st' c := by
  have hass : assigned pid st' = assigned pid st ++ assignedBy pid ⟨c, (st.journal.answer c).1⟩ :=
    assigned_step h
  by_cases hpid : writes c = some pid
  · cases c with
    | persist q events n =>
        cases hpid
        have hentry := InMemoryJournal.entryOf_persist st.journal pid events n
        rw [step_eq h] at hass ⊢
        by_cases hn : (st.journal.entryOf pid).lastSeq = n
        · have hok := (InMemoryJournal.persist_ok_iff st.journal pid events n).mpr hn
          rw [if_pos hn] at hentry
          refine .append events (congrArg Journal.Entry.lastSeq hentry) (hass.trans ?_)
          simp only [InMemoryJournal.answer, hok, assignedBy, if_true, lastSeq, hn]
        · rw [if_neg hn] at hentry
          refine .same (congrArg Journal.Entry.lastSeq hentry) (hass.trans ?_)
          simp only [InMemoryJournal.answer, InMemoryJournal.persist_error_of_ne st.journal pid hn,
            assignedBy, List.append_nil]
    | saveSnapshot q state n =>
        cases hpid
        have hentry := InMemoryJournal.entryOf_saveSnapshot st.journal pid state n
        refine .same ?_ (hass.trans (List.append_nil _))
        rw [step_eq h]
        show ((st.journal.saveSnapshot pid state n).2.entryOf pid).lastSeq = _
        rw [hentry]
        split <;> rfl
    | deleteEventsBefore q n =>
        cases hpid
        have hentry := InMemoryJournal.entryOf_deleteEventsBefore st.journal pid n
        refine .same ?_ (hass.trans (List.append_nil _))
        rw [step_eq h]
        show ((st.journal.deleteEventsBefore pid n).2.entryOf pid).lastSeq = _
        rw [hentry]
        rfl
    | copySnapshot source target =>
        cases hpid
        exact .copied source rfl (hass.trans (List.append_nil _))
    | clear q => cases h
    | replay | latestSnapshot | lastSeq => cases hpid
  · rw [assignedBy_frame hpid, List.append_nil] at hass
    refine .same ?_ hass
    rw [step_eq h]
    exact congrArg Journal.Entry.lastSeq (answer_frame st.journal hpid)

end Calls

/-! ## Steps and runs -/

/-- No number past the end has been assigned, and none twice. -/
structure Assigns (pid : PersistenceId) (st : Store) : Prop where
  bounded : ∀ p ∈ assigned pid st, p.1 ≤ lastSeq pid st
  once : ∀ n bytes bytes', (n, bytes) ∈ assigned pid st → (n, bytes') ∈ assigned pid st →
    bytes = bytes'

/-- The end has not gone back, and where it is the same nothing was assigned. -/
structure Follows (pid : PersistenceId) (st st' : Store) : Prop where
  monotone : lastSeq pid st ≤ lastSeq pid st'
  still : lastSeq pid st' = lastSeq pid st → assigned pid st' = assigned pid st

section Runs

variable {st st' st'' : Store} {pid : PersistenceId} {c : JournalCall}

theorem Follows.trans (h : Follows pid st st') (h' : Follows pid st' st'') :
    Follows pid st st'' where
  monotone := Nat.le_trans h.monotone h'.monotone
  still := by
    intro heq
    have hle := h.monotone
    have hle' := h'.monotone
    rw [h'.still (by omega), h.still (by omega)]

/-- A batch gets numbers that nothing in the log has yet. -/
theorem Assigns.append {bs : List Bytes} (h : Assigns pid st)
    (hseq : lastSeq pid st' = lastSeq pid st + bs.length)
    (hass : assigned pid st' = assigned pid st ++ numbered (lastSeq pid st) bs) :
    Assigns pid st' := by
  refine ⟨fun p hp => ?_, fun n bytes bytes' hb hb' => ?_⟩
  · rw [hass, List.mem_append] at hp
    rcases hp with hp | hp
    · have := h.bounded p hp
      omega
    · obtain ⟨hlt, hget⟩ := (mem_numbered bs _).mp hp
      obtain ⟨hlen, -⟩ := List.getElem?_eq_some_iff.mp hget
      omega
  · rw [hass, List.mem_append, mem_numbered] at hb hb'
    rcases hb with hb | ⟨hlt, hget⟩
    · have hle := h.bounded _ hb
      rcases hb' with hb' | ⟨hlt', -⟩
      · exact h.once n bytes bytes' hb hb'
      · exact absurd hle (Nat.not_le.mpr hlt')
    · rcases hb' with hb' | ⟨-, hget'⟩
      · exact absurd (h.bounded _ hb') (Nat.not_le.mpr hlt)
      · rw [hget] at hget'
        exact Option.some.inj hget'

theorem step_assigns (h : Assigns pid st) (hfresh : FreshCopies st c)
    (hs : step st c = some st') : Assigns pid st' ∧ Follows pid st st' := by
  cases step_numbers pid hs with
  | same hseq hass =>
      refine ⟨⟨?_, ?_⟩, Nat.le_of_eq hseq.symm, fun _ => hass⟩
      · rw [hass, hseq]
        exact h.bounded
      · rw [hass]
        exact h.once
  | append bs hseq hass =>
      refine ⟨h.append hseq hass, by omega, fun heq => ?_⟩
      have hnil : bs = [] := List.eq_nil_of_length_eq_zero (by omega)
      rw [hass, hnil, numbered_nil, List.append_nil]
  | copied source hc hass =>
      -- nothing has been assigned in a log that ends at 0
      subst hc
      have hzero : lastSeq pid st = 0 := hfresh
      refine ⟨⟨fun p hp => ?_, ?_⟩, by omega, fun _ => hass⟩
      · rw [hass] at hp
        have := h.bounded p hp
        omega
      · rw [hass]
        exact h.once

theorem run_assigns (l : List JournalCall) (h : Assigns pid st)
    (hfresh : Along step FreshCopies st l) (hrun : run step st l = some st') :
    Assigns pid st' ∧ Follows pid st st' := by
  -- the invariant looks back to where the run began
  refine run_invariant (I := fun m => Assigns pid m ∧ Follows pid st m) ?_ l
    ⟨h, Nat.le_refl _, fun _ => rfl⟩ hfresh hrun
  rintro m c m' ⟨hassigns, hfollows⟩ hc hm
  obtain ⟨hassigns', hfollows'⟩ := step_assigns hassigns hc hm
  exact ⟨hassigns', hfollows.trans hfollows'⟩

theorem admits_iff {n : Nat} : Admits pid st n ↔ lastSeq pid st = n := by
  constructor
  · rintro (⟨events, h⟩ | ⟨state, h⟩)
    · exact (InMemoryJournal.persist_ok_iff _ _ _ _).mp h
    · exact (InMemoryJournal.saveSnapshot_ok_iff _ _ _ _).mp h
  · intro h
    exact Or.inl ⟨[], (InMemoryJournal.persist_ok_iff _ _ _ _).mpr h⟩

end Runs

/-! ## The results -/

/-- **The fence has no ABA**, over any calls other than `clear` on any logs, as
long as snapshots are copied only onto logs that end at 0. -/
theorem numbering_of_freshCopies (pid : PersistenceId) (l l' : List JournalCall)
    (st st' : Store) (hrun : run step init l = some st) (hrun' : run step st l' = some st')
    (hfresh : Along step FreshCopies init l) (hfresh' : Along step FreshCopies st l') :
    SoundNumbers pid st st' := by
  have hinit : Assigns pid init := ⟨nofun, nofun⟩
  obtain ⟨hassigns, -⟩ := run_assigns l hinit hfresh hrun
  obtain ⟨hassigns', hfollows⟩ := run_assigns l' hassigns hfresh' hrun'
  refine ⟨hfollows.monotone, hassigns'.once, fun n hn hadmits => hfollows.still ?_⟩
  rw [admits_iff.mp hadmits, hn]

/-- A log with one event and a snapshot of it. -/
def source : List JournalCall :=
  [.persist ⟨"Tally", "source"⟩ [[9]] 0, .saveSnapshot ⟨"Tally", "source"⟩ [9] 1]

/-- A second log is seeded from the first and goes on from its number. -/
def seedFork : List JournalCall :=
  [.copySnapshot ⟨"Tally", "source"⟩ ⟨"Tally", "fork"⟩, .persist ⟨"Tally", "fork"⟩ [[1]] 1]

theorem numbering_seedFork :
    ∃ st st', run step init source = some st ∧ run step st seedFork = some st' ∧
      assigned ⟨"Tally", "fork"⟩ st' = [(2, [1])] ∧ SoundNumbers ⟨"Tally", "fork"⟩ st st' :=
  ⟨_, _, rfl, rfl, rfl,
    numbering_of_freshCopies _ source seedFork _ _ rfl rfl (by decide) (by decide)⟩

/-- The second log has two events when it is seeded. -/
def copyOntoWritten : List JournalCall :=
  [.persist ⟨"Tally", "fork"⟩ [[1], [2]] 0,
    .copySnapshot ⟨"Tally", "source"⟩ ⟨"Tally", "fork"⟩, .persist ⟨"Tally", "fork"⟩ [[3]] 1]

/-- Number 2 is given out again. -/
theorem copy_reassigns_number :
    ¬ ∀ (pid : PersistenceId) (l l' : List JournalCall) (st st' : Store),
      run step init l = some st → run step st l' = some st' → SoundNumbers pid st st' := by
  intro h
  have honce := (h ⟨"Tally", "fork"⟩ source copyOntoWritten _ _ rfl rfl).once 2 [2] [3]
    (by decide) (by decide)
  cases honce

end HorsieActor.Ports.Numbering
