import HorsieActor.Verified.NumberedLog

/-!
# The in-memory journal

Port of `src/journal.rs`, `src/error.rs` (`JournalError`) and
`src/persistence_id.rs`.

A journal is an append-only log of byte blobs for each `PersistenceId`, with
one snapshot beside it.  Both kinds of write are conditional on the sequence
number the writer believes the log ends at; the compaction that follows a
snapshot is not.  `InMemoryJournal` holds its map behind a mutex, so each of
the eight operations of the trait is one atomic step on the map, and it is
ported here as a function from the map to the answer and the map afterwards.

Sequence numbers are natural numbers: the source's `u64` counts appended
events, and what is said of numbers is said of logs to which fewer than `2 ^ 64`
are ever appended.

The map distinguishes an absent log from an empty one, and some operations
create the entry they look at.  No operation *answers* differently for the two,
which is why the specifications at the end are all stated about `entryOf`, the
log as any reader sees it.

## Main results

* `entryOf_persist`, `entryOf_saveSnapshot`, `entryOf_deleteEventsBefore` —
  what each write of a `Persistent` instance does to its own log.
* `persist_ok_iff`, `saveSnapshot_ok_iff` — the fence: a write is admitted
  exactly when the log still ends where the writer says it does.
* `foldl_push` — a batch is appended under consecutive numbers.
-/

namespace HorsieActor.Ports.Journal

open HorsieActor.Verified

/-! ## Identities, errors and entries -/

/-- An opaque blob, as the journal sees events and snapshots. -/
abbrev Bytes : Type := List UInt8

/-- Identity of a persistent actor: its kind and its instance id. -/
structure PersistenceId where
  kind : String
  id : String
  deriving DecidableEq, Repr

/-- The `Display` form. -/
def PersistenceId.toString (pid : PersistenceId) : String :=
  pid.kind ++ "/" ++ pid.id

/-- Errors surfaced by journal operations. -/
inductive JournalError where
  | backend (message : String)
  | serialization (message : String)
  | conflict (pid : String) (expected actual : Nat)
  deriving DecidableEq, Repr

abbrev JournalResult (α : Type) : Type := Except JournalError α

/-- One log: the retained events in ascending order, the number of the last
event ever assigned, and the latest snapshot with the number it was taken at. -/
structure Entry where
  events : List (Nat × Bytes) := []
  lastSeq : Nat := 0
  snapshot : Option (Bytes × Nat) := none
  deriving DecidableEq, Repr

instance : Inhabited Entry := ⟨{}⟩

/-- Reject the write unless the log still ends where the writer believes. -/
def admitWrite (entry : Entry) (pid : PersistenceId) (expectedLastSeq : Nat) :
    JournalResult Unit :=
  if entry.lastSeq = expectedLastSeq then .ok ()
  else .error (.conflict pid.toString expectedLastSeq entry.lastSeq)

/-- Assign the next number to one event and append it. -/
def Entry.push (entry : Entry) (bytes : Bytes) : Entry :=
  { entry with
    lastSeq := entry.lastSeq + 1
    events := entry.events ++ [(entry.lastSeq + 1, bytes)] }

/-! ## The journal -/

/-- The map behind the journal's mutex. -/
def InMemoryJournal : Type := PersistenceId → Option Entry

namespace InMemoryJournal

/-- A journal with no logs. -/
def new : InMemoryJournal := fun _ => none

/-- The map with the entry for `pid` replaced. -/
def insert (j : InMemoryJournal) (pid : PersistenceId) (entry : Entry) : InMemoryJournal :=
  fun p => if p = pid then some entry else j p

/-- The map without an entry for `pid`. -/
def remove (j : InMemoryJournal) (pid : PersistenceId) : InMemoryJournal :=
  fun p => if p = pid then none else j p

/-- The log of `pid` as any reader sees it: an absent one reads as empty. -/
def entryOf (j : InMemoryJournal) (pid : PersistenceId) : Entry := (j pid).getD {}

/-- Append `events`, but only if the log currently ends at `expectedLastSeq`.
The entry is created before it is checked, so even a refused write leaves one
behind. -/
def persist (j : InMemoryJournal) (pid : PersistenceId) (events : List Bytes)
    (expectedLastSeq : Nat) : JournalResult Unit × InMemoryJournal :=
  let entry := j.entryOf pid
  match admitWrite entry pid expectedLastSeq with
  | .error e => (.error e, j.insert pid entry)
  | .ok () => (.ok (), j.insert pid (events.foldl Entry.push entry))

/-- Every retained event numbered past `afterSeq`, in ascending order. -/
def replay (j : InMemoryJournal) (pid : PersistenceId) (afterSeq : Nat) :
    List (JournalResult (Nat × Bytes)) :=
  match j pid with
  | none => []
  | some e => (e.events.filter fun p => decide (afterSeq < p.1)).map .ok

/-- Store `state` as the snapshot taken at `seqNr`, on the same condition as an
append. -/
def saveSnapshot (j : InMemoryJournal) (pid : PersistenceId) (state : Bytes)
    (seqNr : Nat) : JournalResult Unit × InMemoryJournal :=
  let entry := j.entryOf pid
  match admitWrite entry pid seqNr with
  | .error e => (.error e, j.insert pid entry)
  | .ok () => (.ok (), j.insert pid { entry with snapshot := some (state, seqNr) })

/-- The latest snapshot and the number it was taken at. -/
def latestSnapshot (j : InMemoryJournal) (pid : PersistenceId) :
    JournalResult (Option (Bytes × Nat)) :=
  .ok ((j pid).bind Entry.snapshot)

/-- Drop every event numbered at or below `seqNr`.  Unconditional. -/
def deleteEventsBefore (j : InMemoryJournal) (pid : PersistenceId) (seqNr : Nat) :
    JournalResult Unit × InMemoryJournal :=
  match j pid with
  | none => (.ok (), j)
  | some e =>
      (.ok (), j.insert pid { e with events := e.events.filter fun p => decide (seqNr < p.1) })

/-- Replace the log of `target` by an empty one that starts from the snapshot of
`source`, numbering included. -/
def copySnapshot (j : InMemoryJournal) (source target : PersistenceId) :
    JournalResult Unit × InMemoryJournal :=
  match (j source).bind Entry.snapshot with
  | none => (.error (.backend ("no snapshot for '" ++ source.toString ++ "'")), j)
  | some snapshot =>
      (.ok (), j.insert target { events := [], lastSeq := snapshot.2, snapshot := some snapshot })

/-- The number the log ends at. -/
def lastSeq (j : InMemoryJournal) (pid : PersistenceId) : JournalResult Nat :=
  .ok (match j pid with
    | none => 0
    | some e => e.lastSeq)

/-- Remove everything stored for `pid`. -/
def clear (j : InMemoryJournal) (pid : PersistenceId) : JournalResult Unit × InMemoryJournal :=
  (.ok (), j.remove pid)

end InMemoryJournal

/-! ## Calls on the trait object

An actor holds an `Arc<dyn Journal>`, so what it does to the journal is a
sequence of calls.  `JournalCall` is one of them with its arguments, and
`Answer` the type it returns. -/

/-- One call of the `Journal` trait. -/
inductive JournalCall where
  | persist (pid : PersistenceId) (events : List Bytes) (expectedLastSeq : Nat)
  | replay (pid : PersistenceId) (afterSeq : Nat)
  | saveSnapshot (pid : PersistenceId) (state : Bytes) (seqNr : Nat)
  | latestSnapshot (pid : PersistenceId)
  | deleteEventsBefore (pid : PersistenceId) (seqNr : Nat)
  | copySnapshot (source target : PersistenceId)
  | lastSeq (pid : PersistenceId)
  | clear (pid : PersistenceId)
  deriving DecidableEq, Repr

/-- What a call returns. -/
@[reducible] def JournalCall.Answer : JournalCall → Type
  | .persist _ _ _ => JournalResult Unit
  | .replay _ _ => List (JournalResult (Nat × Bytes))
  | .saveSnapshot _ _ _ => JournalResult Unit
  | .latestSnapshot _ => JournalResult (Option (Bytes × Nat))
  | .deleteEventsBefore _ _ => JournalResult Unit
  | .copySnapshot _ _ => JournalResult Unit
  | .lastSeq _ => JournalResult Nat
  | .clear _ => JournalResult Unit

/-- The in-memory journal answering one call. -/
def InMemoryJournal.answer (j : InMemoryJournal) : (c : JournalCall) → c.Answer × InMemoryJournal
  | .persist pid events expected => j.persist pid events expected
  | .replay pid afterSeq => (j.replay pid afterSeq, j)
  | .saveSnapshot pid state seqNr => j.saveSnapshot pid state seqNr
  | .latestSnapshot pid => (j.latestSnapshot pid, j)
  | .deleteEventsBefore pid seqNr => j.deleteEventsBefore pid seqNr
  | .copySnapshot source target => j.copySnapshot source target
  | .lastSeq pid => (j.lastSeq pid, j)
  | .clear pid => j.clear pid

/-! ## Specifications -/

namespace InMemoryJournal

variable (j : InMemoryJournal) (pid : PersistenceId)

@[simp] theorem entryOf_insert_self (e : Entry) : (j.insert pid e).entryOf pid = e := by
  simp [entryOf, insert]

/-- Appending a batch numbers it consecutively from where the log ends. -/
theorem foldl_push (bs : List Bytes) :
    ∀ e : Entry, bs.foldl Entry.push e =
      { e with
        lastSeq := e.lastSeq + bs.length
        events := e.events ++ numbered e.lastSeq bs } := by
  induction bs with
  | nil => intro e; simp
  | cons b bs ih =>
      intro e
      rw [List.foldl_cons, ih]
      simp only [Entry.push, numbered, List.length_cons, List.append_assoc,
        List.singleton_append]
      rw [show e.lastSeq + 1 + bs.length = e.lastSeq + (bs.length + 1) by omega]

/-- The fence on an append. -/
theorem persist_ok_iff (bs : List Bytes) (n : Nat) :
    (j.persist pid bs n).1 = .ok () ↔ (j.entryOf pid).lastSeq = n := by
  unfold persist admitWrite
  by_cases h : (j.entryOf pid).lastSeq = n <;> simp [h]

/-- A refused append reports where the log ends. -/
theorem persist_error_of_ne {bs : List Bytes} {n : Nat} (h : (j.entryOf pid).lastSeq ≠ n) :
    (j.persist pid bs n).1 = .error (.conflict pid.toString n (j.entryOf pid).lastSeq) := by
  simp [persist, admitWrite, h]

/-- What an append does to its log: the whole batch under consecutive numbers,
or nothing. -/
theorem entryOf_persist (bs : List Bytes) (n : Nat) :
    (j.persist pid bs n).2.entryOf pid =
      if (j.entryOf pid).lastSeq = n then
        { j.entryOf pid with
          lastSeq := (j.entryOf pid).lastSeq + bs.length
          events := (j.entryOf pid).events ++ numbered (j.entryOf pid).lastSeq bs }
      else j.entryOf pid := by
  unfold persist admitWrite
  by_cases h : (j.entryOf pid).lastSeq = n <;> simp [h, foldl_push]

/-- The fence on a snapshot. -/
theorem saveSnapshot_ok_iff (b : Bytes) (n : Nat) :
    (j.saveSnapshot pid b n).1 = .ok () ↔ (j.entryOf pid).lastSeq = n := by
  unfold saveSnapshot admitWrite
  by_cases h : (j.entryOf pid).lastSeq = n <;> simp [h]

/-- What a snapshot does to its log. -/
theorem entryOf_saveSnapshot (b : Bytes) (n : Nat) :
    (j.saveSnapshot pid b n).2.entryOf pid =
      if (j.entryOf pid).lastSeq = n then
        { j.entryOf pid with snapshot := some (b, n) }
      else j.entryOf pid := by
  unfold saveSnapshot admitWrite
  by_cases h : (j.entryOf pid).lastSeq = n <;> simp [h]

/-- What a compaction does to its log. -/
theorem entryOf_deleteEventsBefore (n : Nat) :
    (j.deleteEventsBefore pid n).2.entryOf pid =
      { j.entryOf pid with
        events := (j.entryOf pid).events.filter fun p => decide (n < p.1) } := by
  unfold deleteEventsBefore
  cases h : j pid with
  | none => simp [entryOf, h]
  | some e => simp [entryOf, insert, h]

theorem replay_eq (n : Nat) :
    j.replay pid n =
      ((j.entryOf pid).events.filter fun p => decide (n < p.1)).map .ok := by
  unfold replay entryOf
  cases j pid <;> simp

theorem latestSnapshot_eq : j.latestSnapshot pid = .ok (j.entryOf pid).snapshot := by
  unfold latestSnapshot entryOf
  cases j pid <;> simp

end InMemoryJournal

end HorsieActor.Ports.Journal
