import HorsieActor.Ports.Journal
import HorsieActor.Verified.Schedule
import HorsieActor.Verified.Task

/-!
# Event-sourced actors over a journal

Port of `src/persistent.rs` and of `CommandEffect` from `src/actor.rs`.

`recover`, `persistEvents`, `snapshotState`, `onStart` and `handle` are the
source's `async` functions, transcribed as `Async` programs whose only awaits
are journal calls.  What the wrapped actor decides is arbitrary user code, so
`handle` takes the `CommandEffect` the command handler returned; every shape of
effect is an input.  The hooks `on_recovery_complete` and `on_events_persisted`
only read the state; the second is recorded in the outcome (`published`)
because the source orders it before the ack.

The second half of the file is the system those functions run in: any number of
instances of one actor type sharing one `PersistenceId` over one
`InMemoryJournal`.  A label of the machine starts an instance, lets one
instance take its next journal call — answered by the journal, or failing
without effect — gives an idle instance a command, or drops an instance where
it stands.  Every interleaving of the individual journal calls, with a failure
or a drop possible at each of them, is a schedule of this machine.
-/

namespace HorsieActor.Ports

open HorsieActor.Verified
open HorsieActor.Ports.Journal

/-! ## The actor type -/

/-- What the runtime needs of an `EventSourcedActor`: its two associated types,
the fold, and how `serde_json` encodes and decodes both.  Encoding may fail. -/
structure EventSourcedActor where
  State : Type
  Event : Type
  initialState : State
  applyEvent : State → Event → State
  encodeState : State → Except String Bytes
  decodeState : Bytes → Except String State
  encodeEvent : Event → Except String Bytes
  decodeEvent : Bytes → Except String Event

/-- `serde_json` decodes exactly what it encoded. -/
structure EventSourcedActor.RoundTrips (A : EventSourcedActor) : Prop where
  state : ∀ {s b}, A.encodeState s = .ok b → A.decodeState b = .ok s
  event : ∀ {e b}, A.encodeEvent e = .ok b → A.decodeEvent b = .ok e

/-- The adapter: the state and the number of the last event folded into it,
which doubles as the write fence. -/
structure Persistent (A : EventSourcedActor) where
  pid : PersistenceId
  state : A.State
  seqNr : Nat

namespace Persistent

/-- What an actor wants the runtime to do after handling a command.  The ack is
the reply handle to report the durable write on. -/
structure CommandEffect (Event : Type) where
  events : List Event := []
  snapshot : Bool := false
  ack : Option Nat := none
  stop : Bool := false

inductive Flow where
  | continue
  | stop
  deriving DecidableEq, Repr

inductive StartError where
  | recovery (e : JournalError)
  deriving DecidableEq, Repr

/-- `Persistent::new`; the state is overwritten by `onStart`. -/
def new (A : EventSourcedActor) (pid : PersistenceId) : Persistent A :=
  { pid := pid, state := A.initialState, seqNr := 0 }

/-- An asynchronous function of a `Persistent` instance over the journal. -/
abbrev JournalTask (A : EventSourcedActor) (α : Type) : Type :=
  Task (Persistent A) JournalCall JournalCall.Answer α

abbrev OverJournal (A : EventSourcedActor) (α : Type) : Type :=
  Async (Persistent A) JournalCall JournalCall.Answer α

variable {A : EventSourcedActor}

/-! ### The five calls an instance makes on its `Arc<dyn Journal>` -/

abbrev callPersist (pid : PersistenceId) (events : List Bytes) (expectedLastSeq : Nat) :
    OverJournal A (JournalResult Unit) :=
  Async.call (JournalCall.persist pid events expectedLastSeq)

abbrev callReplay (pid : PersistenceId) (afterSeq : Nat) :
    OverJournal A (List (JournalResult (Nat × Bytes))) :=
  Async.call (JournalCall.replay pid afterSeq)

abbrev callSaveSnapshot (pid : PersistenceId) (state : Bytes) (seqNr : Nat) :
    OverJournal A (JournalResult Unit) :=
  Async.call (JournalCall.saveSnapshot pid state seqNr)

abbrev callLatestSnapshot (pid : PersistenceId) :
    OverJournal A (JournalResult (Option (Bytes × Nat))) :=
  Async.call (JournalCall.latestSnapshot pid)

abbrev callDeleteEventsBefore (pid : PersistenceId) (seqNr : Nat) :
    OverJournal A (JournalResult Unit) :=
  Async.call (JournalCall.deleteEventsBefore pid seqNr)

/-! ## Recovery -/

/-- Where recovery starts from: the decoded snapshot, or nothing at all. -/
def startFrom (A : EventSourcedActor) : Option (Bytes × Nat) → JournalResult (A.State × Nat)
  | some (bytes, seq) =>
      match A.decodeState bytes with
      | .error e => .error (.serialization e)
      | .ok state => .ok (state, seq)
  | none => .ok (A.initialState, 0)

/-- Drain the replay stream, folding each event and taking the journal's number
for it. -/
def drainReplay (A : EventSourcedActor) :
    A.State → Nat → List (JournalResult (Nat × Bytes)) → JournalResult (A.State × Nat)
  | state, seqNr, [] => .ok (state, seqNr)
  | _, _, .error e :: _ => .error e
  | state, _, .ok (seq, bytes) :: rest =>
      match A.decodeEvent bytes with
      | .error e => .error (.serialization e)
      | .ok event => drainReplay A (A.applyEvent state event) seq rest

/-- Rebuild the state from the latest snapshot plus subsequent events.  Two
separate calls: anything may happen to the log between them. -/
def recover (A : EventSourcedActor) (pid : PersistenceId) :
    OverJournal A (JournalResult (A.State × Nat)) := do
  match ← callLatestSnapshot pid with
  | .error e => return .error e
  | .ok found =>
      match startFrom A found with
      | .error e => return .error e
      | .ok (state, seqNr) =>
          let stream ← callReplay pid seqNr
          return drainReplay A state seqNr stream

/-- `Actor::on_start`. -/
def onStart : OverJournal A (Except StartError Unit) := do
  let self ← Async.get
  match ← recover A self.pid with
  | .error e => return .error (.recovery e)
  | .ok (state, seqNr) =>
      Async.modify fun self => { self with state := state, seqNr := seqNr }
      return .ok ()

/-! ## Handling one command -/

/-- Encode a batch, stopping at the first event that will not encode. -/
def encodeAll (A : EventSourcedActor) : List A.Event → Except String (List Bytes)
  | [] => .ok []
  | event :: rest =>
      match A.encodeEvent event with
      | .error e => .error e
      | .ok bytes =>
          match encodeAll A rest with
          | .error e => .error e
          | .ok encoded => .ok (bytes :: encoded)

/-- Fold one persisted event into the state. -/
def fold (self : Persistent A) (event : A.Event) : Persistent A :=
  { self with state := A.applyEvent self.state event, seqNr := self.seqNr + 1 }

/-- Persist `events`, then fold them.  On failure nothing is folded and nothing
is counted. -/
def persistEvents (events : List A.Event) :
    OverJournal A (List A.Event × JournalResult Unit) := do
  match encodeAll A events with
  | .error e => return (events, .error (.serialization e))
  | .ok encoded =>
      let self ← Async.get
      match ← callPersist self.pid encoded self.seqNr with
      | .error e => return (events, .error e)
      | .ok () =>
          Async.modify fun self => events.foldl Persistent.fold self
          return (events, .ok ())

/-- Snapshot the state and compact the log.  A rejected snapshot returns before
the compaction, which is what stops a stale writer deleting events it never
saw. -/
def snapshotState : OverJournal A Unit := do
  let self ← Async.get
  match A.encodeState self.state with
  | .error _ => return ()
  | .ok bytes =>
      match ← callSaveSnapshot self.pid bytes self.seqNr with
      | .error _ => return ()
      | .ok () =>
          let _ ← callDeleteEventsBefore self.pid self.seqNr
          return ()

/-- What is observable of one completed `handle`: the batch announced to
`on_events_persisted`, the message sent on the ack, and the flow. -/
structure Handled (A : EventSourcedActor) where
  published : Option (List A.Event)
  acked : Option (Nat × JournalResult Unit)
  flow : Flow

def JournalError.isConflict : JournalError → Bool
  | .conflict _ _ _ => true
  | _ => false

/-- The write outcome is a lost fence. -/
def conflicted : JournalResult Unit → Bool
  | .error e => JournalError.isConflict e
  | .ok () => false

/-- `Actor::handle`, from the effect the command handler returned:
write, publish, snapshot, ack, stop. -/
def handle (effect : CommandEffect A.Event) : OverJournal A (Handled A) := do
  let (persisted, result) ← persistEvents effect.events
  let published :=
    if result.isOk && !persisted.isEmpty then some persisted else none
  if effect.snapshot && result.isOk && !effect.stop then
    snapshotState
  return {
    published := published
    acked := effect.ack.map fun ack => (ack, result)
    flow := if effect.stop || conflicted result then .stop else .continue }

/-! ## Any number of instances over one journal -/

/-- One journal call with the answer it got. -/
structure Answered where
  call : JournalCall
  answer : call.Answer

/-- The journal, and every call it has answered so far. -/
structure Store where
  journal : InMemoryJournal
  trace : List Answered

/-- The events one answered call appended to the log of `pid`. -/
def Answered.appended (pid : PersistenceId) : Answered → List Bytes
  | ⟨.persist p events _, .ok ()⟩ => if p = pid then events else []
  | _ => []

/-- Every event ever appended to the log of `pid`, in append order. -/
def Store.appended (st : Store) (pid : PersistenceId) : List Bytes :=
  st.trace.flatMap (Answered.appended pid)

/-- The call was a persist and it returned `Ok`. -/
def Answered.persistedOk : Answered → Bool
  | ⟨.persist _ _ _, .ok ()⟩ => true
  | _ => false

/-- The answer of a failing call, for the three calls that write. -/
def JournalCall.failWith (e : JournalError) : (c : JournalCall) → Option c.Answer
  | .persist _ _ _ => some (.error e)
  | .saveSnapshot _ _ _ => some (.error e)
  | .deleteEventsBefore _ _ => some (.error e)
  | _ => none

/-- Answer one call: from the journal, or — for a write, when the backend
fails — with an error and no effect. -/
def Store.answer (st : Store) (c : JournalCall) : Option JournalError → Option (c.Answer × Store)
  | none =>
      let (r, j) := st.journal.answer c
      some (r, { journal := j, trace := st.trace ++ [⟨c, r⟩] })
  | some e =>
      (JournalCall.failWith e c).map fun r =>
        (r, { st with trace := st.trace ++ [⟨c, r⟩] })

/-- What an instance's task returns: its start-up has finished, or a command
has. -/
inductive Returned (A : EventSourcedActor) where
  | started (r : Except StartError Unit)
  | handled (h : Handled A)

/-- Whether the serve loop goes on to the next command. -/
def Returned.ready : Returned A → Bool
  | .started (.ok ()) => true
  | .started (.error _) => false
  | .handled h => h.flow == .continue

abbrev Instance (A : EventSourcedActor) : Type := JournalTask A (Returned A)

/-- The journal and the instances over it; a slot is emptied when its instance
is dropped. -/
structure World (A : EventSourcedActor) where
  store : Store
  instances : List (Option (Instance A))

def World.init (A : EventSourcedActor) : World A :=
  { store := { journal := InMemoryJournal.new, trace := [] }, instances := [] }

inductive Label (A : EventSourcedActor) where
  | spawn
  | call (i : Nat) (fault : Option JournalError)
  | command (i : Nat) (effect : CommandEffect A.Event)
  | drop (i : Nat)

def Label.isSpawn : Label A → Bool
  | .spawn => true
  | _ => false

/-- A fresh instance about to recover. -/
def startUp (A : EventSourcedActor) (pid : PersistenceId) : Instance A :=
  (do return .started (← onStart) : OverJournal A (Returned A)) (Persistent.new A pid)

/-- An instance that has just been given a command. -/
def serveOne (self : Persistent A) (effect : CommandEffect A.Event) : Instance A :=
  (do return .handled (← handle effect) : OverJournal A (Returned A)) self

/-- One step of the system. -/
def step (pid : PersistenceId) (w : World A) : Label A → Option (World A)
  | .spawn => some { w with instances := w.instances ++ [some (startUp A pid)] }
  | .call i fault =>
      match w.instances[i]? with
      | some (some (.await _ c k)) =>
          (w.store.answer c fault).map fun (r, store) =>
            { store := store, instances := w.instances.set i (some (k r)) }
      | _ => none
  | .command i effect =>
      match w.instances[i]? with
      | some (some (.done self r)) =>
          if r.ready then
            some { w with instances := w.instances.set i (some (serveOne self effect)) }
          else none
      | _ => none
  | .drop i => some { w with instances := w.instances.set i none }

/-! ### What a step can do -/

section Inversion

variable {pid : PersistenceId} {w w' : World A} {i : Nat}

theorem step_call {fault : Option JournalError} (h : step pid w (.call i fault) = some w') :
    ∃ self c k r st', w.instances[i]? = some (some (.await self c k)) ∧
      w.store.answer c fault = some (r, st') ∧
      w' = { store := st', instances := w.instances.set i (some (k r)) } := by
  simp only [step] at h
  split at h
  · rename_i self c k hi
    obtain ⟨⟨r, st'⟩, hans, hw⟩ := Option.map_eq_some_iff.mp h
    exact ⟨self, c, k, r, st', hi, hans, hw.symm⟩
  · cases h

theorem step_command {effect : CommandEffect A.Event}
    (h : step pid w (.command i effect) = some w') :
    ∃ self r, w.instances[i]? = some (some (.done self r)) ∧ r.ready = true ∧
      w' = { w with instances := w.instances.set i (some (serveOne self effect)) } := by
  simp only [step] at h
  split at h
  · rename_i self r hi
    split at h
    · rename_i hready
      cases h
      exact ⟨self, r, hi, hready, rfl⟩
    · cases h
  · cases h

end Inversion

end Persistent

end HorsieActor.Ports
