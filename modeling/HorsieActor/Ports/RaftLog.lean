import HorsieActor.Ports.RaftStore
import HorsieActor.Verified.Schedule
import Mathlib.Data.List.Intervals

/-!
# The Raft log has no holes

The store keeps log entries by index in a map that nothing renumbers: `purge`
drops a prefix of it, `truncate_after` a suffix, and `append` writes whatever it
is given.  That what is stored is nevertheless a stretch of consecutive indexes
rests on the order in which `openraft` makes these calls.  `Obeys` is the part of
its contract that matters: an append goes on right after the last log id, index
by index, and a purge does not go back.  What a truncation names, and why a purge
passes the last entry (`Careful`), is all one.  One thing the contract does not
say is needed as well: a log may start at any index, and a first purge that stops
short of it leaves the indexes between unaccounted for (`Reaches`).

Beside the state runs a log as it should be, a list of entries that is appended
to, cut after an index and cut up to one (`kept`).  The store holds exactly that
list, as long as no truncation names the last index there is: one past it wraps
to zero, and everything is dropped.  The stretch has no holes even then.

A range that runs backwards is not read at all: `BTreeMap::range` panics on it, as
soon as the map has held an entry.

## Main results

* `inv_step` — what each mutation does to the stretch of stored indexes.
* `noHoles` — the log over any sequence of calls that obeys the contract.
-/

namespace HorsieActor.Ports.Raft

open HorsieActor.Verified

/-! ## A store and what it was given -/

def Index.toNat (i : Index) : Nat := i.val.toNat

/-- Where an entry belongs. -/
def Entry.position (e : Entry) : Nat := e.logId.index.toNat

def Op.entries : Op → List Entry
  | .append entries => entries
  | _ => []

/-- The log as it should be, after one more call. -/
def kept (log : List Entry) : Op → List Entry
  | .append entries => log ++ entries
  | .truncateAfter none => []
  | .truncateAfter (some id) => log.filter fun e => decide (e.logId.index ≤ id.index)
  | .purge id => log.filter fun e => decide (id.index < e.logId.index)
  | _ => log

/-- The state of a store.  History: all entries ever appended, in order, and the
log as it should be. -/
structure Ledger where
  state : Persisted
  appended : List Entry
  log : List Entry

namespace Ledger

/-- A new store. -/
def start : Ledger := ⟨.default, [], []⟩

/-- One call; a snapshot that does not decode changes nothing. -/
def step (serde : Serde) (w : Ledger) (op : Op) : Option Ledger :=
  some ⟨((op.edit serde).getD id) w.state, w.appended ++ op.entries, kept w.log op⟩

abbrev run (serde : Serde) : Ledger → List Op → Option Ledger := Schedule.run (step serde)

/-- The map of entries has held one. -/
def rooted (w : Ledger) : Bool := !w.appended.isEmpty

def read (w : Ledger) (range : Range) : Option (List Entry) :=
  w.state.tryGetLogEntries w.rooted range

/-- The index right after a log id.  After none, it is the first index ever
appended. -/
def after (id : Option LogId) (appended : List Entry) : Nat :=
  match id with
  | some id => id.index.toNat + 1
  | none =>
      match appended with
      | [] => 0
      | e :: _ => e.position

/-- Where the log starts: one past the purged index, or at the first index ever
appended. -/
def floor (w : Ledger) : Nat := after w.state.purged w.appended

/-- Where an append of these entries has to start. -/
def next (w : Ledger) (entries : List Entry) : Nat :=
  after w.state.getLogState.lastLogId (w.appended ++ entries)

end Ledger

/-- How `openraft` calls the store: it appends right after the last log id, index
by index, and never purges backwards. -/
def Obeys (w : Ledger) : Op → Prop
  | .append entries =>
      entries.map Entry.position =
        List.Ico (w.next entries) (w.next entries + entries.length)
  | .purge id => ∀ purged ∈ w.state.purged, purged.index ≤ id.index
  | _ => True

/-- The rest of the contract: it truncates at or above the purged id, and purges
past the last entry only for an installed snapshot. -/
def Careful (w : Ledger) : Op → Prop
  | .truncateAfter lastLogId =>
      ∀ purged ∈ w.state.purged, ∃ id ∈ lastLogId, purged.index ≤ id.index
  | .purge id =>
      (∀ last ∈ w.state.getLogState.lastLogId, last.index < id.index) →
        ∃ info data, w.state.snapshot = some (info, data) ∧ info.lastLogId = some id
  | _ => True

/-- The first purge of a log that holds entries goes at least up to just before
them. -/
def Reaches (w : Ledger) : Op → Prop
  | .purge id =>
      w.state.purged = none → w.state.entries.rows = [] ∨ w.floor ≤ id.index.toNat + 1
  | _ => True

/-- No truncation names the last index there is. -/
def Fits : Op → Prop
  | .truncateAfter (some id) => id.index.toNat + 1 < 2 ^ 64
  | _ => True

/-! ## The property -/

/-- The stored entries are the consecutive indexes from the start of the log up
to the last, each under its own index with what was last appended there, and the
log state is the purged id and the id of the last entry. -/
structure NoHoles (w : Ledger) : Prop where
  consecutive : ∃ stop, w.state.entries.keys.map Index.toNat = List.Ico w.floor stop
  own : ∀ i e, (i, e) ∈ w.state.entries.rows → e.logId.index = i
  latest : ∀ i e, (i, e) ∈ w.state.entries.rows → Op.lastFor w.appended i = some e
  purged : w.state.getLogState.lastPurgedLogId = w.state.purged
  last : ∀ i e, (i, e) ∈ w.state.entries.rows → (∀ row ∈ w.state.entries.rows, row.1 ≤ i) →
    w.state.getLogState.lastLogId = some e.logId
  empty : w.state.entries.rows = [] → w.state.getLogState.lastLogId = w.state.purged

/-- A read returns the stored entries in its range, in index order. -/
def ReadsExactly (w : Ledger) (range : Range) : Prop :=
  ∃ entries, w.read range = some entries ∧
    entries.Pairwise (fun a b => a.logId.index < b.logId.index) ∧
    ∀ e, e ∈ entries ↔ ∃ i, (i, e) ∈ w.state.entries.rows ∧ range.contains i = true

/-! ## The invariant -/

structure Ledger.Inv (w : Ledger) : Prop where
  consecutive : ∃ stop, w.state.entries.keys.map Index.toNat = List.Ico w.floor stop
  latest : ∀ i e, (i, e) ∈ w.state.entries.rows → Op.lastFor w.appended i = some e

variable {serde : Serde} {w w' : Ledger} {s : Persisted}

theorem lastFor_append (a b : List Entry) (i : Index) :
    Op.lastFor (a ++ b) i = (Op.lastFor b i).or (Op.lastFor a i) := by
  unfold Op.lastFor
  rw [List.reverse_append, List.find?_append]

theorem index_of_lastFor {entries : List Entry} {i : Index} {e : Entry}
    (h : Op.lastFor entries i = some e) : e.logId.index = i := by
  simpa using List.find?_some h

theorem Ledger.Inv.own (h : Ledger.Inv w) {i : Index} {e : Entry}
    (hrow : (i, e) ∈ w.state.entries.rows) : e.logId.index = i :=
  index_of_lastFor (h.latest i e hrow)

theorem keys_retain (m : OrdMap Index Entry) (keep : Index → Bool) :
    (m.retain keep).keys = m.keys.filter keep := by
  unfold OrdMap.keys OrdMap.retain
  rw [List.filter_map]
  rfl

/-- Entries in ascending order above all that is stored go to the end. -/
theorem rows_foldl_insert (entries : List Entry) : ∀ log : OrdMap Index Entry,
    (log.keys.map Index.toNat ++ entries.map Entry.position).Pairwise (· < ·) →
      (entries.foldl (fun log e => log.insert e.logId.index e) log).rows =
        log.rows ++ entries.map fun e => (e.logId.index, e) := by
  induction entries with
  | nil => intro log _; simp
  | cons e rest ih =>
      intro log h
      have hnew : (log.insert e.logId.index e).rows = log.rows ++ [(e.logId.index, e)] := by
        apply OrdMap.rows_insert_of_lt
        intro row hrow
        have hkey : row.1.toNat ∈ log.keys.map Index.toNat :=
          List.mem_map_of_mem (List.mem_map_of_mem hrow)
        exact (List.pairwise_append.mp h).2.2 _ hkey _ (List.mem_cons_self ..)
      have hkeys : (log.insert e.logId.index e).keys = log.keys ++ [e.logId.index] := by
        unfold OrdMap.keys
        rw [hnew, List.map_append]
        rfl
      rw [List.foldl_cons, ih, hnew, List.append_assoc]
      · rfl
      · rw [hkeys, List.map_append, List.append_assoc]
        exact h

/-! ## The last entry -/

theorem lastLogId_of_nil (h : s.entries.rows = []) : s.getLogState.lastLogId = s.purged := by
  unfold Persisted.getLogState
  rw [h]
  rfl

theorem lastLogId_of_snoc {front : List (Index × Entry)} {row : Index × Entry}
    (h : s.entries.rows = front ++ [row]) : s.getLogState.lastLogId = some row.2.logId := by
  unfold Persisted.getLogState
  rw [h, List.getLast?_concat]
  rfl

theorem after_append_of_ne_nil (id : Option LogId) {appended : List Entry} (h : appended ≠ [])
    (entries : List Entry) : Ledger.after id (appended ++ entries) = Ledger.after id appended := by
  cases id with
  | some id => rfl
  | none =>
      cases appended with
      | nil => exact absurd rfl h
      | cons e rest => rfl

/-- Just before an append, the stretch of stored indexes ends where the append
has to start.  If nothing is stored, the append says where the log starts. -/
theorem Ledger.Inv.ends_at_next (h : Ledger.Inv w) (entries : List Entry) :
    w.state.entries.keys.map Index.toNat =
        List.Ico (Ledger.after w.state.purged (w.appended ++ entries)) (w.next entries) ∧
      Ledger.after w.state.purged (w.appended ++ entries) ≤ w.next entries := by
  obtain ⟨stop, hkeys⟩ := h.consecutive
  rcases List.eq_nil_or_concat w.state.entries.rows with hnil | ⟨front, row, hrows⟩
  · unfold Ledger.next OrdMap.keys
    rw [lastLogId_of_nil hnil, hnil, List.Ico.self_empty]
    exact ⟨rfl, Nat.le_refl _⟩
  · rw [List.concat_eq_append] at hrows
    have hrow : row ∈ w.state.entries.rows := by
      rw [hrows]
      exact List.mem_append_right _ (List.mem_singleton_self row)
    have hlatest := h.latest row.1 row.2 hrow
    have hever : w.appended ≠ [] := by
      intro hnone
      rw [hnone] at hlatest
      cases hlatest
    have hnext : w.next entries = row.1.toNat + 1 := by
      unfold Ledger.next
      rw [lastLogId_of_snoc hrows, ← h.own hrow]
      rfl
    have hmem : row.1.toNat ∈ List.Ico w.floor stop := by
      rw [← hkeys]
      exact List.mem_map_of_mem (List.mem_map_of_mem hrow)
    obtain ⟨hlow, hhigh⟩ := List.Ico.mem.mp hmem
    -- the last index of the stretch is the last one stored
    have hstop : stop = row.1.toNat + 1 := by
      have htop : List.Ico w.floor stop = List.Ico w.floor (stop - 1) ++ [stop - 1] := by
        rw [← List.Ico.succ_top (by omega)]
        congr 1
        omega
      unfold OrdMap.keys at hkeys
      rw [htop, hrows, List.map_append, List.map_append] at hkeys
      have hlast := (List.append_inj' hkeys rfl).2
      simp only [List.map_cons, List.map_nil, List.cons.injEq, and_true] at hlast
      omega
    rw [hnext, after_append_of_ne_nil _ hever, hkeys, hstop]
    exact ⟨rfl, by unfold Ledger.floor at hlow; omega⟩

/-! ## One call -/

theorem rows_append (h : Ledger.Inv w) {entries : List Entry} (hobeys : Obeys w (.append entries)) :
    (w.state.append entries).entries.rows =
      w.state.entries.rows ++ entries.map fun e => (e.logId.index, e) := by
  obtain ⟨hkeys, hle⟩ := h.ends_at_next entries
  apply rows_foldl_insert
  rw [hkeys, hobeys, List.Ico.append_consecutive hle (Nat.le_add_right ..)]
  exact List.Ico.pairwise_lt ..

theorem inv_append (h : Ledger.Inv w) {entries : List Entry} (hobeys : Obeys w (.append entries))
    (hstep : w.step serde (.append entries) = some w') : Ledger.Inv w' := by
  have hrows := rows_append h hobeys
  obtain ⟨hkeys, hle⟩ := h.ends_at_next entries
  cases hstep
  constructor
  · refine ⟨w.next entries + entries.length, ?_⟩
    show ((w.state.append entries).entries.rows.map Prod.fst).map Index.toNat =
      List.Ico (Ledger.after w.state.purged (w.appended ++ entries)) _
    have hnew : ((entries.map fun e => (e.logId.index, e)).map Prod.fst).map Index.toNat =
        entries.map Entry.position := by
      rw [List.map_map, List.map_map]
      rfl
    rw [hrows, List.map_append, List.map_append, hnew, hobeys]
    exact (congrArg (· ++ _) hkeys).trans (List.Ico.append_consecutive hle (Nat.le_add_right ..))
  · intro i e hrow
    have hget : (w.state.append entries).entries.get? i = some e :=
      OrdMap.get?_eq_some_iff.mpr hrow
    have hboth : (Op.lastFor entries i).or (w.state.entries.get? i) = some e :=
      (Op.get?_foldl_insert i entries w.state.entries).symm.trans hget
    show Op.lastFor (w.appended ++ entries) i = some e
    rw [lastFor_append]
    cases hnew : Op.lastFor entries i with
    | some e' =>
        rw [hnew] at hboth
        exact hboth
    | none =>
        rw [hnew, Option.none_or] at hboth
        exact h.latest i e (OrdMap.get?_eq_some_iff.mp hboth)

/-- Keeping the rows on one side of an index keeps the indexes on that side. -/
theorem toNat_keys_retain (m : OrdMap Index Entry) (keep : Index → Bool) (p : Nat → Bool)
    (h : ∀ i : Index, keep i = p i.toNat) :
    (m.retain keep).keys.map Index.toNat = (m.keys.map Index.toNat).filter p := by
  have hkeep : keep = p ∘ Index.toNat := funext h
  rw [keys_retain, List.filter_map, hkeep]

/-- What is kept of the log is still what was last appended. -/
theorem Ledger.Inv.latest_retain (h : Ledger.Inv w) (keep : Index → Bool) (i : Index) (e : Entry)
    (hrow : (i, e) ∈ (w.state.entries.retain keep).rows) :
    Op.lastFor (w.appended ++ []) i = some e := by
  rw [List.append_nil]
  exact h.latest i e (OrdMap.mem_retain.mp hrow).2

theorem inv_truncateAfter (h : Ledger.Inv w) {lastLogId : Option LogId}
    (hstep : w.step serde (.truncateAfter lastLogId) = some w') : Ledger.Inv w' := by
  obtain ⟨stop, hkeys⟩ := h.consecutive
  cases hstep
  constructor
  · refine ⟨min stop (Persisted.cut lastLogId).toNat, ?_⟩
    have hbelow := toNat_keys_retain w.state.entries
      (fun i => decide (i < Persisted.cut lastLogId))
      (fun n => decide (n < (Persisted.cut lastLogId).toNat)) fun i => rfl
    rw [hkeys, List.Ico.filter_lt] at hbelow
    show _ = List.Ico (Ledger.after w.state.purged (w.appended ++ [])) _
    rw [List.append_nil]
    exact hbelow
  · exact h.latest_retain _

/-- A purge of a log that holds entries does not stop short of its start. -/
theorem floor_le_of_reaches {id : LogId} (hobeys : Obeys w (.purge id))
    (hreaches : Reaches w (.purge id)) :
    w.state.entries.rows = [] ∨ w.floor ≤ id.index.toNat + 1 := by
  cases hpurged : w.state.purged with
  | none => exact hreaches hpurged
  | some purged =>
      have hle : purged.index.toNat ≤ id.index.toNat := hobeys purged hpurged
      unfold Ledger.floor
      rw [hpurged]
      exact Or.inr (Nat.succ_le_succ hle)

theorem inv_purge (h : Ledger.Inv w) {id : LogId} (hobeys : Obeys w (.purge id))
    (hreaches : Reaches w (.purge id)) (hstep : w.step serde (.purge id) = some w') :
    Ledger.Inv w' := by
  obtain ⟨stop, hkeys⟩ := h.consecutive
  have habove := toNat_keys_retain w.state.entries
    (fun i => decide (id.index < i)) (fun n => decide (id.index.toNat + 1 ≤ n)) fun i => rfl
  cases hstep
  constructor
  · rcases floor_le_of_reaches hobeys hreaches with hnil | hle
    · have hempty : w.state.entries.keys = [] := congrArg (List.map Prod.fst) hnil
      rw [hempty] at habove
      exact ⟨0, habove.trans (List.Ico.eq_nil_of_le (Nat.zero_le _)).symm⟩
    · rw [hkeys, List.Ico.filter_le, Nat.max_eq_right hle] at habove
      exact ⟨stop, habove⟩
  · exact h.latest_retain _

/-- A call that leaves the log and the purged id alone. -/
theorem Ledger.Inv.same (h : Ledger.Inv w) (hentries : w'.state.entries = w.state.entries)
    (hpurged : w'.state.purged = w.state.purged) (happended : w'.appended = w.appended) :
    Ledger.Inv w' := by
  constructor
  · unfold Ledger.floor
    rw [hentries, hpurged, happended]
    exact h.consecutive
  · rw [hentries, happended]
    exact h.latest

/-- The calls that are about the log. -/
def Op.editsLog : Op → Bool
  | .append _ | .truncateAfter _ | .purge _ => true
  | _ => false

/-- What the others leave alone. -/
theorem step_of_not_editsLog {op : Op} (hop : op.editsLog = false)
    (hstep : w.step serde op = some w') :
    w'.state.entries = w.state.entries ∧ w'.state.purged = w.state.purged ∧
      w'.appended = w.appended ∧ w'.log = w.log := by
  cases hstep
  cases op with
  | append entries => cases hop
  | truncateAfter lastLogId => cases hop
  | purge id => cases hop
  | saveVote vote => exact ⟨rfl, rfl, List.append_nil _, rfl⟩
  | saveCommitted committed => exact ⟨rfl, rfl, List.append_nil _, rfl⟩
  | apply entry =>
      have hentries := congrArg Persisted.entries (w.state.applyEntry_eq entry)
      have hpurged := congrArg Persisted.purged (w.state.applyEntry_eq entry)
      exact ⟨hentries, hpurged, List.append_nil _, rfl⟩
  | buildSnapshot taken => exact ⟨rfl, rfl, List.append_nil _, rfl⟩
  | installSnapshot snapshot =>
      dsimp only [Op.edit]
      cases serde.snapshot.decode snapshot.snapshot with
      | none => exact ⟨rfl, rfl, List.append_nil _, rfl⟩
      | some a => exact ⟨rfl, rfl, List.append_nil _, rfl⟩

theorem inv_step {op : Op} (h : Ledger.Inv w) (hobeys : Obeys w op) (hreaches : Reaches w op)
    (hstep : w.step serde op = some w') : Ledger.Inv w' := by
  cases hop : op.editsLog with
  | false =>
      obtain ⟨hentries, hpurged, happended, -⟩ := step_of_not_editsLog hop hstep
      exact h.same hentries hpurged happended
  | true =>
      cases op with
      | append entries => exact inv_append h hobeys hstep
      | truncateAfter lastLogId => exact inv_truncateAfter h hstep
      | purge id => exact inv_purge h hobeys hreaches hstep
      | _ => cases hop

theorem inv_start : Ledger.Inv Ledger.start where
  consecutive := ⟨0, rfl⟩
  latest _ _ h := by cases h

/-! ## The log as it should be -/

/-- The store holds the log as it should be. -/
def Faithful (w : Ledger) : Prop := w.state.entries.rows.map Prod.snd = w.log

/-- Filtering the rows by key is filtering the entries by index. -/
theorem Ledger.Inv.map_snd_retain (h : Ledger.Inv w) (keep : Index → Bool) :
    (w.state.entries.retain keep).rows.map Prod.snd =
      (w.state.entries.rows.map Prod.snd).filter fun e => keep e.logId.index := by
  rw [List.filter_map]
  refine congrArg _ (List.filter_congr fun row hrow => ?_)
  show keep row.1 = keep row.2.logId.index
  rw [h.own hrow]

theorem lt_cut_iff {id : LogId} (hfits : id.index.toNat + 1 < 2 ^ 64) (i : Index) :
    i < Persisted.cut (some id) ↔ i ≤ id.index := by
  show i.val.toNat < (id.index.val + 1).toNat ↔ i.val.toNat ≤ id.index.val.toNat
  have hnext : (id.index.val + 1).toNat = id.index.val.toNat + 1 := by
    rw [UInt64.toNat_add, UInt64.toNat_one]
    exact Nat.mod_eq_of_lt hfits
  rw [hnext]
  exact Nat.lt_succ_iff

theorem faithful_step {op : Op} (hfaithful : Faithful w) (h : Ledger.Inv w) (hobeys : Obeys w op)
    (hfits : Fits op) (hstep : w.step serde op = some w') : Faithful w' := by
  unfold Faithful at hfaithful ⊢
  cases hop : op.editsLog with
  | false =>
      obtain ⟨hentries, -, -, hlog⟩ := step_of_not_editsLog hop hstep
      rw [hentries, hlog, hfaithful]
  | true =>
      cases op with
      | append entries =>
          have hrows := rows_append h hobeys
          cases hstep
          show (w.state.append entries).entries.rows.map Prod.snd = w.log ++ entries
          rw [hrows, List.map_append, hfaithful, List.map_map]
          exact congrArg _ (List.map_id entries)
      | truncateAfter lastLogId =>
          cases hstep
          show (w.state.entries.retain _).rows.map Prod.snd = _
          rw [h.map_snd_retain, hfaithful]
          cases lastLogId with
          | none =>
              apply List.filter_eq_nil_iff.mpr
              intro e _ hlt
              exact absurd (of_decide_eq_true hlt) (Nat.not_lt_zero _)
          | some id =>
              refine List.filter_congr fun e _ => ?_
              exact decide_eq_decide.mpr (lt_cut_iff hfits _)
      | purge id =>
          cases hstep
          show (w.state.entries.retain _).rows.map Prod.snd = _
          rw [h.map_snd_retain, hfaithful]
          rfl
      | _ => cases hop

/-! ## What is read -/

/-- Nothing appended, nothing stored. -/
theorem Ledger.Inv.rows_of_appended_nil (h : Ledger.Inv w) (hnil : w.appended = []) :
    w.state.entries.rows = [] := by
  rw [List.eq_nil_iff_forall_not_mem]
  rintro ⟨i, e⟩ hrow
  have hlast := h.latest i e hrow
  rw [hnil] at hlast
  cases hlast

theorem Ledger.Inv.read_of_appended_nil (h : Ledger.Inv w) (hnil : w.appended = [])
    (range : Range) : w.read range = some [] := by
  simp [Ledger.read, Ledger.rooted, Persisted.tryGetLogEntries, hnil, h.rows_of_appended_nil hnil]

theorem read_of_appended (hne : w.appended ≠ []) (range : Range) :
    w.read range =
      if range.valid then some ((w.state.entries.retain range.contains).rows.map Prod.snd)
      else none := by
  simp [Ledger.read, Ledger.rooted, Persisted.tryGetLogEntries, hne]

/-- The rows in a range, as a read gives them. -/
theorem Ledger.Inv.readsExactly_of_read (h : Ledger.Inv w) {range : Range}
    (hread : w.read range =
      some ((w.state.entries.retain range.contains).rows.map Prod.snd)) :
    ReadsExactly w range := by
  refine ⟨_, hread, ?_, fun e => ?_⟩
  · rw [List.pairwise_map]
    refine (w.state.entries.retain range.contains).sorted.imp_of_mem fun ha hb hlt => ?_
    have hown : ∀ row ∈ (w.state.entries.retain range.contains).rows,
        row.2.logId.index = row.1 := fun row hrow => h.own (OrdMap.mem_retain.mp hrow).2
    rw [hown _ ha, hown _ hb]
    exact hlt
  · rw [List.mem_map]
    constructor
    · rintro ⟨⟨i, e'⟩, hrow, rfl⟩
      obtain ⟨hin, hrow⟩ := OrdMap.mem_retain.mp hrow
      exact ⟨i, hrow, hin⟩
    · rintro ⟨i, hrow, hin⟩
      exact ⟨(i, e), OrdMap.mem_retain.mpr ⟨hin, hrow⟩, rfl⟩

theorem readsExactly_iff (h : Ledger.Inv w) (range : Range) :
    ReadsExactly w range ↔ range.valid = true ∨ w.appended = [] := by
  by_cases hnil : w.appended = []
  · refine iff_of_true ?_ (Or.inr hnil)
    refine ⟨[], h.read_of_appended_nil hnil range, List.Pairwise.nil, fun e => ?_⟩
    simp [h.rows_of_appended_nil hnil]
  · have hread := read_of_appended hnil range
    constructor
    · rintro ⟨entries, hsome, -⟩
      refine Or.inl ?_
      by_contra hback
      rw [hread, if_neg hback] at hsome
      cases hsome
    · intro hvalid
      rw [if_pos (hvalid.resolve_right hnil)] at hread
      exact h.readsExactly_of_read hread

/-- What is not read exactly is not read at all. -/
theorem read_eq_none (h : Ledger.Inv w) {range : Range} (hnot : ¬ ReadsExactly w range) :
    w.read range = none := by
  rw [readsExactly_iff h, not_or] at hnot
  rw [read_of_appended hnot.2, if_neg hnot.1]

/-- The highest row is the last one. -/
theorem Ledger.Inv.unbroken (h : Ledger.Inv w) : NoHoles w where
  consecutive := h.consecutive
  own _ _ hrow := h.own hrow
  latest := h.latest
  purged := rfl
  last i e hrow hhighest := by
    rcases List.eq_nil_or_concat w.state.entries.rows with hnil | ⟨front, row, hrows⟩
    · rw [hnil] at hrow
      cases hrow
    · rw [List.concat_eq_append] at hrows
      have hlast : row ∈ w.state.entries.rows := by
        rw [hrows]
        exact List.mem_append_right _ (List.mem_singleton_self row)
      have hsorted := w.state.entries.sorted
      rw [hrows] at hsorted hrow
      rcases List.mem_append.mp hrow with hfront | hsame
      · have hlt := (List.pairwise_append.mp hsorted).2.2 _ hfront _ (List.mem_singleton_self row)
        exact absurd (hhighest row hlast) (not_le.mpr hlt)
      · rw [lastLogId_of_snoc hrows, ← List.mem_singleton.mp hsame]
  empty := lastLogId_of_nil

/-! ## Any sequence of calls -/

theorem inv_faithful_run {ops : List Op} (hrun : Ledger.start.run serde ops = some w)
    (hobeys : Schedule.Along (Ledger.step serde) (fun w op => Obeys w op ∧ Reaches w op)
      Ledger.start ops)
    (hfits : ∀ op ∈ ops, Fits op) : Ledger.Inv w ∧ Faithful w :=
  Schedule.run_invariant (I := fun w => Ledger.Inv w ∧ Faithful w)
    (fun _ _ _ ⟨h, hfaithful⟩ ⟨⟨hobeys, hreaches⟩, hfits⟩ hstep =>
      ⟨inv_step h hobeys hreaches hstep, faithful_step hfaithful h hobeys hfits hstep⟩)
    ops ⟨inv_start, rfl⟩ (hobeys.and_forall_mem hfits) hrun

/-- Over any sequence of calls that obeys the contract the log has no holes.  It
reads exactly in every range that `BTreeMap::range` takes, and in any range at all
while nothing has been appended; a read in another range panics.  Unless a
truncation named the last index there is, it is the log it should be. -/
theorem noHoles (serde : Serde) (ops : List Op) (w : Ledger)
    (hrun : Ledger.start.run serde ops = some w)
    (hobeys : Schedule.Along (Ledger.step serde) (fun w op => Obeys w op ∧ Reaches w op)
      Ledger.start ops) :
    NoHoles w ∧ (∀ range, ReadsExactly w range ↔ range.valid = true ∨ w.appended = []) ∧
      (∀ range, ¬ ReadsExactly w range → w.read range = none) ∧
      ((∀ op ∈ ops, Fits op) → Faithful w) := by
  have h : Ledger.Inv w := Schedule.run_invariant
    (fun _ _ _ h hobeys hstep => inv_step h hobeys.1 hobeys.2 hstep) ops inv_start hobeys hrun
  exact ⟨h.unbroken, readsExactly_iff h, fun _ => read_eq_none h,
    fun hfits => (inv_faithful_run hrun hobeys hfits).2⟩

/-! ## Runs of it -/

/-- Five entries, of which the last two are truncated and the first is purged. -/
def oppositeEnds : List Op :=
  [.append [blankAt 1, blankAt 2, blankAt 3, blankAt 4, blankAt 5],
    .truncateAfter (some (blankAt 3).logId), .purge (blankAt 1).logId]

theorem noHoles_oppositeEnds :
    ∃ w, Ledger.start.run Serde.ofCountable oppositeEnds = some w ∧
      w.log = [blankAt 2, blankAt 3] ∧ NoHoles w ∧ Faithful w := by
  have h := noHoles Serde.ofCountable oppositeEnds _ rfl ?_
  · refine ⟨_, rfl, by decide, h.1, h.2.2.2 ?_⟩
    simp [oppositeEnds, Fits, blankAt, Index.toNat]
  · refine ⟨⟨rfl, trivial⟩, ⟨trivial, trivial⟩, ⟨?_, ?_⟩, trivial⟩
    · intro purged hpurged
      cases hpurged
    · intro _
      exact Or.inr (by decide)

/-- A log that starts at five, purged up to two. -/
def shortPurge : List Op := [.append [blankAt 5], .purge (blankAt 2).logId]

/-- The contract alone allows a first purge that leaves a hole in front of the
log. -/
theorem shortPurge_leaves_hole :
    Schedule.Along (Ledger.step Serde.ofCountable) (fun w op => Obeys w op ∧ Careful w op)
        Ledger.start shortPurge ∧
      ∃ w, Ledger.start.run Serde.ofCountable shortPurge = some w ∧ ¬ NoHoles w := by
  refine ⟨⟨⟨rfl, trivial⟩, ⟨?_, ?_⟩, trivial⟩, _, rfl, ?_⟩
  · intro purged hpurged
    cases hpurged
  · intro hpasses
    exact absurd (hpasses _ rfl) (by decide)
  · intro h
    obtain ⟨stop, hkeys⟩ := h.consecutive
    have hfive : [5] = List.Ico 3 stop := hkeys
    have hmem : 5 ∈ List.Ico 3 stop := by
      rw [← hfive]
      exact List.mem_singleton_self 5
    have hthree : 3 ∈ List.Ico 3 stop := by
      have := List.Ico.mem.mp hmem
      exact List.Ico.mem.mpr (by omega)
    rw [← hfive] at hthree
    cases List.mem_singleton.mp hthree

/-- Nothing in the contract keeps a read from asking for a range that runs
backwards, and a log with an entry in it panics on it. -/
theorem backwards_range_panics :
    ¬ ∀ (serde : Serde) (ops : List Op) (w : Ledger), Ledger.start.run serde ops = some w →
      Schedule.Along (Ledger.step serde) (fun w op => Obeys w op ∧ Careful w op)
        Ledger.start ops →
      NoHoles w ∧ ∀ range, ReadsExactly w range := by
  intro h
  have hback := (h Serde.ofCountable [.append [blankAt 1]] _ rfl ⟨⟨rfl, trivial⟩, trivial⟩).2
    ⟨.included ⟨5⟩, .excluded ⟨3⟩⟩
  obtain ⟨entries, hread, -⟩ := hback
  cases hread

end HorsieActor.Ports.Raft
