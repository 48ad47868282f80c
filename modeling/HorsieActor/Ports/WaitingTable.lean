import HorsieActor.Ports.ClusterNode
import HorsieActor.Verified.Schedule
import HorsieActor.Verified.Slots

/-!
# What becomes of a waiting caller

The table of waiting callers of one process, under any interleaving of the calls
that use it.  `register` mints a correlation and takes the lock afterwards, so
that callers may enter the table out of order, and into a full table one that is
already the lowest.  `deliver_reply` and `abandon_waiting` take callbacks out
under the lock and run or drop them when they have let go of it.  `forget` and
the eviction at the end of `register` drop what they take out there and then.

A callback is known by the number of the `register` call it was given to.  The
law that carries everything is one of conservation (`Inv.accounted`): the
callbacks in the table, those a call has taken out and not dealt with, those that
were run and those that were dropped are together the callbacks inserted, each
once.  A step moves callbacks from one of the four to another, and only an insert
adds one.

## Main results

* `inv_step`, `inv_run` — the law, with what the correlations and the answers
  have to do with it.
* `tableExact` — the table is bounded and exact as long as the counter has not
  come round.
-/

namespace HorsieActor.Ports.Waiting

open HorsieActor.Verified

/-! ## The machine -/

/-- A call of `register`: the correlation it has minted, and whether it has
inserted its callback. -/
structure Callback where
  correlation : Nat
  inserted : Bool
  deriving DecidableEq, Repr

/-- One process.  The fields from `replies` on are history. -/
structure World where
  node : ClusterNode
  callbacks : List Callback
  /-- Callbacks out of the table and not dealt with: what they are to be run
  with, or that they are to be dropped. -/
  taken : List (Caller × Option Octets)
  replies : List Reply
  ran : List (Caller × Octets)
  dropped : List Caller
  /-- Callbacks that were forgotten, evicted or abandoned. -/
  cut : List Caller

inductive Label where
  /-- `register`: `correlations.fetch_add`. -/
  | mint
  /-- `register`: lock, insert, evict. -/
  | insert (i : Caller)
  /-- `deliver_reply`: `waiting.lock().remove`. -/
  | reply (r : Reply)
  | forget (correlation : Nat)
  /-- `abandon_waiting`: `mem::take`. -/
  | abandonWaiting
  /-- `deliver(payload)` or `drop(deliver)` for a callback taken out before. -/
  | finish (j : Nat)

namespace World

def start (localId : NodeId) : World := ⟨ClusterNode.start localId, [], [], [], [], [], []⟩

/-- The callbacks in the table. -/
def table (w : World) : List Caller := w.node.waiting.rows.map Prod.snd

/-- The callbacks a correlation finds in the table: one or none. -/
def found (w : World) (correlation : Nat) : List Caller :=
  (w.node.waiting.get? correlation).toList

def step (w : World) : Label → Option World
  | .mint =>
      let (correlation, node) := w.node.mintCorrelation
      some { w with node := node, callbacks := w.callbacks ++ [⟨correlation, false⟩] }
  | .insert i =>
      match w.callbacks[i]? with
      | some ⟨correlation, false⟩ =>
          let evicted :=
            ((w.node.waiting.insert correlation i).evicted waitingCapacity).map Prod.snd
          some { w with
            node := w.node.insertWaiting correlation i
            callbacks := w.callbacks.set i ⟨correlation, true⟩
            dropped := w.dropped ++ evicted
            cut := w.cut ++ evicted }
      | _ => none
  | .reply r =>
      some { w with
        node := (w.node.deliverReply r).1
        taken := w.taken ++ (w.found r.correlation).map fun i => (i, r.payload)
        replies := w.replies ++ [r] }
  | .forget correlation =>
      some { w with
        node := w.node.forget correlation
        dropped := w.dropped ++ w.found correlation
        cut := w.cut ++ w.found correlation }
  | .abandonWaiting =>
      some { w with
        node := w.node.abandonWaiting
        taken := w.taken ++ w.table.map fun i => (i, none)
        cut := w.cut ++ w.table }
  | .finish j =>
      match w.taken[j]? with
      | some (i, some payload) =>
          some { w with taken := w.taken.eraseIdx j, ran := w.ran ++ [(i, payload)] }
      | some (i, none) =>
          some { w with taken := w.taken.eraseIdx j, dropped := w.dropped ++ [i] }
      | none => none

abbrev run : World → List Label → Option World := Schedule.run step

end World

open World

/-! ## The property -/

/-- The callback has been put into the table at some time. -/
def Inserted (w : World) (i : Caller) : Prop :=
  ∃ correlation, w.callbacks[i]? = some ⟨correlation, true⟩

/-- A reply with this payload was delivered under the callback's own
correlation. -/
def Answered (w : World) (i : Caller) (payload : Octets) : Prop :=
  ∃ r ∈ w.replies, r.payload = some payload ∧
    ∃ inserted, w.callbacks[i]? = some ⟨r.correlation, inserted⟩

/-- What may have become of a callback.  It waits until it is run or dropped: in
the table, or with the call that has taken it out to do so. -/
inductive Fate where
  | waiting
  | run
  | dropped

def Meets (w : World) (i : Caller) : Fate → Prop
  | .waiting => i ∈ w.table ∨ i ∈ w.taken.map Prod.fst
  | .run => i ∈ w.ran.map Prod.fst
  | .dropped => i ∈ w.dropped

/-- From the rows present to those left, only the lowest are gone, and none
unless there were too many. -/
structure EvictsLowest (present left : OrdMap Nat Caller) : Prop where
  bounded : left.size ≤ waitingCapacity
  kept : ∀ row ∈ left.rows, row ∈ present.rows
  lowest : ∀ row ∈ present.rows, row ∉ left.rows → ∀ row' ∈ left.rows, row.1 < row'.1
  full : left ≠ present → left.size = waitingCapacity

/-- The table is bounded and exact.  `idle` is `once` for a moment when no call
is between taking a callback out and dealing with it. -/
structure TableExact (w : World) : Prop where
  distinct : (w.callbacks.map Callback.correlation).Nodup
  bounded : w.node.waiting.size ≤ waitingCapacity
  evicts : ∀ i w', w.step (.insert i) = some w' → ∃ correlation,
    w.callbacks[i]? = some ⟨correlation, false⟩ ∧
      EvictsLowest (w.node.waiting.insert correlation i) w'.node.waiting
  ranOnce : (w.ran.map Prod.fst).Nodup
  answered : ∀ i payload, (i, payload) ∈ w.ran → Answered w i payload
  once : ∀ i, Inserted w i → ∃! fate, Meets w i fate
  idle : w.taken = [] → ∀ i, Meets w i .waiting ↔ i ∈ w.table
  never : ∀ later w', w.run later = some w' → w'.callbacks.length < 2 ^ 64 →
    ∀ i ∈ w.cut, i ∉ w'.ran.map Prod.fst

/-! ## The invariant -/

/-- Every place a callback can be. -/
def World.everywhere (w : World) : List Caller :=
  w.table ++ w.taken.map Prod.fst ++ w.ran.map Prod.fst ++ w.dropped

structure Inv (w : World) : Prop where
  counter : w.node.correlations = UInt64.ofNat w.callbacks.length
  minted : ∀ i callback, w.callbacks[i]? = some callback →
    callback.correlation = pack w.node.localId (UInt64.ofNat i)
  rows : ∀ row ∈ w.node.waiting.rows, w.callbacks[row.2]? = some ⟨row.1, true⟩
  bounded : w.node.waiting.size ≤ waitingCapacity
  accounted : w.everywhere.Nodup ∧ ∀ i, i ∈ w.everywhere ↔ Inserted w i
  taken : ∀ i payload, (i, some payload) ∈ w.taken → Answered w i payload
  ran : ∀ i payload, (i, payload) ∈ w.ran → Answered w i payload
  cut : ∀ i ∈ w.cut, i ∈ w.dropped ∨ (i, none) ∈ w.taken

variable {w w' : World} {i : Caller} {correlation : Nat} {payload : Octets}

theorem count_everywhere (w : World) (i : Caller) :
    w.everywhere.count i =
      w.table.count i + (w.taken.map Prod.fst).count i + (w.ran.map Prod.fst).count i +
        w.dropped.count i := by
  simp only [everywhere, List.count_append]

theorem inv_start (localId : NodeId) : Inv (start localId) where
  counter := rfl
  minted _ _ h := by cases h
  rows _ h := by cases h
  bounded := Nat.zero_le _
  accounted := by
    refine ⟨List.nodup_nil, fun i => ?_⟩
    constructor
    · intro h
      cases h
    · rintro ⟨_, h⟩
      cases h
  taken _ _ h := by cases h
  ran _ _ h := by cases h
  cut _ h := by cases h

/-- Before the counter comes round, no two calls have minted one correlation. -/
theorem Inv.eq_of_correlation (h : Inv w) (hroom : w.callbacks.length ≤ 2 ^ 64) {j : Caller}
    {a b : Callback} (ha : w.callbacks[i]? = some a) (hb : w.callbacks[j]? = some b)
    (heq : a.correlation = b.correlation) : i = j := by
  have hi := (List.getElem?_eq_some_iff.mp ha).1
  have hj := (List.getElem?_eq_some_iff.mp hb).1
  rw [h.minted i a ha, h.minted j b hb] at heq
  have hnat := congrArg UInt64.toNat (pack_inj.mp heq).2
  rwa [UInt64.toNat_ofNat', UInt64.toNat_ofNat', Nat.mod_eq_of_lt (by omega),
    Nat.mod_eq_of_lt (by omega)] at hnat

/-- What a step that inserts nothing does: callbacks move between the places,
and what is answered or cut goes where it should. -/
structure Moves (w w' : World) : Prop where
  callbacks : w'.callbacks = w.callbacks
  localId : w'.node.localId = w.node.localId
  counter : w'.node.correlations = w.node.correlations
  rows : w'.node.waiting.rows.Sublist w.node.waiting.rows
  count : ∀ i, w'.everywhere.count i = w.everywhere.count i
  replies : ∀ r ∈ w.replies, r ∈ w'.replies
  taken : ∀ i payload, (i, some payload) ∈ w'.taken → (i, some payload) ∈ w.taken ∨
    ∃ r ∈ w'.replies, r.payload = some payload ∧ (r.correlation, i) ∈ w.node.waiting.rows
  ran : ∀ i payload, (i, payload) ∈ w'.ran → (i, payload) ∈ w.ran ∨ (i, some payload) ∈ w.taken
  dropped : ∀ i, i ∈ w.dropped ∨ (i, none) ∈ w.taken → i ∈ w'.dropped ∨ (i, none) ∈ w'.taken
  cut : ∀ i ∈ w'.cut, i ∈ w.cut ∨ i ∈ w'.dropped ∨ (i, none) ∈ w'.taken

/-- An answer stays one while the replies and the correlations do. -/
theorem Answered.mono (h : Answered w i payload) (hreplies : ∀ r ∈ w.replies, r ∈ w'.replies)
    (hcallbacks : ∀ (i : Caller) (callback : Callback), w.callbacks[i]? = some callback →
      ∃ inserted, w'.callbacks[i]? = some ⟨callback.correlation, inserted⟩) :
    Answered w' i payload := by
  obtain ⟨r, hr, hpayload, inserted, hi⟩ := h
  exact ⟨r, hreplies r hr, hpayload, hcallbacks i _ hi⟩

theorem Moves.answered (hm : Moves w w') (h : Answered w i payload) : Answered w' i payload :=
  h.mono hm.replies fun i callback hi => ⟨callback.inserted, by rw [hm.callbacks, hi]⟩

theorem Inv.moves (h : Inv w) (hm : Moves w w') : Inv w' := by
  have hperm : w'.everywhere.Perm w.everywhere := List.perm_iff_count.mpr hm.count
  constructor
  · rw [hm.counter, hm.callbacks, h.counter]
  · rw [hm.callbacks, hm.localId]
    exact h.minted
  · rw [hm.callbacks]
    exact fun row hrow => h.rows row (hm.rows.subset hrow)
  · exact Nat.le_trans hm.rows.length_le h.bounded
  · refine ⟨hperm.nodup_iff.mpr h.accounted.1, fun i => ?_⟩
    unfold Inserted
    rw [hperm.mem_iff, hm.callbacks]
    exact h.accounted.2 i
  · intro i payload hmem
    rcases hm.taken i payload hmem with hold | ⟨r, hr, hpayload, hrow⟩
    · exact hm.answered (h.taken i payload hold)
    · exact ⟨r, hr, hpayload, true, by rw [hm.callbacks]; exact h.rows _ hrow⟩
  · intro i payload hmem
    rcases hm.ran i payload hmem with hold | hnew
    · exact hm.answered (h.ran i payload hold)
    · exact hm.answered (h.taken i payload hnew)
  · intro i hi
    rcases hm.cut i hi with hold | hnew
    · exact hm.dropped i (h.cut i hold)
    · exact hnew

/-! ## One step -/

/-- To deliver a reply is, for the table, to forget its correlation. -/
theorem deliverReply_fst (node : ClusterNode) (r : Reply) :
    (node.deliverReply r).1 = node.forget r.correlation := by
  unfold ClusterNode.deliverReply ClusterNode.forget
  cases hget : node.waiting.get? r.correlation with
  | none => rw [OrdMap.erase_eq_self hget]
  | some deliver => rfl

/-- What a correlation finds is what erasing it removes. -/
theorem count_found (w : World) (correlation : Nat) (i : Caller) :
    w.table.count i = (w.found correlation).count i +
      (((w.node.waiting.erase correlation).rows).map Prod.snd).count i := by
  unfold table found
  cases hget : w.node.waiting.get? correlation with
  | none =>
      rw [OrdMap.erase_eq_self hget]
      exact (Nat.zero_add _).symm
  | some deliver =>
      have hperm := (OrdMap.perm_erase (OrdMap.get?_eq_some_iff.mp hget)).map Prod.snd
      rw [hperm.count_eq]
      simp only [List.map_cons, List.count_cons, Option.toList_some, List.count_nil]
      omega

theorem mem_found : i ∈ w.found correlation ↔ (correlation, i) ∈ w.node.waiting.rows := by
  unfold found
  rw [Option.mem_toList, OrdMap.get?_eq_some_iff]

theorem map_fst_pair {β : Type} (l : List Caller) (x : β) :
    (l.map fun i => (i, x)).map Prod.fst = l := by
  rw [List.map_map]
  exact List.map_id l

theorem moves_reply {r : Reply} (hstep : w.step (.reply r) = some w') : Moves w w' := by
  cases hstep
  constructor
  · rfl
  · rw [deliverReply_fst]
    rfl
  · rw [deliverReply_fst]
    rfl
  · rw [deliverReply_fst]
    exact List.filter_sublist
  · intro i
    have hcount := count_found w r.correlation i
    rw [count_everywhere, count_everywhere, hcount]
    simp only [table, deliverReply_fst, ClusterNode.forget, List.map_append, map_fst_pair,
      List.count_append]
    omega
  · exact fun r hr => List.mem_append_left _ hr
  · intro i payload hmem
    rcases List.mem_append.mp hmem with hold | hnew
    · exact Or.inl hold
    · right
      obtain ⟨j, hj, heq⟩ := List.mem_map.mp hnew
      obtain ⟨rfl, hpayload⟩ := Prod.mk.inj heq
      exact ⟨r, List.mem_append_right _ (List.mem_singleton_self r), hpayload, mem_found.mp hj⟩
  · exact fun i payload hmem => Or.inl hmem
  · exact fun i hi => hi.imp_right (List.mem_append_left _)
  · exact fun i hi => Or.inl hi

theorem moves_forget (hstep : w.step (.forget correlation) = some w') : Moves w w' := by
  cases hstep
  constructor
  · rfl
  · rfl
  · rfl
  · exact List.filter_sublist
  · intro i
    have hcount := count_found w correlation i
    rw [count_everywhere, count_everywhere, hcount]
    simp only [table, ClusterNode.forget, List.count_append]
    omega
  · exact fun r hr => hr
  · exact fun i payload hmem => Or.inl hmem
  · exact fun i payload hmem => Or.inl hmem
  · exact fun i hi => hi.imp_left (List.mem_append_left _)
  · intro i hi
    rcases List.mem_append.mp hi with hold | hnew
    · exact Or.inl hold
    · exact Or.inr (Or.inl (List.mem_append_right _ hnew))

theorem moves_abandonWaiting (hstep : w.step .abandonWaiting = some w') : Moves w w' := by
  cases hstep
  constructor
  · rfl
  · rfl
  · rfl
  · exact List.nil_sublist _
  · intro i
    simp only [count_everywhere, table, List.map_append, map_fst_pair, List.count_append]
    simp only [ClusterNode.abandonWaiting, OrdMap.empty, List.map_nil, List.count_nil]
    omega
  · exact fun r hr => hr
  · intro i payload hmem
    rcases List.mem_append.mp hmem with hold | hnew
    · exact Or.inl hold
    · obtain ⟨j, -, heq⟩ := List.mem_map.mp hnew
      cases heq
  · exact fun i payload hmem => Or.inl hmem
  · exact fun i hi => hi.imp_right (List.mem_append_left _)
  · intro i hi
    rcases List.mem_append.mp hi with hold | hnew
    · exact Or.inl hold
    · exact Or.inr (Or.inr (List.mem_append_right _ (List.mem_map_of_mem hnew)))

/-- Taking one element out of a list by its position. -/
theorem perm_eraseIdx {α : Type} {l : List α} {j : Nat} {x : α} (h : l[j]? = some x) :
    l.Perm (x :: l.eraseIdx j) := by
  obtain ⟨hj, rfl⟩ := List.getElem?_eq_some_iff.mp h
  exact (List.getElem_cons_eraseIdx_perm hj).symm

/-- A callback that was taken out for an answer is run with it. -/
theorem moves_run {j : Nat} (htaken : w.taken[j]? = some (i, some payload)) :
    Moves w { w with taken := w.taken.eraseIdx j, ran := w.ran ++ [(i, payload)] } := by
  have hperm := perm_eraseIdx htaken
  constructor
  · rfl
  · rfl
  · rfl
  · exact List.Sublist.refl _
  · intro k
    have hk := (hperm.map Prod.fst).count_eq k
    rw [count_everywhere, count_everywhere, hk]
    simp only [table, List.map_append, List.map_cons, List.map_nil, List.count_append,
      List.count_cons, List.count_nil]
    omega
  · exact fun r hr => hr
  · exact fun k p hmem => Or.inl (List.mem_of_mem_eraseIdx hmem)
  · intro k p hmem
    rcases List.mem_append.mp hmem with hmem | hnew
    · exact Or.inl hmem
    · cases List.mem_singleton.mp hnew
      exact Or.inr (List.mem_of_getElem? htaken)
  · intro k hk
    refine hk.imp_right fun hmem => ?_
    rcases List.mem_cons.mp (hperm.mem_iff.mp hmem) with heq | hrest
    · cases heq
    · exact hrest
  · exact fun k hk => Or.inl hk

/-- A callback that was taken out without one is dropped. -/
theorem moves_drop {j : Nat} (htaken : w.taken[j]? = some (i, none)) :
    Moves w { w with taken := w.taken.eraseIdx j, dropped := w.dropped ++ [i] } := by
  have hperm := perm_eraseIdx htaken
  constructor
  · rfl
  · rfl
  · rfl
  · exact List.Sublist.refl _
  · intro k
    have hk := (hperm.map Prod.fst).count_eq k
    rw [count_everywhere, count_everywhere, hk]
    simp only [table, List.map_cons, List.count_append, List.count_cons, List.count_nil]
    omega
  · exact fun r hr => hr
  · exact fun k p hmem => Or.inl (List.mem_of_mem_eraseIdx hmem)
  · exact fun k p hmem => Or.inl hmem
  · rintro k (hmem | hmem)
    · exact Or.inl (List.mem_append_left _ hmem)
    · rcases List.mem_cons.mp (hperm.mem_iff.mp hmem) with heq | hrest
      · cases heq
        exact Or.inl (List.mem_append_right _ (List.mem_singleton_self _))
      · exact Or.inr hrest
  · exact fun k hk => Or.inl hk

theorem moves_finish {j : Nat} (hstep : w.step (.finish j) = some w') : Moves w w' := by
  simp only [step] at hstep
  split at hstep
  · rename_i htaken
    cases hstep
    exact moves_run htaken
  · rename_i htaken
    cases hstep
    exact moves_drop htaken
  · cases hstep

/-! ## Registering -/

theorem inv_mint (h : Inv w) (hstep : w.step .mint = some w') : Inv w' := by
  cases hstep
  have hold {i : Caller} {callback : Callback} (hi : w.callbacks[i]? = some callback) :
      (w.callbacks ++ [⟨pack w.node.localId w.node.correlations, false⟩])[i]? = some callback :=
    Slots.getElem?_snoc_iff.mpr (Or.inr hi)
  constructor
  · show w.node.correlations + 1 = UInt64.ofNat (w.callbacks ++ [_]).length
    rw [h.counter, List.length_append, UInt64.ofNat_add]
    rfl
  · intro i callback hi
    rcases Slots.getElem?_snoc_iff.mp hi with ⟨rfl, rfl⟩ | hi
    · show pack _ w.node.correlations = _
      rw [h.counter]
    · exact h.minted i callback hi
  · exact fun row hrow => hold (h.rows row hrow)
  · exact h.bounded
  · refine ⟨h.accounted.1, fun i => (h.accounted.2 i).trans (exists_congr fun c => ?_)⟩
    constructor
    · exact hold
    · intro hi
      rcases Slots.getElem?_snoc_iff.mp hi with ⟨-, heq⟩ | hi
      · cases heq
      · exact hi
  · exact fun i payload hi => (h.taken i payload hi).mono (fun _ hr => hr)
      fun j callback hj => ⟨callback.inserted, hold hj⟩
  · exact fun i payload hi => (h.ran i payload hi).mono (fun _ hr => hr)
      fun j callback hj => ⟨callback.inserted, hold hj⟩
  · exact h.cut

/-- An insert takes a callback that was not in, under a correlation that was not
in the table. -/
theorem Inv.fresh (h : Inv w) (hroom : w.callbacks.length ≤ 2 ^ 64)
    (hi : w.callbacks[i]? = some ⟨correlation, false⟩) :
    ¬ Inserted w i ∧ ∀ v, (correlation, v) ∉ w.node.waiting.rows := by
  have hnot : ¬ Inserted w i := by
    rintro ⟨c, hc⟩
    cases hi.symm.trans hc
  refine ⟨hnot, fun v hrow => hnot ?_⟩
  have hv := h.rows _ hrow
  have heq := h.eq_of_correlation hroom hi hv rfl
  exact ⟨correlation, by rw [heq]; exact hv⟩

/-- What an insert does. -/
theorem step_insert (hstep : w.step (.insert i) = some w') :
    ∃ correlation, w.callbacks[i]? = some ⟨correlation, false⟩ ∧
      w' = { w with
        node := w.node.insertWaiting correlation i
        callbacks := w.callbacks.set i ⟨correlation, true⟩
        dropped := w.dropped ++
          ((w.node.waiting.insert correlation i).evicted waitingCapacity).map Prod.snd
        cut := w.cut ++
          ((w.node.waiting.insert correlation i).evicted waitingCapacity).map Prod.snd } := by
  simp only [step] at hstep
  split at hstep
  · rename_i correlation hi
    cases hstep
    exact ⟨correlation, hi, rfl⟩
  · cases hstep

/-- Whoever was in the table, and the new one, is in the table or evicted. -/
theorem count_insertWaiting (hkey : ∀ v, (correlation, v) ∉ w.node.waiting.rows) (j : Caller) :
    (((w.node.waiting.insert correlation i).evicted waitingCapacity).map Prod.snd).count j +
      ((w.node.insertWaiting correlation i).waiting.rows.map Prod.snd).count j =
        (i :: w.table).count j := by
  have hperm := (OrdMap.perm_insert (v := i) hkey).map Prod.snd
  rw [← OrdMap.evicted_append_trim waitingCapacity, List.map_append] at hperm
  rw [← List.count_append]
  exact hperm.count_eq j

/-- One callback more, and it was nowhere. -/
theorem Inv.accounted_add (h : Inv w) (hnew : ¬ Inserted w i)
    (hcount : ∀ j, w'.everywhere.count j = (i :: w.everywhere).count j) :
    w'.everywhere.Nodup ∧ ∀ j, j ∈ w'.everywhere ↔ j = i ∨ Inserted w j := by
  have hperm := List.perm_iff_count.mpr hcount
  refine ⟨hperm.nodup_iff.mpr (List.nodup_cons.mpr ⟨?_, h.accounted.1⟩), fun j => ?_⟩
  · exact fun hmem => hnew ((h.accounted.2 i).mp hmem)
  · rw [hperm.mem_iff, List.mem_cons, h.accounted.2 j]

theorem inv_insert (h : Inv w) (hroom : w.callbacks.length ≤ 2 ^ 64)
    (hstep : w.step (.insert i) = some w') : Inv w' := by
  obtain ⟨correlation, hi, rfl⟩ := step_insert hstep
  obtain ⟨hnew, hkey⟩ := h.fresh hroom hi
  have hset {j : Caller} {callback : Callback} := Slots.getElem?_set_iff
    (j := j) (y := (⟨correlation, true⟩ : Callback)) (z := callback) hi
  have hanswered (j : Caller) (callback : Callback) (hj : w.callbacks[j]? = some callback) :
      ∃ inserted, (w.callbacks.set i ⟨correlation, true⟩)[j]? =
        some ⟨callback.correlation, inserted⟩ := by
    by_cases heq : j = i
    · subst heq
      cases hi.symm.trans hj
      exact ⟨true, hset.mpr (Or.inl ⟨rfl, rfl⟩)⟩
    · exact ⟨callback.inserted, hset.mpr (Or.inr ⟨heq, hj⟩)⟩
  constructor
  · show w.node.correlations = UInt64.ofNat (w.callbacks.set i _).length
    rw [List.length_set, h.counter]
  · intro j callback hj
    rcases hset.mp hj with ⟨rfl, rfl⟩ | ⟨-, hj⟩
    · exact (h.minted j ⟨correlation, false⟩ hi :)
    · exact h.minted j callback hj
  · intro row hrow
    rcases OrdMap.mem_insert.mp (OrdMap.mem_of_mem_trim hrow) with rfl | ⟨-, hold⟩
    · exact hset.mpr (Or.inl ⟨rfl, rfl⟩)
    · have hrow2 := h.rows row hold
      have hother : row.2 ≠ i := by
        intro heq
        rw [heq] at hrow2
        exact hnew ⟨_, hrow2⟩
      exact hset.mpr (Or.inr ⟨hother, hrow2⟩)
  · show OrdMap.size _ ≤ _
    rw [ClusterNode.insertWaiting, OrdMap.size_trim]
    exact Nat.min_le_right ..
  · refine (h.accounted_add hnew fun j => ?_).imp_right fun hmem j => (hmem j).trans ?_
    · have hj := count_insertWaiting (i := i) hkey j
      rw [List.count_cons] at hj
      rw [List.count_cons, count_everywhere, count_everywhere, List.count_append]
      dsimp only [table] at hj ⊢
      omega
    · constructor
      · rintro (rfl | ⟨c, hc⟩)
        · exact ⟨correlation, hset.mpr (Or.inl ⟨rfl, rfl⟩)⟩
        · refine ⟨c, hset.mpr (Or.inr ⟨?_, hc⟩)⟩
          rintro rfl
          exact hnew ⟨c, hc⟩
      · rintro ⟨c, hc⟩
        rcases hset.mp hc with ⟨heq, -⟩ | ⟨-, hold⟩
        · exact Or.inl heq
        · exact Or.inr ⟨c, hold⟩
  · exact fun j payload hj => (h.taken j payload hj).mono (fun _ hr => hr) hanswered
  · exact fun j payload hj => (h.ran j payload hj).mono (fun _ hr => hr) hanswered
  · intro j hj
    rcases List.mem_append.mp hj with hold | hevicted
    · exact (h.cut j hold).imp_left (List.mem_append_left _)
    · exact Or.inl (List.mem_append_right _ hevicted)

/-! ## Runs -/

theorem length_le_step {label : Label} (hstep : w.step label = some w') :
    w.callbacks.length ≤ w'.callbacks.length := by
  cases label with
  | mint =>
      cases hstep
      rw [List.length_append]
      exact Nat.le_add_right ..
  | insert i =>
      obtain ⟨correlation, -, rfl⟩ := step_insert hstep
      exact Nat.le_of_eq (List.length_set ..).symm
  | reply r => exact Nat.le_of_eq (congrArg _ (moves_reply hstep).callbacks.symm)
  | forget c => exact Nat.le_of_eq (congrArg _ (moves_forget hstep).callbacks.symm)
  | abandonWaiting => exact Nat.le_of_eq (congrArg _ (moves_abandonWaiting hstep).callbacks.symm)
  | finish j => exact Nat.le_of_eq (congrArg _ (moves_finish hstep).callbacks.symm)

theorem inv_step {label : Label} (h : Inv w) (hroom : w.callbacks.length ≤ 2 ^ 64)
    (hstep : w.step label = some w') : Inv w' := by
  cases label with
  | mint => exact inv_mint h hstep
  | insert i => exact inv_insert h hroom hstep
  | reply r => exact h.moves (moves_reply hstep)
  | forget c => exact h.moves (moves_forget hstep)
  | abandonWaiting => exact h.moves (moves_abandonWaiting hstep)
  | finish j => exact h.moves (moves_finish hstep)

/-- Along a run in which the counter does not come round. -/
theorem inv_run {labels : List Label} (h : Inv w) (hrun : w.run labels = some w')
    (hroom : w'.callbacks.length ≤ 2 ^ 64) : Inv w' :=
  Schedule.run_invariant_all (I := fun w => w.callbacks.length ≤ 2 ^ 64 → Inv w)
    (fun _ _ _ hinv hstep hroom =>
      have hbefore := Nat.le_trans (length_le_step hstep) hroom
      inv_step (hinv hbefore) hbefore hstep)
    labels (fun _ => h) hrun hroom

theorem cut_step {label : Label} (hstep : w.step label = some w') (hi : i ∈ w.cut) :
    i ∈ w'.cut := by
  cases label with
  | mint =>
      cases hstep
      exact hi
  | insert j =>
      obtain ⟨correlation, -, rfl⟩ := step_insert hstep
      exact List.mem_append_left _ hi
  | reply r =>
      cases hstep
      exact hi
  | forget c =>
      cases hstep
      exact List.mem_append_left _ hi
  | abandonWaiting =>
      cases hstep
      exact List.mem_append_left _ hi
  | finish j =>
      simp only [step] at hstep
      split at hstep <;> cases hstep <;> exact hi

theorem cut_run {labels : List Label} (hrun : w.run labels = some w') (hi : i ∈ w.cut) :
    i ∈ w'.cut :=
  Schedule.run_invariant_all (I := fun w => i ∈ w.cut) (fun _ _ _ hi hstep => cut_step hstep hi)
    labels hi hrun

/-! ## The table is exact -/

theorem Inv.distinct (h : Inv w) (hroom : w.callbacks.length ≤ 2 ^ 64) :
    (w.callbacks.map Callback.correlation).Nodup := by
  rw [List.nodup_iff_getElem?_ne_getElem?]
  intro i j hij hj heq
  rw [List.length_map] at hj
  rw [List.getElem?_map, List.getElem?_map, List.getElem?_eq_getElem (Nat.lt_trans hij hj),
    List.getElem?_eq_getElem hj] at heq
  have hsame := h.eq_of_correlation hroom (List.getElem?_eq_getElem (Nat.lt_trans hij hj))
    (List.getElem?_eq_getElem hj) (Option.some.inj heq)
  exact absurd hsame (Nat.ne_of_lt hij)

/-- An inserted callback is in one place, once. -/
theorem Inv.count_one (h : Inv w) (hi : Inserted w i) : w.everywhere.count i = 1 :=
  List.count_eq_one_of_mem h.accounted.1 ((h.accounted.2 i).mpr hi)

/-- How often a callback is where a fate puts it. -/
def tally (w : World) (i : Caller) : Fate → Nat
  | .waiting => w.table.count i + (w.taken.map Prod.fst).count i
  | .run => (w.ran.map Prod.fst).count i
  | .dropped => w.dropped.count i

theorem meets_iff (w : World) (i : Caller) (fate : Fate) : Meets w i fate ↔ 0 < tally w i fate := by
  cases fate with
  | waiting =>
      show i ∈ w.table ∨ i ∈ w.taken.map Prod.fst ↔ 0 < _ + _
      rw [Nat.add_pos_iff_pos_or_pos, List.count_pos_iff, List.count_pos_iff]
  | run => exact List.count_pos_iff.symm
  | dropped => exact List.count_pos_iff.symm

theorem Inv.once (h : Inv w) (hi : Inserted w i) : ∃! fate, Meets w i fate := by
  have hcount : tally w i .waiting + tally w i .run + tally w i .dropped = 1 := by
    rw [← h.count_one hi, count_everywhere]
    rfl
  simp only [meets_iff]
  have hsome : ∃ fate, 0 < tally w i fate := by
    by_contra hnone
    have hzero (fate : Fate) : tally w i fate = 0 :=
      Nat.eq_zero_of_not_pos fun hpos => hnone ⟨fate, hpos⟩
    rw [hzero, hzero, hzero] at hcount
    omega
  obtain ⟨fate, hfate⟩ := hsome
  refine ⟨fate, hfate, fun other hother => ?_⟩
  cases fate <;> cases other <;> first | rfl | omega

/-- What was cut is not run: it is dropped, or out of the table to be dropped. -/
theorem Inv.not_ran (h : Inv w) (hi : i ∈ w.cut) : i ∉ w.ran.map Prod.fst := by
  intro hran
  have hmem : i ∈ w.everywhere := by
    simp only [everywhere, List.mem_append]
    exact Or.inl (Or.inr hran)
  have hcount := h.count_one ((h.accounted.2 i).mp hmem)
  rw [count_everywhere] at hcount
  have hran' := List.count_pos_iff.mpr hran
  rcases h.cut i hi with hdropped | htaken
  · have := List.count_pos_iff.mpr hdropped
    omega
  · have := List.count_pos_iff.mpr (List.mem_map_of_mem (f := Prod.fst) htaken)
    dsimp only at this
    omega

theorem evictsLowest_trim (present : OrdMap Nat Caller) :
    EvictsLowest present (present.trim waitingCapacity) where
  bounded := by
    rw [OrdMap.size_trim]
    exact Nat.min_le_right ..
  kept _ hrow := OrdMap.mem_of_mem_trim hrow
  lowest row hrow hgone row' hrow' := by
    rw [← OrdMap.evicted_append_trim waitingCapacity present] at hrow
    exact OrdMap.lt_of_mem_evicted ((List.mem_append.mp hrow).resolve_right hgone) hrow'
  full hne := by
    rw [OrdMap.size_trim]
    by_contra hfits
    apply hne
    apply OrdMap.ext
    rw [OrdMap.rows_trim, OrdMap.keepLast_of_le]
    show present.size ≤ waitingCapacity
    omega

/-- Before the counter comes round, the table of waiting callers is bounded and
exact after every run. -/
theorem tableExact (localId : NodeId) (labels : List Label) (w : World)
    (hrun : (start localId).run labels = some w) (hroom : w.callbacks.length < 2 ^ 64) :
    TableExact w := by
  have h := inv_run (inv_start localId) hrun (Nat.le_of_lt hroom)
  constructor
  · exact h.distinct (Nat.le_of_lt hroom)
  · exact h.bounded
  · intro i w' hstep
    obtain ⟨correlation, hi, rfl⟩ := step_insert hstep
    exact ⟨correlation, hi, evictsLowest_trim _⟩
  · have hnodup := h.accounted.1
    unfold everywhere at hnodup
    exact (List.nodup_append.mp (List.nodup_append.mp hnodup).1).2.1
  · exact h.ran
  · exact fun i hi => h.once hi
  · intro hidle i
    show i ∈ w.table ∨ i ∈ w.taken.map Prod.fst ↔ _
    rw [hidle]
    simp
  · intro later w' hlater hroom' i hi
    have h' := inv_run h hlater (Nat.le_of_lt hroom')
    exact h'.not_ran (cut_run hlater hi)

/-! ## A run -/

/-- Two requests enter the table out of order; the first is answered, and the
second forgotten while the answer is on its way to its callback. -/
def crossing : List Label :=
  [.mint, .mint, .insert 1, .insert 0, .reply ⟨pack ⟨1⟩ 0, some [5]⟩,
    .forget (pack ⟨1⟩ 1), .finish 0]

theorem tableExact_crossing :
    ∃ w, (start ⟨1⟩).run crossing = some w ∧ w.ran = [(0, [5])] ∧ w.cut = [1] ∧ TableExact w :=
  ⟨_, rfl, rfl, rfl, tableExact ⟨1⟩ crossing _ rfl (by decide)⟩

end HorsieActor.Ports.Waiting
