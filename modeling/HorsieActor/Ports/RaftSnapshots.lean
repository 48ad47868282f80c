import HorsieActor.Ports.RaftStore
import HorsieActor.Verified.Schedule
import Mathlib.Data.Prod.Lex
import Mathlib.Order.WithBot

/-!
# The stored snapshot

`build_snapshot` reads the applied state under the lock, gives the lock back, and
takes it again to store what it made of it.  The schedule puts anything in
between.  A snapshot installed there is newer than what was read, so the build
puts an older one in its place; if the log was purged up to the newer one by then,
the stored snapshot no longer reaches the log (`overtaken_build_goes_back`).

If no build stores after it was overtaken, the stored snapshot never goes back and
covers all that was purged (`neverBack_of_notOvertaken`).

Each critical section of the store is one step.  Whether the flush at its end
fails is not told apart: the state in memory is edited before, and
`get_current_snapshot` reads that.  `overtaken` and `purges` are history
variables.
-/

namespace HorsieActor.Ports.Raft

/-! ## The order of log ids -/

/-- `openraft` compares the leaders of two log ids before the indexes, and two
leaders by term before node. -/
def LogId.rank (id : LogId) : Nat ×ₗ Nat ×ₗ Nat :=
  toLex (id.leaderId.term.toNat, toLex (id.leaderId.node.idx.toNat, id.index.val.toNat))

theorem LogId.rank_injective : Function.Injective LogId.rank := by
  rintro ⟨⟨term, ⟨node⟩⟩, ⟨index⟩⟩ ⟨⟨term', ⟨node'⟩⟩, ⟨index'⟩⟩ h
  obtain ⟨hterm, h⟩ := Prod.mk.inj (toLex.injective h)
  obtain ⟨hnode, hindex⟩ := Prod.mk.inj (toLex.injective h)
  cases UInt64.toNat_inj.mp hterm
  cases UInt64.toNat_inj.mp hnode
  cases UInt64.toNat_inj.mp hindex
  rfl

instance : LinearOrder LogId := LinearOrder.lift' LogId.rank LogId.rank_injective

/-- How far an optional log id reaches: `None` is below all others. -/
def reach : Option LogId → WithBot LogId
  | none => ⊥
  | some id => id

namespace Snapshots

open HorsieActor.Verified

/-! ## The machine -/

/-- A `build_snapshot` that has read the applied state and not yet stored it. -/
structure Build where
  taken : Applied
  /-- Since then a snapshot was installed, or a build that read later stored its
  own. -/
  overtaken : Bool
  deriving DecidableEq

def Build.overtake (b : Build) : Build := { b with overtaken := true }

structure Store where
  state : Persisted
  /-- In the order in which they read. -/
  builds : List Build
  /-- Everything `purge` was called with. -/
  purges : List LogId
  deriving DecidableEq

def Store.open (state : Persisted) : Store := ⟨state, [], []⟩

inductive Label where
  | saveVote (vote : Vote)
  | saveCommitted (committed : Option LogId)
  | append (entries : List Entry)
  | truncateAfter (lastLogId : Option LogId)
  | purge (logId : LogId)
  | apply (entry : Entry)
  | installSnapshot (snapshot : Snapshot)
  /-- `build_snapshot`, its first critical section. -/
  | readApplied
  /-- Its second. -/
  | storeBuild (k : Nat)
  /-- A build that comes to nothing in between. -/
  | dropBuild (k : Nat)
  deriving DecidableEq

def step (serde : Serde) (w : Store) : Label → Option Store
  | .saveVote vote => some { w with state := w.state.saveVote vote }
  | .saveCommitted committed => some { w with state := w.state.saveCommitted committed }
  | .append entries => some { w with state := w.state.append entries }
  | .truncateAfter lastLogId => some { w with state := w.state.truncateAfter lastLogId }
  | .purge logId => some { w with state := w.state.purge logId, purges := logId :: w.purges }
  | .apply entry => some { w with state := w.state.applyEntry entry }
  | .installSnapshot snapshot =>
      match serde.snapshot.decode snapshot.snapshot with
      | none => some w
      | some a =>
          some { w with
            state := w.state.install snapshot a
            builds := w.builds.map Build.overtake }
  | .readApplied => some { w with builds := w.builds ++ [⟨w.state.taken, false⟩] }
  | .storeBuild k =>
      match w.builds[k]? with
      | none => none
      | some b =>
          some { w with
            state := w.state.storeSnapshot (snapshotOf serde b.taken)
            builds := (w.builds.take k).map Build.overtake ++ w.builds.drop (k + 1) }
  | .dropBuild k => some { w with builds := w.builds.eraseIdx k }

/-! ## The property -/

/-- How far the snapshot reaches that `get_current_snapshot` returns. -/
def current (s : Persisted) : WithBot LogId :=
  reach (s.getCurrentSnapshot.bind fun snapshot => snapshot.info.lastLogId)

/-- Over this schedule the stored snapshot reaches ever further, and at its end it
reaches all that was purged. -/
def NeverBack (serde : Serde) (s : Persisted) (l : List Label) : Prop :=
  ∀ before after m w, l = before ++ after →
    Schedule.run (step serde) (Store.open s) before = some m →
    Schedule.run (step serde) m after = some w →
      current m.state ≤ current w.state ∧ reach w.state.purged ≤ current w.state ∧
        ∀ id ∈ w.purges, reach (some id) ≤ current w.state

/-- What a store starts with: no snapshot beyond what is applied, nothing purged
beyond the snapshot. -/
structure Sane (s : Persisted) : Prop where
  snapshot : current s ≤ reach s.applied
  purged : reach s.purged ≤ current s

/-- What `openraft` sees to: entries are applied in the order of the log, a
snapshot that is installed is newer than what is applied and is what its metadata
says, and nothing is purged beyond the current snapshot. -/
def Driven (serde : Serde) (w : Store) : Label → Prop
  | .apply entry => reach w.state.applied ≤ reach (some entry.logId)
  | .installSnapshot snapshot => ∀ a, serde.snapshot.decode snapshot.snapshot = some a →
      snapshot.info.lastLogId = a.applied ∧ reach w.state.applied < reach a.applied
  | .purge logId => reach (some logId) ≤ current w.state
  | _ => True

/-- No build stores after it was overtaken. -/
def NotOvertaken (w : Store) : Label → Prop
  | .storeBuild k => ∀ b, w.builds[k]? = some b → b.overtaken = false
  | _ => True

/-! ## The invariant -/

structure Inv (w : Store) : Prop where
  /-- Nothing is stored or read that was not applied. -/
  snapshot : current w.state ≤ reach w.state.applied
  builds : ∀ b ∈ w.builds, reach b.taken.applied ≤ reach w.state.applied
  /-- A build that was not overtaken has something to add. -/
  ahead : ∀ b ∈ w.builds, b.overtaken = false → current w.state ≤ reach b.taken.applied
  inOrder : w.builds.Pairwise fun b b' => reach b.taken.applied ≤ reach b'.taken.applied
  purged : reach w.state.purged ≤ current w.state
  purges : ∀ id ∈ w.purges, reach (some id) ≤ current w.state

theorem inv_open {s : Persisted} (h : Sane s) : Inv (Store.open s) :=
  ⟨h.snapshot, nofun, nofun, List.Pairwise.nil, h.purged, nofun⟩

theorem current_install (s : Persisted) (snapshot : Snapshot) (a : Applied) :
    current (s.install snapshot a) = reach snapshot.info.lastLogId := rfl

theorem current_applyEntry (s : Persisted) (entry : Entry) :
    current (s.applyEntry entry) = current s := by
  unfold current Persisted.getCurrentSnapshot
  rw [congrArg Persisted.snapshot (s.applyEntry_eq entry)]

section Steps

variable {w : Store}

theorem Inv.apply (h : Inv w) {entry : Entry}
    (hnext : reach w.state.applied ≤ reach (some entry.logId)) :
    Inv { w with state := w.state.applyEntry entry } := by
  have hcurrent := current_applyEntry w.state entry
  have happlied := congrArg Persisted.applied (w.state.applyEntry_eq entry)
  refine ⟨?_, ?_, ?_, h.inOrder, ?_, ?_⟩
  · rw [hcurrent, happlied]
    exact le_trans h.snapshot hnext
  · intro b hb
    rw [happlied]
    exact le_trans (h.builds b hb) hnext
  · intro b hb hfresh
    rw [hcurrent]
    exact h.ahead b hb hfresh
  · rw [hcurrent, congrArg Persisted.purged (w.state.applyEntry_eq entry)]
    exact h.purged
  · intro id hid
    rw [hcurrent]
    exact h.purges id hid

theorem Inv.readApplied (h : Inv w) :
    Inv { w with builds := w.builds ++ [⟨w.state.taken, false⟩] } := by
  refine ⟨h.snapshot, ?_, ?_, ?_, h.purged, h.purges⟩
  · intro b hb
    rcases List.mem_append.mp hb with hb | hb
    · exact h.builds b hb
    · rw [List.mem_singleton.mp hb]
      exact le_refl _
  · intro b hb hfresh
    rcases List.mem_append.mp hb with hb | hb
    · exact h.ahead b hb hfresh
    · rw [List.mem_singleton.mp hb]
      exact h.snapshot
  · refine List.pairwise_append.mpr ⟨h.inOrder, List.pairwise_singleton _ _, ?_⟩
    intro b hb b' hb'
    rw [List.mem_singleton.mp hb']
    exact h.builds b hb

/-- A newer snapshot overtakes every build there is. -/
theorem Inv.install (h : Inv w) {snapshot : Snapshot} {a : Applied}
    (hinfo : snapshot.info.lastLogId = a.applied)
    (hnewer : reach w.state.applied < reach a.applied) :
    Inv { w with
      state := w.state.install snapshot a
      builds := w.builds.map Build.overtake } := by
  have hcurrent : current (w.state.install snapshot a) = reach a.applied :=
    (current_install ..).trans (congrArg reach hinfo)
  have hgrows : current w.state ≤ current (w.state.install snapshot a) := by
    rw [hcurrent]
    exact le_trans h.snapshot (le_of_lt hnewer)
  refine ⟨le_of_eq hcurrent, ?_, ?_, ?_, le_trans h.purged hgrows, ?_⟩
  · intro b hb
    obtain ⟨b₀, hb₀, rfl⟩ := List.mem_map.mp hb
    exact le_trans (h.builds b₀ hb₀) (le_of_lt hnewer)
  · intro b hb hfresh
    obtain ⟨b₀, -, rfl⟩ := List.mem_map.mp hb
    cases hfresh
  · exact List.pairwise_map.mpr h.inOrder
  · exact fun id hid => le_trans (h.purges id hid) hgrows

/-- What a build that was not overtaken stores reaches at least as far, and
overtakes those that read before it. -/
theorem Inv.storeBuild (h : Inv w) (serde : Serde) {k : Nat} {b : Build}
    (hk : w.builds[k]? = some b) (hfresh : b.overtaken = false) :
    Inv { w with
      state := w.state.storeSnapshot (snapshotOf serde b.taken)
      builds := (w.builds.take k).map Build.overtake ++ w.builds.drop (k + 1) } := by
  have hb : b ∈ w.builds := List.mem_of_getElem? hk
  have hgrows : current w.state ≤
      current (w.state.storeSnapshot (snapshotOf serde b.taken)) := h.ahead b hb hfresh
  have hsplit : w.builds = w.builds.take k ++ b :: w.builds.drop (k + 1) := by
    obtain ⟨hlt, rfl⟩ := List.getElem?_eq_some_iff.mp hk
    rw [List.getElem_cons_drop, List.take_append_drop]
  have hinOrder := h.inOrder
  rw [hsplit, List.pairwise_append, List.pairwise_cons] at hinOrder
  obtain ⟨hbefore, ⟨hnext, hafter⟩, hacross⟩ := hinOrder
  refine ⟨h.builds b hb, ?_, ?_, ?_, le_trans h.purged hgrows, ?_⟩
  · intro b' hb'
    rcases List.mem_append.mp hb' with hb' | hb'
    · obtain ⟨b₀, hb₀, rfl⟩ := List.mem_map.mp hb'
      exact h.builds b₀ (List.mem_of_mem_take hb₀)
    · exact h.builds b' (List.mem_of_mem_drop hb')
  · intro b' hb' hfresh'
    rcases List.mem_append.mp hb' with hb' | hb'
    · obtain ⟨b₀, -, rfl⟩ := List.mem_map.mp hb'
      cases hfresh'
    · exact hnext b' hb'
  · refine List.pairwise_append.mpr ⟨List.pairwise_map.mpr hbefore, hafter, ?_⟩
    intro b₁ hb₁ b₂ hb₂
    obtain ⟨b₀, hb₀, rfl⟩ := List.mem_map.mp hb₁
    exact hacross b₀ hb₀ b₂ (List.mem_cons_of_mem b hb₂)
  · exact fun id hid => le_trans (h.purges id hid) hgrows

end Steps

variable {serde : Serde}

theorem inv_step {w w' : Store} {a : Label} (h : Inv w)
    (hC : Driven serde w a ∧ NotOvertaken w a) (hs : step serde w a = some w') :
    Inv w' ∧ current w.state ≤ current w'.state := by
  cases a with
  | saveVote vote =>
      cases hs
      exact ⟨⟨h.snapshot, h.builds, h.ahead, h.inOrder, h.purged, h.purges⟩, le_refl _⟩
  | saveCommitted committed =>
      cases hs
      exact ⟨⟨h.snapshot, h.builds, h.ahead, h.inOrder, h.purged, h.purges⟩, le_refl _⟩
  | append entries =>
      cases hs
      exact ⟨⟨h.snapshot, h.builds, h.ahead, h.inOrder, h.purged, h.purges⟩, le_refl _⟩
  | truncateAfter lastLogId =>
      cases hs
      exact ⟨⟨h.snapshot, h.builds, h.ahead, h.inOrder, h.purged, h.purges⟩, le_refl _⟩
  | purge logId =>
      cases hs
      exact ⟨⟨h.snapshot, h.builds, h.ahead, h.inOrder, hC.1,
        List.forall_mem_cons.mpr ⟨hC.1, h.purges⟩⟩, le_refl _⟩
  | apply entry =>
      cases hs
      exact ⟨h.apply hC.1, le_of_eq (current_applyEntry w.state entry).symm⟩
  | installSnapshot snapshot =>
      rw [step] at hs
      cases hdecode : serde.snapshot.decode snapshot.snapshot with
      | none =>
          rw [hdecode] at hs
          cases hs
          exact ⟨h, le_refl _⟩
      | some a =>
          obtain ⟨hinfo, hnewer⟩ := hC.1 a hdecode
          rw [hdecode] at hs
          cases hs
          refine ⟨h.install hinfo hnewer, ?_⟩
          rw [current_install, hinfo]
          exact le_trans h.snapshot (le_of_lt hnewer)
  | readApplied =>
      cases hs
      exact ⟨h.readApplied, le_refl _⟩
  | storeBuild k =>
      rw [step] at hs
      cases hk : w.builds[k]? with
      | none =>
          rw [hk] at hs
          cases hs
      | some b =>
          have hfresh := hC.2 b hk
          rw [hk] at hs
          cases hs
          exact ⟨h.storeBuild serde hk hfresh, h.ahead b (List.mem_of_getElem? hk) hfresh⟩
  | dropBuild k =>
      cases hs
      have hsub := List.eraseIdx_sublist w.builds k
      exact ⟨⟨h.snapshot, fun b hb => h.builds b (hsub.subset hb),
        fun b hb => h.ahead b (hsub.subset hb), h.inOrder.sublist hsub, h.purged, h.purges⟩,
        le_refl _⟩

/-! ## The result -/

/-- **The stored snapshot never goes back**, on any schedule on which no build
stores after it was overtaken. -/
theorem neverBack_of_notOvertaken (serde : Serde) (s : Persisted) (l : List Label)
    (hsane : Sane s)
    (hC : Schedule.Along (step serde) (fun w a => Driven serde w a ∧ NotOvertaken w a)
      (Store.open s) l) :
    NeverBack serde s l := by
  intro before after m w hl hbefore hafter
  subst hl
  obtain ⟨hCbefore, hCafter⟩ := Schedule.along_append hbefore hC
  have hm : Inv m := Schedule.run_invariant (fun _ _ _ h hC hs => (inv_step h hC hs).1) before
    (inv_open hsane) hCbefore hbefore
  have hw : Inv w ∧ current m.state ≤ current w.state :=
    Schedule.run_invariant (I := fun w => Inv w ∧ current m.state ≤ current w.state)
      (fun _ _ _ h hC hs => ⟨(inv_step h.1 hC hs).1, le_trans h.2 (inv_step h.1 hC hs).2⟩) after
      ⟨hm, le_refl _⟩ hCafter hafter
  exact ⟨hw.2, hw.1.purged, hw.1.purges⟩

theorem sane_default : Sane Persisted.default := ⟨le_refl _, le_refl _⟩

/-- What is applied once it has been. -/
def appliedAt (index : UInt64) : Applied :=
  ⟨some (blankAt index).logId, ⟨none, Membership.default⟩, ⟨OrdMap.empty⟩⟩

theorem step_installSnapshot (serde : Serde) (w : Store) (a : Applied) :
    step serde w (.installSnapshot (snapshotOf serde a)) =
      some { w with
        state := w.state.install (snapshotOf serde a) a
        builds := w.builds.map Build.overtake } := by
  have hdecode : serde.snapshot.decode (snapshotOf serde a).snapshot = some a :=
    serde.snapshot.decode_encode a
  rw [step, hdecode]

theorem driven_installSnapshot {w : Store} {a : Applied}
    (hnewer : reach w.state.applied < reach a.applied) :
    Driven serde w (.installSnapshot (snapshotOf serde a)) := by
  intro b hdecode
  cases (serde.snapshot.decode_encode a).symm.trans hdecode
  exact ⟨rfl, hnewer⟩

theorem neverBack_build :
    NeverBack Serde.ofCountable Persisted.default
      [.apply (blankAt 1), .readApplied, .apply (blankAt 2), .storeBuild 0,
        .purge (blankAt 1).logId,
        .installSnapshot (snapshotOf Serde.ofCountable (appliedAt 5))] := by
  refine neverBack_of_notOvertaken _ _ _ sane_default ?_
  have hnext : reach (some (blankAt 1).logId) ≤ reach (some (blankAt 2).logId) := by decide
  refine .cons ⟨bot_le, trivial⟩ rfl (.cons ⟨trivial, trivial⟩ rfl
    (.cons ⟨hnext, trivial⟩ rfl (.cons ⟨trivial, ?_⟩ rfl (.cons ⟨le_refl _, trivial⟩ rfl
      (.cons ⟨driven_installSnapshot (by decide), trivial⟩ (step_installSnapshot ..) trivial)))))
  intro b hb
  cases hb
  rfl

/-- A build reads, a newer snapshot is installed and the log purged up to it, and
then the build stores. -/
def overtakenSchedule (serde : Serde) : List Label :=
  [.apply (blankAt 1), .readApplied, .installSnapshot (snapshotOf serde (appliedAt 5)),
    .purge (blankAt 5).logId, .storeBuild 0]

theorem overtaken_build_goes_back :
    ¬ ∀ (serde : Serde) (s : Persisted) (l : List Label), Sane s →
      Schedule.Along (step serde) (Driven serde) (Store.open s) l → NeverBack serde s l := by
  intro hall
  have hdriven : ∀ serde : Serde, Schedule.Along (step serde) (Driven serde)
      (Store.open .default) (overtakenSchedule serde) := fun serde =>
    .cons bot_le rfl (.cons trivial rfl (.cons (driven_installSnapshot (by decide))
      (step_installSnapshot ..) (.cons (le_refl _) rfl (.cons trivial rfl trivial))))
  have hinstalled := Schedule.run_snoc (s := Store.open .default)
    (l := [.apply (blankAt 1), .readApplied]) rfl
    (step_installSnapshot Serde.ofCountable _ (appliedAt 5))
  have hback : reach (some (blankAt 5).logId) ≤ reach (some (blankAt 1).logId) :=
    (hall _ _ _ sane_default (hdriven _) _ [.purge (blankAt 5).logId, .storeBuild 0] _ _ rfl
      hinstalled rfl).1
  exact absurd hback (by decide)

end Snapshots

end HorsieActor.Ports.Raft
