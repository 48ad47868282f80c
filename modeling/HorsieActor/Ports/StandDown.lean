import HorsieActor.Verified.Schedule
import HorsieActor.Verified.Watch

/-!
# Standing down

How an actor learns that its node has stopped serving: `watch_cluster` stores the
serving flag and sends it on one watch channel (`src/cluster/node.rs`), a relay
forwards its negation into the `stand_down` channel (`ActorSystem::build` in
`src/system.rs`), and every serve loop polls a receiver of that
(`src/runtime.rs`).  `get_or_create` reads the flag, creates the actor in a later
step, and the actor's receiver is made in the first poll of its own task, which
marks whatever is on the channel as seen.

A step is what runs between two points where another task or thread may: the
store and the send of the flag, the relay's wake-up, its read and its send, the
check and the creation, the first poll, the end of `on_start`, and a poll of
`stood_down`.  An actor may leave its loop for other reasons at any time.

If the node stands down between the check and the first poll, the actor marks the
stand-down as seen and serves on (`started_across_standDown_is_deaf`).  It is only
then that an actor can be deaf (`noneDeaf_of_markedBefore`).
-/

namespace HorsieActor.Ports.StandDown

open HorsieActor.Verified
open HorsieActor.Verified.Schedule

/-! ## The machine -/

/-- Where the relay's loop is. -/
inductive Relay where
  /-- In `changed`. -/
  | waiting
  /-- About to read the flag. -/
  | woken
  /-- About to send. -/
  | sending (stop : Bool)
  deriving DecidableEq, Repr

/-- Where an actor's task is in `run_actor`. -/
inductive Pc where
  /-- Spawned, not polled yet. -/
  | spawned
  /-- Past `mark_unchanged`, in `on_start`. -/
  | starting
  | serving
  /-- Out of the serve loop, or never in it. -/
  | left
  deriving DecidableEq, Repr

structure Inst where
  pc : Pc
  /-- What its receiver of the stand-down channel has seen. -/
  seen : Nat
  deriving DecidableEq, Repr

structure World where
  /-- The atomic flag. -/
  serving : Bool
  /-- `watch_cluster` has stored the flag and not sent it yet. -/
  unsent : Bool
  servingTx : Watch Bool
  relay : Relay
  /-- What the relay's receiver has seen. -/
  relaySeen : Nat
  standDown : Watch Bool
  /-- Calls of `get_or_create` past `require_serving`. -/
  passed : Nat
  insts : List Inst
  deriving DecidableEq, Repr

/-- A system just built, on a node whose flag and channel hold these values. -/
def World.init (serving announced : Bool) : World where
  serving := serving
  unsent := serving != announced
  servingTx := .new announced
  relay := .waiting
  relaySeen := 0
  standDown := .new false
  passed := 0
  insts := []

namespace World

def setInst (w : World) (i : Nat) (inst : Inst) : World :=
  { w with insts := w.insts.set i inst }

/-- Every step of the relay is done. -/
def RelayDone (w : World) : Prop := w.relay = .waiting ∧ w.relaySeen = w.servingTx.version

instance (w : World) : Decidable w.RelayDone := inferInstanceAs (Decidable (_ ∧ _))

end World

inductive Label where
  /-- `watch_cluster`: `serving.store`. -/
  | store (serving : Bool)
  /-- `watch_cluster`: `serving_tx.send_if_modified`. -/
  | announce
  /-- The relay's `changed` returns. -/
  | relayWakes
  /-- The relay's `borrow_and_update`. -/
  | relayReads
  /-- The relay's `send`. -/
  | relaySends
  /-- `get_or_create` passes `require_serving`. -/
  | requireServing
  /-- `get_or_create` spawns the actor. -/
  | spawn
  /-- The first poll of `run_actor`, as far as `mark_unchanged`. -/
  | firstPoll (i : Nat)
  /-- `on_start` returns. -/
  | started (i : Nat) (ok : Bool)
  /-- The serve loop polls `stood_down`. -/
  | poll (i : Nat)
  /-- The actor leaves its loop for another reason. -/
  | leave (i : Nat)
  deriving DecidableEq, Repr

/-- `stood_down` polled: `true` read off an unseen version ends the loop. -/
def Inst.poll (inst : Inst) (standDown : Watch Bool) : Inst :=
  if inst.seen = standDown.version then inst
  else { pc := if standDown.value then .left else inst.pc, seen := standDown.version }

def step (w : World) : Label → Option World
  | .store serving =>
      if w.unsent then none else some { w with serving := serving, unsent := true }
  | .announce =>
      if w.unsent then
        some { w with unsent := false, servingTx := w.servingTx.sendIfModified w.serving }
      else none
  | .relayWakes =>
      if w.relay = .waiting ∧ w.relaySeen ≠ w.servingTx.version then
        some { w with relay := .woken, relaySeen := w.servingTx.version }
      else none
  | .relayReads =>
      if w.relay = .woken then
        some { w with relay := .sending (!w.servingTx.value), relaySeen := w.servingTx.version }
      else none
  | .relaySends =>
      match w.relay with
      | .sending stop => some { w with relay := .waiting, standDown := w.standDown.send stop }
      | _ => none
  | .requireServing => if w.serving then some { w with passed := w.passed + 1 } else none
  | .spawn =>
      if 0 < w.passed then
        some { w with passed := w.passed - 1, insts := w.insts ++ [⟨.spawned, 0⟩] }
      else none
  | .firstPoll i =>
      match w.insts[i]? with
      | some ⟨.spawned, _⟩ => some (w.setInst i ⟨.starting, w.standDown.version⟩)
      | _ => none
  | .started i ok =>
      match w.insts[i]? with
      | some ⟨.starting, seen⟩ => some (w.setInst i ⟨if ok then .serving else .left, seen⟩)
      | _ => none
  | .poll i =>
      match w.insts[i]? with
      | some ⟨.serving, seen⟩ => some (w.setInst i (Inst.poll ⟨.serving, seen⟩ w.standDown))
      | _ => none
  | .leave i =>
      match w.insts[i]? with
      | some ⟨.serving, seen⟩ => some (w.setInst i ⟨.left, seen⟩)
      | _ => none

/-! ## The property -/

/-- The node has stood down, the relay has nothing left to do, and the actor
serves with a receiver that counts the stand-down as seen. -/
def Deaf (w : World) (inst : Inst) : Prop :=
  w.standDown.value = true ∧ w.RelayDone ∧ inst.pc = .serving ∧
    inst.seen = w.standDown.version

/-- Nobody is deaf to the stand-down. -/
def NoneDeaf (w : World) : Prop := ∀ inst ∈ w.insts, ¬ Deaf w inst

/-- An actor is first polled before the stand-down has been relayed, or after it
has been taken back, or while the relay has something left to send. -/
def MarkedBefore (w : World) : Label → Prop
  | .firstPoll _ => ¬ (w.standDown.value = true ∧ w.RelayDone)
  | _ => True

instance (w : World) : ∀ label : Label, Decidable (MarkedBefore w label)
  | .firstPoll _ => inferInstanceAs (Decidable (¬ (w.standDown.value = true ∧ w.RelayDone)))
  | .store _ | .announce | .relayWakes | .relayReads | .relaySends | .requireServing | .spawn
  | .started _ _ | .poll _ | .leave _ => isTrue trivial

/-! ## The invariant -/

/-- The receiver is not ahead of the channel, and one that counts `true` as seen
has another send coming. -/
structure Hears (w : World) (inst : Inst) : Prop where
  seen : inst.seen ≤ w.standDown.version
  coming : inst.pc = .starting ∨ inst.pc = .serving → inst.seen = w.standDown.version →
    w.standDown.value = true → ¬ w.RelayDone

structure Heard (w : World) : Prop where
  relaySeen : w.relaySeen ≤ w.servingTx.version
  insts : ∀ inst ∈ w.insts, Hears w inst

theorem heard_init (serving announced : Bool) : Heard (World.init serving announced) where
  relaySeen := Nat.le_refl 0
  insts := nofun

theorem Heard.noneDeaf {w : World} (h : Heard w) : NoneDeaf w := by
  rintro inst hinst ⟨hvalue, hdone, hpc, hseen⟩
  exact (h.insts inst hinst).coming (Or.inr hpc) hseen hvalue hdone

section Steps

variable {w w' : World}

/-- A step of the flag or the relay that sends nothing down: whoever had a send
coming still has. -/
theorem Heard.upstream (h : Heard w) (hinsts : w'.insts = w.insts)
    (hdown : w'.standDown = w.standDown) (hrelay : w'.relaySeen ≤ w'.servingTx.version)
    (hdone : w'.RelayDone → w.RelayDone) : Heard w' := by
  refine ⟨hrelay, fun inst hinst => ?_⟩
  rw [hinsts] at hinst
  have hhears := h.insts inst hinst
  refine ⟨by rw [hdown]; exact hhears.seen, fun hpc hseen hvalue hdone' => ?_⟩
  rw [hdown] at hseen hvalue
  exact hhears.coming hpc hseen hvalue (hdone hdone')

/-- A step of one actor. -/
theorem Heard.setInst (h : Heard w) (i : Nat) {inst : Inst} (hinst : Hears w inst) :
    Heard (w.setInst i inst) := by
  refine ⟨h.relaySeen, fun x hx => ?_⟩
  rcases List.mem_or_eq_of_mem_set hx with hx | rfl
  · exact ⟨(h.insts x hx).seen, (h.insts x hx).coming⟩
  · exact ⟨hinst.seen, hinst.coming⟩

/-- An actor that has not started or has left has nothing to hear. -/
theorem hears_of_not_running {pc : Pc} {seen : Nat} (hpc : pc = .spawned ∨ pc = .left)
    (hseen : seen ≤ w.standDown.version) : Hears w ⟨pc, seen⟩ := by
  refine ⟨hseen, fun hrunning => ?_⟩
  rcases hpc with rfl | rfl <;> rcases hrunning with hrunning | hrunning <;> cases hrunning

theorem Hears.poll {seen : Nat} (h : Hears w ⟨.serving, seen⟩) :
    Hears w (Inst.poll ⟨.serving, seen⟩ w.standDown) := by
  unfold Inst.poll
  split
  · exact h
  · cases hvalue : w.standDown.value with
    | true => exact hears_of_not_running (Or.inr rfl) (Nat.le_refl _)
    | false =>
        refine ⟨Nat.le_refl _, fun _ _ htrue => ?_⟩
        rw [hvalue] at htrue
        cases htrue

theorem heard_step (w : World) (label : Label) (w' : World) (h : Heard w)
    (hmarked : MarkedBefore w label) (hs : step w label = some w') : Heard w' := by
  cases label with
  | store serving =>
      simp only [step] at hs
      split at hs
      · cases hs
      · cases hs
        exact h.upstream rfl rfl h.relaySeen id
  | announce =>
      simp only [step] at hs
      split at hs
      · cases hs
        refine h.upstream rfl rfl (w.servingTx.le_sendIfModified _ h.relaySeen) ?_
        rintro ⟨hwaiting, hseen⟩
        -- had the relay a version to read, it would have one still
        by_cases hold : w.relaySeen = w.servingTx.version
        · exact ⟨hwaiting, hold⟩
        · exact absurd hseen (w.servingTx.sendIfModified_unseen w.serving h.relaySeen hold)
      · cases hs
  | relayWakes =>
      simp only [step] at hs
      split at hs
      · cases hs
        refine h.upstream rfl rfl (Nat.le_refl _) ?_
        rintro ⟨hwaiting, -⟩
        cases hwaiting
      · cases hs
  | relayReads =>
      simp only [step] at hs
      split at hs
      · cases hs
        refine h.upstream rfl rfl (Nat.le_refl _) ?_
        rintro ⟨hwaiting, -⟩
        cases hwaiting
      · cases hs
  | relaySends =>
      simp only [step] at hs
      split at hs
      · rename_i stop hrelay
        cases hs
        refine ⟨h.relaySeen, fun inst hinst => ?_⟩
        have hseen := (h.insts inst hinst).seen
        exact ⟨w.standDown.le_send stop hseen,
          fun _ heq => absurd heq (w.standDown.send_unseen stop hseen)⟩
      · cases hs
  | requireServing =>
      simp only [step] at hs
      split at hs
      · cases hs
        exact h.upstream rfl rfl h.relaySeen id
      · cases hs
  | spawn =>
      simp only [step] at hs
      split at hs
      · cases hs
        refine ⟨h.relaySeen, fun inst hinst => ?_⟩
        rcases List.mem_append.mp hinst with hinst | hnew
        · exact ⟨(h.insts inst hinst).seen, (h.insts inst hinst).coming⟩
        · cases List.mem_singleton.mp hnew
          exact hears_of_not_running (Or.inl rfl) (Nat.zero_le _)
      · cases hs
  | firstPoll i =>
      simp only [step] at hs
      split at hs
      · cases hs
        refine h.setInst i ⟨Nat.le_refl _, fun _ _ hvalue hdone => ?_⟩
        exact hmarked ⟨hvalue, hdone⟩
      · cases hs
  | started i ok =>
      simp only [step] at hs
      split at hs
      · rename_i seen hi
        cases hs
        have hhears := h.insts _ (List.mem_of_getElem? hi)
        exact h.setInst i ⟨hhears.seen, fun _ => hhears.coming (Or.inl rfl)⟩
      · cases hs
  | poll i =>
      simp only [step] at hs
      split at hs
      · rename_i seen hi
        cases hs
        exact h.setInst i (h.insts _ (List.mem_of_getElem? hi)).poll
      · cases hs
  | leave i =>
      simp only [step] at hs
      split at hs
      · rename_i seen hi
        cases hs
        have hhears := h.insts _ (List.mem_of_getElem? hi)
        exact h.setInst i (hears_of_not_running (Or.inr rfl) hhears.seen)
      · cases hs

end Steps

/-! ## The results -/

/-- **A stand-down leaves nobody deaf to it**, in every run in which no actor is
first polled while the channel holds a stand-down the relay is done with. -/
theorem noneDeaf_of_markedBefore (serving announced : Bool) (l : List Label) (w : World)
    (hrun : run step (World.init serving announced) l = some w)
    (hmarked : Along step MarkedBefore (World.init serving announced) l) : NoneDeaf w :=
  (run_invariant heard_step l (heard_init serving announced) hmarked hrun).noneDeaf

/-- An actor is serving when the node stands down, and polls. -/
def stoodDown : List Label :=
  [.requireServing, .spawn, .firstPoll 0, .started 0 true, .store false, .announce, .relayWakes,
    .relayReads, .relaySends, .poll 0]

theorem noneDeaf_stoodDown :
    ∃ w, run step (World.init true true) stoodDown = some w ∧ w.standDown.value = true ∧
      w.insts.map Inst.pc = [.left] ∧ NoneDeaf w :=
  ⟨_, rfl, rfl, rfl, noneDeaf_of_markedBefore true true stoodDown _ rfl (by decide)⟩

/-- The node stands down after an actor has been created and before its task is
first polled. -/
def startedAcross : List Label :=
  [.requireServing, .spawn, .store false, .announce, .relayWakes, .relayReads, .relaySends,
    .firstPoll 0, .started 0 true]

theorem started_across_standDown_is_deaf :
    ¬ ∀ (serving announced : Bool) (l : List Label) (w : World),
      run step (World.init serving announced) l = some w → NoneDeaf w := by
  intro h
  exact h true true startedAcross _ rfl ⟨.serving, 1⟩ (List.mem_singleton_self _)
    ⟨rfl, ⟨rfl, rfl⟩, rfl, rfl⟩

end HorsieActor.Ports.StandDown
