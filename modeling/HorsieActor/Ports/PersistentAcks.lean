import HorsieActor.Ports.PersistentHistory
import HorsieActor.Verified.Slots
import Mathlib.Data.List.Nodup

/-!
# What a command's sender may believe

A command persists its events, publishes them, perhaps takes a snapshot, and only then
acknowledges.  Any number of instances do this over one log, journal calls fail, and an
instance may be dropped between any two calls, so what is acknowledged and what is in
the log are two things.

`Books` are kept beside a run: every command with what its `handle` returned, the
command each instance is at, and the commands whose `persist` was admitted, in that
order.  They only watch (`Schedule.observed`).  `Entered` says, for each point an
instance can be at (`Stage`), what the books have of its command then; a step moves one
instance, and changes the books for the command of that instance only.

## Main results

* `sound_step` — what the books say of every reachable world.
* `foldFrom_flatMap` — the log of the admitted commands folds to the fold of their
  events.
* `acks_tell_truth` — the log is the batches of the admitted commands, each whole and
  once; a command told `Ok` is one of them for good, and one told an error never is.
-/

namespace HorsieActor.Ports.Persistent

open HorsieActor.Verified
open HorsieActor.Verified.Schedule
open HorsieActor.Ports.Journal

variable {A : EventSourcedActor}

/-! ## The books -/

/-- A command, and what its `handle` has returned so far. -/
structure Record (A : EventSourcedActor) where
  effect : CommandEffect A.Event
  told : List (Handled A)

structure Books (A : EventSourcedActor) where
  /-- Every command ever given to an instance, in that order. -/
  commands : List (Record A)
  /-- The command each instance was given last. -/
  serving : List (Option Nat)
  /-- The commands whose `persist` was admitted, in that order. -/
  admitted : List Nat

namespace Books

def new (A : EventSourcedActor) : Books A := ⟨[], [], []⟩

/-- The command instance `i` is at. -/
def current (b : Books A) (i : Nat) : Option Nat := b.serving[i]?.join

def give (b : Books A) (i : Nat) (effect : CommandEffect A.Event) : Books A :=
  { b with
    commands := b.commands ++ [⟨effect, []⟩]
    serving := b.serving.set i (some b.commands.length) }

def enter (b : Books A) (n : Nat) : Books A := { b with admitted := b.admitted ++ [n] }

def tell (b : Books A) (n : Nat) (h : Handled A) : Books A :=
  { b with commands := b.commands.modify n fun r => { r with told := r.told ++ [h] } }

/-- The journal has answered a call of instance `i`. -/
def answered (b : Books A) (i : Nat) (x : Option Answered) : Books A :=
  match b.current i, x.any Answered.persistedOk with
  | some n, true => b.enter n
  | _, _ => b

/-- Instance `i` has gone on; its command may have returned. -/
def settle (b : Books A) (i : Nat) (t : Option (Option (Instance A))) : Books A :=
  match b.current i, t with
  | some n, some (some (.done _ (.handled h))) => b.tell n h
  | _, _ => b

/-- What is noted of a step that has led to `w`. -/
def note : Label A → World A → Books A → Books A
  | .spawn, _, b => { b with serving := b.serving ++ [none] }
  | .call i _, w, b => (b.answered i w.store.trace.getLast?).settle i w.instances[i]?
  | .command i effect, w, b => (b.give i effect).settle i w.instances[i]?
  | .drop _, _, b => b

/-- The events of a command. -/
def events (b : Books A) (n : Nat) : List A.Event :=
  (b.commands[n]?.map fun r => r.effect.events).getD []

/-- The batch a command writes. -/
def batch (b : Books A) (n : Nat) : List Bytes := (encodeAll A (b.events n)).toOption.getD []

/-! ### Single entries -/

variable {b b' : Books A} {i j n m : Nat} {h : Handled A} {effect : CommandEffect A.Event}

@[simp] theorem current_enter : (b.enter n).current i = b.current i := rfl

@[simp] theorem current_tell : (b.tell n h).current i = b.current i := rfl

@[simp] theorem length_tell : (b.tell n h).commands.length = b.commands.length :=
  List.length_modify ..

theorem current_give (hi : i < b.serving.length) :
    (b.give i effect).current j = if j = i then some b.commands.length else b.current j := by
  simp only [current, give]
  split
  · rename_i hji
    rw [hji, List.getElem?_set_self hi]
    rfl
  · rename_i hji
    rw [List.getElem?_set_ne (Ne.symm hji)]

theorem current_snoc :
    ({ b with serving := b.serving ++ [none] } : Books A).current i = b.current i := by
  simp only [current]
  rcases Nat.lt_or_ge i b.serving.length with hlt | hge
  · rw [List.getElem?_append_left hlt]
  · rw [List.getElem?_append_right hge, List.getElem?_eq_none hge]
    cases hk : i - b.serving.length with
    | zero => rfl
    | succ k => rfl

theorem getElem?_tell_self {r : Record A} (hn : b.commands[n]? = some r) :
    (b.tell n h).commands[n]? = some { r with told := r.told ++ [h] } := by
  simp only [tell, List.getElem?_modify, hn, if_true]
  rfl

theorem getElem?_tell_ne (hne : m ≠ n) : (b.tell n h).commands[m]? = b.commands[m]? := by
  simp only [tell, List.getElem?_modify, if_neg (Ne.symm hne)]
  exact Option.map_id'

@[simp] theorem events_tell : (b.tell n h).events m = b.events m := by
  by_cases hmn : m = n
  · subst hmn
    cases hm : b.commands[m]? with
    | none => simp [events, tell, hm]
    | some r => simp [events, getElem?_tell_self hm, hm]
  · simp only [events, getElem?_tell_ne hmn]

theorem events_give (hn : n < b.commands.length) : (b.give i effect).events n = b.events n := by
  simp only [events, give, List.getElem?_append_left hn]

theorem batch_congr (hevents : b'.events n = b.events n) : b'.batch n = b.batch n := by
  simp only [batch, hevents]

theorem batch_eq {r : Record A} {bs : List Bytes} (hn : b.commands[n]? = some r)
    (henc : encodeAll A r.effect.events = .ok bs) :
    encodeAll A (b.events n) = .ok (b.batch n) ∧ b.batch n = bs := by
  have hevents : b.events n = r.effect.events := by
    simp only [events, hn, Option.map_some, Option.getD_some]
  have hbatch : b.batch n = bs := by
    simp only [batch, hevents, henc]
    rfl
  exact ⟨by rw [hevents, henc, hbatch], hbatch⟩

/-! ### What a step notes -/

theorem settle_await {self : Persistent A} {c : JournalCall} {k : c.Answer → Instance A} :
    b.settle i (some (some (.await self c k))) = b := by
  unfold settle
  cases b.current i with
  | none => rfl
  | some n => rfl

theorem settle_handled {self : Persistent A} (hn : b.current i = some n) :
    b.settle i (some (some (.done self (.handled h)))) = b.tell n h := by
  simp only [settle, hn]

theorem settle_of_none {t : Option (Option (Instance A))} (hn : b.current i = none) :
    b.settle i t = b := by
  simp only [settle, hn]

theorem answered_of_none {x : Option Answered} (hn : b.current i = none) :
    b.answered i x = b := by
  simp only [answered, hn]

theorem answered_of_persistedOk {x : Answered} (hn : b.current i = some n)
    (hx : x.persistedOk = true) :
    b.answered i (some x) = b.enter n := by
  simp only [answered, hn, Option.any_some, hx]

theorem answered_of_not_persistedOk {x : Answered} (hx : x.persistedOk = false) :
    b.answered i (some x) = b := by
  unfold answered
  rw [Option.any_some, hx]
  cases b.current i with
  | none => rfl
  | some n => rfl

/-! ### Books are only added to -/

/-- Later books. -/
structure Extends (b b' : Books A) : Prop where
  admitted : b.admitted <+: b'.admitted
  commands : ∀ (n : Nat) (r : Record A), b.commands[n]? = some r →
    ∃ r' : Record A, b'.commands[n]? = some r' ∧ r'.effect = r.effect ∧ r.told <+: r'.told

theorem Extends.refl (b : Books A) : Extends b b where
  admitted := List.prefix_refl _
  commands _ r hr := ⟨r, hr, rfl, List.prefix_refl _⟩

theorem Extends.trans {b'' : Books A} (h₁ : Extends b b') (h₂ : Extends b' b'') :
    Extends b b'' where
  admitted := h₁.admitted.trans h₂.admitted
  commands n r hr := by
    obtain ⟨r', hr', heffect, htold⟩ := h₁.commands n r hr
    obtain ⟨r'', hr'', heffect', htold'⟩ := h₂.commands n r' hr'
    exact ⟨r'', hr'', heffect'.trans heffect, htold.trans htold'⟩

theorem extends_enter : Extends b (b.enter n) where
  admitted := List.prefix_append _ _
  commands _ r hr := ⟨r, hr, rfl, List.prefix_refl _⟩

theorem extends_tell : Extends b (b.tell n h) where
  admitted := List.prefix_refl _
  commands m r hr := by
    by_cases hmn : m = n
    · subst hmn
      exact ⟨_, getElem?_tell_self hr, rfl, List.prefix_append _ _⟩
    · exact ⟨r, (getElem?_tell_ne hmn).trans hr, rfl, List.prefix_refl _⟩

theorem extends_give : Extends b (b.give i effect) where
  admitted := List.prefix_refl _
  commands _ r hr :=
    ⟨r, Slots.getElem?_snoc_iff.mpr (Or.inr hr), rfl, List.prefix_refl _⟩

theorem extends_settle {t : Option (Option (Instance A))} : Extends b (b.settle i t) := by
  unfold settle
  split
  · exact extends_tell
  · exact .refl b

theorem extends_answered {x : Option Answered} : Extends b (b.answered i x) := by
  unfold answered
  split
  · exact extends_enter
  · exact .refl b

theorem extends_note (label : Label A) (w : World A) (b : Books A) :
    Extends b (note label w b) := by
  cases label with
  | spawn => exact ⟨List.prefix_refl _, fun _ r hr => ⟨r, hr, rfl, List.prefix_refl _⟩⟩
  | call i fault => exact extends_answered.trans extends_settle
  | command i effect => exact extends_give.trans extends_settle
  | drop i => exact .refl b

theorem extends_run {pid : PersistenceId} (l : List (Label A)) {x x' : World A × Books A}
    (h : run (observed (step pid) fun _ => note) x l = some x') : Extends x.2 x'.2 := by
  refine run_invariant_all (I := fun y => Extends x.2 y.2) ?_ l (.refl x.2) h
  intro y label y' hy hs
  obtain ⟨-, hnote⟩ := observed_eq_some hs
  rw [hnote]
  exact hy.trans (extends_note label _ _)

/-! ## Where the commands are -/

/-- The command has returned, once; it said `Ok` exactly if it was admitted. -/
def Settled (b : Books A) (n : Nat) : Prop :=
  ∃ effect result, b.commands[n]? = some ⟨effect, [outcome effect result]⟩ ∧
    (result = .ok () ↔ n ∈ b.admitted)

/-- It has not returned. -/
def Pending (b : Books A) (n : Nat) : Prop := ∃ effect, b.commands[n]? = some ⟨effect, []⟩

end Books

/-- What the books say of the command an instance is at. -/
inductive Entered (b : Books A) : Option Nat → Phase A → Prop
  | starting : Entered b none .starting
  | started : Entered b none .started
  | persisting {n effect} (hn : b.commands[n]? = some ⟨effect, []⟩) (hnew : n ∉ b.admitted) :
      Entered b (some n) (.persisting effect)
  | saving {n effect} (hn : b.commands[n]? = some ⟨effect, []⟩) (hadmitted : n ∈ b.admitted) :
      Entered b (some n) (.saving effect)
  | compacting {n effect seqNr} (hn : b.commands[n]? = some ⟨effect, []⟩)
      (hadmitted : n ∈ b.admitted) : Entered b (some n) (.compacting effect seqNr)
  | returned {n effect result} (hn : b.commands[n]? = some ⟨effect, [outcome effect result]⟩)
      (hiff : result = .ok () ↔ n ∈ b.admitted) : Entered b (some n) (.returned effect result)

/-- The instance has not come to the end of what it is doing, or never will. -/
def Unfinished (w : World A) (i : Nat) : Prop :=
  w.instances[i]? = some none ∨
    ∃ self c k, w.instances[i]? = some (some (.await self c k))

/-- The log as the books have it. -/
structure Accounts (pid : PersistenceId) (st : Store) (b : Books A) : Prop where
  once : b.admitted.Nodup
  known : ∀ n ∈ b.admitted, n < b.commands.length ∧ encodeAll A (b.events n) = .ok (b.batch n)
  history : st.appended pid = b.admitted.flatMap b.batch

structure Sound (pid : PersistenceId) (w : World A) (b : Books A) : Prop where
  slots : b.serving.length = w.instances.length
  own : ∀ {i j n}, b.current i = some n → b.current j = some n → i = j
  given : ∀ {i n}, b.current i = some n → n < b.commands.length
  placed : ∀ {i t}, w.instances[i]? = some (some t) → Stage pid (Entered b (b.current i)) t
  settled : ∀ n, n < b.commands.length →
    b.Settled n ∨ b.Pending n ∧ ∃ i, b.current i = some n ∧ Unfinished w i
  accounts : Accounts pid w.store b

section Steps

variable {pid : PersistenceId} {w w' : World A} {b b' : Books A} {st st' : Store}
variable {i n : Nat} {m : Option Nat} {t : Instance A}

/-! ### The log -/

theorem Accounts.congr (h : Accounts pid st b) (happ : st'.appended pid = st.appended pid)
    (hadmitted : b'.admitted = b.admitted) (hlen : b.commands.length ≤ b'.commands.length)
    (hevents : ∀ n, n < b.commands.length → b'.events n = b.events n) :
    Accounts pid st' b' where
  once := hadmitted ▸ h.once
  known n hn := by
    rw [hadmitted] at hn
    obtain ⟨hlt, henc⟩ := h.known n hn
    refine ⟨Nat.lt_of_lt_of_le hlt hlen, ?_⟩
    rw [Books.batch_congr (hevents n hlt), hevents n hlt]
    exact henc
  history := by
    rw [happ, h.history, hadmitted]
    exact List.flatMap_congr fun n hn =>
      (Books.batch_congr (hevents n (h.known n hn).1)).symm

theorem Accounts.tell (h : Accounts pid st b) (n : Nat) (x : Handled A) :
    Accounts pid st (b.tell n x) :=
  h.congr rfl rfl (Nat.le_of_eq Books.length_tell.symm) fun _ _ => Books.events_tell

/-- A batch is admitted. -/
theorem Accounts.enter (h : Accounts pid st b) {r : Record A} {bs : List Bytes}
    (hn : b.commands[n]? = some r) (henc : encodeAll A r.effect.events = .ok bs)
    (hnew : n ∉ b.admitted) (happ : st'.appended pid = st.appended pid ++ bs) :
    Accounts pid st' (b.enter n) := by
  obtain ⟨hencoded, hbatch⟩ := Books.batch_eq hn henc
  refine ⟨?_, ?_, ?_⟩
  · show (b.admitted ++ [n]).Nodup
    rw [← List.concat_eq_append]
    exact List.Nodup.concat hnew h.once
  · intro m hm
    rcases List.mem_append.mp hm with hm | hm
    · exact h.known m hm
    · rw [List.mem_singleton.mp hm]
      exact ⟨(List.getElem?_eq_some_iff.mp hn).1, hencoded⟩
  · have hlast : ([n] : List Nat).flatMap b.batch = bs := by
      rw [List.flatMap_cons, List.flatMap_nil, List.append_nil, hbatch]
    rw [happ, h.history]
    show _ = (b.admitted ++ [n]).flatMap b.batch
    rw [List.flatMap_append, hlast]

/-! ### One instance moves -/

/-- The books say of this command what they said. -/
def SameEntry (n : Nat) (b b' : Books A) : Prop :=
  b'.commands[n]? = b.commands[n]? ∧ (n ∈ b'.admitted ↔ n ∈ b.admitted)

theorem Entered.congr {p : Phase A} (h : Entered b m p)
    (hsame : ∀ n, m = some n → SameEntry n b b') : Entered b' m p := by
  cases h with
  | starting => exact .starting
  | started => exact .started
  | persisting hn hnew =>
      obtain ⟨hcmd, hiff⟩ := hsame _ rfl
      exact .persisting (hcmd.trans hn) (mt hiff.mp hnew)
  | saving hn hadmitted =>
      obtain ⟨hcmd, hiff⟩ := hsame _ rfl
      exact .saving (hcmd.trans hn) (hiff.mpr hadmitted)
  | compacting hn hadmitted =>
      obtain ⟨hcmd, hiff⟩ := hsame _ rfl
      exact .compacting (hcmd.trans hn) (hiff.mpr hadmitted)
  | returned hn hret =>
      obtain ⟨hcmd, hiff⟩ := hsame _ rfl
      exact .returned (hcmd.trans hn) (hret.trans hiff.symm)

theorem Settled.congr (h : b.Settled n) (hsame : SameEntry n b b') : b'.Settled n := by
  obtain ⟨effect, result, hn, hiff⟩ := h
  exact ⟨effect, result, hsame.1.trans hn, hiff.trans hsame.2.symm⟩

theorem Pending.congr (h : b.Pending n) (hsame : SameEntry n b b') : b'.Pending n := by
  obtain ⟨effect, hn⟩ := h
  exact ⟨effect, hsame.1.trans hn⟩

/-- The command of an instance has returned, or the instance is at a call. -/
theorem Stage.settled (h : Stage pid (Entered b (some n)) t) :
    b.Settled n ∨ b.Pending n ∧ ∃ self c k, t = .await self c k := by
  cases h with
  | lookingUp hc | replaying hc => cases hc
  | started _ hc => cases hc
  | persisting _ _ hc =>
      cases hc with
      | persisting hn => exact Or.inr ⟨⟨_, hn⟩, _, _, _, rfl⟩
  | saving _ hc =>
      cases hc with
      | saving hn => exact Or.inr ⟨⟨_, hn⟩, _, _, _, rfl⟩
  | compacting _ hc =>
      cases hc with
      | compacting hn => exact Or.inr ⟨⟨_, hn⟩, _, _, _, rfl⟩
  | returned _ hc =>
      cases hc with
      | returned hn hiff => exact Or.inl ⟨_, _, hn, hiff⟩

/-- Instance `i` goes on, and the books change for its command. -/
theorem Sound.move {x : Option (Instance A)} (h : Sound pid w b) (hi : w.instances[i]? = some x)
    (hserving : b'.serving = b.serving) (hlen : b'.commands.length = b.commands.length)
    (hothers : ∀ n, b.current i ≠ some n → SameEntry n b b')
    (hplaced : Stage pid (Entered b' (b.current i)) t) (haccounts : Accounts pid st b') :
    Sound pid ⟨st, w.instances.set i (some t)⟩ b' := by
  have hcurrent : ∀ j, b'.current j = b.current j := fun j => by
    simp only [Books.current, hserving]
  refine ⟨?_, ?_, ?_, ?_, ?_, haccounts⟩
  · rw [hserving, h.slots]
    exact List.length_set.symm
  · intro j j' n hj hj'
    rw [hcurrent] at hj hj'
    exact h.own hj hj'
  · intro j n hj
    rw [hcurrent] at hj
    exact hlen ▸ h.given hj
  · intro j u hj
    rw [hcurrent]
    rcases (Slots.getElem?_set_iff hi).mp hj with ⟨rfl, hu⟩ | ⟨hne, hj⟩
    · cases hu
      exact hplaced
    · refine (h.placed hj).mono fun _ hc => hc.congr fun n hn => hothers n fun hi' => ?_
      exact hne (h.own hn hi')
  · intro n hn
    rw [hlen] at hn
    by_cases hcur : b.current i = some n
    · rw [hcur] at hplaced
      rcases hplaced.settled with hset | ⟨hpend, self', c', k', rfl⟩
      · exact Or.inl hset
      · refine Or.inr ⟨hpend, i, (hcurrent i).trans hcur, Or.inr ⟨self', c', k', ?_⟩⟩
        exact (Slots.getElem?_set_iff hi).mpr (Or.inl ⟨rfl, rfl⟩)
    · have hsame := hothers n hcur
      rcases h.settled n hn with hset | ⟨hpend, j, hj, hunf⟩
      · exact Or.inl (Settled.congr hset hsame)
      · have hne : j ≠ i := fun hji => hcur (hji ▸ hj)
        refine Or.inr ⟨Pending.congr hpend hsame, j, (hcurrent j).trans hj, ?_⟩
        simpa only [Unfinished, List.getElem?_set_ne (Ne.symm hne)] using hunf

/-- Its command returns. -/
theorem Sound.returns {x : Option (Instance A)} {self : Persistent A}
    {effect : CommandEffect A.Event} {result : JournalResult Unit} (h : Sound pid w b)
    (haccounts : Accounts pid st b') (hi : w.instances[i]? = some x)
    (hcur : b.current i = some n)
    (hserving : b'.serving = b.serving) (hcommands : b'.commands = b.commands)
    (hadmitted : ∀ m, m ≠ n → (m ∈ b'.admitted ↔ m ∈ b.admitted))
    (hn : b.commands[n]? = some ⟨effect, []⟩) (hiff : result = .ok () ↔ n ∈ b'.admitted)
    (hpid : self.pid = pid) :
    Sound pid ⟨st, w.instances.set i (some (.done self (.handled (outcome effect result))))⟩
      (b'.settle i (some (some (.done self (.handled (outcome effect result)))))) := by
  have hcur' : b'.current i = some n := by
    simp only [Books.current, hserving] at hcur ⊢
    exact hcur
  rw [Books.settle_handled hcur']
  refine h.move hi hserving (Books.length_tell.trans (by rw [hcommands])) ?_ ?_
    (haccounts.tell n _)
  · intro m hm
    have hne : m ≠ n := fun hmn => hm (hmn ▸ hcur)
    exact ⟨(Books.getElem?_tell_ne hne).trans (by rw [hcommands]), hadmitted m hne⟩
  · rw [hcur]
    exact .returned hpid (.returned (Books.getElem?_tell_self (by rw [hcommands]; exact hn)) hiff)

theorem sound_call {fault : Option JournalError} (h : Sound pid w b)
    (hs : step pid w (.call i fault) = some w') :
    Sound pid w' (Books.note (.call i fault) w' b) := by
  obtain ⟨self, c, k, r, st, hi, hans, rfl⟩ := step_call hs
  have hnote : Books.note (.call i fault) ⟨st, w.instances.set i (some (k r))⟩ b =
      (b.answered i (some ⟨c, r⟩)).settle i (some (some (k r))) := by
    simp only [Books.note, answer_trace hans, List.getLast?_concat,
      (Slots.getElem?_set_iff hi).mpr (Or.inl ⟨rfl, rfl⟩)]
  rw [hnote]
  have hplaced := h.placed hi
  have hself : ∀ n, SameEntry n b b := fun n => ⟨rfl, Iff.rfl⟩
  generalize hcur : b.current i = cur at hplaced
  cases hplaced with
  | lookingUp hc =>
      cases hc
      obtain ⟨-, hsame⟩ := answer_latestSnapshot hans
      rw [Books.answered_of_none hcur, Books.settle_of_none hcur]
      refine h.move hi rfl rfl (fun n _ => hself n) ?_
        (h.accounts.congr hsame.appended rfl (Nat.le_refl _) fun _ _ => rfl)
      rw [hcur]
      exact stage_afterLookup .starting .started r
  | replaying hc =>
      cases hc
      obtain ⟨-, hsame⟩ := answer_replay hans
      rw [Books.answered_of_none hcur, Books.settle_of_none hcur]
      refine h.move hi rfl rfl (fun n _ => hself n) ?_
        (h.accounts.congr hsame.appended rfl (Nat.le_refl _) fun _ _ => rfl)
      rw [hcur]
      exact stage_afterReplay .started _ _ r
  | @persisting self effect bs hpid henc hc =>
      cases hc with
      | @persisting n _ hn hnew =>
          rcases answer_persist hans with ⟨rfl, -, -, happ⟩ | ⟨e, rfl, hsame, -⟩
          · have haccounts : Accounts pid st (b.enter n) := h.accounts.enter hn henc hnew happ
            have hmem : n ∈ (b.enter n).admitted :=
              List.mem_append_right _ (List.mem_singleton_self n)
            have hothers : ∀ m, m ≠ n → (m ∈ (b.enter n).admitted ↔ m ∈ b.admitted) := by
              intro m hne
              simp only [Books.enter, List.mem_append, List.mem_singleton, hne, or_false]
            have hpid' : (effect.events.foldl Persistent.fold self).pid = pid := by
              rw [foldl_fold_pid, hpid]
            rw [Books.answered_of_persistedOk hcur rfl]
            simp only [afterPersist, afterWrite]
            have hiff : (Except.ok () : JournalResult Unit) = .ok () ↔ n ∈ (b.enter n).admitted :=
              ⟨fun _ => hmem, fun _ => rfl⟩
            have hreturns := h.returns haccounts hi hcur rfl rfl hothers hn hiff hpid'
            split
            · cases hstate : A.encodeState (effect.events.foldl Persistent.fold self).state with
              | error e => exact hreturns
              | ok bytes =>
                  simp only [Books.settle_await]
                  refine h.move hi rfl rfl ?_ ?_ haccounts
                  · intro m hm
                    exact ⟨rfl, hothers m fun hmn => hm (hmn ▸ hcur)⟩
                  · rw [hcur, hpid']
                    exact .saving hpid' (.saving hn hmem)
            · exact hreturns
          · rw [Books.answered_of_not_persistedOk rfl]
            refine h.returns (h.accounts.congr hsame.appended rfl (Nat.le_refl _) fun _ _ => rfl)
              hi hcur rfl rfl (fun _ _ => Iff.rfl) hn ⟨fun hok => ?_, fun hmem => absurd hmem hnew⟩
              hpid
            cases hok
  | saving hpid hc =>
      cases hc with
      | saving hn hadmitted =>
          rw [Books.answered_of_not_persistedOk rfl]
          rcases answer_saveSnapshot hans with ⟨rfl, -, -, happ⟩ | ⟨e, rfl, hsame⟩
          · simp only [afterSave, Books.settle_await]
            refine h.move hi rfl rfl (fun n _ => hself n) ?_
              (h.accounts.congr happ rfl (Nat.le_refl _) fun _ _ => rfl)
            rw [hcur, hpid]
            exact .compacting hpid (.compacting hn hadmitted)
          · exact h.returns (h.accounts.congr hsame.appended rfl (Nat.le_refl _) fun _ _ => rfl)
              hi hcur rfl rfl (fun _ _ => Iff.rfl) hn ⟨fun _ => hadmitted, fun _ => rfl⟩ hpid
  | compacting hpid hc =>
      cases hc with
      | compacting hn hadmitted =>
          obtain ⟨-, happ⟩ := answer_deleteEventsBefore hans
          rw [Books.answered_of_not_persistedOk rfl]
          exact h.returns (h.accounts.congr happ rfl (Nat.le_refl _) fun _ _ => rfl)
            hi hcur rfl rfl (fun _ _ => Iff.rfl) hn ⟨fun _ => hadmitted, fun _ => rfl⟩ hpid

/-! ### A command is given -/

/-- The instance was idle, and is taken out while it starts. -/
theorem Sound.give {x : Option (Instance A)} (h : Sound pid w b) (hi : w.instances[i]? = some x)
    (hidle : ∀ n, b.current i = some n → b.Settled n) (effect : CommandEffect A.Event) :
    Sound pid ⟨w.store, w.instances.set i none⟩ (b.give i effect) := by
  have hlt : i < b.serving.length := by
    rw [h.slots]
    exact (List.getElem?_eq_some_iff.mp hi).1
  have hsame : ∀ {n}, n < b.commands.length → SameEntry n b (b.give i effect) := fun hn =>
    ⟨List.getElem?_append_left hn, Iff.rfl⟩
  refine ⟨?_, ?_, ?_, ?_, ?_, ?_⟩
  · simp only [Books.give, List.length_set, h.slots]
  · intro j j' n hj hj'
    rw [Books.current_give hlt] at hj hj'
    split at hj <;> split at hj'
    · rename_i hji hji'
      rw [hji, hji']
    · cases hj
      exact absurd (h.given hj') (Nat.lt_irrefl _)
    · cases hj'
      exact absurd (h.given hj) (Nat.lt_irrefl _)
    · exact h.own hj hj'
  · intro j n hj
    rw [Books.current_give hlt] at hj
    simp only [Books.give, List.length_append, List.length_singleton]
    split at hj
    · cases hj
      exact Nat.lt_succ_self _
    · exact Nat.lt_succ_of_lt (h.given hj)
  · intro j u hj
    rcases (Slots.getElem?_set_iff hi).mp hj with ⟨-, hu⟩ | ⟨hne, hj⟩
    · cases hu
    · rw [Books.current_give hlt, if_neg hne]
      exact (h.placed hj).mono fun _ hc => hc.congr fun n hn => hsame (h.given hn)
  · intro n hn
    simp only [Books.give, List.length_append, List.length_singleton] at hn
    rcases Nat.lt_succ_iff_lt_or_eq.mp hn with hn | rfl
    · rcases h.settled n hn with hset | ⟨hpend, j, hj, hunf⟩
      · exact Or.inl (Settled.congr hset (hsame hn))
      · by_cases hji : j = i
        · subst hji
          exact Or.inl (Settled.congr (hidle n hj) (hsame hn))
        · refine Or.inr ⟨Pending.congr hpend (hsame hn), j, ?_, ?_⟩
          · rw [Books.current_give hlt, if_neg hji]
            exact hj
          · simpa only [Unfinished, List.getElem?_set_ne (Ne.symm hji)] using hunf
    · refine Or.inr ⟨⟨effect, List.getElem?_concat_length⟩, i, ?_, Or.inl ?_⟩
      · rw [Books.current_give hlt, if_pos rfl]
      · exact (Slots.getElem?_set_iff hi).mpr (Or.inl ⟨rfl, rfl⟩)
  · refine h.accounts.congr rfl rfl ?_ fun n hn => Books.events_give hn
    simp only [Books.give, List.length_append]
    exact Nat.le_add_right _ _

theorem sound_command {effect : CommandEffect A.Event} (h : Sound pid w b)
    (hs : step pid w (.command i effect) = some w') :
    Sound pid w' (Books.note (.command i effect) w' b) := by
  obtain ⟨self, r, hi, -, rfl⟩ := step_command hs
  have hpid := (h.placed hi).pid_eq
  have hidle : ∀ n, b.current i = some n → b.Settled n := by
    intro n hn
    have hplaced := h.placed hi
    rw [hn] at hplaced
    rcases hplaced.settled with hset | ⟨-, self', c, k, heq⟩
    · exact hset
    · cases heq
  have hgiven := h.give hi hidle effect
  have hi' : (w.instances.set i none)[i]? = some none :=
    (Slots.getElem?_set_iff hi).mpr (Or.inl ⟨rfl, rfl⟩)
  have hentry : (b.give i effect).commands[b.commands.length]? = some ⟨effect, []⟩ :=
    List.getElem?_concat_length
  have hcur : (b.give i effect).current i = some b.commands.length := by
    rw [Books.current_give (h.slots ▸ (List.getElem?_eq_some_iff.mp hi).1), if_pos rfl]
  have hfresh : b.commands.length ∉ b.admitted := fun hmem =>
    Nat.lt_irrefl _ (h.accounts.known _ hmem).1
  -- Back from the emptied slot to the instance in it.
  have hset : ∀ t : Instance A,
      w.instances.set i (some t) = (w.instances.set i none).set i (some t) := fun t =>
    (List.set_set ..).symm
  have hnote : Books.note (.command i effect)
      { w with instances := w.instances.set i (some (serveOne self effect)) } b =
      (b.give i effect).settle i (some (some (serveOne self effect))) := by
    simp only [Books.note, (Slots.getElem?_set_iff hi).mpr (Or.inl ⟨rfl, rfl⟩)]
  rw [hnote, hset, serveOne_eq]
  cases henc : encodeAll A effect.events with
  | error e =>
      exact hgiven.returns hgiven.accounts hi' hcur rfl rfl (fun _ _ => Iff.rfl) hentry
        ⟨nofun, fun hmem => absurd hmem hfresh⟩ hpid
  | ok bs =>
      dsimp only
      rw [Books.settle_await]
      refine hgiven.move hi' rfl rfl (fun _ _ => ⟨rfl, Iff.rfl⟩) ?_ hgiven.accounts
      rw [hcur, hpid]
      exact .persisting hpid henc (.persisting hentry hfresh)

/-! ### Instances come and go -/

theorem sound_spawn (h : Sound pid w b) :
    Sound pid { w with instances := w.instances ++ [some (startUp A pid)] }
      { b with serving := b.serving ++ [none] } := by
  have hlast : b.current w.instances.length = none := by
    rw [Books.current, List.getElem?_eq_none (Nat.le_of_eq h.slots)]
    rfl
  refine ⟨?_, ?_, ?_, ?_, ?_, ?_⟩
  · simp only [List.length_append, List.length_singleton, h.slots]
  · intro j j' n hj hj'
    rw [Books.current_snoc] at hj hj'
    exact h.own hj hj'
  · intro j n hj
    rw [Books.current_snoc] at hj
    exact h.given hj
  · intro j u hj
    rw [Books.current_snoc]
    rcases Slots.getElem?_snoc_iff.mp hj with ⟨rfl, hu⟩ | hj
    · cases hu
      rw [hlast]
      exact stage_startUp .starting
    · exact (h.placed hj).mono fun _ hc => hc.congr fun _ _ => ⟨rfl, Iff.rfl⟩
  · intro n hn
    rcases h.settled n hn with hset | ⟨hpend, j, hj, hunf⟩
    · exact Or.inl hset
    · refine Or.inr ⟨hpend, j, Books.current_snoc.trans hj, ?_⟩
      rcases hunf with hunf | ⟨self, c, k, hunf⟩
      · exact Or.inl (Slots.getElem?_snoc_iff.mpr (Or.inr hunf))
      · exact Or.inr ⟨self, c, k, Slots.getElem?_snoc_iff.mpr (Or.inr hunf)⟩
  · exact h.accounts.congr rfl rfl (Nat.le_refl _) fun _ _ => rfl

theorem sound_drop (h : Sound pid w b) (i : Nat) :
    Sound pid { w with instances := w.instances.set i none } b := by
  cases hi : w.instances[i]? with
  | none =>
      rw [List.set_eq_of_length_le (List.getElem?_eq_none_iff.mp hi)]
      exact h
  | some x =>
      refine ⟨?_, h.own, h.given, ?_, ?_, h.accounts⟩
      · rw [h.slots]
        exact List.length_set.symm
      · intro j u hj
        rcases (Slots.getElem?_set_iff hi).mp hj with ⟨-, hu⟩ | ⟨-, hj⟩
        · cases hu
        · exact h.placed hj
      · intro n hn
        rcases h.settled n hn with hset | ⟨hpend, j, hj, hunf⟩
        · exact Or.inl hset
        · refine Or.inr ⟨hpend, j, hj, ?_⟩
          by_cases hji : j = i
          · exact Or.inl ((Slots.getElem?_set_iff hi).mpr (Or.inl ⟨hji, rfl⟩))
          · simpa only [Unfinished, List.getElem?_set_ne (Ne.symm hji)] using hunf

/-- The step lemma. -/
theorem sound_step {label : Label A} (h : Sound pid w b) (hs : step pid w label = some w') :
    Sound pid w' (Books.note label w' b) := by
  cases label with
  | spawn =>
      cases hs
      exact sound_spawn h
  | call i fault => exact sound_call h hs
  | command i effect => exact sound_command h hs
  | drop i =>
      cases hs
      exact sound_drop h i

end Steps

theorem sound_init (pid : PersistenceId) : Sound pid (World.init A) (Books.new A) where
  slots := rfl
  own h := by cases h
  given h := by cases h
  placed h := by cases h
  settled _ h := absurd h (Nat.not_lt_zero _)
  accounts := ⟨List.nodup_nil, fun _ h => absurd h List.not_mem_nil, rfl⟩

/-- The run lemma. -/
theorem sound_run {pid : PersistenceId} (l : List (Label A)) {x x' : World A × Books A}
    (h : Sound pid x.1 x.2) (hrun : run (observed (step pid) fun _ => Books.note) x l = some x') :
    Sound pid x'.1 x'.2 := by
  refine run_invariant_all (I := fun y => Sound pid y.1 y.2) ?_ l h hrun
  intro y label y' hy hs
  obtain ⟨hstep, hnote⟩ := observed_eq_some hs
  rw [hnote]
  exact sound_step hy hstep

/-! ## What the log folds to -/

theorem state_foldl_fold (events : List A.Event) :
    ∀ self : Persistent A,
      (events.foldl Persistent.fold self).state = events.foldl A.applyEvent self.state := by
  induction events with
  | nil => intro self; rfl
  | cons event rest ih => intro self; exact ih (self.fold event)

/-- Batches that were encoded fold to the fold of their events. -/
theorem foldFrom_flatMap (hA : A.RoundTrips) {events : Nat → List A.Event}
    {batch : Nat → List Bytes} (ns : List Nat)
    (henc : ∀ n ∈ ns, encodeAll A (events n) = .ok (batch n)) :
    ∀ state, foldFrom A state (ns.flatMap batch) =
      .ok ((ns.flatMap events).foldl A.applyEvent state) := by
  induction ns with
  | nil => intro state; rfl
  | cons n rest ih =>
      intro state
      have hfirst := foldFrom_encodeAll hA ⟨⟨"", ""⟩, state, 0⟩ (henc n (List.mem_cons_self ..))
      rw [state_foldl_fold] at hfirst
      rw [List.flatMap_cons, List.flatMap_cons, foldFrom_append, hfirst, List.foldl_append]
      exact ih (fun m hm => henc m (List.mem_cons_of_mem _ hm)) _

/-! ## The result -/

/-- The log and the answers, as the books of a run have them. -/
structure TellsTruth (pid : PersistenceId) (w : World A) (b : Books A) : Prop where
  /-- Everything ever appended is the batches of the admitted commands. -/
  history : w.store.appended pid = b.admitted.flatMap b.batch
  once : b.admitted.Nodup
  /-- And it folds to what their events fold to. -/
  fold : foldLog A (w.store.appended pid) =
    .ok ((b.admitted.flatMap b.events).foldl A.applyEvent A.initialState)
  /-- A command has returned at most once, and said how its write came out. -/
  told : ∀ (n : Nat) (r : Record A), b.commands[n]? = some r →
    r.told = [] ∨ ∃ result : JournalResult Unit, (result = .ok () ↔ n ∈ b.admitted) ∧
      ∃ h, r.told = [h] ∧ h.acked = r.effect.ack.map (fun ack => (ack, result)) ∧
        h.published =
          if n ∈ b.admitted ∧ r.effect.events ≠ [] then some r.effect.events else none
  /-- It has not returned only while an instance is at it, or if that was dropped. -/
  pending : ∀ (n : Nat) (r : Record A), b.commands[n]? = some r → r.told = [] →
    ∃ i, b.current i = some n ∧ Unfinished w i

theorem Sound.tellsTruth {pid : PersistenceId} {w : World A} {b : Books A} (hA : A.RoundTrips)
    (h : Sound pid w b) : TellsTruth pid w b where
  history := h.accounts.history
  once := h.accounts.once
  fold := by
    rw [h.accounts.history]
    exact foldFrom_flatMap hA _ (fun n hn => (h.accounts.known n hn).2) _
  told n r hr := by
    rcases h.settled n (List.getElem?_eq_some_iff.mp hr).1 with
      ⟨effect, result, hn, hiff⟩ | ⟨⟨effect, hn⟩, -⟩
    · cases hr.symm.trans hn
      refine Or.inr ⟨result, hiff, _, rfl, rfl, ?_⟩
      simp only [← hiff]
      cases result with
      | error e => simp [outcome, Except.isOk, Except.toBool]
      | ok u => simp [outcome, Except.isOk, Except.toBool]
    · cases hr.symm.trans hn
      exact Or.inl rfl
  pending n r hr htold := by
    rcases h.settled n (List.getElem?_eq_some_iff.mp hr).1 with ⟨effect, result, hn, -⟩ | ⟨-, h⟩
    · cases hr.symm.trans hn
      cases htold
    · exact h

/-- **Acknowledgements tell the truth.**  Any number of instances share one log, calls
fail and instances are dropped anywhere.  At every point of every run the log is the
batches of the commands that were admitted, each of them whole and once, and folds to
what their events fold to.  What was acknowledged by then stays true at every later
point: a command that was told `Ok` is among the admitted, and one that was told an
error is not. -/
theorem acks_tell_truth (A : EventSourcedActor) (hA : A.RoundTrips) (pid : PersistenceId)
    (l l' : List (Label A)) (w w' : World A)
    (hrun : run (step pid) (World.init A) l = some w) (hrun' : run (step pid) w l' = some w') :
    ∃ b b' : Books A,
      run (observed (step pid) fun _ => Books.note) (World.init A, Books.new A) l = some (w, b) ∧
      run (observed (step pid) fun _ => Books.note) (w, b) l' = some (w', b') ∧
      TellsTruth pid w b ∧ TellsTruth pid w' b' ∧ b.admitted <+: b'.admitted ∧
      ∀ (n : Nat) (r : Record A) (h : Handled A) (ack : Nat) (result : JournalResult Unit),
        b.commands[n]? = some r → h ∈ r.told → h.acked = some (ack, result) →
          (result = .ok () ↔ n ∈ b'.admitted) := by
  obtain ⟨b, hb⟩ := run_observed (fun _ => Books.note) l (Books.new A) hrun
  obtain ⟨b', hb'⟩ := run_observed (fun _ => Books.note) l' b hrun'
  have hsound := sound_run l (sound_init pid) hb
  have hsound' := sound_run l' hsound hb'
  have hextends := Books.extends_run l' hb'
  refine ⟨b, b', hb, hb', hsound.tellsTruth hA, hsound'.tellsTruth hA, hextends.admitted, ?_⟩
  intro n r h ack result hr hmem hacked
  obtain ⟨r', hr', heffect, htold⟩ := hextends.commands n r hr
  have hmem' : h ∈ r'.told := htold.subset hmem
  rcases (hsound'.tellsTruth hA).told n r' hr' with hnone | ⟨result', hiff, h', hone, hack, -⟩
  · rw [hnone] at hmem'
    cases hmem'
  · rw [hone, List.mem_singleton] at hmem'
    rw [← hmem', hacked] at hack
    obtain ⟨ack', -, heq⟩ := Option.map_eq_some_iff.mp hack.symm
    cases heq
    exact hiff

/-- Two instances have recovered; the first writes, and the second finds its number
taken. -/
def supersededWriter : List (Label tally) :=
  [.spawn, .call 0 none, .call 0 none, .spawn, .call 1 none, .call 1 none,
    .command 0 { events := [(1 : Nat)], ack := some 7 }, .call 0 none,
    .command 1 { events := [(2 : Nat)], ack := some 8 }, .call 1 none]

/-- A third writes and is dropped before it can say so. -/
def droppedWriter : List (Label tally) :=
  [.spawn, .call 2 none, .call 2 none,
    .command 2 { events := [(3 : Nat)], ack := some 9, snapshot := true }, .call 2 none, .drop 2]

theorem acks_tell_truth_droppedWriter :
    ∃ w w' b b', run (step ⟨"Tally", "1"⟩) (World.init tally) supersededWriter = some w ∧
      run (step ⟨"Tally", "1"⟩) w droppedWriter = some w' ∧
      b.admitted = [0] ∧ b'.admitted = [0, 2] ∧ TellsTruth ⟨"Tally", "1"⟩ w b ∧
      TellsTruth ⟨"Tally", "1"⟩ w' b' := by
  obtain ⟨b, b', hb, hb', htruth, htruth', -⟩ := acks_tell_truth tally tally_roundTrips
    ⟨"Tally", "1"⟩ supersededWriter droppedWriter _ _ rfl rfl
  refine ⟨_, _, b, b', rfl, rfl, ?_, ?_, htruth, htruth'⟩
  · cases hb
    rfl
  · cases hb
    cases hb'
    rfl

end HorsieActor.Ports.Persistent
