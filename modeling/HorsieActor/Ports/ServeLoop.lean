import HorsieActor.Ports.Persistent
import HorsieActor.Ports.Tell

/-!
# Serving what was told

The serve loop of `src/runtime.rs` between the mailboxes of `Ports/Tell.lean` and the
handlers: take a command out, let the handler return, look at the `Flow` it returned.
A serving instance takes nothing out while a handler is under way, and a handler that is
dropped because its instance leaves — stood down, or asked to stop — never returns.

Two things follow for every interleaving of senders, serve loops and stops.  A command
whose `tell` returned `Ok` is in the mailbox of one instance, once, and what that
instance has handled is the beginning of what was put there, with at most one command
more in hand (`told_once_handled_in_order`).  And whoever waits for one `tell` before the
next has the two handled in that order, whatever else goes on and whichever references
they went through, as long as they reach the same instance (`sender_order`).
-/

namespace HorsieActor.Ports.Tell

open HorsieActor.Verified

/-! ## What a `tell` does to the mailboxes -/

/-- Whose mailbox has the command of a `tell`. -/
def Phase.told : Phase → Option Nat
  | .ok inst _ => some inst
  | .cached | .send _ _ | .forget _ | .resolve | .store _ | .failed => none

def World.toldTo (w : World) (k : Nat) : Option Nat :=
  w.tells[k]?.bind fun call => call.phase.told

section Mailboxes

variable {w w' : World} {k : Nat}

theorem World.toldTo_lt {i : Nat} (h : w.toldTo k = some i) : k < w.tells.length := by
  obtain ⟨call, hcall, -⟩ := Option.bind_eq_some_iff.mp h
  exact (List.getElem?_eq_some_iff.mp hcall).1

/-- A step of a `tell` leaves the mailboxes alone, or puts its command at the end of one
that has room. -/
theorem advance_mail {ref : Reference} {phase phase' : Phase} {link : Option Nat}
    {mail : Nat → List Nat} (h : TellCall.advance w k ref phase = some (phase', link, mail)) :
    phase.told = none ∧
      ((phase'.told = none ∧ mail = w.mail) ∨
        ∃ i, phase'.told = some i ∧ (w.mail i).length < mailboxCapacity ∧
          mail = Function.update w.mail i (w.mail i ++ [k])) := by
  cases phase with
  | cached =>
      refine ⟨rfl, Or.inl ?_⟩
      simp only [TellCall.advance] at h
      split at h <;> cases h <;> exact ⟨rfl, rfl⟩
  | send inst again =>
      refine ⟨rfl, ?_⟩
      simp only [TellCall.advance] at h
      split at h
      · split at h
        · cases h
          exact Or.inr ⟨inst, rfl, ‹_›, rfl⟩
        · cases h
      · split at h <;> cases h <;> exact Or.inl ⟨rfl, rfl⟩
  | forget inst =>
      cases h
      exact ⟨rfl, Or.inl ⟨rfl, rfl⟩⟩
  | resolve =>
      refine ⟨rfl, Or.inl ?_⟩
      simp only [TellCall.advance] at h
      split at h <;> cases h <;> exact ⟨rfl, rfl⟩
  | store inst =>
      cases h
      exact ⟨rfl, Or.inl ⟨rfl, rfl⟩⟩
  | ok | failed => cases h

/-- The same of a step of the machine. -/
theorem next_mail (h : step w (.next k) = some w') :
    w.toldTo k = none ∧ w'.tells.length = w.tells.length ∧
      (∀ j, j ≠ k → w'.toldTo j = w.toldTo j) ∧
      ((w'.toldTo k = none ∧ w'.mail = w.mail) ∨
        ∃ i, w'.toldTo k = some i ∧ (w.mail i).length < mailboxCapacity ∧
          w'.mail = Function.update w.mail i (w.mail i ++ [k])) := by
  simp only [step] at h
  split at h
  · cases h
  · rename_i call hk
    split at h
    · cases h
    · rename_i ref href
      obtain ⟨⟨phase, link, mail⟩, hadv, rfl⟩ := Option.map_eq_some_iff.mp h
      obtain ⟨hold, hnew⟩ := advance_mail hadv
      have hlt := (List.getElem?_eq_some_iff.mp hk).1
      refine ⟨by simp [World.toldTo, hk, hold], List.length_set, fun j hj => ?_, ?_⟩
      · simp only [World.toldTo]
        rw [List.getElem?_set_ne hj.symm]
      · simp only [World.toldTo]
        rw [List.getElem?_set_self hlt]
        exact hnew

/-- Nothing else puts a command anywhere. -/
theorem step_mail {a : Label} (hnext : ∀ k, a ≠ .next k) (hrecv : ∀ i, a ≠ .recv i)
    (h : step w a = some w') :
    w'.mail = w.mail ∧ w.tells.length ≤ w'.tells.length ∧ ∀ k, w'.toldTo k = w.toldTo k := by
  cases a with
  | host a =>
      obtain ⟨host, -, rfl⟩ := Option.map_eq_some_iff.mp h
      exact ⟨rfl, Nat.le_refl _, fun _ => rfl⟩
  | selfRef i command =>
      simp only [step] at h
      split at h
      · cases h
      · split at h
        · cases h
          exact ⟨rfl, Nat.le_refl _, fun _ => rfl⟩
        · cases h
  | tell reference =>
      simp only [step] at h
      split at h
      · cases h
        refine ⟨rfl, by simp, fun k => ?_⟩
        simp only [World.toldTo]
        by_cases hk : k < w.tells.length
        · rw [List.getElem?_append_left hk]
        · -- the new `tell` has told nobody yet
          rw [List.getElem?_append_right (by omega), List.getElem?_eq_none (by omega : _ ≤ k)]
          cases k - w.tells.length <;> rfl
      · cases h
  | next k => exact absurd rfl (hnext k)
  | recv i => exact absurd rfl (hrecv i)

theorem recv_mail {i : Nat} (h : step w (.recv i) = some w') :
    ∃ k rest, w.mail i = k :: rest ∧ w' = { w with mail := Function.update w.mail i rest } := by
  simp only [step] at h
  split at h
  · split at h
    · cases h
      exact ⟨_, _, ‹_›, rfl⟩
    · cases h
  · cases h

end Mailboxes

end HorsieActor.Ports.Tell

namespace HorsieActor.Ports.Serving

open HorsieActor.Verified
open HorsieActor.Ports.Persistent (Flow)

/-- The serve loop of an instance. -/
structure Loop where
  /-- The command taken out last, while its handler has not returned. -/
  current : Option Nat
  /-- History: the commands put into the mailbox. -/
  enqueued : List Nat
  /-- History: the commands whose handlers have returned. -/
  handled : List Nat
  deriving DecidableEq, Repr

namespace Loop

def put (loop : Loop) (k : Nat) : Loop := { loop with enqueued := loop.enqueued ++ [k] }

def take (loop : Loop) (k : Nat) : Loop := { loop with current := some k }

def finish (loop : Loop) (k : Nat) : Loop :=
  { loop with current := none, handled := loop.handled ++ [k] }

end Loop

structure World where
  tells : Tell.World
  loops : Nat → Loop

def World.init : World := { tells := Tell.World.init, loops := fun _ => ⟨none, [], []⟩ }

inductive Label where
  /-- Whatever senders, stops and tasks do outside their serve loops. -/
  | tell (a : Tell.Label)
  | recv (i : Nat)
  /-- A handler returns. -/
  | handled (i : Nat) (flow : Flow)
  /-- `on_start` failed; or the instance was stood down or asked to stop, and its handler
  with it. -/
  | leave (i : Nat)
  deriving DecidableEq, Repr

/-- A `tell` that has just returned `Ok` has put its command into a mailbox. -/
def enqueue (loops : Nat → Loop) (after : Tell.World) : Tell.Label → Nat → Loop
  | .next k =>
      match after.toldTo k with
      | some i => Function.update loops i ((loops i).put k)
      | none => loops
  | .host _ | .selfRef _ _ | .tell _ | .recv _ => loops

/-- What only a serve loop does. -/
def ofLoop : Tell.Label → Bool
  | .recv _ | .host (.leave _) => true
  | _ => false

def step (w : World) : Label → Option World
  | .tell a =>
      if ofLoop a then none
      else (Tell.step w.tells a).map fun tells =>
        { tells := tells, loops := enqueue w.loops tells a }
  | .recv i =>
      match (w.loops i).current, w.tells.mail i with
      | none, k :: _ =>
          (Tell.step w.tells (.recv i)).map fun tells =>
            { tells := tells, loops := Function.update w.loops i ((w.loops i).take k) }
      | _, _ => none
  | .handled i flow =>
      match (w.loops i).current with
      | none => none
      | some k =>
          if w.tells.host.pcAt i = .serving then
            let loops := Function.update w.loops i ((w.loops i).finish k)
            match flow with
            | .continue => some { w with loops := loops }
            | .stop =>
                (Tell.step w.tells (.host (.leave i))).map fun tells => { tells, loops }
          else none
  | .leave i =>
      (Tell.step w.tells (.host (.leave i))).map fun tells => { w with tells := tells }

/-! ## The result -/

/-- Commands are told once and handled in order. -/
structure InOrder (w : World) : Prop where
  /-- What went into a mailbox has been handled, is in hand or waits, in this order. -/
  accounted : ∀ i, (w.loops i).enqueued =
    (w.loops i).handled ++ (w.loops i).current.toList ++ w.tells.mail i
  /-- A `tell` has returned `Ok` just when its command has gone into that mailbox. -/
  told : ∀ k i, k ∈ (w.loops i).enqueued ↔ w.tells.toldTo k = some i
  once : ∀ i, (w.loops i).enqueued.Nodup
  bounded : ∀ i, (w.tells.mail i).length ≤ Tell.mailboxCapacity

theorem inOrder_init : InOrder World.init where
  accounted _ := rfl
  told k i := by simp [World.init, Tell.World.init, Tell.World.toldTo]
  once _ := List.nodup_nil
  bounded _ := Nat.zero_le _

section Steps

variable {w : World} {tells : Tell.World}

/-- What concerns no mailbox and no `tell` keeps everything in order. -/
theorem InOrder.of_same (h : InOrder w) (hmail : tells.mail = w.tells.mail)
    (htold : ∀ k, tells.toldTo k = w.tells.toldTo k) : InOrder { w with tells := tells } where
  accounted i := by
    show (w.loops i).enqueued = _ ++ tells.mail i
    rw [hmail]
    exact h.accounted i
  told k i := by
    show k ∈ (w.loops i).enqueued ↔ tells.toldTo k = some i
    rw [htold]
    exact h.told k i
  once := h.once
  bounded i := by
    show (tells.mail i).length ≤ _
    rw [hmail]
    exact h.bounded i

/-- A command goes to the end of what was put into a mailbox. -/
theorem InOrder.enqueue (h : InOrder w) {k i : Nat} (hfresh : w.tells.toldTo k = none)
    (hothers : ∀ j, j ≠ k → tells.toldTo j = w.tells.toldTo j) (hk : tells.toldTo k = some i)
    (hroom : (w.tells.mail i).length < Tell.mailboxCapacity)
    (hmail : tells.mail = Function.update w.tells.mail i (w.tells.mail i ++ [k])) :
    InOrder { tells := tells, loops := Function.update w.loops i ((w.loops i).put k) } := by
  have hnew : ∀ j, k ∉ (w.loops j).enqueued := by
    intro j hj
    rw [h.told k j, hfresh] at hj
    cases hj
  refine ⟨fun j => ?_, fun k' j => ?_, fun j => ?_, fun j => ?_⟩
  · simp only [hmail]
    by_cases hj : j = i
    · subst hj
      simp only [Function.update_self, Loop.put]
      rw [h.accounted j, List.append_assoc]
    · simp only [Function.update_of_ne hj]
      exact h.accounted j
  · have hold : k' ≠ k → (k' ∈ (w.loops j).enqueued ↔ tells.toldTo k' = some j) := by
      intro hne
      rw [hothers k' hne]
      exact h.told k' j
    by_cases hj : j = i
    · subst hj
      simp only [Function.update_self, Loop.put, List.mem_append, List.mem_singleton]
      by_cases hkk : k' = k
      · simp [hkk, hk]
      · simp [hkk, hold hkk]
    · simp only [Function.update_of_ne hj]
      by_cases hkk : k' = k
      · subst hkk
        rw [hk]
        simp [hnew j, Ne.symm hj]
      · exact hold hkk
  · by_cases hj : j = i
    · subst hj
      simp only [Function.update_self, Loop.put]
      exact List.nodup_append.mpr ⟨h.once j, List.nodup_singleton k, fun a ha b hb hab =>
        hnew j (List.mem_singleton.mp hb ▸ hab ▸ ha)⟩
    · simp only [Function.update_of_ne hj]
      exact h.once j
  · simp only [hmail]
    by_cases hj : j = i
    · subst hj
      simp only [Function.update_self, List.length_append, List.length_singleton]
      exact hroom
    · simp only [Function.update_of_ne hj]
      exact h.bounded j

theorem enqueued_update (w : World) (i : Nat) (loop : Loop)
    (h : loop.enqueued = (w.loops i).enqueued) (j : Nat) :
    (Function.update w.loops i loop j).enqueued = (w.loops j).enqueued := by
  by_cases hj : j = i
  · subst hj
    simp only [Function.update_self, h]
  · simp only [Function.update_of_ne hj]

/-- The serve loop of one instance moves a command on. -/
theorem InOrder.moved (h : InOrder w) {i : Nat} {loop : Loop} {rest : List Nat}
    (henq : loop.enqueued = (w.loops i).enqueued)
    (hsame : loop.handled ++ loop.current.toList ++ rest =
      (w.loops i).handled ++ (w.loops i).current.toList ++ w.tells.mail i)
    (hrest : rest.length ≤ (w.tells.mail i).length) :
    InOrder { tells := { w.tells with mail := Function.update w.tells.mail i rest },
              loops := Function.update w.loops i loop } := by
  have henq' := enqueued_update w i loop henq
  refine ⟨fun j => ?_, fun k j => ?_, fun j => ?_, fun j => ?_⟩
  · simp only [henq']
    by_cases hj : j = i
    · subst hj
      simp only [Function.update_self]
      rw [hsame]
      exact h.accounted j
    · simp only [Function.update_of_ne hj]
      exact h.accounted j
  · simp only [henq']
    exact h.told k j
  · simp only [henq']
    exact h.once j
  · by_cases hj : j = i
    · subst hj
      simp only [Function.update_self]
      exact Nat.le_trans hrest (h.bounded j)
    · simp only [Function.update_of_ne hj]
      exact h.bounded j

theorem InOrder.leave (h : InOrder w) {i : Nat}
    (hs : Tell.step w.tells (.host (.leave i)) = some tells) :
    InOrder { w with tells := tells } := by
  obtain ⟨hmail, -, htold⟩ := Tell.step_mail (by simp) (by simp) hs
  exact h.of_same hmail htold

theorem inOrder_step (w : World) (a : Label) (w' : World) (h : InOrder w)
    (hs : step w a = some w') : InOrder w' := by
  cases a with
  | tell a =>
      simp only [step] at hs
      split at hs
      · cases hs
      · rename_i hnot
        obtain ⟨tells, htells, rfl⟩ := Option.map_eq_some_iff.mp hs
        by_cases hnext : ∃ k, a = .next k
        · obtain ⟨k, rfl⟩ := hnext
          obtain ⟨hfresh, -, hothers, hmail⟩ := Tell.next_mail htells
          rcases hmail with ⟨hk, hmail⟩ | ⟨i, hk, hroom, hmail⟩
          · simp only [enqueue, hk]
            refine h.of_same hmail fun j => ?_
            by_cases hj : j = k
            · rw [hj, hk, hfresh]
            · exact hothers j hj
          · simp only [enqueue, hk]
            exact h.enqueue hfresh hothers hk hroom hmail
        · have hrecv : ∀ i, a ≠ .recv i := by
            rintro i rfl
            exact hnot rfl
          have hnone : ∀ k, a ≠ .next k := fun k hk => hnext ⟨k, hk⟩
          obtain ⟨hmail, -, htold⟩ := Tell.step_mail hnone hrecv htells
          have hloops : enqueue w.loops tells a = w.loops := by
            cases a with
            | next k => exact absurd rfl (hnone k)
            | host | selfRef | tell | recv => rfl
          rw [hloops]
          exact h.of_same hmail htold
  | recv i =>
      simp only [step] at hs
      split at hs
      · rename_i k rest hcurrent hmail
        obtain ⟨tells, htells, rfl⟩ := Option.map_eq_some_iff.mp hs
        obtain ⟨k', rest', hmail', rfl⟩ := Tell.recv_mail htells
        rw [hmail] at hmail'
        cases hmail'
        refine h.moved rfl ?_ ?_
        · simp [Loop.take, hcurrent, hmail]
        · simp [hmail]
      · cases hs
  | handled i flow =>
      simp only [step] at hs
      split at hs
      · cases hs
      · rename_i k hcurrent
        split at hs
        · have hmoved : InOrder
              { tells := { w.tells with mail := Function.update w.tells.mail i (w.tells.mail i) },
                loops := Function.update w.loops i ((w.loops i).finish k) } :=
            h.moved rfl (by simp [Loop.finish, hcurrent]) (Nat.le_refl _)
          rw [Function.update_eq_self] at hmoved
          cases flow with
          | «continue» =>
              cases hs
              exact hmoved
          | stop =>
              obtain ⟨tells, htells, rfl⟩ := Option.map_eq_some_iff.mp hs
              exact hmoved.leave htells
        · cases hs
  | leave i =>
      obtain ⟨tells, htells, rfl⟩ := Option.map_eq_some_iff.mp hs
      exact h.leave htells

end Steps

/-- **Told once, handled in order.** -/
theorem told_once_handled_in_order (l : List Label) (w : World)
    (hrun : Schedule.run step World.init l = some w) : InOrder w :=
  Schedule.run_invariant_all inOrder_step l inOrder_init hrun

/-- Three commands for one actor, which is asked to stop while it handles the second. -/
def stoppedAtSecond : List Label :=
  [.tell (.host (.create ActorPath.root "p" 0)), .tell (.host (.started 0)), .tell (.tell 0),
    .tell (.next 0), .tell (.next 0), .tell (.tell 0), .tell (.next 1), .tell (.next 1), .recv 0,
    .handled 0 .continue, .recv 0, .tell (.tell 0), .tell (.next 2), .tell (.next 2),
    .tell (.host (.stop ⟨["p"]⟩)), .tell (.host (.call 0 [])), .tell (.host (.call 0 [])), .leave 0]

theorem told_once_stoppedAtSecond :
    ∃ w, Schedule.run step World.init stoppedAtSecond = some w ∧
      w.loops 0 = ⟨some 1, [0, 1, 2], [0]⟩ ∧ InOrder w :=
  ⟨_, rfl, rfl, told_once_handled_in_order stoppedAtSecond _ rfl⟩

/-! ## One sender's commands -/

section Sender

variable {w w' : World}

/-- Mailboxes have only been added to. -/
def Fuller (w w' : World) : Prop :=
  ∀ i, (w.loops i).enqueued <+: (w'.loops i).enqueued

theorem enqueue_prefix (loops : Nat → Loop) (after : Tell.World) (a : Tell.Label) (i : Nat) :
    (loops i).enqueued <+: (enqueue loops after a i).enqueued := by
  cases a with
  | next k =>
      cases htold : after.toldTo k with
      | none =>
          simp only [enqueue, htold]
          exact List.prefix_refl _
      | some j =>
          simp only [enqueue, htold]
          by_cases hij : i = j
          · subst hij
            simp only [Function.update_self, Loop.put]
            exact List.prefix_append ..
          · simp only [Function.update_of_ne hij]
            exact List.prefix_refl _
  | host | selfRef | tell | recv => exact List.prefix_refl _

theorem update_prefix (w : World) (i : Nat) (loop : Loop)
    (h : loop.enqueued = (w.loops i).enqueued) (j : Nat) :
    (w.loops j).enqueued <+: (Function.update w.loops i loop j).enqueued := by
  simp only [enqueued_update w i loop h j, List.prefix_refl]

theorem fuller_step (w : World) (a : Label) (w' : World) (hs : step w a = some w') :
    Fuller w w' := by
  intro j
  cases a with
  | tell a =>
      simp only [step] at hs
      split at hs
      · cases hs
      · obtain ⟨tells, -, rfl⟩ := Option.map_eq_some_iff.mp hs
        exact enqueue_prefix w.loops tells a j
  | recv i =>
      simp only [step] at hs
      split at hs
      · rename_i k rest hcurrent hmail
        obtain ⟨tells, -, rfl⟩ := Option.map_eq_some_iff.mp hs
        exact update_prefix w i ((w.loops i).take k) rfl j
      · cases hs
  | handled i flow =>
      simp only [step] at hs
      split at hs
      · cases hs
      · rename_i k hcurrent
        have hprefix := update_prefix w i ((w.loops i).finish k) rfl j
        split at hs
        · cases flow with
          | «continue» =>
              cases hs
              exact hprefix
          | stop =>
              obtain ⟨tells, -, rfl⟩ := Option.map_eq_some_iff.mp hs
              exact hprefix
        · cases hs
  | leave i =>
      obtain ⟨tells, -, rfl⟩ := Option.map_eq_some_iff.mp hs
      exact List.prefix_refl _

theorem fuller_run {l : List Label} (hrun : Schedule.run step w l = some w') : Fuller w w' :=
  Schedule.run_invariant_all (fun _ a _ h hs i => (h i).trans (fuller_step _ a _ hs i)) l
    (fun _ => List.prefix_refl _) hrun

end Sender

/-- **One sender's commands are handled in the order of its `tell`s.**  If one `tell` had
returned `Ok` before the other began, and both went to the same instance, then by the time
the second command has been handled the first one has been, before it. -/
theorem sender_order (l l' : List Label) (w w' : World) (k k' i : Nat)
    (hrun : Schedule.run step World.init l = some w) (hk : w.tells.toldTo k = some i)
    (hlater : w.tells.tells.length ≤ k') (hrun' : Schedule.run step w l' = some w')
    (hhandled : k' ∈ (w'.loops i).handled) : [k, k'].Sublist (w'.loops i).handled := by
  have hw := Schedule.run_invariant_all inOrder_step l inOrder_init hrun
  have hw' := Schedule.run_invariant_all inOrder_step l' hw hrun'
  have hnot : k' ∉ (w.loops i).enqueued := by
    intro hmem
    have := Tell.World.toldTo_lt ((hw.told k' i).mp hmem)
    omega
  have hprefix : (w'.loops i).handled <+: (w'.loops i).enqueued := by
    rw [hw'.accounted i, List.append_assoc]
    exact List.prefix_append ..
  -- what was there before the second `tell` began has all been handled
  rcases List.prefix_or_prefix_of_prefix (fuller_run hrun' i) hprefix with hall | hshort
  · obtain ⟨later, heq⟩ := hall
    rw [← heq] at hhandled ⊢
    have hmem := (List.mem_append.mp hhandled).resolve_left hnot
    have hfirst := (hw.told k i).mpr hk
    exact (List.singleton_sublist.mpr hfirst).append (List.singleton_sublist.mpr hmem)
  · exact absurd (hshort.subset hhandled) hnot

/-- Two commands for one actor, the second sent while the first is being handled. -/
def twoCommands : List Label :=
  [.tell (.host (.create ActorPath.root "p" 0)), .tell (.host (.started 0)), .tell (.tell 0),
    .tell (.next 0), .tell (.next 0)]

def bothHandled : List Label :=
  [.recv 0, .tell (.tell 0), .tell (.next 1), .tell (.next 1), .handled 0 .continue, .recv 0,
    .handled 0 .stop]

theorem sender_order_twoCommands :
    ∃ w w', Schedule.run step World.init twoCommands = some w ∧
      Schedule.run step w bothHandled = some w' ∧ [0, 1].Sublist (w'.loops 0).handled :=
  ⟨_, _, rfl, rfl, sender_order twoCommands bothHandled _ _ 0 1 0 rfl rfl (by decide) rfl
    (by decide)⟩

end HorsieActor.Ports.Serving
