import HorsieActor.Ports.Lifecycle

/-!
# Telling through a reference

`ActorRef::tell` over local links, on top of the lifecycle machine.  A reference
is a path and a cell with the link it last resolved to; clones share the cell.
A `tell` reads the cell, sends, and after a failed send forgets the link,
resolves the path once more and sends again; other tasks run between any two of
these steps.

A link leads to a mailbox, and a mailbox is open until its task drops the
receiving half — which is the last thing a task does.  A command sent in the
meantime is enqueued, `tell` returns `Ok`, and nobody will ever take it out.

`toldIsServed_of_timely` is what does hold: as long as no `tell` takes up a link
to an instance that is shutting down, and no instance leaves its serve loop
while a `tell` has taken up a link to it and not sent yet, every command told is
enqueued for an instance that has not left its serve loop.
-/

namespace HorsieActor.Ports.Tell

open HorsieActor.Verified
open HorsieActor.Ports.Lifecycle (Pc Inst Moves Performs Goes)

/-- Mailbox capacity for every spawned actor. -/
def mailboxCapacity : Nat := 64

/-- What the clones of one reference share. -/
structure Reference where
  path : ActorPath
  command : TypeId
  link : Option Nat
  deriving DecidableEq, Repr

/-- Where a `tell` is. -/
inductive Phase where
  /-- About to read the cell. -/
  | cached
  /-- About to send over a link, and to try again if that fails. -/
  | send (inst : Nat) (again : Bool)
  /-- The send failed: about to drop the stale link from the cell. -/
  | forget (inst : Nat)
  /-- About to look the path up. -/
  | resolve
  /-- About to put what was found into the cell. -/
  | store (inst : Nat)
  /-- Returned `Ok`.  History: whose mailbox has the command, and where its task
  was when it was enqueued. -/
  | ok (inst : Nat) (pc : Pc)
  /-- Returned `MailboxClosed`. -/
  | failed
  deriving DecidableEq, Repr

/-- The link a `tell` has taken up and not sent over yet. -/
def Phase.link : Phase → Option Nat
  | .send inst _ | .store inst => some inst
  | .cached | .forget _ | .resolve | .ok _ _ | .failed => none

structure TellCall where
  reference : Nat
  phase : Phase
  deriving DecidableEq, Repr

structure World where
  host : Lifecycle.World
  references : List Reference
  tells : List TellCall
  /-- The commands waiting in each mailbox, by the number of their `tell`. -/
  mail : Nat → List Nat

def World.init : World :=
  { host := Lifecycle.World.init, references := [], tells := [], mail := fun _ => [] }

/-! ## Steps -/

inductive Label where
  /-- Whatever the lifecycle machine does. -/
  | host (a : Lifecycle.Label)
  /-- `ctx.self_ref`. -/
  | selfRef (i : Nat) (command : TypeId)
  /-- A `tell` through a clone of that reference begins. -/
  | tell (reference : Nat)
  /-- Its next step. -/
  | next (k : Nat)
  /-- A serve loop takes a command out of its mailbox. -/
  | recv (i : Nat)
  deriving DecidableEq, Repr

/-- The reference a `get_or_create` returns. -/
def returned (host : Lifecycle.World) (parent : ActorPath) (name : String) (command : TypeId) :
    Option Reference :=
  match host.live.getOrCreate host.alive host.mayServe host.insts.length parent name command with
  | .error _ => none
  | .ok (inst, _) => some ⟨parent.child name, command, some inst⟩

/-- The references a lifecycle step hands out. -/
def handsOut (host : Lifecycle.World) : Lifecycle.Label → List Reference
  | .create parent name command => (returned host parent name command).toList
  | .createChild i name command =>
      match host.insts[i]? with
      | some inst => (returned host inst.path name command).toList
      | none => []
  | _ => []

/-- What a `tell` does next: its own phase, its reference's cell and the
mailboxes after it. -/
def TellCall.advance (w : World) (k : Nat) (ref : Reference) :
    Phase → Option (Phase × Option Nat × (Nat → List Nat))
  | .cached =>
      match ref.link with
      | some inst => some (.send inst true, ref.link, w.mail)
      | none => some (.resolve, ref.link, w.mail)
  | .send inst again =>
      if w.host.alive inst then
        -- a full mailbox keeps the send waiting
        if (w.mail inst).length < mailboxCapacity then
          some (.ok inst (w.host.pcAt inst), ref.link,
            Function.update w.mail inst (w.mail inst ++ [k]))
        else none
      else if again then some (.forget inst, ref.link, w.mail)
      else some (.failed, ref.link, w.mail)
  | .forget inst =>
      some (.resolve, if ref.link = some inst then none else ref.link, w.mail)
  | .resolve =>
      match w.host.live.resolve w.host.alive ref.command ref.path with
      | some inst => some (.store inst, ref.link, w.mail)
      | none => some (.failed, ref.link, w.mail)
  | .store inst => some (.send inst false, some inst, w.mail)
  | .ok _ _ | .failed => none

def step (w : World) : Label → Option World
  | .host a =>
      (Lifecycle.step w.host a).map fun host =>
        { w with host := host, references := w.references ++ handsOut w.host a }
  | .selfRef i command =>
      match w.host.insts[i]? with
      | none => none
      | some inst =>
          if inst.pc.active then
            some { w with references := w.references ++ [⟨inst.path, command, some i⟩] }
          else none
  | .tell reference =>
      if reference < w.references.length then
        some { w with tells := w.tells ++ [⟨reference, .cached⟩] }
      else none
  | .next k =>
      match w.tells[k]? with
      | none => none
      | some call =>
          match w.references[call.reference]? with
          | none => none
          | some ref =>
              (TellCall.advance w k ref call.phase).map fun (phase, link, mail) =>
                { w with
                  tells := w.tells.set k { call with phase := phase }
                  references := w.references.set call.reference { ref with link := link }
                  mail := mail }
  | .recv i =>
      match w.host.insts[i]?, w.mail i with
      | some inst, _ :: rest =>
          if inst.pc = .serving then some { w with mail := Function.update w.mail i rest }
          else none
      | _, _ => none

/-! ## The property -/

/-- Every command told was enqueued for an instance that had not left its serve
loop. -/
def ToldIsServed (w : World) : Prop :=
  ∀ call ∈ w.tells, ∀ inst pc, call.phase = .ok inst pc → pc.active = true

/-- The instance has not left its serve loop, or its mailbox is closed. -/
def NotLeaving (host : Lifecycle.World) (i : Nat) : Prop :=
  (host.pcAt i).active = true ∨ host.pcAt i = .gone

instance (host : Lifecycle.World) (i : Nat) : Decidable (NotLeaving host i) :=
  inferInstanceAs (Decidable (_ ∨ _))

/-- A `tell` takes up no link — from its cell or from the registry — to an
instance between leaving its serve loop and closing its mailbox, and no instance
leaves its serve loop while a `tell` has taken up a link to it and not sent. -/
def Timely (w : World) : Label → Prop
  | .next k => ∀ call ∈ w.tells[k]?, ∀ ref ∈ w.references[call.reference]?,
      (call.phase = .cached → ∀ inst ∈ ref.link, NotLeaving w.host inst) ∧
        (call.phase = .resolve → ∀ entry ∈ w.host.live.lookup ref.path,
          NotLeaving w.host entry.inst)
  | .host (.leave i) => ∀ call ∈ w.tells, call.phase.link ≠ some i
  | _ => True

instance (w : World) : ∀ a : Label, Decidable (Timely w a)
  | .next k => inferInstanceAs (Decidable (∀ call ∈ w.tells[k]?,
      ∀ ref ∈ w.references[call.reference]?,
      (call.phase = .cached → ∀ inst ∈ ref.link, NotLeaving w.host inst) ∧
        (call.phase = .resolve → ∀ entry ∈ w.host.live.lookup ref.path,
          NotLeaving w.host entry.inst)))
  | .host (.leave i) => inferInstanceAs (Decidable (∀ call ∈ w.tells, call.phase.link ≠ some i))
  | .host (.setServing _) | .host (.create _ _ _) | .host (.createChild _ _ _)
  | .host (.started _) | .host (.retire _) | .host (.task _ _) | .host (.dropActor _)
  | .host (.dropEnded _) | .host (.closeMailbox _) | .host (.stop _) | .host (.call _ _)
  | .selfRef _ _ | .tell _ | .recv _ => isTrue trivial

/-! ## The invariant -/

section Host

variable {host host' : Lifecycle.World} {i : Nat}

/-- Where a task that has not left goes, unless it leaves. -/
theorem goes_notLeaving {a : Lifecycle.Label} {pc pc' : Pc} (h : Goes i a pc pc')
    (hleave : a ≠ .leave i) (hpc : pc.active = true ∨ pc = .gone) :
    pc'.active = true ∨ pc' = .gone := by
  cases h with
  | started => exact Or.inl rfl
  | leave => exact absurd rfl hleave
  | dropActor | dropEnded | closeMailbox => simp [Pc.active] at hpc

theorem notLeaving_iff :
    NotLeaving host i ↔ ∀ inst, host.insts[i]? = some inst →
      inst.pc.active = true ∨ inst.pc = .gone := by
  unfold NotLeaving Lifecycle.World.pcAt
  cases host.insts[i]? with
  | none => simp
  | some inst => simp

/-- A step of the host leaves an instance not leaving, unless it is the step in
which the instance leaves. -/
theorem moves_notLeaving {a : Lifecycle.Label} (h : Moves host a host') (hleave : a ≠ .leave i)
    (hnot : NotLeaving host i) : NotLeaving host' i := by
  rw [notLeaving_iff] at hnot ⊢
  intro y hy
  cases h with
  | setServing | kept ha | stop => exact hnot y hy
  | spawn ha hfree =>
      rcases Lifecycle.getElem?_spawn hy with hold | ⟨-, rfl⟩
      · exact hnot y hold
      · exact Or.inl rfl
  | @goes a j inst pc hj hgo =>
      obtain ⟨x, hx, rfl⟩ := Lifecycle.getElem?_modify_some hy
      by_cases hij : j = i
      · subst hij
        rw [hj] at hx
        cases hx
        rw [if_pos rfl]
        exact goes_notLeaving hgo hleave (hnot inst hj)
      · rw [if_neg hij]
        exact hnot x hx
  | @retire j inst hj hpc =>
      obtain ⟨x, hx, rfl⟩ := Lifecycle.getElem?_modify_some hy
      by_cases hij : j = i
      · -- it had left
        subst hij
        have := hnot inst hj
        simp [hpc, Pc.active] at this
      · rw [if_neg hij]
        exact hnot x hx
  | @task j order inst item rest next w₁ taken hj hpc hdone =>
      obtain ⟨x, hx, rfl⟩ := Lifecycle.getElem?_modify_some hy
      obtain ⟨x₀, hx₀, -, hpc₀⟩ := hdone.back hx
      by_cases hij : j = i
      · subst hij
        have := hnot inst hj
        simp [hpc, Pc.active] at this
      · rw [if_neg hij, hpc₀]
        exact hnot x₀ hx₀
  | call hk htodo hdone =>
      obtain ⟨x₀, hx₀, -, hpc₀⟩ := hdone.back hy
      rw [hpc₀]
      exact hnot x₀ hx₀

end Host

/-- A `tell` that has taken up a link will find its instance serving, or its
mailbox closed; and so it went for those that are through. -/
structure Prompt (w : World) : Prop where
  taken : ∀ call ∈ w.tells, ∀ i, call.phase.link = some i → NotLeaving w.host i
  told : ToldIsServed w

theorem prompt_init : Prompt World.init where
  taken := nofun
  told := nofun

/-- What a timely step makes of one `tell`. -/
theorem advance_prompt {w : World} {k : Nat} {ref : Reference} {call : TellCall} {phase : Phase}
    {link : Option Nat} {mail : Nat → List Nat} (h : Prompt w) (hcall : call ∈ w.tells)
    (hcell : call.phase = .cached → ∀ inst ∈ ref.link, NotLeaving w.host inst)
    (hrow : call.phase = .resolve → ∀ entry ∈ w.host.live.lookup ref.path,
      NotLeaving w.host entry.inst)
    (hadv : TellCall.advance w k ref call.phase = some (phase, link, mail)) :
    (∀ i, phase.link = some i → NotLeaving w.host i) ∧
      ∀ inst pc, phase = .ok inst pc → pc.active = true := by
  have htaken := h.taken call hcall
  generalize call.phase = old at hadv hcell hrow htaken
  cases old with
  | cached =>
      simp only [TellCall.advance] at hadv
      split at hadv
      · rename_i inst hlink
        cases hadv
        refine ⟨?_, nofun⟩
        rintro i ⟨⟩
        exact hcell rfl inst hlink
      · cases hadv
        exact ⟨nofun, nofun⟩
  | send inst again =>
      simp only [TellCall.advance] at hadv
      split at hadv
      · rename_i halive
        split at hadv
        · cases hadv
          refine ⟨nofun, ?_⟩
          rintro i pc ⟨⟩
          exact (htaken inst rfl).resolve_right (of_decide_eq_true halive)
        · cases hadv
      · split at hadv
        · cases hadv
          exact ⟨nofun, nofun⟩
        · cases hadv
          exact ⟨nofun, nofun⟩
  | forget inst =>
      cases hadv
      exact ⟨nofun, nofun⟩
  | resolve =>
      simp only [TellCall.advance] at hadv
      split at hadv
      · rename_i inst hres
        cases hadv
        refine ⟨?_, nofun⟩
        rintro i ⟨⟩
        exact hrow rfl _ (Live.resolve_eq_some_iff.mp hres).1
      · cases hadv
        exact ⟨nofun, nofun⟩
  | store inst =>
      cases hadv
      refine ⟨?_, nofun⟩
      rintro i ⟨⟩
      exact htaken inst rfl
  | ok inst pc => cases hadv
  | failed => cases hadv

theorem prompt_step (w : World) (a : Label) (w' : World) (h : Prompt w) (htimely : Timely w a)
    (hstep : step w a = some w') : Prompt w' := by
  cases a with
  | host a =>
      obtain ⟨host, hhost, rfl⟩ := Option.map_eq_some_iff.mp hstep
      refine ⟨fun call hcall i hlink => ?_, h.told⟩
      refine moves_notLeaving (Lifecycle.step_moves hhost) ?_ (h.taken call hcall i hlink)
      rintro rfl
      exact htimely call hcall hlink
  | selfRef i command =>
      simp only [step] at hstep
      split at hstep
      · cases hstep
      · split at hstep
        · cases hstep
          exact ⟨h.taken, h.told⟩
        · cases hstep
  | tell reference =>
      simp only [step] at hstep
      split at hstep
      · cases hstep
        refine ⟨fun call hcall i hlink => ?_, fun call hcall inst pc hok => ?_⟩
        · rcases List.mem_append.mp hcall with hcall | hnew
          · exact h.taken call hcall i hlink
          · cases List.mem_singleton.mp hnew
            cases hlink
        · rcases List.mem_append.mp hcall with hcall | hnew
          · exact h.told call hcall inst pc hok
          · cases List.mem_singleton.mp hnew
            cases hok
      · cases hstep
  | next k =>
      simp only [step] at hstep
      split at hstep
      · cases hstep
      · rename_i call hk
        split at hstep
        · cases hstep
        · rename_i ref href
          obtain ⟨⟨phase, link, mail⟩, hadv, rfl⟩ := Option.map_eq_some_iff.mp hstep
          obtain ⟨hcell, hrow⟩ := htimely call hk ref href
          have hcall := List.mem_of_getElem? hk
          obtain ⟨htaken, htold⟩ := advance_prompt h hcall hcell hrow hadv
          refine ⟨fun c hc i hlink => ?_, fun c hc inst pc hok => ?_⟩
          · rcases List.mem_or_eq_of_mem_set hc with hc | rfl
            · exact h.taken c hc i hlink
            · exact htaken i hlink
          · rcases List.mem_or_eq_of_mem_set hc with hc | rfl
            · exact h.told c hc inst pc hok
            · exact htold inst pc hok
  | recv i =>
      simp only [step] at hstep
      split at hstep
      · split at hstep
        · cases hstep
          exact ⟨h.taken, h.told⟩
        · cases hstep
      · cases hstep

/-- **A told command is not swallowed by a dead mailbox**, in every run in which
links are taken up and mailboxes left in time. -/
theorem toldIsServed_of_timely (l : List Label) (w : World)
    (hrun : Schedule.run step World.init l = some w)
    (htimely : Schedule.Along step Timely World.init l) : ToldIsServed w :=
  (Schedule.run_invariant prompt_step l prompt_init htimely hrun).told

/-- An actor stops itself, to the end. -/
def selfStop (i : Nat) : List Label :=
  [.host (.leave i), .host (.retire i), .host (.task i []), .host (.dropActor i),
    .host (.dropEnded i), .host (.closeMailbox i)]

/-- A reference outlives its instance: the next `tell` reaches the new one. -/
def toldAcrossRestart : List Label :=
  [.host (.create ActorPath.root "p" 0), .host (.started 0)] ++ selfStop 0 ++
    [.host (.create ActorPath.root "p" 0), .tell 0, .next 0, .next 0, .next 0, .next 0, .next 0,
      .next 0]

theorem toldIsServed_acrossRestart :
    ∃ w, Schedule.run step World.init toldAcrossRestart = some w ∧
      w.tells = [⟨0, .ok 1 .starting⟩] ∧ ToldIsServed w :=
  ⟨_, rfl, rfl, toldIsServed_of_timely toldAcrossRestart _ rfl (by decide)⟩

/-- A stop of the actor at `/p`, until it returns; the task has only its mailbox
left to drop.  Then the path is taken again, and somebody tells through the
first reference. -/
def toldAfterStop : List Label :=
  [.host (.create ActorPath.root "p" 0), .host (.started 0),
    .host (.stop ⟨["p"]⟩), .host (.call 0 []), .host (.call 0 []), .host (.leave 0),
    .host (.retire 0), .host (.task 0 []), .host (.dropActor 0), .host (.dropEnded 0),
    .host (.call 0 []), .host (.call 0 []), .host (.create ActorPath.root "p" 0),
    .tell 0, .next 0, .next 0]

/-- The command goes into the mailbox of the instance that has ended. -/
theorem stopped_mailbox_swallows_tell :
    ¬ ∀ (l : List Label) (w : World), Schedule.run step World.init l = some w →
      ToldIsServed w := by
  intro h
  have hserved := h toldAfterStop _ rfl ⟨0, .ok 0 .ended⟩ (List.mem_singleton_self _) 0 .ended rfl
  cases hserved

end HorsieActor.Ports.Tell
