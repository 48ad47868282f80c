import HorsieActor.Ports.Registry
import HorsieActor.Verified.Schedule

/-!
# Instances, their tasks, and whoever stops them

The lifecycle of `src/runtime.rs` and the stopping half of `src/system.rs` as
one machine over the registry.  Each instance is a task at some point of
`run_actor`; each `stop_at` is a call under way.  Both stop others by the same
small steps, which are those of the code between two points where another task
may run: take a row out of the map, raise the flag, wait for the termination
signal, scan the map.

When an actor leaves its serve loop is up to the schedule: it may return
`Flow::Stop`, be stood down, or see its flag.  Actors create children while
they start and while they serve; anybody may call `actor_of` or `stop`.

A task drops what it owns in this order: its row, its subtree, the actor value,
the termination signal, and last — as a parameter of `run_actor` — the
receiving half of its mailbox.

## Main results

* `step_moves` — what a step can do, one constructor per label.
* `Moves.older` — instances keep their paths and their ancestors, and their tasks
  only go forward.
-/

namespace HorsieActor.Ports.Lifecycle

open HorsieActor.Verified

/-! ## What there is -/

/-- One thing left to do for whoever is stopping others. -/
inductive Work where
  /-- `halt`: take the row out of the registry. -/
  | halt (path : ActorPath)
  /-- `halt`, after its row: ask the instance to stop. -/
  | raise (inst : Nat)
  /-- `halt`, after its flag: wait for the termination signal to close. -/
  | wait (inst : Nat)
  /-- `stop_descendants`: list the rows under a path. -/
  | scan (path : ActorPath)
  deriving DecidableEq, Repr

/-- Where a task is in `run_actor`. -/
inductive Pc where
  | starting
  | serving
  /-- Out of the serve loop, or `on_start` failed: about to `retire`. -/
  | retiring
  /-- In `stop_descendants`. -/
  | stopping (todo : List Work)
  | actorDropped
  /-- The termination signal is closed; the mailbox is not. -/
  | ended
  | gone
  deriving DecidableEq, Repr

/-- How far a task has come. -/
def Pc.rank : Pc → Nat
  | .starting => 0
  | .serving => 1
  | .retiring => 2
  | .stopping _ => 3
  | .actorDropped => 4
  | .ended => 5
  | .gone => 6

structure Inst where
  path : ActorPath
  /-- History: who created it, who created that one, and so on. -/
  line : List Nat
  stop : Bool
  pc : Pc
  deriving DecidableEq, Repr

namespace Inst

/-- The actor value has not been dropped. -/
def Running (inst : Inst) : Prop := inst.pc.rank ≤ 3

/-- The termination signal is closed. -/
def Ended (inst : Inst) : Prop := 5 ≤ inst.pc.rank

instance (inst : Inst) : Decidable inst.Running := inferInstanceAs (Decidable (_ ≤ _))

instance (inst : Inst) : Decidable inst.Ended := inferInstanceAs (Decidable (_ ≤ _))

end Inst

/-- A `stop_at` call; it has returned when it has nothing left to do. -/
structure StopCall where
  path : ActorPath
  todo : List Work
  stopped : Bool
  /-- History: the instance its own `halt` took out. -/
  target : Option Nat
  /-- History: how many instances there were when it began. -/
  existed : Nat
  deriving DecidableEq, Repr

structure World where
  live : Live
  insts : List Inst
  calls : List StopCall
  mayServe : Bool
  /-- History: for which stopping instance which instance was taken out. -/
  halted : List (Nat × Nat)

def World.init : World := { live := ∅, insts := [], calls := [], mayServe := true, halted := [] }

namespace World

/-- Where the task of an instance is. -/
def pcAt (w : World) (i : Nat) : Pc :=
  match w.insts[i]? with
  | some inst => inst.pc
  | none => .gone

/-- `Link::is_alive`: the receiving half is still there. -/
def alive (w : World) (i : Nat) : Bool := decide (w.pcAt i ≠ .gone)

def endedAt (w : World) (i : Nat) : Bool :=
  match w.insts[i]? with
  | some inst => decide inst.Ended
  | none => true

/-- Start an instance and file it. -/
def spawn (w : World) (line : List Nat) (path : ActorPath) (command : TypeId) : World :=
  { w with
    live := w.live.insert path ⟨command, w.insts.length⟩
    insts := w.insts ++ [⟨path, line, false, .starting⟩] }

/-- `get_or_create` by an instance with those ancestors, or from outside. -/
def getOrCreate (w : World) (line : List Nat) (parent : ActorPath) (name : String)
    (command : TypeId) : World :=
  match w.live.getOrCreate w.alive w.mayServe w.insts.length parent name command with
  | .error _ => w
  | .ok (inst, live) =>
      if inst = w.insts.length then
        { w with
          live := live
          insts := w.insts ++ [⟨parent.child name, line, false, .starting⟩] }
      else { w with live := live }

def setPc (w : World) (i : Nat) (pc : Pc) : World :=
  { w with insts := w.insts.modify i fun inst => { inst with pc := pc } }

def raise (w : World) (i : Nat) : World :=
  { w with insts := w.insts.modify i fun inst => { inst with stop := true } }

end World

/-! ## Steps -/

/-- Do one thing: what to do next in its place, the registry and flags after
it, and the instance it took out of the registry.  `order` is the order in which
a scan finds the rows. -/
def Work.perform (w : World) (order : List ActorPath) :
    Work → Option (List Work × World × Option Nat)
  | .halt path =>
      match w.live.lookup path with
      | none => some ([], w, none)
      | some entry =>
          some ([.raise entry.inst, .wait entry.inst], { w with live := w.live.erase path },
            some entry.inst)
  | .raise i => some ([], w.raise i, none)
  | .wait i => if w.endedAt i then some ([], w, none) else none
  | .scan path =>
      if order.Perm (w.live.doomed path) then some (order.map .halt, w, none) else none

/-- A `stop_at` call after one of its steps.  Its own `halt` gives it its
result. -/
def StopCall.after (call : StopCall) (item : Work) (todo : List Work) (taken : Option Nat) :
    StopCall :=
  { call with
    todo := todo
    stopped := if item = .halt call.path then taken.isSome else call.stopped
    target := if item = .halt call.path then taken else call.target }

/-- On whose account a call takes an instance out: that of the instance its own
`halt` took out. -/
def StopCall.accounts (call : StopCall) (item : Work) (taken : Option Nat) : List (Nat × Nat) :=
  match call.target, taken with
  | some z, some x => if item = .halt call.path then [] else [(z, x)]
  | _, _ => []

inductive Label where
  | setServing (mayServe : Bool)
  /-- `actor_of` from outside, or a shard recipe. -/
  | create (parent : ActorPath) (name : String) (command : TypeId)
  /-- `ctx.actor_of` of an instance. -/
  | createChild (i : Nat) (name : String) (command : TypeId)
  | started (i : Nat)
  | leave (i : Nat)
  | retire (i : Nat)
  /-- A task's next step in `stop_descendants`. -/
  | task (i : Nat) (order : List ActorPath)
  | dropActor (i : Nat)
  | dropEnded (i : Nat)
  | closeMailbox (i : Nat)
  /-- `stop_at` begins. -/
  | stop (path : ActorPath)
  /-- Its next step. -/
  | call (k : Nat) (order : List ActorPath)
  deriving DecidableEq, Repr

/-- Whether an actor can run its own code. -/
def Pc.active : Pc → Bool
  | .starting | .serving => true
  | _ => false

/-- One step, where it is enabled. -/
def step (w : World) : Label → Option World
  | .setServing mayServe => some { w with mayServe := mayServe }
  | .create parent name command => some (w.getOrCreate [] parent name command)
  | .createChild i name command =>
      match w.insts[i]? with
      | none => none
      | some inst =>
          if inst.pc.active then some (w.getOrCreate (i :: inst.line) inst.path name command)
          else none
  | .started i =>
      match w.insts[i]? with
      | none => none
      | some inst => if inst.pc = .starting then some (w.setPc i .serving) else none
  | .leave i =>
      match w.insts[i]? with
      | none => none
      | some inst => if inst.pc.active then some (w.setPc i .retiring) else none
  | .retire i =>
      match w.insts[i]? with
      | none => none
      | some inst =>
          if inst.pc = .retiring then
            some ({ w with live := w.live.retire inst.path i }.setPc i
              (.stopping [.scan inst.path]))
          else none
  | .task i order =>
      match w.insts[i]? with
      | none => none
      | some inst =>
          match inst.pc with
          | .stopping (item :: rest) =>
              (item.perform w order).map fun (next, w', taken) =>
                { w'.setPc i (.stopping (next ++ rest)) with
                  halted := w'.halted ++ (taken.map fun x => (i, x)).toList }
          | _ => none
  | .dropActor i =>
      match w.insts[i]? with
      | none => none
      | some inst => if inst.pc = .stopping [] then some (w.setPc i .actorDropped) else none
  | .dropEnded i =>
      match w.insts[i]? with
      | none => none
      | some inst => if inst.pc = .actorDropped then some (w.setPc i .ended) else none
  | .closeMailbox i =>
      match w.insts[i]? with
      | none => none
      | some inst => if inst.pc = .ended then some (w.setPc i .gone) else none
  | .stop path =>
      some { w with calls := w.calls ++
        [⟨path, [.halt path, .scan path], false, none, w.insts.length⟩] }
  | .call k order =>
      match w.calls[k]? with
      | none => none
      | some call =>
          match call.todo with
          | [] => none
          | item :: rest =>
              (item.perform w order).map fun (next, w', taken) =>
                { w' with
                  calls := w'.calls.set k (call.after item (next ++ rest) taken)
                  halted := w'.halted ++ call.accounts item taken }

/-! ## What a step can do -/

/-- For whom and where a `get_or_create` would create. -/
def creates (w : World) : Label → Option (List Nat × ActorPath)
  | .create parent name _ => some ([], parent.child name)
  | .createChild i name _ =>
      w.insts[i]?.map fun inst => (i :: inst.line, inst.path.child name)
  | _ => none

/-- The registry has nothing reachable at the path. -/
def Free (w : World) (path : ActorPath) : Prop :=
  ∀ entry ∈ w.live.lookup path, w.alive entry.inst = false

instance (w : World) (path : ActorPath) : Decidable (Free w path) :=
  inferInstanceAs (Decidable (∀ entry ∈ w.live.lookup path, w.alive entry.inst = false))

/-- The moves of a task that concern nobody else. -/
inductive Goes (i : Nat) : Label → Pc → Pc → Prop
  | started : Goes i (.started i) .starting .serving
  | leave {pc} (h : pc.active = true) : Goes i (.leave i) pc .retiring
  | dropActor : Goes i (.dropActor i) (.stopping []) .actorDropped
  | dropEnded : Goes i (.dropEnded i) .actorDropped .ended
  | closeMailbox : Goes i (.closeMailbox i) .ended .gone

/-- `Performs w item next w' taken`: one thing done, as in `Work.perform`. -/
inductive Performs (w : World) : Work → List Work → World → Option Nat → Prop
  | missing {path} (h : w.live.lookup path = none) : Performs w (.halt path) [] w none
  | halt {path entry} (h : w.live.lookup path = some entry) :
      Performs w (.halt path) [.raise entry.inst, .wait entry.inst]
        { w with live := w.live.erase path } (some entry.inst)
  | raise {i} : Performs w (.raise i) [] (w.raise i) none
  | wait {i} (h : w.endedAt i = true) : Performs w (.wait i) [] w none
  | scan {path} {order : List ActorPath} (h : order.Perm (w.live.doomed path)) :
      Performs w (.scan path) (order.map .halt) w none

/-- `Moves w a w'`: the label `a` takes `w` to `w'`. -/
inductive Moves (w : World) : Label → World → Prop
  | setServing {mayServe} : Moves w (.setServing mayServe) { w with mayServe }
  | kept {a made} (ha : creates w a = some made) : Moves w a w
  | spawn {a line path command} (ha : creates w a = some (line, path)) (hfree : Free w path) :
      Moves w a (w.spawn line path command)
  | goes {a i inst pc} (hi : w.insts[i]? = some inst) (hgo : Goes i a inst.pc pc) :
      Moves w a (w.setPc i pc)
  | retire {i inst} (hi : w.insts[i]? = some inst) (hpc : inst.pc = .retiring) :
      Moves w (.retire i) ({ w with live := w.live.retire inst.path i }.setPc i
        (.stopping [.scan inst.path]))
  | task {i order inst item rest next w₁ taken} (hi : w.insts[i]? = some inst)
      (hpc : inst.pc = .stopping (item :: rest)) (hdone : Performs w item next w₁ taken) :
      Moves w (.task i order) { w₁.setPc i (.stopping (next ++ rest)) with
        halted := w₁.halted ++ (taken.map fun x => (i, x)).toList }
  | stop {path} : Moves w (.stop path) { w with calls := w.calls ++
      [⟨path, [.halt path, .scan path], false, none, w.insts.length⟩] }
  | call {k order call item rest next w₁ taken} (hk : w.calls[k]? = some call)
      (htodo : call.todo = item :: rest) (hdone : Performs w item next w₁ taken) :
      Moves w (.call k order) { w₁ with
        calls := w₁.calls.set k (call.after item (next ++ rest) taken)
        halted := w₁.halted ++ call.accounts item taken }

theorem perform_performs {w w₁ : World} {item : Work} {order : List ActorPath}
    {next : List Work} {taken : Option Nat}
    (h : item.perform w order = some (next, w₁, taken)) : Performs w item next w₁ taken := by
  cases item with
  | halt path =>
      simp only [Work.perform] at h
      split at h
      · cases h
        exact .missing ‹_›
      · cases h
        exact .halt ‹_›
  | raise i =>
      cases h
      exact .raise
  | wait i =>
      simp only [Work.perform] at h
      split at h
      · cases h
        exact .wait ‹_›
      · cases h
  | scan path =>
      simp only [Work.perform] at h
      split at h
      · cases h
        exact .scan ‹_›
      · cases h

/-- `get_or_create` changes nothing, or starts an instance where nothing
reachable was. -/
theorem getOrCreate_eq (w : World) (line : List Nat) (parent : ActorPath) (name : String)
    (command : TypeId) :
    w.getOrCreate line parent name command = w ∨
      Free w (parent.child name) ∧
        w.getOrCreate line parent name command = w.spawn line (parent.child name) command := by
  unfold World.getOrCreate
  split
  · exact Or.inl rfl
  · rename_i inst live heq
    rcases Live.getOrCreate_ok heq with ⟨-, halive, rfl⟩ | ⟨rfl, rfl, hfree⟩
    · have hne : inst ≠ w.insts.length := by
        rintro rfl
        simp [World.alive, World.pcAt] at halive
      rw [if_neg hne]
      exact Or.inl rfl
    · rw [if_pos rfl]
      exact Or.inr ⟨hfree, rfl⟩

theorem moves_getOrCreate {w : World} {a : Label} {line : List Nat} {parent : ActorPath}
    {name : String} {command : TypeId} (ha : creates w a = some (line, parent.child name)) :
    Moves w a (w.getOrCreate line parent name command) := by
  rcases getOrCreate_eq w line parent name command with heq | ⟨hfree, heq⟩
  · rw [heq]
    exact .kept ha
  · rw [heq]
    exact .spawn ha hfree

theorem step_moves {w w' : World} {a : Label} (h : step w a = some w') : Moves w a w' := by
  cases a with
  | setServing mayServe =>
      cases h
      exact .setServing
  | create parent name command =>
      cases h
      exact moves_getOrCreate rfl
  | createChild i name command =>
      simp only [step] at h
      split at h
      · cases h
      · rename_i inst hi
        split at h
        · cases h
          refine moves_getOrCreate ?_
          simp [creates, hi]
        · cases h
  | started i =>
      simp only [step] at h
      split at h
      · cases h
      · rename_i inst hi
        split at h
        · rename_i hpc
          cases h
          exact .goes hi (hpc ▸ .started)
        · cases h
  | leave i =>
      simp only [step] at h
      split at h
      · cases h
      · rename_i inst hi
        split at h
        · cases h
          exact .goes hi (.leave ‹_›)
        · cases h
  | retire i =>
      simp only [step] at h
      split at h
      · cases h
      · rename_i inst hi
        split at h
        · cases h
          exact .retire hi ‹_›
        · cases h
  | task i order =>
      simp only [step] at h
      split at h
      · cases h
      · rename_i inst hi
        split at h
        · rename_i item rest hpc
          obtain ⟨⟨next, w₁, taken⟩, hdone, rfl⟩ := Option.map_eq_some_iff.mp h
          exact .task hi hpc (perform_performs hdone)
        · cases h
  | dropActor i =>
      simp only [step] at h
      split at h
      · cases h
      · rename_i inst hi
        split at h
        · rename_i hpc
          cases h
          exact .goes hi (hpc ▸ .dropActor)
        · cases h
  | dropEnded i =>
      simp only [step] at h
      split at h
      · cases h
      · rename_i inst hi
        split at h
        · rename_i hpc
          cases h
          exact .goes hi (hpc ▸ .dropEnded)
        · cases h
  | closeMailbox i =>
      simp only [step] at h
      split at h
      · cases h
      · rename_i inst hi
        split at h
        · rename_i hpc
          cases h
          exact .goes hi (hpc ▸ .closeMailbox)
        · cases h
  | stop path =>
      cases h
      exact .stop
  | call k order =>
      simp only [step] at h
      split at h
      · cases h
      · rename_i call hk
        split at h
        · cases h
        · rename_i item rest htodo
          obtain ⟨⟨next, w₁, taken⟩, hdone, rfl⟩ := Option.map_eq_some_iff.mp h
          exact .call hk htodo (perform_performs hdone)

/-! ## Instances only go forward -/

/-- The instances of `w'` are those of `w`, at the same paths, with the same
ancestors, and as far as they were or further. -/
structure Older (w w' : World) : Prop where
  length : w'.insts.length = w.insts.length
  back : ∀ (i : Nat) (x' : Inst), w'.insts[i]? = some x' →
    ∃ x : Inst, w.insts[i]? = some x ∧ x'.path = x.path ∧ x'.line = x.line ∧
      x.pc.rank ≤ x'.pc.rank

section Forward

variable {w w' w'' : World} {i : Nat} {x : Inst} {pc : Pc}

theorem Older.of_insts (h : w'.insts = w.insts) : Older w w' :=
  ⟨congrArg _ h, fun _ x' hx' => ⟨x', h ▸ hx', rfl, rfl, Nat.le_refl _⟩⟩

theorem Older.trans (h : Older w w') (h' : Older w' w'') : Older w w'' := by
  refine ⟨h'.length.trans h.length, fun i x'' hx'' => ?_⟩
  obtain ⟨x', hx', hpath', hline', hrank'⟩ := h'.back i x'' hx''
  obtain ⟨x, hx, hpath, hline, hrank⟩ := h.back i x' hx'
  exact ⟨x, hx, hpath'.trans hpath, hline'.trans hline, Nat.le_trans hrank hrank'⟩

theorem Older.get (h : Older w w') (hi : w.insts[i]? = some x) :
    ∃ x' : Inst, w'.insts[i]? = some x' ∧ x'.path = x.path ∧ x'.line = x.line ∧
      x.pc.rank ≤ x'.pc.rank := by
  have hlt := (List.getElem?_eq_some_iff.mp hi).1
  rw [← h.length] at hlt
  obtain ⟨y, hy, hback⟩ := h.back i _ (List.getElem?_eq_getElem hlt)
  rw [hi] at hy
  cases hy
  exact ⟨_, List.getElem?_eq_getElem hlt, hback⟩

/-- What `modify` leaves at each index. -/
theorem getElem?_modify_some {l : List Inst} {f : Inst → Inst} {j : Nat} {y : Inst}
    (h : (l.modify i f)[j]? = some y) :
    ∃ x, l[j]? = some x ∧ y = if i = j then f x else x := by
  rw [List.getElem?_modify] at h
  obtain ⟨x, hx, rfl⟩ := Option.map_eq_some_iff.mp h
  exact ⟨x, hx, rfl⟩

theorem older_setPc (hi : w.insts[i]? = some x) (hinsts : w'.insts = (w.setPc i pc).insts)
    (hrank : x.pc.rank ≤ pc.rank) : Older w w' := by
  refine ⟨by rw [hinsts]; exact List.length_modify .., fun j y hy => ?_⟩
  rw [hinsts] at hy
  obtain ⟨z, hz, rfl⟩ := getElem?_modify_some hy
  refine ⟨z, hz, ?_⟩
  by_cases hij : i = j
  · subst hij
    rw [hi] at hz
    cases hz
    simp [hrank]
  · simp [hij]

theorem older_raise (w : World) (i : Nat) : Older w (w.raise i) := by
  refine ⟨List.length_modify .., fun j y hy => ?_⟩
  obtain ⟨z, hz, rfl⟩ := getElem?_modify_some hy
  refine ⟨z, hz, ?_⟩
  by_cases hij : i = j <;> simp [hij]

theorem Goes.rank_le {a : Label} {pc' : Pc} (h : Goes i a pc pc') : pc.rank ≤ pc'.rank := by
  cases h with
  | leave h =>
      cases pc with
      | starting | serving => decide
      | retiring | stopping _ | actorDropped | ended | gone => cases h
  | started | dropActor | dropEnded | closeMailbox => decide

theorem Performs.older {item : Work} {next : List Work} {taken : Option Nat}
    (h : Performs w item next w' taken) : Older w w' := by
  cases h with
  | missing | halt | wait | scan => exact .of_insts rfl
  | raise => exact older_raise w _

/-- The instance doing the work is where it was. -/
theorem Performs.inst {item : Work} {next : List Work} {taken : Option Nat}
    (h : Performs w item next w' taken) (hi : w.insts[i]? = some x) :
    ∃ x', w'.insts[i]? = some x' ∧ x'.path = x.path ∧ x'.line = x.line ∧ x'.pc = x.pc := by
  cases h with
  | missing | halt | wait | scan => exact ⟨x, hi, rfl, rfl, rfl⟩
  | @raise j =>
      refine ⟨if j = i then { x with stop := true } else x, ?_, ?_⟩
      · show (w.insts.modify j _)[i]? = _
        rw [List.getElem?_modify, hi]
        rfl
      · by_cases hij : j = i <;> simp [hij]

/-- No instance is moved on by what somebody else does to stop it. -/
theorem Performs.back {item : Work} {next : List Work} {taken : Option Nat} {x' : Inst}
    (h : Performs w item next w' taken) (hi : w'.insts[i]? = some x') :
    ∃ x, w.insts[i]? = some x ∧ x'.path = x.path ∧ x'.pc = x.pc := by
  obtain ⟨x, hx, -⟩ := h.older.back i x' hi
  obtain ⟨y, hy, hpath, -, hpc⟩ := h.inst hx
  rw [hi] at hy
  cases hy
  exact ⟨x, hx, hpath, hpc⟩

/-- A step creates an instance, or instances only go forward. -/
theorem Moves.older {a : Label} (h : Moves w a w') :
    Older w w' ∨ ∃ line path command, creates w a = some (line, path) ∧ Free w path ∧
      w' = w.spawn line path command := by
  cases h with
  | setServing | kept ha | stop => exact Or.inl (.of_insts rfl)
  | spawn ha hfree => exact Or.inr ⟨_, _, _, ha, hfree, rfl⟩
  | goes hi hgo => exact Or.inl (older_setPc hi rfl hgo.rank_le)
  | retire hi hpc => exact Or.inl (older_setPc hi rfl (by rw [hpc]; exact Nat.le_succ 2))
  | task hi hpc hdone =>
      obtain ⟨x', hx', -, -, hpc'⟩ := hdone.inst hi
      refine Or.inl (hdone.older.trans (older_setPc hx' rfl ?_))
      rw [hpc', hpc]
      exact Nat.le_refl 3
  | call hk htodo hdone => exact Or.inl (hdone.older.trans (.of_insts rfl))

theorem Moves.older_of_none {a : Label} (h : Moves w a w') (ha : creates w a = none) :
    Older w w' := by
  rcases h.older with hold | ⟨line, path, command, hmade, -⟩
  · exact hold
  · rw [ha] at hmade
    cases hmade

theorem Performs.frame {item : Work} {next : List Work} {taken : Option Nat}
    (h : Performs w item next w' taken) : w'.calls = w.calls ∧ w'.halted = w.halted := by
  cases h with
  | missing | halt | raise | wait | scan => exact ⟨rfl, rfl⟩

theorem getElem?_spawn {line : List Nat} {path : ActorPath} {command : TypeId} {j : Nat}
    {y : Inst} (h : (w.spawn line path command).insts[j]? = some y) :
    w.insts[j]? = some y ∨ j = w.insts.length ∧ y = ⟨path, line, false, .starting⟩ := by
  have h' : (w.insts ++ [⟨path, line, false, .starting⟩])[j]? = some y := h
  rw [List.getElem?_append] at h'
  split at h'
  · exact Or.inl h'
  · rename_i hlt
    rw [List.getElem?_singleton] at h'
    split at h'
    · cases h'
      exact Or.inr ⟨by omega, rfl⟩
    · cases h'

theorem getElem?_spawn_left {line : List Nat} {path : ActorPath} {command : TypeId} {j : Nat}
    {x : Inst} (h : w.insts[j]? = some x) : (w.spawn line path command).insts[j]? = some x := by
  show (w.insts ++ _)[j]? = some x
  rw [List.getElem?_append_left (List.getElem?_eq_some_iff.mp h).1, h]

theorem getElem?_setPc (hi : w.insts[i]? = some x) (j : Nat) (pc : Pc) :
    (w.setPc j pc).insts[i]? = some (if j = i then { x with pc := pc } else x) := by
  show (w.insts.modify j _)[i]? = _
  rw [List.getElem?_modify, hi]
  rfl

end Forward

/-! ## Rows are of instances that have not retired -/

/-- A row leads to an instance at its path that has not retired yet. -/
def Filed (w : World) : Prop :=
  ∀ path entry, w.live.lookup path = some entry →
    ∃ inst, w.insts[entry.inst]? = some inst ∧ inst.path = path ∧ inst.pc.rank ≤ 2

section Filed

variable {w w' : World}

theorem filed_init : Filed World.init := by
  intro path entry h
  cases h

theorem Performs.lookup {item : Work} {next : List Work} {taken : Option Nat}
    (h : Performs w item next w' taken) {path : ActorPath} {entry : Entry}
    (hlook : w'.live.lookup path = some entry) : w.live.lookup path = some entry := by
  cases h with
  | missing | raise | wait | scan => exact hlook
  | @halt q e hq =>
      by_cases heq : path = q
      · subst heq
        rw [show ({ w with live := w.live.erase path } : World).live = w.live.erase path from rfl,
          AList.lookup_erase] at hlook
        cases hlook
      · rwa [AList.lookup_erase_ne heq] at hlook

theorem Performs.filed {item : Work} {next : List Work} {taken : Option Nat}
    (h : Performs w item next w' taken) (hfiled : Filed w) : Filed w' := by
  intro path entry hlook
  obtain ⟨inst, hinst, hpath, hrank⟩ := hfiled path entry (h.lookup hlook)
  obtain ⟨inst', hinst', hpath', -, hpc⟩ := h.inst hinst
  exact ⟨inst', hinst', hpath'.trans hpath, hpc ▸ hrank⟩

/-- A task past `retire` has no row, so what it does to itself leaves the rows
right; so does starting and leaving. -/
theorem filed_setPc {i : Nat} {inst : Inst} {pc : Pc} (hfiled : Filed w)
    (hi : w.insts[i]? = some inst) (hpc : inst.pc.rank ≤ 2 → pc.rank ≤ 2) :
    Filed (w.setPc i pc) := by
  intro path entry hlook
  obtain ⟨x, hx, hpath, hrank⟩ := hfiled path entry hlook
  refine ⟨_, getElem?_setPc hx i pc, ?_⟩
  by_cases hij : i = entry.inst
  · subst hij
    rw [hi] at hx
    cases hx
    simp [hpath, hpc hrank]
  · simp [hij, hpath, hrank]

theorem filed_step {a : Label} (hfiled : Filed w) (h : Moves w a w') : Filed w' := by
  cases h with
  | setServing | kept ha | stop => exact hfiled
  | @spawn a line path command ha hfree =>
      intro q entry hlook
      have hlook' : (w.live.insert path ⟨command, w.insts.length⟩).lookup q = some entry := hlook
      by_cases heq : q = path
      · subst heq
        rw [AList.lookup_insert] at hlook'
        cases hlook'
        exact ⟨⟨q, line, false, .starting⟩, List.getElem?_concat_length, rfl, Nat.zero_le 2⟩
      · rw [AList.lookup_insert_ne heq] at hlook'
        obtain ⟨inst, hinst, hrest⟩ := hfiled q entry hlook'
        exact ⟨inst, getElem?_spawn_left hinst, hrest⟩
  | @goes a i inst pc hi hgo =>
      refine filed_setPc hfiled hi fun hrank => ?_
      generalize inst.pc = old at hgo hrank
      cases hgo with
      | started | leave => decide
      | dropActor | dropEnded | closeMailbox => exact absurd hrank (by decide)
  | @retire i inst hi hpc =>
      intro path entry hlook
      have hlook' : (w.live.retire inst.path i).lookup path = some entry := hlook
      have hold : w.live.lookup path = some entry ∧ entry.inst ≠ i := by
        by_cases heq : path = inst.path
        · subst heq
          rw [Live.lookup_retire_self] at hlook'
          split at hlook'
          · cases hlook'
          · rename_i hany
            refine ⟨hlook', ?_⟩
            simpa [hlook'] using hany
        · rw [Live.lookup_retire_ne heq] at hlook'
          refine ⟨hlook', ?_⟩
          rintro rfl
          obtain ⟨x, hx, hpath, -⟩ := hfiled path entry hlook'
          rw [hi] at hx
          cases hx
          exact heq hpath.symm
      obtain ⟨x, hx, hrest⟩ := hfiled path entry hold.1
      refine ⟨x, ?_, hrest⟩
      have hget := getElem?_setPc hx i (.stopping [.scan inst.path])
      rw [if_neg (Ne.symm hold.2)] at hget
      exact hget
  | task hi hpc hdone =>
      obtain ⟨x', hx', -, -, hpc'⟩ := hdone.inst hi
      have hstopping : ¬ x'.pc.rank ≤ 2 := by
        rw [hpc', hpc]
        exact Nat.not_succ_le_self 2
      exact filed_setPc (hdone.filed hfiled) hx' fun hrank => absurd hrank hstopping
  | call hk htodo hdone => exact hdone.filed hfiled

end Filed

end HorsieActor.Ports.Lifecycle
