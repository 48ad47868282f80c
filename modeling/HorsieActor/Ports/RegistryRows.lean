import HorsieActor.Ports.Registry
import HorsieActor.Verified.Schedule
import HorsieActor.Verified.Slots

/-!
# Rows and the instances behind them

`get_or_create` holds the registry's lock from its look at the row to the
insertion of a new one, and starts the new actor's task in between.  The task runs
at once, and may fail in `on_start` before its row exists; but to `retire` it
needs the lock.  Here the critical section is taken apart: acquire, look, spawn,
insert, with other tasks running in between and everything else that touches the
map waiting for the lock.

`rows_own` collects what that gives, on every schedule without panics: a row is of
the instance started last at its path, only that instance's `retire` removes it,
and it does; and a call that finds a row with an open mailbox returns that
instance and starts none.

When a task leaves its serve loop, and when whoever halted it stops waiting, is up
to the schedule; an actor started by `spawn_at` has no row and may be at any path.
`run_getOrCreate` says that the critical section run through is
`Live.getOrCreate`.
-/

namespace HorsieActor.Ports.Rows

open HorsieActor.Verified

/-! ## The machine -/

/-- Where a task is in `run_actor`. -/
inductive Pc where
  | starting
  | serving
  /-- Out of the serve loop, or `on_start` failed: about to `retire`. -/
  | retiring
  /-- Past `retire`. -/
  | retired
  | ended
  /-- The mailbox is closed. -/
  | gone
  deriving DecidableEq, Repr

/-- The task has not got past `retire`. -/
def Pc.early : Pc → Bool
  | .starting | .serving | .retiring => true
  | .retired | .ended | .gone => false

structure Inst where
  path : ActorPath
  command : TypeId
  /-- The `get_or_create` call that started it; none for `spawn_at`. -/
  starter : Option Nat
  pc : Pc
  deriving DecidableEq, Repr

/-- Where a `get_or_create` is. -/
inductive CallPc where
  /-- The quorum and the name are checked. -/
  | entered
  | locked
  /-- Nothing reachable is at the path, and no row. -/
  | cleared
  | spawned (inst : Nat)
  | created (inst : Nat)
  | found (inst : Nat)
  | failed (e : ActorOfError)
  deriving DecidableEq, Repr

/-- The call is in its critical section. -/
def CallPc.inside : CallPc → Bool
  | .locked | .cleared | .spawned _ => true
  | _ => false

structure Call where
  parent : ActorPath
  name : String
  command : TypeId
  pc : CallPc
  deriving DecidableEq, Repr

def Call.path (call : Call) : ActorPath := call.parent.child call.name

structure World where
  live : Live
  /-- The call that holds the lock of the map. -/
  lock : Option Nat
  insts : List Inst
  calls : List Call
  mayServe : Bool

def World.init : World := { live := ∅, lock := none, insts := [], calls := [], mayServe := true }

namespace World

/-- `Link::is_alive`. -/
def alive (w : World) (i : Nat) : Bool := w.insts[i]?.any fun inst => inst.pc != .gone

def start (w : World) (path : ActorPath) (command : TypeId) (starter : Option Nat) : World :=
  { w with insts := w.insts ++ [⟨path, command, starter, .starting⟩] }

def setPc (w : World) (i : Nat) (inst : Inst) (pc : Pc) : World :=
  { w with insts := w.insts.set i { inst with pc := pc } }

def setCall (w : World) (k : Nat) (call : Call) (pc : CallPc) : World :=
  { w with calls := w.calls.set k { call with pc := pc } }

end World

inductive Label where
  | setServing (mayServe : Bool)
  | getOrCreate (parent : ActorPath) (name : String) (command : TypeId)
  | acquire (k : Nat)
  | look (k : Nat)
  | spawn (k : Nat)
  | insert (k : Nat)
  | spawnAt (path : ActorPath) (command : TypeId)
  | halt (path : ActorPath)
  | started (i : Nat)
  /-- `on_start` fails, or the serve loop is left. -/
  | leave (i : Nat)
  | retire (i : Nat)
  | dropEnded (i : Nat)
  | closeMailbox (i : Nat)
  deriving DecidableEq, Repr

def step (w : World) : Label → Option World
  | .setServing mayServe => some { w with mayServe := mayServe }
  | .getOrCreate parent name command =>
      let pc := if w.mayServe then
          match Live.checkName name with
          | .error e => .failed e
          | .ok () => .entered
        else .failed .notServing
      some { w with calls := w.calls ++ [⟨parent, name, command, pc⟩] }
  | .acquire k =>
      match w.calls[k]? with
      | none => none
      | some call =>
          if call.pc = .entered ∧ w.lock = none then
            some ({ w with lock := some k }.setCall k call .locked)
          else none
  | .look k =>
      match w.calls[k]? with
      | none => none
      | some call =>
          if call.pc = .locked then
            match w.live.lookup call.path with
            | none => some (w.setCall k call .cleared)
            | some entry =>
                if entry.command = call.command then
                  if w.alive entry.inst then
                    some ({ w with lock := none }.setCall k call (.found entry.inst))
                  else some ({ w with live := w.live.erase call.path }.setCall k call .cleared)
                else some ({ w with lock := none }.setCall k call (.failed (.pathTaken call.path)))
          else none
  | .spawn k =>
      match w.calls[k]? with
      | none => none
      | some call =>
          if call.pc = .cleared then
            some ((w.start call.path call.command (some k)).setCall k call
              (.spawned w.insts.length))
          else none
  | .insert k =>
      match w.calls[k]? with
      | none => none
      | some call =>
          match call.pc with
          | .spawned i =>
              some ({ w with
                live := w.live.insert call.path ⟨call.command, i⟩
                lock := none }.setCall k call (.created i))
          | _ => none
  | .spawnAt path command => some (w.start path command none)
  | .halt path => if w.lock = none then some { w with live := w.live.erase path } else none
  | .started i =>
      match w.insts[i]? with
      | none => none
      | some inst => if inst.pc = .starting then some (w.setPc i inst .serving) else none
  | .leave i =>
      match w.insts[i]? with
      | none => none
      | some inst =>
          if inst.pc = .starting ∨ inst.pc = .serving then some (w.setPc i inst .retiring)
          else none
  | .retire i =>
      match w.insts[i]? with
      | none => none
      | some inst =>
          if inst.pc = .retiring ∧ w.lock = none then
            some ({ w with live := w.live.retire inst.path i }.setPc i inst .retired)
          else none
  | .dropEnded i =>
      match w.insts[i]? with
      | none => none
      | some inst => if inst.pc = .retired then some (w.setPc i inst .ended) else none
  | .closeMailbox i =>
      match w.insts[i]? with
      | none => none
      | some inst => if inst.pc = .ended then some (w.setPc i inst .gone) else none

/-! ## The property -/

/-- Of the instances that `get_or_create` started at the path, this is the last. -/
structure Latest (insts : List Inst) (path : ActorPath) (i : Nat) : Prop where
  started : ∃ inst, insts[i]? = some inst ∧ inst.path = path ∧ inst.starter ≠ none
  last : ∀ j inst, insts[j]? = some inst → inst.path = path → inst.starter ≠ none → j ≤ i

/-- A call looks at a row of its command type with an open mailbox. -/
structure Sees (w : World) (k : Nat) (path : ActorPath) (command : TypeId) (i : Nat) : Prop where
  call : ∃ call, w.calls[k]? = some call ∧ call.pc = .locked ∧ call.path = path ∧
    call.command = command
  row : w.live.lookup path = some ⟨command, i⟩
  alive : w.alive i = true

/-- Rows describe their own instance. -/
structure OwnRows (w : World) : Prop where
  latest : ∀ path entry, w.live.lookup path = some entry → Latest w.insts path entry.inst
  /-- What `retire` takes out is the row of the instance that calls it. -/
  retires : ∀ i w', step w (.retire i) = some w' → ∀ path entry,
    w.live.lookup path = some entry → w'.live.lookup path ≠ some entry → entry.inst = i
  /-- Past `retire`, after whatever start, there is no row; so at the end of the
  task there is none. -/
  retired : ∀ i inst, w.insts[i]? = some inst → inst.pc.early = false →
    ∀ path entry, w.live.lookup path = some entry → entry.inst ≠ i
  /-- Who sees a row with an open mailbox returns it and starts nothing. -/
  found : ∀ k path command i w', Sees w k path command i → step w (.look k) = some w' →
    (∃ call, w'.calls[k]? = some call ∧ call.pc = .found i) ∧ w'.insts = w.insts ∧
      w'.live = w.live
  /-- Nor does it start anything later. -/
  neverStarted : ∀ k call i, w.calls[k]? = some call → call.pc = .found i →
    ∀ inst ∈ w.insts, inst.starter ≠ some k
  /-- Two that do, with no start at the path between them, return the same. -/
  agree : ∀ l w' k k' path command i j, Schedule.run step w l = some w' →
    Sees w k path command i → Sees w' k' path command j →
    (∀ inst ∈ w'.insts.drop w.insts.length, inst.path = path → inst.starter = none) → i = j

/-! ## The invariant -/

/-- The instance could have the row of the path: it is the last one started there,
and it has not got past `retire`. -/
structure Files (insts : List Inst) (path : ActorPath) (command : TypeId) (i : Nat) : Prop where
  latest : Latest insts path i
  early : ∃ inst, insts[i]? = some inst ∧ inst.command = command ∧ inst.pc.early = true

structure Inv (w : World) : Prop where
  rows : ∀ path entry, w.live.lookup path = some entry →
    Files w.insts path entry.command entry.inst
  /-- Whoever is in the critical section holds the lock. -/
  holder : ∀ (k : Nat) (call : Call), w.calls[k]? = some call → call.pc.inside = true →
    w.lock = some k
  cleared : ∀ (k : Nat) (call : Call), w.calls[k]? = some call →
    call.pc = .cleared ∨ (∃ i, call.pc = .spawned i) → w.live.lookup call.path = none
  /-- An instance without a row yet cannot retire: it waits for the lock. -/
  spawned : ∀ (k : Nat) (call : Call) (i : Nat), w.calls[k]? = some call →
    call.pc = .spawned i → Files w.insts call.path call.command i
  starters : ∀ (i : Nat) (inst : Inst) (k : Nat), w.insts[i]? = some inst →
    inst.starter = some k → ∃ call : Call, w.calls[k]? = some call ∧
      (call.pc = .spawned i ∨ call.pc = .created i)

section Instances

variable {insts : List Inst} {path : ActorPath} {command : TypeId} {i j : Nat} {inst : Inst}
  {pc : Pc}

theorem Latest.set (h : Latest insts path j) (hi : insts[i]? = some inst) :
    Latest (insts.set i { inst with pc := pc }) path j := by
  constructor
  · obtain ⟨x, hx, hstarted⟩ := h.started
    exact Slots.exists_getElem?_set hi hx hstarted fun _ hsame => hsame
  · intro j' x hx hpath hstarter
    rcases (Slots.getElem?_set_iff hi).mp hx with ⟨rfl, rfl⟩ | ⟨-, hx⟩
    · exact h.last _ inst hi hpath hstarter
    · exact h.last j' x hx hpath hstarter

/-- A task moves on; if it gets past `retire`, it is not this one. -/
theorem Files.set (h : Files insts path command j) (hi : insts[i]? = some inst)
    (hpc : pc.early = true ∨ j ≠ i) :
    Files (insts.set i { inst with pc := pc }) path command j := by
  refine ⟨h.latest.set hi, ?_⟩
  obtain ⟨x, hx, hearly⟩ := h.early
  refine Slots.exists_getElem?_set hi hx hearly fun hj hinst => ⟨hinst.1, ?_⟩
  exact hpc.resolve_right fun hne => hne hj

/-- An instance is started elsewhere, or outside the registry. -/
theorem Files.snoc (h : Files insts path command j)
    (hother : inst.path ≠ path ∨ inst.starter = none) :
    Files (insts ++ [inst]) path command j := by
  obtain ⟨⟨⟨x, hx, hpath, hstarter⟩, hlast⟩, y, hy, hcommand, hearly⟩ := h
  refine ⟨⟨⟨x, Slots.getElem?_snoc_iff.mpr (Or.inr hx), hpath, hstarter⟩, ?_⟩, y,
    Slots.getElem?_snoc_iff.mpr (Or.inr hy), hcommand, hearly⟩
  intro j' z hz hpath' hstarter'
  rcases Slots.getElem?_snoc_iff.mp hz with ⟨-, rfl⟩ | hz
  · rcases hother with hne | hnone
    · exact absurd hpath' hne
    · exact absurd hnone hstarter'
  · exact hlast j' z hz hpath' hstarter'

/-- The instance a call has just started is the last one at its path. -/
theorem files_started (insts : List Inst) (path : ActorPath) (command : TypeId) (k : Nat) :
    Files (insts ++ [⟨path, command, some k, .starting⟩]) path command insts.length := by
  have hself : (insts ++ [⟨path, command, some k, .starting⟩])[insts.length]? =
      some ⟨path, command, some k, .starting⟩ := List.getElem?_concat_length
  refine ⟨⟨⟨_, hself, rfl, Option.some_ne_none k⟩, ?_⟩, _, hself, rfl, rfl⟩
  intro j x hx _ _
  rcases Slots.getElem?_snoc_iff.mp hx with ⟨rfl, -⟩ | hx
  · exact Nat.le_refl _
  · exact Nat.le_of_lt (List.getElem?_eq_some_iff.mp hx).1

end Instances

/-- No row is the instance's, and none is about to be. -/
structure Unnamed (w : World) (i : Nat) : Prop where
  row : ∀ path entry, w.live.lookup path = some entry → entry.inst ≠ i
  spawned : ∀ (k : Nat) (call : Call), w.calls[k]? = some call → call.pc ≠ .spawned i

section Steps

variable {w w' : World} {i k : Nat} {inst : Inst} {call : Call} {pc : Pc} {cpc : CallPc}

theorem Files.early_of {path : ActorPath} {command : TypeId} (h : Files w.insts path command i)
    (hi : w.insts[i]? = some inst) : inst.pc.early = true := by
  obtain ⟨x, hx, -, hearly⟩ := h.early
  cases hi.symm.trans hx
  exact hearly

/-- Past `retire` the instance is not named any more. -/
theorem Inv.unnamed (h : Inv w) (hi : w.insts[i]? = some inst) (hlate : inst.pc.early = false) :
    Unnamed w i := by
  constructor
  · rintro path entry hrow rfl
    exact absurd ((h.rows path entry hrow).early_of hi) (by simp [hlate])
  · intro k call hk hpc
    exact absurd ((h.spawned k call i hk hpc).early_of hi) (by simp [hlate])

/-! ### Tasks -/

theorem Inv.setPc (h : Inv w) (hi : w.insts[i]? = some inst)
    (hpc : pc.early = true ∨ Unnamed w i) : Inv (w.setPc i inst pc) := by
  refine ⟨?_, h.holder, h.cleared, ?_, ?_⟩
  · intro path entry hrow
    exact (h.rows path entry hrow).set hi (hpc.imp_right fun hu => hu.row path entry hrow)
  · intro k call j hk hspawned
    refine (h.spawned k call j hk hspawned).set hi (hpc.imp_right fun hu hj => ?_)
    exact hu.spawned k call hk (hj ▸ hspawned)
  · intro j x k hx hstarter
    rcases (Slots.getElem?_set_iff hi).mp hx with ⟨rfl, rfl⟩ | ⟨-, hx⟩
    · exact h.starters _ inst k hi hstarter
    · exact h.starters j x k hx hstarter

/-- Rows have gone, at most. -/
theorem Inv.shrink (h : Inv w) {live : Live}
    (hsub : ∀ path entry, live.lookup path = some entry → w.live.lookup path = some entry) :
    Inv { w with live := live } := by
  refine ⟨fun path entry hrow => h.rows path entry (hsub path entry hrow), h.holder, ?_,
    h.spawned, h.starters⟩
  intro k call hk hpc
  have hnone := h.cleared k call hk hpc
  cases hrow : live.lookup call.path with
  | none => rfl
  | some entry =>
      rw [hsub _ _ hrow] at hnone
      cases hnone

theorem lookup_erase_sub {live : Live} {p path : ActorPath} {entry : Entry}
    (h : (live.erase p).lookup path = some entry) : live.lookup path = some entry := by
  by_cases hp : path = p
  · subst hp
    rw [AList.lookup_erase] at h
    cases h
  · rw [AList.lookup_erase_ne hp] at h
    exact h

theorem lookup_retire_sub {live : Live} {p path : ActorPath} {entry : Entry}
    (h : (live.retire p i).lookup path = some entry) : live.lookup path = some entry := by
  unfold Live.retire at h
  split at h
  · exact h
  · split at h
    · exact lookup_erase_sub h
    · exact h

/-- Only the instance's own row goes. -/
theorem inst_of_lookup_retire {live : Live} {p path : ActorPath} {entry : Entry}
    (h : live.lookup path = some entry) (h' : (live.retire p i).lookup path ≠ some entry) :
    entry.inst = i := by
  by_cases hp : path = p
  · subst hp
    rw [Live.lookup_retire_self, h] at h'
    by_contra hne
    simp [hne] at h'
  · rw [Live.lookup_retire_ne hp, h] at h'
    exact absurd rfl h'

/-- `retire` takes the instance's row out wherever it is: it is at its own path. -/
theorem Inv.unnamed_retire (h : Inv w) (hi : w.insts[i]? = some inst) (hlock : w.lock = none) :
    Unnamed { w with live := w.live.retire inst.path i } i := by
  constructor
  · rintro path entry hrow rfl
    have hold := lookup_retire_sub hrow
    obtain ⟨x, hx, hpath, -⟩ := (h.rows path entry hold).latest.started
    cases hi.symm.trans hx
    subst hpath
    rw [Live.lookup_retire_self, hold] at hrow
    simp at hrow
  · intro k call hk hpc
    have hholds := h.holder k call hk (by simp [hpc, CallPc.inside])
    rw [hlock] at hholds
    cases hholds

theorem inv_retire (h : Inv w) (hs : step w (.retire i) = some w') : Inv w' := by
  simp only [step] at hs
  cases hi : w.insts[i]? with
  | none => simp [hi] at hs
  | some inst =>
      simp only [hi, Option.ite_none_right_eq_some, Option.some.injEq] at hs
      obtain ⟨⟨-, hlock⟩, rfl⟩ := hs
      have hgone := h.shrink fun _ _ => lookup_retire_sub (i := i) (p := inst.path)
      exact hgone.setPc hi (Or.inr (h.unnamed_retire hi hlock))

theorem inv_spawnAt {path : ActorPath} {command : TypeId} (h : Inv w) :
    Inv (w.start path command none) := by
  refine ⟨?_, h.holder, h.cleared, ?_, ?_⟩
  · intro path entry hrow
    exact (h.rows path entry hrow).snoc (Or.inr rfl)
  · intro k call i hk hpc
    exact (h.spawned k call i hk hpc).snoc (Or.inr rfl)
  · intro i x k hx hstarter
    rcases Slots.getElem?_snoc_iff.mp hx with ⟨-, rfl⟩ | hx
    · cases hstarter
    · exact h.starters i x k hx hstarter

/-! ### Calls -/

theorem inv_getOrCreate {parent : ActorPath} {name : String} {command : TypeId} (h : Inv w)
    (hs : step w (.getOrCreate parent name command) = some w') : Inv w' := by
  simp only [step, Option.some.injEq] at hs
  subst hs
  generalize hc : (⟨parent, name, command, _⟩ : Call) = new
  have hnew : new.pc = .entered ∨ ∃ e, new.pc = .failed e := by
    subst hc
    dsimp only
    split
    · split
      · exact Or.inr ⟨_, rfl⟩
      · exact Or.inl rfl
    · exact Or.inr ⟨_, rfl⟩
  have hout : new.pc.inside = false := by
    rcases hnew with hpc | ⟨e, hpc⟩ <;> simp [hpc, CallPc.inside]
  refine ⟨h.rows, ?_, ?_, ?_, ?_⟩
  · intro k call hk hin
    rcases Slots.getElem?_snoc_iff.mp hk with ⟨-, rfl⟩ | hk
    · simp [hout] at hin
    · exact h.holder k call hk hin
  · intro k call hk hpc
    rcases Slots.getElem?_snoc_iff.mp hk with ⟨-, rfl⟩ | hk
    · rcases hpc with hpc | ⟨i, hpc⟩ <;> simp [hpc, CallPc.inside] at hout
    · exact h.cleared k call hk hpc
  · intro k call i hk hpc
    rcases Slots.getElem?_snoc_iff.mp hk with ⟨-, rfl⟩ | hk
    · simp [hpc, CallPc.inside] at hout
    · exact h.spawned k call i hk hpc
  · intro i x k hx hstarter
    obtain ⟨call, hk, hpc⟩ := h.starters i x k hx hstarter
    exact ⟨call, Slots.getElem?_snoc_iff.mpr (Or.inr hk), hpc⟩

/-- A call that is, or now gets, into its critical section moves on. -/
theorem Inv.advance (h : Inv w) (hk : w.calls[k]? = some call)
    (halone : ∀ (k' : Nat) (call' : Call), w.calls[k']? = some call' →
      call'.pc.inside = true → k' = k)
    {live : Live} {lock : Option Nat} {insts : List Inst}
    (hrows : ∀ path entry, live.lookup path = some entry →
      Files insts path entry.command entry.inst)
    (hholder : cpc.inside = true → lock = some k)
    (hcleared : cpc = .cleared ∨ (∃ i, cpc = .spawned i) → live.lookup call.path = none)
    (hspawned : ∀ i, cpc = .spawned i → Files insts call.path call.command i)
    (hstarters : ∀ (i : Nat) (inst : Inst) (k' : Nat), insts[i]? = some inst →
      inst.starter = some k' → (k' = k ∧ (cpc = .spawned i ∨ cpc = .created i)) ∨
        (k' ≠ k ∧ w.insts[i]? = some inst)) :
    Inv { w with
      live := live
      lock := lock
      insts := insts
      calls := w.calls.set k { call with pc := cpc } } := by
  have hmem : ∀ (k' : Nat) (call' : Call), (w.calls.set k { call with pc := cpc })[k']? =
      some call' → call'.pc.inside = true → k' = k ∧ call' = { call with pc := cpc } := by
    intro k' call' hk' hin
    rcases (Slots.getElem?_set_iff hk).mp hk' with hself | ⟨hne, hk'⟩
    · exact hself
    · exact absurd (halone k' call' hk' hin) hne
  refine ⟨hrows, ?_, ?_, ?_, ?_⟩
  · intro k' call' hk' hin
    obtain ⟨rfl, rfl⟩ := hmem k' call' hk' hin
    exact hholder hin
  · intro k' call' hk' hpc
    obtain ⟨rfl, rfl⟩ := hmem k' call' hk' (by rcases hpc with hpc | ⟨i, hpc⟩ <;>
      simp [hpc, CallPc.inside])
    exact hcleared hpc
  · intro k' call' i hk' hpc
    obtain ⟨rfl, rfl⟩ := hmem k' call' hk' (by simp [hpc, CallPc.inside])
    exact hspawned i hpc
  · intro i x k' hx hstarter
    rcases hstarters i x k' hx hstarter with ⟨rfl, hpc⟩ | ⟨hne, hx⟩
    · exact ⟨_, (Slots.getElem?_set_iff hk).mpr (Or.inl ⟨rfl, rfl⟩), hpc⟩
    · obtain ⟨call', hk', hpc⟩ := h.starters i x k' hx hstarter
      exact ⟨call', (Slots.getElem?_set_iff hk).mpr (Or.inr ⟨hne, hk'⟩), hpc⟩

/-- One call at a time is in the critical section. -/
theorem Inv.alone (h : Inv w) (hk : w.calls[k]? = some call) (hin : call.pc.inside = true)
    (k' : Nat) (call' : Call) (hk' : w.calls[k']? = some call') (hin' : call'.pc.inside = true) :
    k' = k := by
  have hheld := h.holder k call hk hin
  rw [h.holder k' call' hk' hin'] at hheld
  exact Option.some.inj hheld

/-- Before its `spawn`, a call has started nothing. -/
theorem Inv.starter_ne (h : Inv w) (hk : w.calls[k]? = some call)
    (hpc : call.pc = .entered ∨ call.pc = .locked ∨ call.pc = .cleared) {k' : Nat}
    (hi : w.insts[i]? = some inst) (hstarter : inst.starter = some k') : k' ≠ k := by
  rintro rfl
  obtain ⟨call', hk', hpc'⟩ := h.starters i inst _ hi hstarter
  cases hk.symm.trans hk'
  rcases hpc with hpc | hpc | hpc <;> simp [hpc] at hpc'

theorem inv_acquire (h : Inv w) (hs : step w (.acquire k) = some w') : Inv w' := by
  simp only [step] at hs
  cases hk : w.calls[k]? with
  | none => simp [hk] at hs
  | some call =>
      simp only [hk, Option.ite_none_right_eq_some, Option.some.injEq] at hs
      obtain ⟨⟨hpc, hlock⟩, rfl⟩ := hs
      refine h.advance hk ?_ h.rows (fun _ => rfl) (by simp) (by simp) ?_
      · intro k' call' hk' hin
        have hheld := h.holder k' call' hk' hin
        rw [hlock] at hheld
        cases hheld
      · intro i x k' hx hstarter
        exact Or.inr ⟨h.starter_ne hk (Or.inl hpc) hx hstarter, hx⟩

theorem inv_look (h : Inv w) (hs : step w (.look k) = some w') : Inv w' := by
  simp only [step] at hs
  cases hk : w.calls[k]? with
  | none => simp [hk] at hs
  | some call =>
      simp only [hk, Option.ite_none_right_eq_some] at hs
      obtain ⟨hpc, hs⟩ := hs
      have hin : call.pc.inside = true := by simp [hpc, CallPc.inside]
      have hstarters : ∀ (i : Nat) (inst : Inst) (k' : Nat), w.insts[i]? = some inst →
          inst.starter = some k' → k' ≠ k ∧ w.insts[i]? = some inst :=
        fun i x k' hx hstarter => ⟨h.starter_ne hk (Or.inr (Or.inl hpc)) hx hstarter, hx⟩
      split at hs
      · rename_i hnone
        cases hs
        exact h.advance hk (h.alone hk hin) h.rows (fun _ => h.holder k call hk hin)
          (fun _ => hnone) (by simp) fun i x k' hx hst => Or.inr (hstarters i x k' hx hst)
      · split at hs
        · split at hs
          · cases hs
            exact h.advance hk (h.alone hk hin) h.rows (by simp [CallPc.inside]) (by simp)
              (by simp) fun i x k' hx hst => Or.inr (hstarters i x k' hx hst)
          · cases hs
            exact h.advance hk (h.alone hk hin)
              (fun path entry hrow => h.rows path entry (lookup_erase_sub hrow))
              (fun _ => h.holder k call hk hin) (fun _ => AList.lookup_erase _ _) (by simp)
              fun i x k' hx hst => Or.inr (hstarters i x k' hx hst)
        · cases hs
          exact h.advance hk (h.alone hk hin) h.rows (by simp [CallPc.inside]) (by simp)
            (by simp) fun i x k' hx hst => Or.inr (hstarters i x k' hx hst)

theorem inv_spawn (h : Inv w) (hs : step w (.spawn k) = some w') : Inv w' := by
  simp only [step] at hs
  cases hk : w.calls[k]? with
  | none => simp [hk] at hs
  | some call =>
      simp only [hk, Option.ite_none_right_eq_some, Option.some.injEq] at hs
      obtain ⟨hpc, rfl⟩ := hs
      have hin : call.pc.inside = true := by simp [hpc, CallPc.inside]
      have hnone := h.cleared k call hk (Or.inl hpc)
      refine h.advance hk (h.alone hk hin) ?_ (fun _ => h.holder k call hk hin)
        (fun _ => hnone) ?_ ?_
      · intro path entry hrow
        refine (h.rows path entry hrow).snoc (Or.inl ?_)
        rintro rfl
        cases hnone.symm.trans hrow
      · intro i hspawned
        cases hspawned
        exact files_started w.insts call.path call.command k
      · intro i x k' hx hstarter
        rcases Slots.getElem?_snoc_iff.mp hx with ⟨rfl, rfl⟩ | hx
        · cases hstarter
          exact Or.inl ⟨rfl, Or.inl rfl⟩
        · exact Or.inr ⟨h.starter_ne hk (Or.inr (Or.inr hpc)) hx hstarter, hx⟩

theorem inv_insert (h : Inv w) (hs : step w (.insert k) = some w') : Inv w' := by
  simp only [step] at hs
  cases hk : w.calls[k]? with
  | none => simp [hk] at hs
  | some call =>
      simp only [hk] at hs
      split at hs
      · rename_i i hpc
        cases hs
        have hfiles := h.spawned k call i hk hpc
        refine h.advance hk (h.alone hk (by simp [hpc, CallPc.inside])) ?_
          (by simp [CallPc.inside]) (by simp) (by simp) ?_
        · intro path entry hrow
          by_cases hp : path = call.path
          · subst hp
            rw [AList.lookup_insert] at hrow
            cases hrow
            exact hfiles
          · rw [AList.lookup_insert_ne hp] at hrow
            exact h.rows path entry hrow
        · intro j x k' hx hstarter
          by_cases hkk : k' = k
          · subst hkk
            obtain ⟨call', hk', hpc'⟩ := h.starters j x k' hx hstarter
            cases hk.symm.trans hk'
            rcases hpc' with hpc' | hpc'
            · cases hpc.symm.trans hpc'
              exact Or.inl ⟨rfl, Or.inr rfl⟩
            · cases hpc.symm.trans hpc'
          · exact Or.inr ⟨hkk, hx⟩
      · cases hs

theorem inv_step (l : Label) (h : Inv w) (hs : step w l = some w') : Inv w' := by
  cases l with
  | setServing mayServe =>
      cases hs
      exact ⟨h.rows, h.holder, h.cleared, h.spawned, h.starters⟩
  | getOrCreate parent name command => exact inv_getOrCreate h hs
  | acquire k => exact inv_acquire h hs
  | look k => exact inv_look h hs
  | spawn k => exact inv_spawn h hs
  | insert k => exact inv_insert h hs
  | spawnAt path command =>
      cases hs
      exact inv_spawnAt h
  | halt path =>
      simp only [step, Option.ite_none_right_eq_some, Option.some.injEq] at hs
      obtain ⟨-, rfl⟩ := hs
      exact h.shrink fun _ _ => lookup_erase_sub
  | started i | leave i =>
      simp only [step] at hs
      cases hi : w.insts[i]? with
      | none => simp [hi] at hs
      | some inst =>
          simp only [hi, Option.ite_none_right_eq_some, Option.some.injEq] at hs
          obtain ⟨-, rfl⟩ := hs
          exact h.setPc hi (Or.inl rfl)
  | retire i => exact inv_retire h hs
  | dropEnded i | closeMailbox i =>
      simp only [step] at hs
      cases hi : w.insts[i]? with
      | none => simp [hi] at hs
      | some inst =>
          simp only [hi, Option.ite_none_right_eq_some, Option.some.injEq] at hs
          obtain ⟨hpc, rfl⟩ := hs
          exact h.setPc hi (Or.inr (h.unnamed hi (by simp [hpc, Pc.early])))

end Steps

/-! ## Instances keep their place -/

/-- What an instance is, and who started it, never changes. -/
def Older (insts insts' : List Inst) : Prop :=
  ∀ (j : Nat) (inst : Inst), insts[j]? = some inst →
    ∃ inst' : Inst, insts'[j]? = some inst' ∧ inst'.path = inst.path ∧ inst'.starter = inst.starter

theorem Older.refl (insts : List Inst) : Older insts insts := fun _ inst hj => ⟨inst, hj, rfl, rfl⟩

theorem Older.trans {a b c : List Inst} (h : Older a b) (h' : Older b c) : Older a c := by
  intro j inst hj
  obtain ⟨x, hx, hpath, hstarter⟩ := h j inst hj
  obtain ⟨y, hy, hpath', hstarter'⟩ := h' j x hx
  exact ⟨y, hy, hpath'.trans hpath, hstarter'.trans hstarter⟩

theorem Older.snoc (insts : List Inst) (new : Inst) : Older insts (insts ++ [new]) :=
  fun _ inst hj => ⟨inst, Slots.getElem?_snoc_iff.mpr (Or.inr hj), rfl, rfl⟩

theorem Older.set {insts : List Inst} {i : Nat} {inst : Inst} (hi : insts[i]? = some inst)
    (pc : Pc) : Older insts (insts.set i { inst with pc := pc }) := by
  intro j x hj
  exact Slots.exists_getElem?_set hi hj ⟨rfl, rfl⟩ fun _ hsame => hsame

theorem older_step {w w' : World} (l : Label) (h : step w l = some w') :
    Older w.insts w'.insts := by
  -- a call only ever adds an instance; a task only moves on in its own
  cases l <;> simp only [step] at h
  case setServing | getOrCreate =>
    cases h
    exact Older.refl _
  case spawnAt =>
    cases h
    exact Older.snoc _ _
  case halt =>
    split at h
    · cases h
      exact Older.refl _
    · cases h
  case spawn =>
    split at h
    · cases h
    · split at h
      · cases h
        exact Older.snoc _ _
      · cases h
  case acquire | look | insert =>
    repeat' split at h
    all_goals cases h <;> exact Older.refl _
  case started | leave | retire | dropEnded | closeMailbox =>
    split at h
    · cases h
    · rename_i hi
      split at h
      · cases h
        exact Older.set hi _
      · cases h

theorem older_run {w w' : World} {l : List Label} (h : Schedule.run step w l = some w') :
    Older w.insts w'.insts :=
  Schedule.run_invariant_all (I := fun m => Older w.insts m.insts)
    (fun _ a _ hI hs => hI.trans (older_step a hs)) l (Older.refl _) h

/-- With no start through the registry since, the last one started is the same. -/
theorem Latest.eq_of_older {insts insts' : List Inst} {path : ActorPath} {i j : Nat}
    (h : Latest insts path i) (h' : Latest insts' path j) (hold : Older insts insts')
    (hnew : ∀ inst ∈ insts'.drop insts.length, inst.path = path → inst.starter = none) :
    i = j := by
  obtain ⟨x, hx, hpath, hstarter⟩ := h.started
  obtain ⟨y, hy, hpath', hstarter'⟩ := h'.started
  apply Nat.le_antisymm
  · obtain ⟨x', hx', hxpath, hxstarter⟩ := hold i x hx
    exact h'.last i x' hx' (hxpath.trans hpath) (hxstarter ▸ hstarter)
  · by_cases hj : j < insts.length
    · have hz := List.getElem?_eq_getElem hj
      obtain ⟨y', hy', hypath, hystarter⟩ := hold j _ hz
      cases hy.symm.trans hy'
      exact h.last j _ hz (hypath ▸ hpath') (hystarter ▸ hstarter')
    · refine absurd (hnew y ?_ hpath') hstarter'
      refine List.mem_of_getElem? (i := j - insts.length) ?_
      rw [List.getElem?_drop, Nat.add_sub_cancel' (Nat.le_of_not_lt hj)]
      exact hy

/-! ## The critical section run through -/

section GetOrCreate

variable {w : World} {parent : ActorPath} {name : String} {command : TypeId}

/-- A call from its entry to its insertion. -/
def attempt (w : World) (parent : ActorPath) (name : String) (command : TypeId) : List Label :=
  [.getOrCreate parent name command, .acquire w.calls.length, .look w.calls.length,
    .spawn w.calls.length, .insert w.calls.length]

/-- The world with one more call, at this point of it. -/
def called (w : World) (parent : ActorPath) (name : String) (command : TypeId) (pc : CallPc) :
    World :=
  { w with calls := w.calls ++ [⟨parent, name, command, pc⟩] }

theorem setCall_called {pc pc' : CallPc} :
    (called w parent name command pc).setCall w.calls.length ⟨parent, name, command, pc⟩ pc' =
      called w parent name command pc' := by
  simp [called, World.setCall]

theorem getElem?_called {pc : CallPc} :
    (called w parent name command pc).calls[w.calls.length]? =
      some ⟨parent, name, command, pc⟩ := List.getElem?_concat_length

theorem step_enter (hserve : w.mayServe = true) (hname : Live.checkName name = .ok ()) :
    step w (.getOrCreate parent name command) = some (called w parent name command .entered) := by
  simp only [step, hserve, hname, if_true, called]

theorem step_acquire (hlock : w.lock = none) :
    step (called w parent name command .entered) (.acquire w.calls.length) =
      some (called { w with lock := some w.calls.length } parent name command .locked) := by
  simp only [step, getElem?_called]
  exact (if_pos ⟨trivial, hlock⟩).trans
    (congrArg some (setCall_called (w := { w with lock := some w.calls.length })))

theorem step_look_none (hrow : w.live.lookup (parent.child name) = none) :
    step (called w parent name command .locked) (.look w.calls.length) =
      some (called w parent name command .cleared) := by
  simp only [step, getElem?_called, if_true, Call.path]
  rw [show (called w parent name command .locked).live.lookup _ = _ from hrow]
  exact congrArg some setCall_called

theorem step_look_open {i : Nat} (hrow : w.live.lookup (parent.child name) = some ⟨command, i⟩)
    (halive : w.alive i = true) :
    step (called w parent name command .locked) (.look w.calls.length) =
      some (called { w with lock := none } parent name command (.found i)) := by
  simp only [step, getElem?_called, if_true, Call.path]
  rw [show (called w parent name command .locked).live.lookup _ = _ from hrow]
  simp only [if_true]
  exact (if_pos halive).trans (congrArg some (setCall_called (w := { w with lock := none })))

theorem step_look_closed {i : Nat} (hrow : w.live.lookup (parent.child name) = some ⟨command, i⟩)
    (hclosed : ¬ w.alive i = true) :
    step (called w parent name command .locked) (.look w.calls.length) =
      some (called { w with live := w.live.erase (parent.child name) } parent name command
        .cleared) := by
  simp only [step, getElem?_called, if_true, Call.path]
  rw [show (called w parent name command .locked).live.lookup _ = _ from hrow]
  simp only [if_true]
  exact (if_neg hclosed).trans (congrArg some
    (setCall_called (w := { w with live := w.live.erase (parent.child name) })))

theorem step_look_taken {entry : Entry}
    (hrow : w.live.lookup (parent.child name) = some entry) (hother : entry.command ≠ command) :
    step (called w parent name command .locked) (.look w.calls.length) =
      some (called { w with lock := none } parent name command
        (.failed (.pathTaken (parent.child name)))) := by
  simp only [step, getElem?_called, if_true, Call.path]
  rw [show (called w parent name command .locked).live.lookup _ = _ from hrow]
  simp only [if_neg hother]
  exact congrArg some (setCall_called (w := { w with lock := none }))

/-- With no row at the path the actor is started and filed. -/
theorem run_spawn_insert :
    Schedule.run step (called w parent name command .cleared)
        [.spawn w.calls.length, .insert w.calls.length] =
      some (called { w with
        live := w.live.insert (parent.child name) ⟨command, w.insts.length⟩
        lock := none
        insts := w.insts ++ [⟨parent.child name, command, some w.calls.length, .starting⟩] }
          parent name command (.created w.insts.length)) := by
  have hspawn : step (called w parent name command .cleared) (.spawn w.calls.length) =
      some (called (w.start (parent.child name) command (some w.calls.length)) parent name command
        (.spawned w.insts.length)) := by
    simp only [step, getElem?_called, if_true, Call.path]
    exact congrArg some (setCall_called
      (w := w.start (parent.child name) command (some w.calls.length)))
  have hinsert (w₁ : World) (i : Nat) :
      step (called w₁ parent name command (.spawned i)) (.insert w₁.calls.length) =
        some (called { w₁ with
          live := w₁.live.insert (parent.child name) ⟨command, i⟩
          lock := none } parent name command (.created i)) := by
    simp only [step, getElem?_called, Call.path]
    exact congrArg some (setCall_called (w := { w₁ with
      live := w₁.live.insert (parent.child name) ⟨command, i⟩
      lock := none }))
  rw [Schedule.run_cons_of_step hspawn]
  exact Schedule.run_cons_of_step
    (hinsert (w.start (parent.child name) command (some w.calls.length)) _) []

/-- Left alone, a call does what `Live.getOrCreate` computes. -/
theorem run_getOrCreate (hlock : w.lock = none) :
    ∃ (l : List Label) (w' : World) (pc : CallPc), l <+: attempt w parent name command ∧
      Schedule.run step w l = some (called w' parent name command pc) ∧ w'.lock = none ∧
      w'.calls = w.calls ∧
      match w.live.getOrCreate w.alive w.mayServe w.insts.length parent name command with
      | .error e => pc = .failed e ∧ w'.live = w.live ∧ w'.insts = w.insts
      | .ok (i, live) => w'.live = live ∧ (pc = .found i ∧ w'.insts = w.insts ∨
          pc = .created i ∧ w'.insts =
            w.insts ++ [⟨parent.child name, command, some w.calls.length, .starting⟩]) := by
  cases hserve : w.mayServe with
  | false =>
      refine ⟨[.getOrCreate parent name command], w, .failed .notServing, ⟨_, rfl⟩, ?_, hlock,
        rfl, rfl, rfl, rfl⟩
      simp [Schedule.run, step, hserve, called]
  | true =>
      cases hname : Live.checkName name with
      | error e =>
          refine ⟨[.getOrCreate parent name command], w, .failed e, ⟨_, rfl⟩, ?_, hlock, rfl, ?_⟩
          · simp [Schedule.run, step, hserve, hname, called]
          · simp [Live.getOrCreate, hname]
      | ok u =>
          cases u
          have hlocked (rest : List Label) : Schedule.run step w
              (.getOrCreate parent name command :: .acquire w.calls.length :: rest) =
                Schedule.run step (called { w with lock := some w.calls.length } parent name
                  command .locked) rest := by
            rw [Schedule.run_cons_of_step (step_enter hserve hname),
              Schedule.run_cons_of_step (step_acquire hlock)]
          cases hrow : w.live.lookup (parent.child name) with
          | none =>
              have hrun := (hlocked _).trans ((Schedule.run_cons_of_step (step_look_none
                (w := { w with lock := some w.calls.length }) hrow) _).trans
                run_spawn_insert)
              refine ⟨attempt w parent name command, _, _, List.prefix_rfl, hrun, rfl, rfl, ?_⟩
              simp [Live.getOrCreate, hname, hrow]
          | some entry =>
              obtain ⟨c, i⟩ := entry
              by_cases hc : c = command
              · subst hc
                by_cases halive : w.alive i = true
                · have hrun := (hlocked [.look w.calls.length]).trans
                    (Schedule.run_cons_of_step (step_look_open
                      (w := { w with lock := some w.calls.length }) hrow halive) _)
                  refine ⟨_, _, _, ⟨_, rfl⟩, hrun, rfl, rfl, ?_⟩
                  simp [Live.getOrCreate, hname, hrow, halive]
                · have hrun := (hlocked _).trans ((Schedule.run_cons_of_step (step_look_closed
                    (w := { w with lock := some w.calls.length }) hrow halive) _).trans
                    run_spawn_insert)
                  refine ⟨attempt w parent name c, _, _, List.prefix_rfl, hrun, rfl, rfl, ?_⟩
                  simp [Live.getOrCreate, hname, hrow, halive]
              · have hrun := (hlocked [.look w.calls.length]).trans
                  (Schedule.run_cons_of_step (step_look_taken
                    (w := { w with lock := some w.calls.length }) hrow hc) _)
                refine ⟨_, _, _, ⟨_, rfl⟩, hrun, rfl, rfl, ?_⟩
                simp [Live.getOrCreate, hname, hrow, hc]

end GetOrCreate

/-! ## Every reachable world -/

theorem inv_init : Inv World.init := by
  refine ⟨?_, ?_, ?_, ?_, ?_⟩ <;> simp [World.init]

theorem inv_run {l : List Label} {w w' : World} (h : Inv w)
    (hrun : Schedule.run step w l = some w') : Inv w' :=
  Schedule.run_invariant_all (fun _ a _ hI hs => inv_step a hI hs) l h hrun

section Rows

variable {w w' : World} {i k : Nat}

theorem live_retire (hs : step w (.retire i) = some w') :
    ∃ inst, w.insts[i]? = some inst ∧ w'.live = w.live.retire inst.path i := by
  simp only [step] at hs
  cases hi : w.insts[i]? with
  | none => simp [hi] at hs
  | some inst =>
      simp only [hi, Option.ite_none_right_eq_some, Option.some.injEq] at hs
      obtain ⟨-, rfl⟩ := hs
      exact ⟨inst, rfl, rfl⟩

theorem look_of_sees {path : ActorPath} {command : TypeId} (h : Sees w k path command i)
    (hs : step w (.look k) = some w') :
    ∃ call, w.calls[k]? = some call ∧ w' = { w with lock := none }.setCall k call (.found i) := by
  obtain ⟨call, hk, hpc, rfl, rfl⟩ := h.call
  simp only [step, hk, hpc, if_true, h.row, h.alive, Option.some.injEq] at hs
  exact ⟨call, hk, hs.symm⟩

theorem Inv.ownRows (h : Inv w) : OwnRows w := by
  refine ⟨?_, ?_, ?_, ?_, ?_, ?_⟩
  · intro path entry hrow
    exact (h.rows path entry hrow).latest
  · intro i w' hs path entry hrow hgone
    obtain ⟨inst, -, hlive⟩ := live_retire hs
    rw [hlive] at hgone
    exact inst_of_lookup_retire hrow hgone
  · intro i inst hi hlate
    exact (h.unnamed hi hlate).row
  · intro k path command i w' hsees hs
    obtain ⟨call, hk, rfl⟩ := look_of_sees hsees hs
    exact ⟨⟨_, (Slots.getElem?_set_iff hk).mpr (Or.inl ⟨rfl, rfl⟩), rfl⟩, rfl, rfl⟩
  · intro k call i hk hpc inst hmem hstarter
    obtain ⟨j, hj⟩ := List.mem_iff_getElem?.mp hmem
    obtain ⟨call', hk', hpc'⟩ := h.starters j inst k hj hstarter
    cases hk.symm.trans hk'
    simp [hpc] at hpc'
  · intro l w' k k' path command i j hrun hsees hsees' hnew
    exact (h.rows path _ hsees.row).latest.eq_of_older
      ((inv_run h hrun).rows path _ hsees'.row).latest (older_run hrun) hnew

end Rows

/-- On every schedule without panics, rows describe their own instance. -/
theorem rows_own (l : List Label) (w : World) (h : Schedule.run step World.init l = some w) :
    OwnRows w :=
  (inv_run inv_init h).ownRows

/-- A task that fails in `on_start` before its row is inserted waits for the lock
and takes the row out; the actor started next at the path has its own. -/
def failsEarly : List Label :=
  [.getOrCreate ActorPath.root "a" 0, .acquire 0, .look 0, .spawn 0, .leave 0, .insert 0,
    .retire 0, .dropEnded 0, .getOrCreate ActorPath.root "a" 0, .acquire 1, .look 1, .spawn 1,
    .insert 1, .closeMailbox 0]

theorem rows_own_failsEarly :
    ∃ w, Schedule.run step World.init failsEarly = some w ∧ OwnRows w ∧
      w.live.lookup (ActorPath.root.child "a") = some ⟨0, 1⟩ :=
  ⟨_, rfl, rows_own failsEarly _ rfl, rfl⟩

end HorsieActor.Ports.Rows
