import HorsieActor.Ports.PendingStops

/-!
# What an actor leaves behind

`run_actor` stops an actor's children after its serve loop, on the one path that
leads out of the loop by `return`.  A panic in `handle` does not take that path:
the task unwinds, its signal and its mailbox close, and its children and their
rows stay.  The next instance at the path is then handed a child it never created.

Without panics the children are stopped through their rows, and a row says who can
be reached: an instance whose row somebody else has taken out, and who has not
noticed yet, is passed over and may create more.

`childrenTaken_of_attended` is what holds: without panics, and if whoever is still
to be stopped has its row when the stopping task looks for it, an instance that has
ended has left no row behind.  The invariant says of a stopping task, once it has
listed the rows, that everybody below it has retired or is below somebody the task
still has to halt or to wait for.
-/

namespace HorsieActor.Ports.Lifecycle

open HorsieActor.Verified

/-! ## Panics -/

inductive Event where
  | act (a : Label)
  /-- `handle` panics: the task is unwound, with all it owns. -/
  | panic (i : Nat)
  deriving DecidableEq, Repr

def stepOrPanic (w : World) : Event → Option World
  | .act a => step w a
  | .panic i =>
      match w.insts[i]? with
      | none => none
      | some inst => if inst.pc = .serving then some (w.setPc i .gone) else none

/-! ## The property -/

/-- Whoever has ended has taken its children with it. -/
structure ChildrenTaken (w : World) : Prop where
  /-- No row below it is of an actor that it, or one it created, has created. -/
  noRow : ∀ (i : Nat) (inst : Inst), w.insts[i]? = some inst → inst.Ended →
    ∀ path entry (x : Inst), w.live.lookup path = some entry → path.under inst.path = true →
      w.insts[entry.inst]? = some x → i ∉ x.line
  /-- Nor does another instance at its path get one from `ctx.actor_of`. -/
  notReceived : ∀ (i j : Nat) (inst other : Inst), w.insts[i]? = some inst → inst.Ended →
    w.insts[j]? = some other → other.path = inst.path →
    ∀ name command k live,
      w.live.getOrCreate w.alive w.mayServe w.insts.length other.path name command =
        .ok (k, live) →
      ∀ x : Inst, w.insts[k]? = some x → i ∉ x.line

/-! ## The condition -/

/-- The instance and all that it, or one it created, has created have retired. -/
def Settled (w : World) (k : Nat) : Prop :=
  ∀ j < w.insts.length, ∀ y ∈ w.insts[j]?, j = k ∨ k ∈ y.line → 3 ≤ y.pc.rank

instance (w : World) (k : Nat) : Decidable (Settled w k) :=
  inferInstanceAs (Decidable (∀ j < w.insts.length, _))

/-- What a stopping task is about to do finds whom it is for: a scan everybody below
who has not retired, and a `halt` whoever is at its path, unless that one and all
below it have retired. -/
def Work.Finds (w : World) (i : Nat) : Work → Prop
  | .scan _ => ∀ k < w.insts.length, ∀ x ∈ w.insts[k]?, i ∈ x.line → x.pc.rank ≤ 2 →
      Registered w k x
  | .halt path => ∀ k < w.insts.length, ∀ x ∈ w.insts[k]?, i ∈ x.line → x.path = path →
      Registered w k x ∨ Settled w k
  | .raise _ | .wait _ => True

instance (w : World) (i : Nat) : ∀ item : Work, Decidable (item.Finds w i)
  | .scan _ => inferInstanceAs (Decidable (∀ k < w.insts.length, ∀ x ∈ w.insts[k]?,
      i ∈ x.line → x.pc.rank ≤ 2 → Registered w k x))
  | .halt path => inferInstanceAs (Decidable (∀ k < w.insts.length, ∀ x ∈ w.insts[k]?,
      i ∈ x.line → x.path = path → Registered w k x ∨ Settled w k))
  | .raise _ | .wait _ => isTrue trivial

/-- What a task has left to do in `stop_descendants`. -/
def Pc.todo : Pc → List Work
  | .stopping todo => todo
  | _ => []

/-- No stopping task passes over anybody. -/
def NonePassed (w : World) : Label → Prop
  | .task i _ => ∀ inst ∈ w.insts[i]?, ∀ item ∈ inst.pc.todo.head?, item.Finds w i
  | _ => True

instance (w : World) : ∀ a : Label, Decidable (NonePassed w a)
  | .task i _ => inferInstanceAs (Decidable (∀ inst ∈ w.insts[i]?, ∀ item ∈ inst.pc.todo.head?,
      item.Finds w i))
  | .setServing _ | .create _ _ _ | .createChild _ _ _ | .started _ | .leave _ | .retire _
  | .dropActor _ | .dropEnded _ | .closeMailbox _ | .stop _ | .call _ _ => isTrue trivial

/-- Nor does anybody panic. -/
def Attended (w : World) : Event → Prop
  | .act a => NonePassed w a
  | .panic _ => False

instance (w : World) : ∀ e : Event, Decidable (Attended w e)
  | .act a => inferInstanceAs (Decidable (NonePassed w a))
  | .panic _ => isFalse id

/-! ## The invariant -/

/-- The instance has retired, or it is, or descends from, one that a task with
this left will halt or wait for on account of `i`. -/
def Accounted (w : World) (todo : List Work) (i j : Nat) (x : Inst) : Prop :=
  3 ≤ x.pc.rank ∨ ∃ (k : Nat) (y : Inst), w.insts[k]? = some y ∧ (k = j ∨ k ∈ x.line) ∧
    i ∈ y.line ∧ (.wait k ∈ todo ∨ .halt y.path ∈ todo)

/-- A task has listed the rows below it. -/
def Scanned (inst : Inst) : Prop := 3 ≤ inst.pc.rank ∧ inst.pc ≠ .stopping [.scan inst.path]

structure Sweeping (w : World) : Prop where
  filed : Filed w
  below : ∀ (j : Nat) (x : Inst) (i : Nat), w.insts[j]? = some x → i ∈ x.line →
    ∃ inst : Inst, w.insts[i]? = some inst ∧ x.path.under inst.path = true
  accounts : ∀ (i : Nat) (inst : Inst), w.insts[i]? = some inst → Scanned inst →
    ∀ (j : Nat) (x : Inst), w.insts[j]? = some x → i ∈ x.line → Accounted w inst.pc.todo i j x

theorem sweeping_init : Sweeping World.init := ⟨filed_init, nofun, nofun⟩

section Preservation

variable {w w' : World} {i j : Nat} {inst x x' : Inst} {todo : List Work}

theorem Accounted.older (hold : Older w w') (hx : w.insts[j]? = some x)
    (hx' : w'.insts[j]? = some x') (h : Accounted w todo i j x) : Accounted w' todo i j x' := by
  obtain ⟨x₀, hx₀, -, hline, hrank⟩ := hold.back j x' hx'
  cases hx.symm.trans hx₀
  rcases h with hretired | ⟨k, y, hy, hk, hi, hitem⟩
  · exact Or.inl (Nat.le_trans hretired hrank)
  · obtain ⟨y', hy', hpath, hline', -⟩ := hold.get hy
    exact Or.inr ⟨k, y', hy', hline ▸ hk, hline' ▸ hi, hpath ▸ hitem⟩

/-- Instances go forward, and every task that has scanned had, and had as much left
to do, or accounts for everybody anew. -/
theorem Sweeping.older (h : Sweeping w) (hold : Older w w') (hfiled : Filed w')
    (htasks : ∀ (i : Nat) (inst' : Inst), w'.insts[i]? = some inst' → Scanned inst' →
      (∃ inst, w.insts[i]? = some inst ∧ Scanned inst ∧ inst'.pc.todo = inst.pc.todo) ∨
        ∀ (j : Nat) (x : Inst), w.insts[j]? = some x → i ∈ x.line →
          Accounted w inst'.pc.todo i j x) : Sweeping w' := by
  refine ⟨hfiled, ?_, ?_⟩
  · intro j x' i hx' hi
    obtain ⟨x, hx, hpath, hline, -⟩ := hold.back j x' hx'
    obtain ⟨inst, hinst, hunder⟩ := h.below j x i hx (hline ▸ hi)
    obtain ⟨inst', hinst', hpath', -⟩ := hold.get hinst
    exact ⟨inst', hinst', by rw [hpath, hpath']; exact hunder⟩
  · intro i inst' hinst' hscanned j x' hx' hi
    obtain ⟨x, hx, -, hline, -⟩ := hold.back j x' hx'
    refine Accounted.older hold hx hx' ?_
    rcases htasks i inst' hinst' hscanned with ⟨inst, hinst, hpast, htodo⟩ | hall
    · rw [htodo]
      exact h.accounts i inst hinst hpast j x hx (hline ▸ hi)
    · exact hall j x hx (hline ▸ hi)

theorem not_stopping (hended : inst.Ended) (todo : List Work) : inst.pc ≠ .stopping todo := by
  intro hpc
  rw [Inst.Ended, hpc] at hended
  exact Nat.not_succ_le_self 3 (Nat.le_of_succ_le hended)

/-- Whoever has ended, everybody it accounts for has retired. -/
theorem Sweeping.settled (h : Sweeping w) (hi : w.insts[i]? = some inst) (hended : inst.Ended) :
    Settled w i := by
  intro j hj y hy hbelow
  rcases hbelow with rfl | hline
  · cases hi.symm.trans hy
    exact Nat.le_trans (by decide) hended
  · have hpc := not_stopping hended
    have hscanned : Scanned inst := ⟨Nat.le_trans (by decide) hended, hpc _⟩
    have htodo : inst.pc.todo = [] := by
      cases hinst : inst.pc with
      | stopping todo => exact absurd hinst (hpc todo)
      | starting | serving | retiring | actorDropped | ended | gone => rfl
    rcases h.accounts i inst hi hscanned j y hy hline with hretired | ⟨k, z, -, -, -, hitem⟩
    · exact hretired
    · rw [htodo] at hitem
      rcases hitem with hitem | hitem <;> cases hitem

theorem Settled.retired {k : Nat} (h : Settled w k) (hx : w.insts[j]? = some x)
    (hbelow : j = k ∨ k ∈ x.line) : 3 ≤ x.pc.rank :=
  h j (List.getElem?_eq_some_iff.mp hx).1 x hx hbelow

/-- One thing done for `i`, which finds whom it is for. -/
theorem Accounted.performs {item : Work} {next rest : List Work} {w₁ : World}
    {taken : Option Nat} (h : Sweeping w) (hdone : Performs w item next w₁ taken)
    (hfinds : item.Finds w i) (hx : w.insts[j]? = some x)
    (hold : Accounted w (item :: rest) i j x) : Accounted w (next ++ rest) i j x := by
  rcases hold with hretired | ⟨k, y, hy, hbelow, hi, hitem⟩
  · exact Or.inl hretired
  have hlt := (List.getElem?_eq_some_iff.mp hy).1
  -- what is left after this item is still left
  have hrest : .wait k ∈ rest ∨ .halt y.path ∈ rest → Accounted w (next ++ rest) i j x :=
    fun hmem => Or.inr ⟨k, y, hy, hbelow, hi, hmem.imp (List.mem_append_right next)
      (List.mem_append_right next)⟩
  rw [List.mem_cons, List.mem_cons] at hitem
  rcases hitem with (rfl | hmem) | (rfl | hmem)
  · cases hdone with
    | wait hended =>
        rw [World.endedAt, hy] at hended
        exact Or.inl
          ((h.settled hy (of_decide_eq_true hended)).retired hx (hbelow.imp_left Eq.symm))
  · exact hrest (Or.inl hmem)
  · rcases hfinds k hlt y hy hi rfl with hrow | hsettled
    · cases hdone with
      | missing hlook =>
          rw [Registered, hlook] at hrow
          cases hrow
      | halt hlook =>
          rw [Registered, hlook] at hrow
          cases hrow
          exact Or.inr ⟨_, y, hy, hbelow, hi, Or.inl (by simp)⟩
    · exact Or.inl (hsettled.retired hx (hbelow.imp_left Eq.symm))
  · exact hrest (Or.inr hmem)

/-- The scan puts everybody below who has not retired on the list. -/
theorem Sweeping.scanned (h : Sweeping w) (hi : w.insts[i]? = some inst)
    {order : List ActorPath} (horder : order.Perm (w.live.doomed inst.path))
    (hfinds : (Work.scan inst.path).Finds w i) (hx : w.insts[j]? = some x) (hline : i ∈ x.line) :
    Accounted w (order.map .halt) i j x := by
  by_cases hrank : x.pc.rank ≤ 2
  · have hrow := hfinds j (List.getElem?_eq_some_iff.mp hx).1 x hx hline hrank
    obtain ⟨entry, hlook, -⟩ := Option.map_eq_some_iff.mp hrow
    obtain ⟨inst', hinst', hunder⟩ := h.below j x i hx hline
    cases hi.symm.trans hinst'
    have hdoomed : x.path ∈ w.live.doomed inst.path :=
      Live.mem_doomed.mpr ⟨by rw [hlook]; rfl, hunder⟩
    exact Or.inr ⟨j, x, hx, Or.inl rfl, hline,
      Or.inr (List.mem_map_of_mem (horder.symm.subset hdoomed))⟩
  · exact Or.inl (Nat.lt_of_not_le hrank)

theorem rank_of_active {pc : Pc} (h : pc.active = true) : ¬ 3 ≤ pc.rank := by
  cases pc with
  | starting | serving => decide
  | retiring | stopping _ | actorDropped | ended | gone => cases h

/-- The creator of a new instance runs, so it has not scanned; and whoever will come
to the creator, or to one above it, thereby comes to the new one. -/
theorem sweeping_spawn {line : List Nat} {path : ActorPath} {command : TypeId} (h : Sweeping w)
    (hfiled : Filed (w.spawn line path command))
    (hmade : line = [] ∨ ∃ (p : Nat) (parent : Inst) (name : String), w.insts[p]? = some parent ∧
      parent.pc.active = true ∧ line = p :: parent.line ∧ path = parent.path.child name) :
    Sweeping (w.spawn line path command) := by
  refine ⟨hfiled, ?_, ?_⟩
  · intro j x i hx hi
    rcases getElem?_spawn hx with hx | ⟨rfl, rfl⟩
    · obtain ⟨inst, hinst, hunder⟩ := h.below j x i hx hi
      exact ⟨inst, getElem?_spawn_left hinst, hunder⟩
    · rcases hmade with rfl | ⟨p, parent, name, hp, -, rfl, rfl⟩
      · cases hi
      · rcases List.mem_cons.mp hi with rfl | hi
        · exact ⟨parent, getElem?_spawn_left hp, under_child ..⟩
        · obtain ⟨inst, hinst, hunder⟩ := h.below p parent i hp hi
          exact ⟨inst, getElem?_spawn_left hinst, under_trans (under_child ..) hunder⟩
  · intro i inst hinst hscanned j x hx hi
    rcases getElem?_spawn hinst with hold | ⟨-, rfl⟩
    · rcases getElem?_spawn hx with hx | ⟨rfl, rfl⟩
      · exact (h.accounts i inst hold hscanned j x hx hi).imp_right
          fun ⟨k, y, hy, hrest⟩ => ⟨k, y, getElem?_spawn_left hy, hrest⟩
      · rcases hmade with rfl | ⟨p, parent, name, hp, hactive, rfl, rfl⟩
        · cases hi
        · have hrank := rank_of_active hactive
          rcases List.mem_cons.mp hi with rfl | hi
          · cases hold.symm.trans hp
            exact absurd hscanned.1 hrank
          · rcases h.accounts i inst hold hscanned p parent hp hi with
              hretired | ⟨k, y, hy, hbelow, hrest⟩
            · exact absurd hretired hrank
            · exact Or.inr ⟨k, y, getElem?_spawn_left hy, Or.inr (List.mem_cons.mpr hbelow), hrest⟩
    · exact absurd hscanned.1 (Nat.not_succ_le_zero 2)

/-- Only the task of `i` has got further. -/
theorem tasks_of_setPc {pc : Pc} (hi : w.insts[i]? = some inst)
    (hself : Scanned { inst with pc := pc } →
      (Scanned inst ∧ pc.todo = inst.pc.todo) ∨
        ∀ (j : Nat) (x : Inst), w.insts[j]? = some x → i ∈ x.line → Accounted w pc.todo i j x)
    (k : Nat) (y' : Inst) (hy' : (w.setPc i pc).insts[k]? = some y') (hscanned : Scanned y') :
    (∃ y, w.insts[k]? = some y ∧ Scanned y ∧ y'.pc.todo = y.pc.todo) ∨
      ∀ (j : Nat) (x : Inst), w.insts[j]? = some x → k ∈ x.line → Accounted w y'.pc.todo k j x := by
  obtain ⟨y, hy, rfl⟩ := getElem?_modify_some hy'
  by_cases hik : i = k
  · subst hik
    cases hi.symm.trans hy
    rw [if_pos rfl] at hscanned ⊢
    exact (hself hscanned).imp_left fun ⟨hpast, htodo⟩ => ⟨inst, hi, hpast, htodo⟩
  · rw [if_neg hik] at hscanned ⊢
    exact Or.inl ⟨y, hy, hscanned, rfl⟩

end Preservation

theorem made_of_creates {w w' : World} {a : Label} {line : List Nat} {path : ActorPath}
    (ha : creates w a = some (line, path)) (hs : step w a = some w') :
    line = [] ∨ ∃ (p : Nat) (parent : Inst) (name : String), w.insts[p]? = some parent ∧
      parent.pc.active = true ∧ line = p :: parent.line ∧ path = parent.path.child name := by
  cases a with
  | create parent name command =>
      cases ha
      exact Or.inl rfl
  | createChild p name command =>
      obtain ⟨parent, hp, heq⟩ := Option.map_eq_some_iff.mp ha
      cases heq
      simp only [step, hp] at hs
      split at hs
      · exact Or.inr ⟨p, parent, name, hp, ‹_›, rfl, rfl⟩
      · cases hs
  | _ => cases ha

/-- On its own a task goes on from the end of its list only. -/
theorem Goes.todo {i : Nat} {a : Label} {pc pc' : Pc} (h : Goes i a pc pc')
    (hrank : 3 ≤ pc'.rank) :
    3 ≤ pc.rank ∧ (∀ path, pc ≠ .stopping [.scan path]) ∧ pc'.todo = pc.todo := by
  cases h with
  | started | leave => exact absurd hrank (by decide)
  | dropActor | dropEnded | closeMailbox => exact ⟨by decide, nofun, rfl⟩

theorem sweeping_step (w : World) (a : Label) (w' : World) (h : Sweeping w)
    (hnone : NonePassed w a) (hs : step w a = some w') : Sweeping w' := by
  have hmoves := step_moves hs
  have hfiled := filed_step h.filed hmoves
  have holder := hmoves.older
  cases hmoves with
  | kept ha => exact h
  | setServing | stop =>
      exact h.older (.of_insts rfl) hfiled fun i inst hi hscanned =>
        Or.inl ⟨inst, hi, hscanned, rfl⟩
  | spawn ha hfree => exact sweeping_spawn h hfiled (made_of_creates ha hs)
  | @goes a i inst pc hi hgo =>
      refine h.older (older_setPc hi rfl hgo.rank_le) hfiled
        (tasks_of_setPc hi fun hscanned => Or.inl ?_)
      obtain ⟨hrank, hpc, htodo⟩ := hgo.todo hscanned.1
      exact ⟨⟨hrank, hpc _⟩, htodo⟩
  | @retire i inst hi hpc =>
      refine h.older (older_setPc hi rfl (by rw [hpc]; exact Nat.le_succ 2)) hfiled
        (tasks_of_setPc hi fun hscanned => ?_)
      exact absurd rfl hscanned.2
  | @task i order inst item rest next w₁ taken hi hpc hdone =>
      have hfinds : item.Finds w i := hnone inst hi item (by rw [hpc]; rfl)
      have hold := holder.resolve_right fun ⟨_, _, _, ha, _⟩ => by cases ha
      refine h.older hold hfiled fun k y' hy' hscanned => ?_
      obtain ⟨y₁, hy₁, rfl⟩ := getElem?_modify_some hy'
      obtain ⟨y, hy, hpath, hpcs⟩ := hdone.back hy₁
      by_cases hik : i = k
      · subst hik
        cases hi.symm.trans hy
        rw [if_pos rfl]
        right
        intro j x hx hline
        by_cases hfirst : inst.pc = .stopping [.scan inst.path]
        · rw [hpc] at hfirst
          cases hfirst
          cases hdone with
          | scan horder =>
              rw [List.append_nil]
              exact h.scanned hi horder hfinds hx hline
        · have haccounted := h.accounts i inst hi ⟨by rw [hpc]; exact Nat.le_refl 3, hfirst⟩ j x
            hx hline
          rw [hpc] at haccounted
          exact haccounted.performs h hdone hfinds hx
      · rw [if_neg hik] at hscanned ⊢
        refine Or.inl ⟨y, hy, ⟨hpcs ▸ hscanned.1, ?_⟩, by rw [hpcs]⟩
        rw [← hpcs, ← hpath]
        exact hscanned.2
  | @call k order call item rest next w₁ taken hk htodo hdone =>
      have hold := holder.resolve_right fun ⟨_, _, _, ha, _⟩ => by cases ha
      refine h.older hold hfiled fun i y' hy' hscanned => ?_
      obtain ⟨y, hy, hpath, hpcs⟩ := hdone.back hy'
      refine Or.inl ⟨y, hy, ⟨hpcs ▸ hscanned.1, ?_⟩, by rw [hpcs]⟩
      rw [← hpcs, ← hpath]
      exact hscanned.2

/-! ## The result -/

theorem Sweeping.childrenTaken {w : World} (h : Sweeping w) : ChildrenTaken w := by
  have hnone : ∀ (i : Nat) (inst : Inst), w.insts[i]? = some inst → inst.Ended →
      ∀ path entry (x : Inst), w.live.lookup path = some entry →
        w.insts[entry.inst]? = some x → i ∉ x.line := by
    intro i inst hi hended path entry x hlook hx hline
    obtain ⟨y, hy, -, hrank⟩ := h.filed path entry hlook
    cases hx.symm.trans hy
    exact Nat.not_succ_le_self 2
      (Nat.le_trans ((h.settled hi hended).retired hx (Or.inr hline)) hrank)
  constructor
  · intro i inst hi hended path entry x hlook _ hx
    exact hnone i inst hi hended path entry x hlook hx
  · intro i j inst other hi hended hj hpath name command k live hok x hx
    rcases Live.getOrCreate_ok hok with ⟨hlook, -, -⟩ | ⟨rfl, -⟩
    · exact hnone i inst hi hended _ _ x hlook hx
    · rw [List.getElem?_eq_none (Nat.le_refl _)] at hx
      cases hx

theorem sweeping_event (w : World) (e : Event) (w' : World) (h : Sweeping w) (hC : Attended w e)
    (hs : stepOrPanic w e = some w') : Sweeping w' := by
  cases e with
  | act a => exact sweeping_step w a w' h hC hs
  | panic i => cases hC

/-- **An actor takes its children with it**, in every run without panics in which no
stopping task passes over anybody. -/
theorem childrenTaken_of_attended (l : List Event) (w : World)
    (hrun : Schedule.run stepOrPanic World.init l = some w)
    (hC : Schedule.Along stepOrPanic Attended World.init l) : ChildrenTaken w :=
  (Schedule.run_invariant sweeping_event l sweeping_init hC hrun).childrenTaken

/-- An actor with a child and a grandchild stops, and is created again. -/
def takenAlong : List Event :=
  [.create ActorPath.root "p" 0, .started 0, .createChild 0 "c" 0, .started 1,
    .createChild 1 "d" 0, .leave 0, .retire 0, .task 0 [⟨["p", "c", "d"]⟩, ⟨["p", "c"]⟩],
    .task 0 [], .task 0 [], .leave 2, .retire 2, .task 2 [], .dropActor 2, .dropEnded 2,
    .task 0 [], .task 0 [], .task 0 [], .leave 1, .retire 1, .task 1 [], .dropActor 1,
    .dropEnded 1, .task 0 [], .dropActor 0, .dropEnded 0, .create ActorPath.root "p" 0].map .act

theorem childrenTaken_takenAlong :
    ∃ w, Schedule.run stepOrPanic World.init takenAlong = some w ∧ w.insts.length = 4 ∧
      ChildrenTaken w :=
  ⟨_, rfl, rfl, childrenTaken_of_attended takenAlong _ rfl (by decide)⟩

/-- An actor with a child panics, and is created again. -/
def panicked : List Event :=
  [.act (.create ActorPath.root "p" 0), .act (.started 0), .act (.createChild 0 "c" 0), .panic 0,
    .act (.create ActorPath.root "p" 0)]

/-- A stop has taken the child's row; the child has not noticed when its parent has
ended, and creates one more. -/
def passedOver : List Event :=
  [.create ActorPath.root "p" 0, .started 0, .createChild 0 "c" 0, .started 1,
    .stop ⟨["p", "c"]⟩, .call 0 [], .leave 0, .retire 0, .task 0 [], .dropActor 0, .dropEnded 0,
    .createChild 1 "d" 0].map .act

/-- Nobody panics. -/
def Calm (_ : World) : Event → Prop
  | .act _ => True
  | .panic _ => False

instance (w : World) : ∀ e : Event, Decidable (Calm w e)
  | .act _ => isTrue trivial
  | .panic _ => isFalse id

/-- A panic leaves the children to the next instance at the path; and a child
whose row is gone can leave one behind without any. -/
theorem children_left_behind :
    (¬ ∀ (l : List Event) (w : World), Schedule.run stepOrPanic World.init l = some w →
      ChildrenTaken w) ∧
    ¬ ∀ (l : List Event) (w : World), Schedule.run stepOrPanic World.init l = some w →
      Schedule.Along stepOrPanic Calm World.init l → ChildrenTaken w := by
  constructor
  · intro hall
    have hnot := (hall panicked _ rfl).notReceived 0 2 _ _ rfl (by decide) rfl rfl "c" 0 1 _ rfl
      _ rfl
    exact hnot (by decide)
  · intro hall
    have hnot := (hall passedOver _ rfl (by decide)).noRow 0 _ rfl (by decide) ⟨["p", "c", "d"]⟩
      _ _ rfl (by decide) rfl
    exact hnot (by decide)

end HorsieActor.Ports.Lifecycle
