import HorsieActor.Ports.Lifecycle

/-!
# Whose children a stopping actor takes with it

`run_actor` takes an actor's row out of the registry and then scans for rows
under its path; `stop_at` halts the actor at a path and then does the same.
Ownership is by path, so whatever has been filed under that path since is taken
down as well: the children of the instance that replaced it, or of anybody else.

`haltsOwn_of_clearGround` is what does hold.  When every instance is created
under none but its own ancestors — counting every instance that has not ended
and every one a `stop_at` is still busy with — and over nothing that has not
ended, then an instance taken out on account of a stopping one was created by it
or by a descendant of it.
-/

namespace HorsieActor.Ports.Lifecycle

open HorsieActor.Verified

/-! ## The property -/

/-- Whoever was taken out on account of a stopping instance was created by it
or by a descendant of it. -/
def HaltsOwn (w : World) : Prop :=
  ∀ entry ∈ w.halted, ∃ inst, w.insts[entry.2]? = some inst ∧ entry.1 ∈ inst.line

/-- The instance has not ended, or a `stop_at` that took it out has not
returned. -/
def Busy (w : World) (z : Nat) : Prop :=
  w.endedAt z = false ∨ ∃ call ∈ w.calls, call.target = some z ∧ call.todo ≠ []

instance (w : World) (z : Nat) : Decidable (Busy w z) :=
  inferInstanceAs (Decidable (_ = false ∨ ∃ call ∈ w.calls, _ ∧ _))

/-- An instance is created only under instances that are its ancestors or are
done with, and over instances that have ended. -/
def ClearGround (w : World) (a : Label) : Prop :=
  ∀ made ∈ creates w a, Free w made.2 →
    (∀ z < w.insts.length, ∀ inst ∈ w.insts[z]?, Busy w z →
      made.2.under inst.path = true → z ∈ made.1) ∧
    ∀ inst ∈ w.insts, inst.path.under made.2 = true → inst.Ended

instance (w : World) (a : Label) : Decidable (ClearGround w a) :=
  inferInstanceAs (Decidable (∀ made ∈ creates w a, _ → _))

/-! ## The invariant -/

/-- What is left to do concerns nothing but what is under `base`. -/
def Within (base : ActorPath) : Work → Prop
  | .halt path => path.under base = true
  | .scan path => path = base
  | .raise _ | .wait _ => True

/-- A task in `stop_descendants` is about what is under its own path. -/
def TasksWithin (w : World) : Prop :=
  ∀ (i : Nat) (inst : Inst) (todo : List Work), w.insts[i]? = some inst →
    inst.pc = .stopping todo → ∀ item ∈ todo, Within inst.path item

/-- A `stop_at` call is about its path and what is under it. -/
def CallsWithin (w : World) : Prop :=
  ∀ call ∈ w.calls, ∀ item ∈ call.todo, item = .halt call.path ∨ Within call.path item

structure Kin (w : World) : Prop where
  filed : Filed w
  /-- Whoever is under a busy instance descends from it. -/
  descends : ∀ {z x : Nat} {zi xi : Inst}, w.insts[z]? = some zi → w.insts[x]? = some xi →
    Busy w z → ¬ xi.Ended → xi.path.under zi.path = true → z ∈ xi.line
  tasks : TasksWithin w
  calls : CallsWithin w
  targets : ∀ call ∈ w.calls, ∀ z, call.target = some z →
    ∃ inst, w.insts[z]? = some inst ∧ inst.path = call.path
  own : HaltsOwn w

section Preservation

variable {w w' : World} {i z : Nat} {inst : Inst}

theorem endedAt_eq_false_iff :
    w.endedAt z = false ↔ ∃ inst, w.insts[z]? = some inst ∧ ¬ inst.Ended := by
  unfold World.endedAt
  cases w.insts[z]? with
  | none => simp
  | some inst => simp

theorem Older.not_ended (hold : Older w w') (h : w'.endedAt z = false) : w.endedAt z = false := by
  obtain ⟨x', hx', hnot⟩ := endedAt_eq_false_iff.mp h
  obtain ⟨x, hx, -, -, hrank⟩ := hold.back z x' hx'
  exact endedAt_eq_false_iff.mpr ⟨x, hx, fun hended => hnot (Nat.le_trans hended hrank)⟩

theorem HaltsOwn.older (h : HaltsOwn w) (hold : Older w w') :
    ∀ entry ∈ w.halted, ∃ inst, w'.insts[entry.2]? = some inst ∧ entry.1 ∈ inst.line := by
  intro entry hmem
  obtain ⟨x, hx, hline⟩ := h entry hmem
  obtain ⟨x', hx', -, hline', -⟩ := hold.get hx
  exact ⟨x', hx', hline' ▸ hline⟩

/-- A step that creates nothing and makes nobody busy. -/
theorem Kin.older (h : Kin w) (hold : Older w w') (hfiled : Filed w')
    (hbusy : ∀ call ∈ w'.calls, ∀ z, call.target = some z → call.todo ≠ [] → Busy w z)
    (htasks : TasksWithin w')
    (hcalls : CallsWithin w')
    (htargets : ∀ call ∈ w'.calls, ∀ z, call.target = some z →
      ∃ inst, w.insts[z]? = some inst ∧ inst.path = call.path)
    (hown : HaltsOwn w') : Kin w' where
  filed := hfiled
  descends := by
    intro z x zi' xi' hz hx hb hnot hunder
    obtain ⟨zi, hz, hzpath, -, -⟩ := hold.back z zi' hz
    obtain ⟨xi, hx, hxpath, hxline, hxrank⟩ := hold.back x xi' hx
    have hb' : Busy w z := by
      rcases hb with hend | ⟨call, hcall, htarget, htodo⟩
      · exact Or.inl (hold.not_ended hend)
      · exact hbusy call hcall z htarget htodo
    rw [hxpath, hzpath] at hunder
    rw [hxline]
    exact h.descends hz hx hb' (fun hended => hnot (Nat.le_trans hended hxrank)) hunder
  tasks := htasks
  calls := hcalls
  targets := by
    intro call hcall z htarget
    obtain ⟨x, hx, hpath⟩ := htargets call hcall z htarget
    obtain ⟨x', hx', hpath', -, -⟩ := hold.get hx
    exact ⟨x', hx', hpath'.trans hpath⟩
  own := hown

theorem kin_init : Kin World.init where
  filed := filed_init
  descends := nofun
  tasks := nofun
  calls := nofun
  targets := nofun
  own := nofun

theorem busy_of_call (hcalls : w'.calls = w.calls) :
    ∀ call ∈ w'.calls, ∀ z, call.target = some z → call.todo ≠ [] → Busy w z :=
  fun call hcall _ htarget htodo => Or.inr ⟨call, hcalls ▸ hcall, htarget, htodo⟩

theorem under_irrefl (path : ActorPath) : path.under path ≠ true := by
  simp [ActorPath.under]

/-- Creating an instance on clear ground. -/
theorem kin_spawn {line : List Nat} {path : ActorPath} {command : TypeId} (h : Kin w)
    (hfiled : Filed (w.spawn line path command))
    (htasks : TasksWithin (w.spawn line path command))
    (habove : ∀ z < w.insts.length, ∀ inst ∈ w.insts[z]?, Busy w z →
      path.under inst.path = true → z ∈ line)
    (hbelow : ∀ inst ∈ w.insts, inst.path.under path = true → inst.Ended) :
    Kin (w.spawn line path command) := by
  have hbusy : ∀ {z : Nat} {zi : Inst}, w.insts[z]? = some zi →
      Busy (w.spawn line path command) z → Busy w z := by
    rintro z zi hz (hend | hcall)
    · left
      obtain ⟨y, hy, hyend⟩ := endedAt_eq_false_iff.mp hend
      rw [getElem?_spawn_left hz] at hy
      cases hy
      exact endedAt_eq_false_iff.mpr ⟨zi, hz, hyend⟩
    · exact Or.inr hcall
  refine ⟨hfiled, ?_, htasks, h.calls, ?_, ?_⟩
  · -- the new instance may be the one above, the one below, or neither
    intro z x zi xi hz hx hb hnot hunder
    rcases getElem?_spawn hx with hx | ⟨-, rfl⟩
    · rcases getElem?_spawn hz with hz | ⟨-, rfl⟩
      · exact h.descends hz hx (hbusy hz hb) hnot hunder
      · exact absurd (hbelow xi (List.mem_of_getElem? hx) hunder) hnot
    · rcases getElem?_spawn hz with hz | ⟨-, rfl⟩
      · exact habove z (List.getElem?_eq_some_iff.mp hz).1 zi hz (hbusy hz hb) hunder
      · exact absurd hunder (under_irrefl path)
  · intro call hcall z htarget
    obtain ⟨y, hy, hpath⟩ := h.targets call hcall z htarget
    exact ⟨y, getElem?_spawn_left hy, hpath⟩
  · intro entry hmem
    obtain ⟨y, hy, hline⟩ := h.own entry hmem
    exact ⟨y, getElem?_spawn_left hy, hline⟩

end Preservation

/-! ## Doing the work -/

section Working

variable {w w₁ : World} {item : Work} {next : List Work} {taken : Option Nat} {base : ActorPath}

/-- Only a `halt` takes an instance out, and the row said which. -/
theorem Performs.taken_eq {x : Nat} (h : Performs w item next w₁ (some x)) :
    ∃ path command, item = .halt path ∧ w.live.lookup path = some ⟨command, x⟩ := by
  cases h with
  | @halt path entry hlook => exact ⟨path, entry.command, rfl, hlook⟩

/-- The work an item leaves stays under the same path. -/
theorem Performs.within (h : Performs w item next w₁ taken)
    (hitem : item = .halt base ∨ Within base item) : ∀ it ∈ next, Within base it := by
  cases h with
  | missing | raise | wait => nofun
  | halt hlook =>
      intro it hit
      rcases List.mem_cons.mp hit with rfl | hit
      · trivial
      · cases List.mem_singleton.mp hit
        trivial
  | scan hperm =>
      rcases hitem with hitem | rfl
      · cases hitem
      · intro it hit
        obtain ⟨q, hq, rfl⟩ := List.mem_map.mp hit
        exact (Live.mem_doomed.mp (hperm.subset hq)).2

/-- An instance taken out from under a busy one descends from it. -/
theorem Kin.of_taken (h : Kin w) {x z : Nat} {zi : Inst} (hdone : Performs w item next w₁ (some x))
    (hitem : Within base item) (hz : w.insts[z]? = some zi) (hpath : zi.path = base)
    (hbusy : Busy w z) : ∃ xi, w.insts[x]? = some xi ∧ z ∈ xi.line := by
  obtain ⟨path, command, rfl, hlook⟩ := hdone.taken_eq
  obtain ⟨xi, hx, rfl, hrank⟩ := h.filed path _ hlook
  refine ⟨xi, hx, h.descends hz hx hbusy ?_ (hpath ▸ hitem)⟩
  intro hended
  exact absurd (Nat.le_trans hended hrank) (by decide)

end Working

/-! ## Steps and runs -/

section Step

variable {w w' : World}

theorem tasks_setPc {i : Nat} {inst : Inst} {pc : Pc} (h : TasksWithin w)
    (hi : w.insts[i]? = some inst)
    (hpc : ∀ todo, pc = .stopping todo → ∀ item ∈ todo, Within inst.path item) :
    TasksWithin (w.setPc i pc) := by
  intro j y todo hj hy
  obtain ⟨x, hx, rfl⟩ := getElem?_modify_some hj
  by_cases hij : i = j
  · subst hij
    rw [hi] at hx
    cases hx
    simp only [if_true] at hy ⊢
    exact hpc todo hy
  · simp only [hij, if_false] at hy ⊢
    exact h j x todo hx hy

/-- What a task does changes no other task's plans. -/
theorem Performs.tasks {item : Work} {next : List Work} {taken : Option Nat}
    (h : Performs w item next w' taken) (htasks : TasksWithin w) : TasksWithin w' := by
  intro j y todo hj hy
  obtain ⟨x, hx, hpath, hpc⟩ := h.back hj
  rw [hpath]
  exact htasks j x todo hx (hpc ▸ hy)

theorem tasksWithin_step {a : Label} (h : TasksWithin w) (hm : Moves w a w') : TasksWithin w' := by
  cases hm with
  | setServing | kept | stop => exact h
  | spawn ha hfree =>
      intro j y todo hj hpc
      rcases getElem?_spawn hj with hj | ⟨-, rfl⟩
      · exact h j y todo hj hpc
      · cases hpc
  | @goes a i inst pc hi hgo =>
      refine tasks_setPc h hi ?_
      rintro todo rfl
      generalize inst.pc = old at hgo
      cases hgo
  | @retire i inst hi hpc =>
      refine tasks_setPc h hi ?_
      rintro todo ⟨⟩ item hitem
      cases List.mem_singleton.mp hitem
      rfl
  | @task i order inst item rest next w₁ taken hi hpc hdone =>
      obtain ⟨x, hx, hxpath, -, -⟩ := hdone.inst hi
      have hwithin := h i inst _ hi hpc
      refine tasks_setPc (hdone.tasks h) hx ?_
      rintro todo ⟨⟩ it hit
      rw [hxpath]
      rcases List.mem_append.mp hit with hnext | hrest
      · exact hdone.within (Or.inr (hwithin item (List.mem_cons_self ..))) it hnext
      · exact hwithin it (List.mem_cons_of_mem _ hrest)
  | call hk htodo hdone => exact hdone.tasks h

theorem callsWithin_step {a : Label} (h : CallsWithin w) (hm : Moves w a w') : CallsWithin w' := by
  cases hm with
  | setServing | kept | spawn | goes | retire => exact h
  | task hi hpc hdone => exact fun call hcall => h call (hdone.frame.1 ▸ hcall)
  | stop =>
      intro call hcall item hitem
      rcases List.mem_append.mp hcall with hcall | hnew
      · exact h call hcall item hitem
      · cases List.mem_singleton.mp hnew
        rcases List.mem_cons.mp hitem with rfl | hitem
        · exact Or.inl rfl
        · cases List.mem_singleton.mp hitem
          exact Or.inr rfl
  | @call k order call item rest next w₁ taken hk htodo hdone =>
      have hwithin := h call (List.mem_of_getElem? hk)
      rw [htodo] at hwithin
      intro c hc it hit
      rcases List.mem_or_eq_of_mem_set hc with hc | rfl
      · exact h c (hdone.frame.1 ▸ hc) it hit
      · rcases List.mem_append.mp hit with hnext | hrest
        · exact Or.inr (hdone.within (hwithin item (List.mem_cons_self ..)) it hnext)
        · exact hwithin it (List.mem_cons_of_mem _ hrest)

theorem kin_step (w : World) (a : Label) (w' : World) (h : Kin w) (hclear : ClearGround w a)
    (hstep : step w a = some w') : Kin w' := by
  have hmoves := step_moves hstep
  have hfiled := filed_step h.filed hmoves
  have holder := hmoves.older_of_none
  have htasks := tasksWithin_step h.tasks hmoves
  have hcalls := callsWithin_step h.calls hmoves
  cases hmoves with
  | setServing =>
      exact h.older (.of_insts rfl) h.filed (busy_of_call rfl) htasks hcalls h.targets h.own
  | kept ha => exact h
  | spawn ha hfree =>
      obtain ⟨habove, hbelow⟩ := hclear _ ha hfree
      exact kin_spawn h hfiled htasks habove hbelow
  | @goes a i inst pc hi hgo =>
      have hold : Older w (w.setPc i pc) := older_setPc hi rfl hgo.rank_le
      exact h.older hold hfiled (busy_of_call rfl) htasks hcalls h.targets (h.own.older hold)
  | @retire i inst hi hpc =>
      have hold := holder rfl
      exact h.older hold hfiled (busy_of_call rfl) htasks hcalls h.targets (h.own.older hold)
  | stop =>
      refine h.older (.of_insts rfl) h.filed ?_ htasks hcalls ?_ h.own
      · intro call hcall z htarget htodo
        rcases List.mem_append.mp hcall with hcall | hnew
        · exact Or.inr ⟨call, hcall, htarget, htodo⟩
        · cases List.mem_singleton.mp hnew
          cases htarget
      · intro call hcall z htarget
        rcases List.mem_append.mp hcall with hcall | hnew
        · exact h.targets call hcall z htarget
        · cases List.mem_singleton.mp hnew
          cases htarget
  | @task i order inst item rest next w₁ taken hi hpc hdone =>
      have hold := holder rfl
      have hitem := h.tasks i inst _ hi hpc item (List.mem_cons_self ..)
      refine h.older hold hfiled (busy_of_call hdone.frame.1) htasks hcalls ?_ ?_
      · exact fun call hcall => h.targets call (hdone.frame.1 ▸ hcall)
      · have hbusy : Busy w i := by
          refine Or.inl (endedAt_eq_false_iff.mpr ⟨inst, hi, fun hended => ?_⟩)
          rw [Inst.Ended, hpc] at hended
          exact absurd hended (by decide : ¬ 5 ≤ 3)
        intro entry hmem
        rcases List.mem_append.mp hmem with hentry | hnew
        · exact h.own.older hold entry (hdone.frame.2 ▸ hentry)
        · cases taken with
          | none => cases hnew
          | some t =>
              cases List.mem_singleton.mp hnew
              obtain ⟨xi, hxi, hline⟩ := h.of_taken hdone hitem hi rfl hbusy
              obtain ⟨xi', hxi', -, hline', -⟩ := hold.get hxi
              exact ⟨xi', hxi', hline' ▸ hline⟩
  | @call k order call item rest next w₁ taken hk htodo hdone =>
      have hmem := List.mem_of_getElem? hk
      have hold := holder rfl
      have hbusy : ∀ z, call.target = some z → Busy w z :=
        fun z htarget => Or.inr ⟨call, hmem, htarget, by rw [htodo]; exact List.cons_ne_nil _ _⟩
      have hitem := h.calls call hmem item (by rw [htodo]; exact List.mem_cons_self ..)
      -- the target the step leaves the call with is one it had or one just taken out
      have htarget : ∀ z, (call.after item (next ++ rest) taken).target = some z →
          Busy w z ∧ ∃ inst, w.insts[z]? = some inst ∧ inst.path = call.path := by
        intro z hz
        unfold StopCall.after at hz
        split at hz
        · rename_i hown
          subst hz
          obtain ⟨path, command, heq, hlook⟩ := hdone.taken_eq
          rw [hown] at heq
          cases heq
          obtain ⟨xi, hxi, hpath, hrank⟩ := h.filed _ _ hlook
          refine ⟨Or.inl (endedAt_eq_false_iff.mpr ⟨xi, hxi, fun hended => ?_⟩), xi, hxi, hpath⟩
          exact absurd (Nat.le_trans hended hrank) (by decide)
        · exact ⟨hbusy z hz, h.targets call hmem z hz⟩
      have hset : ∀ {c : StopCall}, c ∈ w₁.calls.set k (call.after item (next ++ rest) taken) →
          c ∈ w.calls ∨ c = call.after item (next ++ rest) taken := by
        intro c hc
        rcases List.mem_or_eq_of_mem_set hc with hc | hc
        · exact Or.inl (hdone.frame.1 ▸ hc)
        · exact Or.inr hc
      refine h.older hold hfiled ?_ htasks hcalls ?_ ?_
      · intro c hc z hz htodo
        rcases hset hc with hc | rfl
        · exact Or.inr ⟨c, hc, hz, htodo⟩
        · exact (htarget z hz).1
      · intro c hc z hz
        rcases hset hc with hc | rfl
        · exact h.targets c hc z hz
        · exact (htarget z hz).2
      · intro entry hentry
        rcases List.mem_append.mp hentry with hentry | hnew
        · exact h.own.older hold entry (hdone.frame.2 ▸ hentry)
        · unfold StopCall.accounts at hnew
          split at hnew
          · rename_i z t hz
            split at hnew
            · cases hnew
            · rename_i hother
              cases List.mem_singleton.mp hnew
              obtain ⟨zi, hzi, hpath⟩ := h.targets call hmem z hz
              obtain ⟨xi, hxi, hline⟩ :=
                h.of_taken hdone (hitem.resolve_left hother) hzi hpath (hbusy z hz)
              obtain ⟨xi', hxi', -, hline', -⟩ := hold.get hxi
              exact ⟨xi', hxi', hline' ▸ hline⟩
          · cases hnew

end Step

/-- **A dying actor takes down none but its own**, in every run in which each
instance is created on clear ground. -/
theorem haltsOwn_of_clearGround (l : List Label) (w : World)
    (hrun : Schedule.run step World.init l = some w)
    (hclear : Schedule.Along step ClearGround World.init l) : HaltsOwn w :=
  (Schedule.run_invariant kin_step l kin_init hclear hrun).own

/-- An actor with a child stops itself and takes the child along. -/
def parentStops : List Label :=
  [.create ActorPath.root "p" 0, .started 0, .createChild 0 "c" 0, .started 1, .leave 0,
    .retire 0, .task 0 [⟨["p", "c"]⟩], .task 0 []]

theorem haltsOwn_parentStops :
    ∃ w, Schedule.run step World.init parentStops = some w ∧ w.halted = [(0, 1)] ∧ HaltsOwn w :=
  ⟨_, rfl, rfl, haltsOwn_of_clearGround parentStops _ rfl (by decide)⟩

/-- An actor retires; its path is taken again, and the new instance has a child
when the old one scans. -/
def recreatedBeforeScan : List Label :=
  [.create ActorPath.root "p" 0, .started 0, .leave 0, .retire 0,
    .create ActorPath.root "p" 0, .started 1, .createChild 1 "c" 0,
    .task 0 [⟨["p", "c"]⟩], .task 0 []]

/-- The successor's child is taken out. -/
theorem retired_actor_halts_successors_child :
    ¬ ∀ (l : List Label) (w : World), Schedule.run step World.init l = some w → HaltsOwn w := by
  intro h
  obtain ⟨inst, hinst, hline⟩ := h recreatedBeforeScan _ rfl (0, 2) (List.mem_singleton_self _)
  cases hinst
  exact absurd hline (by decide)

end HorsieActor.Ports.Lifecycle
