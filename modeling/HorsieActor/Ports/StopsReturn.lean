import HorsieActor.Ports.Guardian
import HorsieActor.Verified.Progress
import Mathlib.Algebra.Order.Ring.Nat
import Mathlib.Algebra.Order.BigOperators.Group.List

/-!
# Every stop returns

A `stop_at` waits for an instance it has asked to stop, and that instance, on its way
out, asks and waits for those below it.  Whoever is waited for has been asked
(`Orderly`), and a task waits for none but instances strictly below its own path, so
there is no circle: the deepest of those that are waited for can always go on.

Nor does it go on for ever.  `World.effort` is a bound on what is left to do: a scan
costs as much as halting every row there is, and rows are only filed by somebody who
creates.

`stops_wind_down` puts the two together.  From any reachable world, a run in which
nobody creates an actor or calls `stop` takes at most so many steps; and the worlds in
which it can go no further are those in which every stop has returned and nothing is
left but actors that serve and that nobody has asked to stop.

What user code does is not bounded here.  A handler is raced against the stop flag, so
an actor that was asked leaves.  `on_start` is not raced: a stop waits for it, and here
it is taken to return, as the step `started`.
-/

namespace HorsieActor.Ports.Lifecycle

open HorsieActor.Verified

/-! ## Winding down -/

/-- The instance has been asked to stop. -/
def Asked (w : World) (i : Nat) : Prop := ∃ inst, w.insts[i]? = some inst ∧ inst.stop = true

/-- The steps of a task or of a `stop_at`.  A serve loop is left by an actor that was asked
to; and `started` is one of them, which is to say that every `on_start` returns. -/
def Winding (w : World) : Label → Prop
  | .leave i => Asked w i
  | .started _ | .retire _ | .task _ _ | .dropActor _ | .dropEnded _ | .closeMailbox _
  | .call _ _ => True
  | .setServing _ | .create _ _ _ | .createChild _ _ _ | .stop _ => False

/-- No such step is left. -/
def AtRest (w : World) : Prop := ∀ a, Winding w a → step w a = none

/-- Every stop has returned, and whoever has not gone serves and has not been asked to
stop. -/
structure WoundDown (w : World) : Prop where
  returned : ∀ call ∈ w.calls, call.todo = []
  left : ∀ inst ∈ w.insts, inst.pc = .gone ∨ inst.pc = .serving ∧ inst.stop = false

/-- Nobody creates an actor or calls `stop`. -/
def Label.quiet : Label → Bool
  | .create _ _ _ | .createChild _ _ _ | .stop _ => false
  | _ => true

/-- A step of a task or of a `stop_at`. -/
def Label.winds : Label → Bool
  | .started _ | .leave _ | .retire _ | .task _ _ | .dropActor _ | .dropEnded _
  | .closeMailbox _ | .call _ _ => true
  | .setServing _ | .create _ _ _ | .createChild _ _ _ | .stop _ => false

/-! ## Who is waited for -/

/-- Whoever is waited for has been asked, or will be first. -/
def Orderly (w : World) : List Nat → List Work → Prop
  | _, [] => True
  | asked, .raise j :: rest => (∃ x, w.insts[j]? = some x) ∧ Orderly w (j :: asked) rest
  | asked, .wait j :: rest => (j ∈ asked ∨ Asked w j) ∧ Orderly w asked rest
  | asked, .halt _ :: rest | asked, .scan _ :: rest => Orderly w asked rest

/-- Whoever is waited for is strictly below. -/
def WaitsBelow (w : World) (base : ActorPath) (todo : List Work) : Prop :=
  ∀ j, .wait j ∈ todo → ∃ x, w.insts[j]? = some x ∧ x.path.under base = true

/-- Instances stay, where they are, and stay asked. -/
def Keeps (w w' : World) : Prop :=
  ∀ (i : Nat) (x : Inst), w.insts[i]? = some x →
    ∃ x', w'.insts[i]? = some x' ∧ x'.path = x.path ∧ (x.stop = true → x'.stop = true)

section Keeps

variable {w w' : World} {i j : Nat}

theorem Keeps.of_insts (h : w'.insts = w.insts) : Keeps w w' :=
  fun _ x hx => ⟨x, h ▸ hx, rfl, id⟩

theorem Keeps.trans {w'' : World} (h : Keeps w w') (h' : Keeps w' w'') : Keeps w w'' := by
  intro i x hx
  obtain ⟨x', hx', hpath, hstop⟩ := h i x hx
  obtain ⟨x'', hx'', hpath', hstop'⟩ := h' i x' hx'
  exact ⟨x'', hx'', hpath'.trans hpath, fun hs => hstop' (hstop hs)⟩

theorem keeps_setPc (w : World) (i : Nat) (pc : Pc) : Keeps w (w.setPc i pc) := by
  intro j x hx
  refine ⟨_, getElem?_setPc hx i pc, ?_⟩
  by_cases hij : i = j <;> simp [hij]

theorem getElem?_raise {x : Inst} (hi : w.insts[i]? = some x) (j : Nat) :
    (w.raise j).insts[i]? = some (if j = i then { x with stop := true } else x) := by
  show (w.insts.modify j _)[i]? = _
  rw [List.getElem?_modify, hi]
  rfl

theorem keeps_raise (w : World) (j : Nat) : Keeps w (w.raise j) := by
  intro i x hx
  refine ⟨_, getElem?_raise hx j, ?_⟩
  by_cases hij : j = i <;> simp [hij]

theorem keeps_spawn (w : World) (line : List Nat) (path : ActorPath) (command : TypeId) :
    Keeps w (w.spawn line path command) := by
  intro i x hx
  exact ⟨x, getElem?_spawn_left hx, rfl, id⟩

theorem Performs.keeps {item : Work} {next : List Work} {taken : Option Nat}
    (h : Performs w item next w' taken) : Keeps w w' := by
  cases h with
  | missing | halt | wait | scan => exact .of_insts rfl
  | raise => exact keeps_raise w _

theorem Moves.keeps {a : Label} (h : Moves w a w') : Keeps w w' := by
  cases h with
  | setServing | kept | stop => exact .of_insts rfl
  | spawn => exact keeps_spawn w _ _ _
  | goes => exact keeps_setPc w _ _
  | retire => exact keeps_setPc { w with live := w.live.retire _ _ } _ _
  | task hi hpc hdone => exact hdone.keeps.trans (keeps_setPc _ _ _)
  | call hk htodo hdone => exact hdone.keeps

theorem Asked.keeps (h : Asked w j) (hkeeps : Keeps w w') : Asked w' j := by
  obtain ⟨x, hx, hstop⟩ := h
  obtain ⟨x', hx', -, hstop'⟩ := hkeeps j x hx
  exact ⟨x', hx', hstop' hstop⟩

theorem Orderly.mono {todo : List Work} (hkeeps : Keeps w w') :
    ∀ {asked asked' : List Nat}, (∀ j ∈ asked, j ∈ asked' ∨ Asked w' j) →
      Orderly w asked todo → Orderly w' asked' todo := by
  induction todo with
  | nil =>
      intro asked asked' _ _
      trivial
  | cons item rest ih =>
      intro asked asked' hsub h
      cases item with
      | halt path => exact ih hsub h
      | scan path => exact ih hsub h
      | raise j =>
          obtain ⟨⟨x, hx⟩, hrest⟩ := h
          obtain ⟨x', hx', -⟩ := hkeeps j x hx
          refine ⟨⟨x', hx'⟩, ih ?_ hrest⟩
          intro k hk
          rcases List.mem_cons.mp hk with rfl | hk
          · exact Or.inl (List.mem_cons_self ..)
          · exact (hsub k hk).imp_left (List.mem_cons_of_mem _)
      | wait j =>
          obtain ⟨hj, hrest⟩ := h
          refine ⟨?_, ih hsub hrest⟩
          rcases hj with hj | hj
          · exact hsub j hj
          · exact Or.inr (hj.keeps hkeeps)

theorem Orderly.keeps {asked : List Nat} {todo : List Work} (h : Orderly w asked todo)
    (hkeeps : Keeps w w') : Orderly w' asked todo :=
  h.mono hkeeps fun _ hj => Or.inl hj

theorem orderly_halts {asked : List Nat} {rest : List Work} (h : Orderly w asked rest)
    (order : List ActorPath) : Orderly w asked (order.map .halt ++ rest) := by
  induction order with
  | nil => exact h
  | cons path order ih => exact ih

theorem WaitsBelow.keeps {base : ActorPath} {todo : List Work} (h : WaitsBelow w base todo)
    (hkeeps : Keeps w w') : WaitsBelow w' base todo := by
  intro j hj
  obtain ⟨x, hx, hunder⟩ := h j hj
  obtain ⟨x', hx', hpath, -⟩ := hkeeps j x hx
  exact ⟨x', hx', hpath ▸ hunder⟩

end Keeps

section Work

variable {w w₁ : World} {item : Work} {next rest : List Work} {taken : Option Nat}

/-- Taking a row out puts asking before waiting. -/
theorem Performs.orderly (h : Performs w item next w₁ taken) (hfiled : Filed w)
    (ho : Orderly w [] (item :: rest)) : Orderly w₁ [] (next ++ rest) := by
  cases h with
  | missing => exact ho
  | @halt path entry hlook =>
      obtain ⟨x, hx, -, -⟩ := hfiled path entry hlook
      have hrest : Orderly w [] rest := ho
      have hkeeps : Keeps w { w with live := w.live.erase path } := .of_insts rfl
      have hlater : Orderly { w with live := w.live.erase path } [entry.inst] rest :=
        hrest.mono hkeeps fun j hj => absurd hj List.not_mem_nil
      exact ⟨⟨x, hx⟩, Or.inl (List.mem_cons_self ..), hlater⟩
  | @raise i =>
      obtain ⟨⟨x, hx⟩, hrest⟩ := ho
      refine hrest.mono (keeps_raise w i) ?_
      intro j hj
      rw [List.mem_singleton] at hj
      subst hj
      refine Or.inr ⟨_, getElem?_raise hx j, ?_⟩
      rw [if_pos rfl]
  | wait hended => exact ho.2
  | @scan path order hperm => exact orderly_halts (show Orderly w [] rest from ho) order

theorem Performs.waitsBelow {base : ActorPath} (h : Performs w item next w₁ taken)
    (hfiled : Filed w) (hwithin : Within base item) (hbelow : WaitsBelow w base (item :: rest)) :
    WaitsBelow w₁ base (next ++ rest) := by
  have hrest : WaitsBelow w₁ base rest :=
    WaitsBelow.keeps (fun j hj => hbelow j (List.mem_cons_of_mem _ hj)) h.keeps
  intro j hj
  rcases List.mem_append.mp hj with hnext | hj
  · cases h with
    | missing | raise | wait => cases hnext
    | @halt path entry hlook =>
        simp only [List.mem_cons, reduceCtorEq, List.not_mem_nil, or_false, false_or,
          Work.wait.injEq] at hnext
        obtain ⟨x, hx, hpath, -⟩ := hfiled path entry hlook
        subst hnext
        exact ⟨x, hx, hpath ▸ hwithin⟩
    | scan hperm =>
        obtain ⟨path, -, heq⟩ := List.mem_map.mp hnext
        cases heq
  · exact hrest j hj

end Work

/-- What every reachable world satisfies. -/
structure Tidy (w : World) : Prop where
  filed : Filed w
  within : TasksWithin w
  tasks : ∀ (i : Nat) (inst : Inst) (todo : List Work), w.insts[i]? = some inst →
    inst.pc = .stopping todo → Orderly w [] todo ∧ WaitsBelow w inst.path todo
  calls : ∀ call ∈ w.calls, Orderly w [] call.todo

theorem tidy_init : Tidy World.init where
  filed := filed_init
  within := nofun
  tasks := nofun
  calls := nofun

section Steps

variable {w w' : World}

/-- What a stopping task has to do it had to do before, or it is in order. -/
def TasksFollow (w w' : World) : Prop :=
  ∀ (i : Nat) (inst' : Inst) (todo : List Work), w'.insts[i]? = some inst' →
    inst'.pc = .stopping todo →
    (∃ inst, w.insts[i]? = some inst ∧ inst'.path = inst.path ∧ inst.pc = .stopping todo) ∨
      Orderly w' [] todo ∧ WaitsBelow w' inst'.path todo

theorem Tidy.of_keeps (h : Tidy w) (hkeeps : Keeps w w') (hfiled : Filed w')
    (hwithin : TasksWithin w') (htasks : TasksFollow w w')
    (hcalls : ∀ call ∈ w'.calls, call ∈ w.calls ∨ Orderly w' [] call.todo) : Tidy w' where
  filed := hfiled
  within := hwithin
  tasks := by
    intro i inst' todo hi hpc
    rcases htasks i inst' todo hi hpc with ⟨inst, hold, hpath, hpc⟩ | hnew
    · obtain ⟨ho, hb⟩ := h.tasks i inst todo hold hpc
      exact ⟨ho.keeps hkeeps, hpath ▸ hb.keeps hkeeps⟩
    · exact hnew
  calls := by
    intro call hcall
    rcases hcalls call hcall with hold | hnew
    · exact (h.calls call hold).keeps hkeeps
    · exact hnew

theorem TasksFollow.of_insts (h : w'.insts = w.insts) : TasksFollow w w' :=
  fun _ inst' _ hi hpc => Or.inl ⟨inst', h ▸ hi, rfl, hpc⟩

/-- One task has moved on, and no other. -/
theorem TasksFollow.of_setPc {i : Nat} {x : Inst} {pc : Pc} (hi : w.insts[i]? = some x)
    (hself : ∀ todo, pc = .stopping todo → Orderly w' [] todo ∧ WaitsBelow w' x.path todo)
    (hinsts : w'.insts = (w.setPc i pc).insts) : TasksFollow w w' := by
  intro j inst' todo hj hpc
  rw [hinsts] at hj
  obtain ⟨y, hy, rfl⟩ := getElem?_modify_some hj
  by_cases hij : i = j
  · subst hij
    rw [hi] at hy
    cases hy
    simp only [if_true] at hpc ⊢
    exact Or.inr (hself todo hpc)
  · simp only [hij, if_false] at hpc ⊢
    exact Or.inl ⟨y, hy, rfl, hpc⟩

theorem tidy_step (w : World) (a : Label) (w' : World) (h : Tidy w) (hs : step w a = some w') :
    Tidy w' := by
  have hmoves := step_moves hs
  have hkeeps := hmoves.keeps
  have hfiled := filed_step h.filed hmoves
  have hwithin := tasksWithin_step h.within hmoves
  cases hmoves with
  | setServing => exact h.of_keeps hkeeps hfiled hwithin (.of_insts rfl) fun _ hc => Or.inl hc
  | kept => exact h
  | spawn ha hfree =>
      refine h.of_keeps hkeeps hfiled hwithin ?_ fun _ hc => Or.inl hc
      intro i inst' todo hi hpc
      rcases getElem?_spawn hi with hi | ⟨-, rfl⟩
      · exact Or.inl ⟨inst', hi, rfl, hpc⟩
      · cases hpc
  | @goes a i inst pc hi hgo =>
      refine h.of_keeps hkeeps hfiled hwithin (.of_setPc hi ?_ rfl) fun _ hc => Or.inl hc
      rintro todo rfl
      generalize inst.pc = old at hgo
      cases hgo
  | @retire i inst hi hpc =>
      refine h.of_keeps hkeeps hfiled hwithin (.of_setPc hi ?_ rfl) fun _ hc => Or.inl hc
      rintro todo ⟨⟩
      refine ⟨trivial, fun j hj => ?_⟩
      cases List.mem_singleton.mp hj
  | @task i order inst item rest next w₁ taken hi hpc hdone =>
      obtain ⟨ho, hb⟩ := h.tasks i inst _ hi hpc
      obtain ⟨x, hx, hxpath, -, -⟩ := hdone.inst hi
      have hitem := h.within i inst _ hi hpc item (List.mem_cons_self ..)
      have hset := keeps_setPc w₁ i (.stopping (next ++ rest))
      refine h.of_keeps hkeeps hfiled hwithin ?_ fun call hc => Or.inl (hdone.frame.1 ▸ hc)
      intro j inst' todo hj hpc'
      obtain ⟨y, hy, rfl⟩ := getElem?_modify_some hj
      by_cases hij : i = j
      · subst hij
        rw [hx] at hy
        cases hy
        simp only [if_true] at hpc' ⊢
        cases hpc'
        refine Or.inr ⟨(hdone.orderly h.filed ho).keeps hset, ?_⟩
        rw [hxpath]
        exact (hdone.waitsBelow h.filed hitem hb).keeps hset
      · simp only [hij, if_false] at hpc' ⊢
        obtain ⟨z, hz, hzpath, hzpc⟩ := hdone.back hy
        exact Or.inl ⟨z, hz, hzpath, hzpc ▸ hpc'⟩
  | stop =>
      refine h.of_keeps hkeeps hfiled hwithin (.of_insts rfl) fun call hc => ?_
      rcases List.mem_append.mp hc with hc | hnew
      · exact Or.inl hc
      · cases List.mem_singleton.mp hnew
        exact Or.inr trivial
  | @call k order call item rest next w₁ taken hk htodo hdone =>
      have ho := h.calls call (List.mem_of_getElem? hk)
      rw [htodo] at ho
      refine h.of_keeps hkeeps hfiled hwithin ?_ fun c hc => ?_
      · intro j inst' todo hj hpc
        obtain ⟨z, hz, hzpath, hzpc⟩ := hdone.back hj
        exact Or.inl ⟨z, hz, hzpath, hzpc ▸ hpc⟩
      · rcases List.mem_or_eq_of_mem_set hc with hc | rfl
        · exact Or.inl (hdone.frame.1 ▸ hc)
        · exact Or.inr ((hdone.orderly h.filed ho).keeps (.of_insts rfl))

end Steps

/-! ## Where nothing goes on -/

theorem length_lt_of_under {path base : ActorPath} (h : path.under base = true) :
    base.segments.length < path.segments.length := by
  obtain ⟨hunder, hne⟩ := ActorPath.under_iff.mp h
  rw [ActorPath.startsWith_iff] at hunder
  refine Nat.lt_of_le_of_ne hunder.length_le fun hlen => hne ?_
  obtain ⟨segments⟩ := path
  obtain ⟨base⟩ := base
  exact congrArg ActorPath.mk (hunder.eq_of_length hlen).symm

section Rest

variable {w : World} {i : Nat} {inst : Inst}

/-- Only a wait for somebody who has not ended cannot be done. -/
theorem perform_ne_none (w : World) (item : Work)
    (h : ∀ j, item = .wait j → w.endedAt j = true) :
    ∃ order, item.perform w order ≠ none := by
  cases item with
  | halt path =>
      refine ⟨[], ?_⟩
      simp only [Work.perform]
      split <;> simp
  | raise j => exact ⟨[], by simp [Work.perform]⟩
  | wait j => exact ⟨[], by simp [Work.perform, h j rfl]⟩
  | scan path => exact ⟨w.live.doomed path, by simp [Work.perform]⟩

/-- A list of things to do is held up by a wait for somebody who was asked and has not
ended. -/
theorem held_up {item : Work} {rest : List Work} (ho : Orderly w [] (item :: rest))
    (h : ∀ order, item.perform w order = none) :
    ∃ j, item = .wait j ∧ Asked w j ∧ w.endedAt j = false := by
  by_cases hwait : ∀ j, item = .wait j → w.endedAt j = true
  · obtain ⟨order, hne⟩ := perform_ne_none w item hwait
    exact absurd (h order) hne
  · push Not at hwait
    obtain ⟨j, rfl, hended⟩ := hwait
    refine ⟨j, rfl, ?_, Bool.eq_false_iff.mpr hended⟩
    exact ho.1.resolve_left List.not_mem_nil

theorem AtRest.not_starting (h : AtRest w) (hi : w.insts[i]? = some inst) :
    inst.pc ≠ .starting := by
  intro hpc
  have := h (.started i) trivial
  simp [step, hi, hpc] at this

/-- The deepest first: an instance below everybody who is waited for has nobody to wait
for, and goes on until it is gone. -/
theorem AtRest.gone (h : AtRest w) (htidy : Tidy w) (n : Nat) :
    ∀ (i : Nat) (inst : Inst), w.insts[i]? = some inst →
      (∀ x ∈ w.insts, x.path.segments.length < n + inst.path.segments.length) →
      inst.stop = true ∨ inst.pc ≠ .serving → inst.pc = .gone := by
  induction n with
  | zero =>
      intro i inst hi hdepth _
      exact absurd (hdepth inst (List.mem_of_getElem? hi)) (by omega)
  | succ n ih =>
      intro i inst hi hdepth hgoing
      cases hpc : inst.pc with
      | starting => exact absurd hpc (h.not_starting hi)
      | serving =>
          have hstop := hgoing.resolve_right (not_not.mpr hpc)
          have := h (.leave i) ⟨inst, hi, hstop⟩
          simp [step, hi, hpc, Pc.active] at this
      | retiring =>
          have := h (.retire i) trivial
          simp [step, hi, hpc] at this
      | stopping todo =>
          obtain ⟨ho, hbelow⟩ := htidy.tasks i inst todo hi hpc
          cases todo with
          | nil =>
              have := h (.dropActor i) trivial
              simp [step, hi, hpc] at this
          | cons item rest =>
              have hnone : ∀ order, item.perform w order = none := by
                intro order
                have := h (.task i order) trivial
                simpa [step, hi, hpc] using this
              obtain ⟨j, rfl, ⟨x, hx, hstop⟩, hended⟩ := held_up ho hnone
              obtain ⟨y, hy, hunder⟩ := hbelow j (List.mem_cons_self ..)
              cases hx.symm.trans hy
              have hdeeper := length_lt_of_under hunder
              have hgone := ih j x hx (fun z hz => by have := hdepth z hz; omega) (Or.inl hstop)
              simp [World.endedAt, hx, Inst.Ended, hgone, Pc.rank] at hended
      | actorDropped =>
          have := h (.dropActor i) trivial
          have := h (.dropEnded i) trivial
          simp [step, hi, hpc] at this
      | ended =>
          have := h (.closeMailbox i) trivial
          simp [step, hi, hpc] at this
      | gone => rfl

theorem exists_depth (w : World) : ∃ n, ∀ x ∈ w.insts, x.path.segments.length < n := by
  refine ⟨(w.insts.map fun x => x.path.segments.length).sum + 1, fun x hx => ?_⟩
  have hle : x.path.segments.length ≤ (w.insts.map fun x => x.path.segments.length).sum :=
    List.le_sum_of_mem (List.mem_map_of_mem hx)
  omega

theorem AtRest.woundDown (h : AtRest w) (htidy : Tidy w) : WoundDown w := by
  obtain ⟨n, hn⟩ := exists_depth w
  have hgone : ∀ (i : Nat) (inst : Inst), w.insts[i]? = some inst →
      inst.stop = true ∨ inst.pc ≠ .serving → inst.pc = .gone :=
    fun i inst hi => h.gone htidy n i inst hi fun x hx => Nat.lt_add_right _ (hn x hx)
  refine ⟨fun call hcall => ?_, fun inst hinst => ?_⟩
  · cases htodo : call.todo with
    | nil => rfl
    | cons item rest =>
        obtain ⟨k, hk⟩ := List.getElem?_of_mem hcall
        have hnone : ∀ order, item.perform w order = none := by
          intro order
          have := h (.call k order) trivial
          simpa [step, hk, htodo] using this
        have ho := htidy.calls call hcall
        rw [htodo] at ho
        obtain ⟨j, rfl, ⟨x, hx, hstop⟩, hended⟩ := held_up ho hnone
        have := hgone j x hx (Or.inl hstop)
        simp [World.endedAt, hx, Inst.Ended, this, Pc.rank] at hended
  · obtain ⟨i, hi⟩ := List.getElem?_of_mem hinst
    by_cases hserving : inst.stop = true ∨ inst.pc ≠ .serving
    · exact Or.inl (hgone i inst hi hserving)
    · push Not at hserving
      exact Or.inr ⟨hserving.2, Bool.eq_false_iff.mpr hserving.1⟩

theorem WoundDown.atRest (h : WoundDown w) : AtRest w := by
  have hpc : ∀ {i : Nat} {inst : Inst}, w.insts[i]? = some inst →
      inst.pc = .gone ∨ inst.pc = .serving ∧ inst.stop = false :=
    fun hi => h.left _ (List.mem_of_getElem? hi)
  intro a ha
  cases a with
  | setServing | create | createChild | stop => cases ha
  | leave i =>
      obtain ⟨inst, hi, hstop⟩ := ha
      rcases hpc hi with hgone | ⟨-, hnot⟩
      · simp [step, hi, hgone, Pc.active]
      · rw [hstop] at hnot
        cases hnot
  | started i | retire i | dropActor i | dropEnded i | closeMailbox i | task i order =>
      cases hi : w.insts[i]? with
      | none => simp [step, hi]
      | some inst =>
          rcases hpc hi with hgone | ⟨hserving, -⟩
          · simp [step, hi, hgone]
          · simp [step, hi, hserving]
  | call k order =>
      cases hk : w.calls[k]? with
      | none => simp [step, hk]
      | some call => simp [step, hk, h.returned call (List.mem_of_getElem? hk)]

end Rest

/-! ## What is left to do -/

/-- What an item costs when there are so many rows. -/
def Work.cost (rows : Nat) : Work → Nat
  | .halt _ => 3
  | .raise _ | .wait _ => 1
  | .scan _ => 3 * rows + 1

def todoCost (rows : Nat) (todo : List Work) : Nat := (todo.map (Work.cost rows)).sum

def Pc.cost (rows : Nat) : Pc → Nat
  | .starting => 3 * rows + 7
  | .serving => 3 * rows + 6
  | .retiring => 3 * rows + 5
  | .stopping todo => todoCost rows todo + 3
  | .actorDropped => 2
  | .ended => 1
  | .gone => 0

def World.effortAt (w : World) (rows : Nat) : Nat :=
  (w.insts.map fun inst => inst.pc.cost rows).sum + (w.calls.map fun c => todoCost rows c.todo).sum

/-- A bound on the steps that are left without anybody asking for more. -/
def World.effort (w : World) : Nat := w.effortAt w.live.keys.length

section Effort

variable {w w' : World} {rows rows' : Nat}

theorem todoCost_append (todo todo' : List Work) :
    todoCost rows (todo ++ todo') = todoCost rows todo + todoCost rows todo' := by
  simp [todoCost]

theorem todoCost_cons (item : Work) (todo : List Work) :
    todoCost rows (item :: todo) = item.cost rows + todoCost rows todo := by
  simp [todoCost]

theorem todoCost_halts (order : List ActorPath) :
    todoCost rows (order.map .halt) = 3 * order.length := by
  induction order with
  | nil => rfl
  | cons path order ih =>
      rw [List.map_cons, todoCost_cons, ih, List.length_cons]
      show 3 + _ = _
      omega

theorem Work.cost_le (h : rows ≤ rows') (item : Work) : item.cost rows ≤ item.cost rows' := by
  cases item with
  | halt | raise | wait => exact Nat.le_refl _
  | scan path =>
      show 3 * rows + 1 ≤ 3 * rows' + 1
      omega

theorem todoCost_le (h : rows ≤ rows') (todo : List Work) :
    todoCost rows todo ≤ todoCost rows' todo :=
  List.sum_le_sum fun item _ => item.cost_le h

theorem Pc.cost_le (h : rows ≤ rows') (pc : Pc) : pc.cost rows ≤ pc.cost rows' := by
  cases pc with
  | stopping todo => exact Nat.add_le_add_right (todoCost_le h todo) 3
  | starting | serving | retiring =>
      simp only [Pc.cost]
      omega
  | actorDropped | ended | gone => exact Nat.le_refl _

/-- Fewer rows, less to do. -/
theorem effortAt_le (h : rows ≤ rows') (w : World) : w.effortAt rows ≤ w.effortAt rows' := by
  have hinsts : (w.insts.map fun inst => inst.pc.cost rows).sum ≤
      (w.insts.map fun inst => inst.pc.cost rows').sum :=
    List.sum_le_sum fun inst _ => inst.pc.cost_le h
  have hcalls : (w.calls.map fun c => todoCost rows c.todo).sum ≤
      (w.calls.map fun c => todoCost rows' c.todo).sum :=
    List.sum_le_sum fun call _ => todoCost_le h call.todo
  unfold World.effortAt
  omega

theorem effortAt_setPc (rows : Nat) {i : Nat} {x : Inst} (hi : w.insts[i]? = some x) (pc : Pc) :
    (w.setPc i pc).effortAt rows + x.pc.cost rows = w.effortAt rows + pc.cost rows := by
  have hsum : ((w.setPc i pc).insts.map fun inst => inst.pc.cost rows).sum + x.pc.cost rows =
      (w.insts.map fun inst => inst.pc.cost rows).sum + pc.cost rows :=
    sum_map_modify (fun inst : Inst => inst.pc.cost rows) _ w.insts hi
  have hcalls : (w.setPc i pc).calls = w.calls := rfl
  unfold World.effortAt
  rw [hcalls]
  omega

theorem effortAt_setCall (rows : Nat) {k : Nat} {call : StopCall}
    (hk : w.calls[k]? = some call) (call' : StopCall) (halted : List (Nat × Nat)) :
    World.effortAt { w with calls := w.calls.set k call', halted := halted } rows +
      todoCost rows call.todo = w.effortAt rows + todoCost rows call'.todo := by
  have hsum := sum_map_set (fun c : StopCall => todoCost rows c.todo) call' hk
  simp only [World.effortAt]
  omega

theorem effortAt_raise (w : World) (j : Nat) : (w.raise j).effortAt rows = w.effortAt rows := by
  have hmap : (w.insts.modify j fun inst => { inst with stop := true }).map
      (fun inst => inst.pc.cost rows) = w.insts.map fun inst => inst.pc.cost rows := by
    refine List.ext_getElem? fun i => ?_
    rw [List.getElem?_map, List.getElem?_map, List.getElem?_modify]
    cases w.insts[i]? with
    | none => rfl
    | some x => by_cases hij : j = i <;> simp [hij]
  unfold World.effortAt
  show ((w.insts.modify j _).map _).sum + _ = _
  rw [hmap]
  rfl

theorem length_keys_erase_le (live : Live) (path : ActorPath) :
    (live.erase path).keys.length ≤ live.keys.length := by
  rw [AList.keys_erase]
  exact List.length_erase_le

theorem length_keys_retire_le (live : Live) (path : ActorPath) (i : Nat) :
    (live.retire path i).keys.length ≤ live.keys.length := by
  unfold Live.retire
  split
  · exact Nat.le_refl _
  · split
    · exact length_keys_erase_le live path
    · exact Nat.le_refl _

/-- What an item leaves to do costs less than the item did; nothing else has changed,
and no row has been filed. -/
theorem Performs.cost_lt {item : Work} {next : List Work} {taken : Option Nat}
    (h : Performs w item next w' taken) :
    todoCost w.live.keys.length next < item.cost w.live.keys.length ∧
      w'.effortAt w.live.keys.length = w.effortAt w.live.keys.length ∧
      w'.live.keys.length ≤ w.live.keys.length := by
  cases h with
  | missing => exact ⟨by simp [todoCost, Work.cost], rfl, Nat.le_refl _⟩
  | @halt path entry hlook =>
      exact ⟨by simp [todoCost, Work.cost], rfl, length_keys_erase_le w.live path⟩
  | @raise j => exact ⟨by simp [todoCost, Work.cost], effortAt_raise w j, Nat.le_refl _⟩
  | wait => exact ⟨by simp [todoCost, Work.cost], rfl, Nat.le_refl _⟩
  | @scan path order hperm =>
      refine ⟨?_, rfl, Nat.le_refl _⟩
      have hlen : order.length ≤ w.live.keys.length := by
        rw [hperm.length_eq]
        exact List.length_filter_le ..
      rw [todoCost_halts]
      show 3 * order.length < 3 * w.live.keys.length + 1
      omega

theorem Goes.cost_lt {i : Nat} {a : Label} {pc pc' : Pc} (h : Goes i a pc pc') (rows : Nat) :
    pc'.cost rows < pc.cost rows := by
  cases h with
  | started => exact Nat.lt_succ_self _
  | @leave pc hactive =>
      cases pc with
      | starting =>
          show 3 * rows + 5 < 3 * rows + 7
          omega
      | serving => exact Nat.lt_succ_self _
      | retiring | stopping | actorDropped | ended | gone => cases hactive
  | dropActor =>
      show 2 < 0 + 3
      omega
  | dropEnded | closeMailbox => exact Nat.lt_succ_self _

/-- **Every step of a task or of a stop leaves less to do.** -/
theorem effort_lt (w : World) (a : Label) (w' : World) (ha : a.winds = true)
    (hs : step w a = some w') : w'.effort < w.effort := by
  cases step_moves hs with
  | setServing | stop => cases ha
  | kept hmade => cases a <;> cases ha <;> cases hmade
  | spawn hmade hfree => cases a <;> cases ha <;> cases hmade
  | @goes a i inst pc hi hgo =>
      have hset := effortAt_setPc w.live.keys.length hi pc
      have hlt := hgo.cost_lt w.live.keys.length
      show (w.setPc i pc).effortAt w.live.keys.length < _
      unfold World.effort
      omega
  | @retire i inst hi hpc =>
      have hset := effortAt_setPc w.live.keys.length hi (.stopping [.scan inst.path])
      have hcost : inst.pc.cost w.live.keys.length = 3 * w.live.keys.length + 5 := by rw [hpc]; rfl
      have hnew : Pc.cost w.live.keys.length (.stopping [.scan inst.path]) =
          3 * w.live.keys.length + 1 + 3 := by
        show todoCost _ [_] + 3 = _
        rw [todoCost_cons]
        rfl
      have hle := effortAt_le (length_keys_retire_le w.live inst.path i)
        ({ w with live := w.live.retire inst.path i }.setPc i (.stopping [.scan inst.path]))
      have heq : ({ w with live := w.live.retire inst.path i }.setPc i
          (.stopping [.scan inst.path])).effortAt w.live.keys.length =
          (w.setPc i (.stopping [.scan inst.path])).effortAt w.live.keys.length := rfl
      refine Nat.lt_of_le_of_lt hle ?_
      unfold World.effort
      omega
  | @task i order inst item rest next w₁ taken hi hpc hdone =>
      obtain ⟨hcost, hsame, hrows⟩ := hdone.cost_lt
      obtain ⟨x, hx, -, -, hxpc⟩ := hdone.inst hi
      have hset := effortAt_setPc w.live.keys.length hx (.stopping (next ++ rest))
      have hold : x.pc.cost w.live.keys.length =
          item.cost w.live.keys.length + todoCost w.live.keys.length rest + 3 := by
        rw [hxpc, hpc, ← todoCost_cons]
        rfl
      have hnew : Pc.cost w.live.keys.length (.stopping (next ++ rest)) =
          todoCost w.live.keys.length next + todoCost w.live.keys.length rest + 3 := by
        rw [← todoCost_append]
        rfl
      have hle := effortAt_le hrows (w₁.setPc i (.stopping (next ++ rest)))
      refine Nat.lt_of_le_of_lt hle ?_
      unfold World.effort
      omega
  | @call k order call item rest next w₁ taken hk htodo hdone =>
      obtain ⟨hcost, hsame, hrows⟩ := hdone.cost_lt
      have hk₁ : w₁.calls[k]? = some call := by rw [hdone.frame.1, hk]
      have hset := effortAt_setCall w.live.keys.length hk₁
        (call.after item (next ++ rest) taken) (w₁.halted ++ call.accounts item taken)
      have hold : todoCost w.live.keys.length call.todo =
          item.cost w.live.keys.length + todoCost w.live.keys.length rest := by
        rw [htodo, todoCost_cons]
      have hnew : todoCost w.live.keys.length (call.after item (next ++ rest) taken).todo =
          todoCost w.live.keys.length next + todoCost w.live.keys.length rest :=
        todoCost_append next rest
      have hle := effortAt_le hrows { w₁ with
        calls := w₁.calls.set k (call.after item (next ++ rest) taken)
        halted := w₁.halted ++ call.accounts item taken }
      refine Nat.lt_of_le_of_lt hle ?_
      unfold World.effort
      omega

theorem effort_le (w : World) (a : Label) (w' : World) (ha : a.quiet = true)
    (hs : step w a = some w') : w'.effort ≤ w.effort := by
  by_cases hwinds : a.winds = true
  · exact Nat.le_of_lt (effort_lt w a w' hwinds hs)
  · cases a with
    | setServing mayServe =>
        cases hs
        exact Nat.le_refl _
    | create | createChild | stop => cases ha
    | _ => exact absurd rfl hwinds

end Effort

/-! ## The result -/

/-- **Every stop returns.**  From any reachable world, a run in which nobody creates an
actor or calls `stop` takes at most `effort` steps of tasks and stops, and it has come to
rest exactly when every stop has returned and every actor is gone that has left its serve
loop or was asked to. -/
theorem stops_wind_down (l l' : List Label) (w w' : World)
    (hrun : Schedule.run step World.init l = some w)
    (hrun' : Schedule.run step w l' = some w') (hquiet : ∀ a ∈ l', a.quiet = true) :
    l'.countP Label.winds ≤ w.effort ∧ (AtRest w' ↔ WoundDown w') := by
  have htidy : Tidy w' :=
    Schedule.run_invariant_all tidy_step l'
      (Schedule.run_invariant_all tidy_step l tidy_init hrun) hrun'
  have hcount := Schedule.run_countP_le effort_le effort_lt l' hquiet hrun'
  exact ⟨by omega, fun h => h.woundDown htidy, WoundDown.atRest⟩

/-- A stop of an actor that has a child, up to where it is asked for. -/
def askedToStop : List Label :=
  [.create ActorPath.root "p" 0, .started 0, .createChild 0 "c" 0, .started 1, .stop ⟨["p"]⟩]

/-- And from there to the end, with the two tasks in between each other. -/
def comesToRest : List Label :=
  [.call 0 [], .call 0 [], .leave 0, .retire 0, .task 0 [⟨["p", "c"]⟩], .task 0 [], .task 0 [],
    .leave 1, .retire 1, .task 1 [], .dropActor 1, .dropEnded 1, .task 0 [], .closeMailbox 1,
    .dropActor 0, .dropEnded 0, .call 0 [], .call 0 [], .closeMailbox 0]

theorem stops_wind_down_child :
    ∃ w w', Schedule.run step World.init askedToStop = some w ∧
      Schedule.run step w comesToRest = some w' ∧ comesToRest.countP Label.winds ≤ w.effort ∧
      AtRest w' := by
  refine ⟨_, _, rfl, rfl, ?_, ?_⟩
  · exact (stops_wind_down askedToStop comesToRest _ _ rfl rfl (by decide)).1
  · refine (stops_wind_down askedToStop comesToRest _ _ rfl rfl (by decide)).2.mpr ⟨?_, ?_⟩
    · decide
    · decide

end HorsieActor.Ports.Lifecycle
