import HorsieActor.Ports.Lifecycle

/-!
# What is over when a stop returns

`stop_at` finds what it has to wait for in the registry, and an instance leaves
the registry before it ends: when another stop has taken its row, or when it has
retired on its own.  Such an instance is invisible to the look-up and to the
scan, and `stop_at` returns without waiting for it.

`quietOnReturn_of_visible` is what does hold: if, whenever a call looks
something up, every instance it is there for is either ended or still in the
registry, then everything at or below the path that existed when the call began
has ended when it returns.
-/

namespace HorsieActor.Ports.Lifecycle

open HorsieActor.Verified

/-! ## The property -/

/-- When a `stop_at` has returned, every instance at its path or below that
existed when it began has ended. -/
def QuietOnReturn (w : World) : Prop :=
  ∀ call ∈ w.calls, call.todo = [] → ∀ i < call.existed, ∀ inst, w.insts[i]? = some inst →
    inst.path.startsWith call.path = true → inst.Ended

/-- The instance has a row. -/
def Registered (w : World) (i : Nat) (inst : Inst) : Prop :=
  (w.live.lookup inst.path).map Entry.inst = some i

instance (w : World) (i : Nat) (inst : Inst) : Decidable (Registered w i inst) :=
  inferInstanceAs (Decidable (_ = some i))

/-- What a call is there for when it does the item: the instances at the path
it halts, those below the path it scans. -/
def Work.concerns : Work → ActorPath → Bool
  | .halt path, q => q == path
  | .scan path, q => q.under path
  | .raise _, _ | .wait _, _ => false

/-- Whenever a `stop_at` looks into the registry, every instance it is there
for that existed when it began has ended or is still registered. -/
def Visible (w : World) : Label → Prop
  | .call k _ => ∀ call ∈ w.calls[k]?, ∀ item ∈ call.todo.head?,
      ∀ i < call.existed, ∀ inst ∈ w.insts[i]?, item.concerns inst.path = true →
        inst.Ended ∨ Registered w i inst
  | _ => True

instance (w : World) : ∀ a : Label, Decidable (Visible w a)
  | .call k _ => inferInstanceAs (Decidable (∀ call ∈ w.calls[k]?, ∀ item ∈ call.todo.head?,
      ∀ i < call.existed, ∀ inst ∈ w.insts[i]?, item.concerns inst.path = true →
        inst.Ended ∨ Registered w i inst))
  | .setServing _ | .create _ _ _ | .createChild _ _ _ | .started _ | .leave _ | .retire _
  | .task _ _ | .dropActor _ | .dropEnded _ | .closeMailbox _ | .stop _ => isTrue trivial

/-! ## The invariant -/

/-- The call will still come to the instance: it waits for it, or it will look
up its path, or it will scan above it. -/
def Covered (todo : List Work) (i : Nat) (path : ActorPath) : Prop :=
  .wait i ∈ todo ∨ ∃ item ∈ todo, item.concerns path = true

/-- Every call covers what has not ended, of what it began with. -/
structure Covering (w : World) : Prop where
  began : ∀ call ∈ w.calls, call.existed ≤ w.insts.length
  covers : ∀ call ∈ w.calls, ∀ i < call.existed, ∀ inst, w.insts[i]? = some inst →
    inst.path.startsWith call.path = true → ¬ inst.Ended → Covered call.todo i inst.path

theorem covering_init : Covering World.init where
  began := nofun
  covers := nofun

theorem Covering.quiet {w : World} (h : Covering w) : QuietOnReturn w := by
  intro call hcall htodo i hi inst hinst hunder
  by_contra hnot
  have hcovered := h.covers call hcall i hi inst hinst hunder hnot
  rw [htodo] at hcovered
  rcases hcovered with hwait | ⟨item, hitem, -⟩
  · cases hwait
  · cases hitem

section Preservation

variable {w w' : World}

/-- A step that leaves the calls alone: instances only go forward, and a new
one is none of theirs. -/
theorem Covering.forward (h : Covering w) (hcalls : w'.calls = w.calls)
    (hlen : w.insts.length ≤ w'.insts.length)
    (hback : ∀ i < w.insts.length, ∀ inst', w'.insts[i]? = some inst' →
      ∃ inst, w.insts[i]? = some inst ∧ inst'.path = inst.path ∧ (inst.Ended → inst'.Ended)) :
    Covering w' where
  began := fun call hcall => Nat.le_trans (h.began call (hcalls ▸ hcall)) hlen
  covers := by
    intro call hcall i hi inst' hinst' hunder hnot
    rw [hcalls] at hcall
    have hlt := Nat.lt_of_lt_of_le hi (h.began call hcall)
    obtain ⟨inst, hinst, hpath, hended⟩ := hback i hlt inst' hinst'
    rw [hpath] at hunder ⊢
    exact h.covers call hcall i hi inst hinst hunder fun he => hnot (hended he)

theorem Older.covering (hold : Older w w') (h : Covering w) (hcalls : w'.calls = w.calls) :
    Covering w' := by
  refine h.forward hcalls (Nat.le_of_eq hold.length.symm) fun i _ inst' hinst' => ?_
  obtain ⟨inst, hinst, hpath, -, hrank⟩ := hold.back i inst' hinst'
  exact ⟨inst, hinst, hpath, fun he => Nat.le_trans he hrank⟩

/-- What the call was to do first is done; what it covered by that it covers
still, or it has ended. -/
theorem Performs.covered {w₁ : World} {item : Work} {next rest : List Work}
    {taken : Option Nat} {i : Nat} {inst : Inst} (h : Performs w item next w₁ taken)
    (hinst : w.insts[i]? = some inst) (hnot : ¬ inst.Ended)
    (hvisible : item.concerns inst.path = true → Registered w i inst)
    (hcovered : Covered (item :: rest) i inst.path) : Covered (next ++ rest) i inst.path := by
  -- what the rest covers stays covered
  have hrest : ∀ it ∈ rest, it = .wait i ∨ it.concerns inst.path = true →
      Covered (next ++ rest) i inst.path := by
    rintro it hit (rfl | hc)
    · exact Or.inl (List.mem_append_right _ hit)
    · exact Or.inr ⟨it, List.mem_append_right _ hit, hc⟩
  have hfirst : item = .wait i ∨ item.concerns inst.path = true →
      Covered (next ++ rest) i inst.path := by
    intro hitem
    cases h with
    | @missing path hlook =>
        obtain hitem | hitem := hitem
        · cases hitem
        · have hreg := hvisible hitem
          rw [Registered, beq_iff_eq.mp hitem, hlook] at hreg
          cases hreg
    | @halt path entry hlook =>
        obtain hitem | hitem := hitem
        · cases hitem
        · have hreg := hvisible hitem
          rw [Registered, beq_iff_eq.mp hitem, hlook] at hreg
          cases hreg
          exact Or.inl (List.mem_cons_of_mem _ (List.mem_cons_self ..))
    | raise =>
        obtain hitem | hitem := hitem
        · cases hitem
        · cases hitem
    | @wait j hended =>
        obtain hitem | hitem := hitem
        · cases hitem
          rw [World.endedAt, hinst] at hended
          exact absurd (of_decide_eq_true hended) hnot
        · cases hitem
    | @scan path order hperm =>
        obtain hitem | hitem := hitem
        · cases hitem
        · have hreg := hvisible hitem
          obtain ⟨entry, hlook, -⟩ := Option.map_eq_some_iff.mp hreg
          have hdoomed : inst.path ∈ w.live.doomed path :=
            Live.mem_doomed.mpr ⟨by rw [hlook]; rfl, hitem⟩
          refine Or.inr ⟨.halt inst.path, List.mem_append_left _ ?_, beq_self_eq_true _⟩
          exact List.mem_map_of_mem (hperm.symm.subset hdoomed)
  rcases hcovered with hwait | ⟨it, hit, hc⟩
  · rcases List.mem_cons.mp hwait with heq | hmem
    · exact hfirst (Or.inl heq.symm)
    · exact hrest _ hmem (Or.inl rfl)
  · rcases List.mem_cons.mp hit with rfl | hmem
    · exact hfirst (Or.inr hc)
    · exact hrest it hmem (Or.inr hc)

end Preservation

/-! ## Steps and runs -/

theorem covering_step (w : World) (a : Label) (w' : World) (h : Covering w)
    (hvisible : Visible w a) (hstep : step w a = some w') : Covering w' := by
  have hmoves := step_moves hstep
  have holder := hmoves.older_of_none
  cases hmoves with
  | setServing | retire hi hpc => exact (holder rfl).covering h rfl
  | kept ha => exact h
  | @goes a i inst pc hi hgo =>
      have hold : Older w (w.setPc i pc) := older_setPc hi rfl hgo.rank_le
      exact hold.covering h rfl
  | task hi hpc hdone => exact (holder rfl).covering h hdone.frame.1
  | @spawn a line path command ha hfree =>
      refine h.forward rfl ?_ fun i hi inst' hinst' => ?_
      · show w.insts.length ≤ (w.insts ++ _).length
        rw [List.length_append]
        exact Nat.le_add_right _ _
      · rcases getElem?_spawn hinst' with hinst | ⟨rfl, -⟩
        · exact ⟨inst', hinst, rfl, id⟩
        · exact absurd hi (Nat.lt_irrefl _)
  | @stop path =>
      refine ⟨fun call hcall => ?_, fun call hcall i hi inst hinst hunder hnot => ?_⟩
      · rcases List.mem_append.mp hcall with hcall | hnew
        · exact h.began call hcall
        · cases List.mem_singleton.mp hnew
          exact Nat.le_refl _
      · rcases List.mem_append.mp hcall with hcall | hnew
        · exact h.covers call hcall i hi inst hinst hunder hnot
        · cases List.mem_singleton.mp hnew
          by_cases hpath : inst.path = path
          · exact Or.inr ⟨.halt path, List.mem_cons_self .., beq_iff_eq.mpr hpath⟩
          · exact Or.inr ⟨.scan path, List.mem_cons_of_mem _ (List.mem_cons_self ..),
              ActorPath.under_iff.mpr ⟨hunder, hpath⟩⟩
  | @call k order call item rest next w₁ taken hk htodo hdone =>
      have hold := holder rfl
      have hset : ∀ {c : StopCall}, c ∈ w₁.calls.set k (call.after item (next ++ rest) taken) →
          c ∈ w.calls ∨ c = call.after item (next ++ rest) taken := by
        intro c hc
        rcases List.mem_or_eq_of_mem_set hc with hc | hc
        · exact Or.inl (hdone.frame.1 ▸ hc)
        · exact Or.inr hc
      have hmem := List.mem_of_getElem? hk
      have hlen := Nat.le_of_eq hold.length.symm
      refine ⟨fun c hc => ?_, fun c hc i hi inst' hinst' hunder hnot => ?_⟩
      · rcases hset hc with hc | rfl
        · exact Nat.le_trans (h.began c hc) hlen
        · exact Nat.le_trans (h.began call hmem) hlen
      · obtain ⟨inst, hinst, hpath, -, hrank⟩ := hold.back i inst' hinst'
        have hnot' : ¬ inst.Ended := fun he => hnot (Nat.le_trans he hrank)
        rw [hpath] at hunder ⊢
        rcases hset hc with hc | rfl
        · exact h.covers c hc i hi inst hinst hunder hnot'
        · have hcovered := h.covers call hmem i hi inst hinst hunder hnot'
          rw [htodo] at hcovered
          refine hdone.covered hinst hnot' (fun hconcerns => ?_) hcovered
          exact (hvisible call hk item (by rw [htodo]; rfl) i hi inst hinst hconcerns).resolve_left
            hnot'

/-- **When a stop returns the subtree is quiet**, in every run in which the
calls find in the registry whatever they are there for. -/
theorem quietOnReturn_of_visible (l : List Label) (w : World)
    (hrun : Schedule.run step World.init l = some w)
    (hvisible : Schedule.Along step Visible World.init l) : QuietOnReturn w :=
  (Schedule.run_invariant covering_step l covering_init hvisible hrun).quiet

/-- A stop of an actor with a child, to its end. -/
def stopped : List Label :=
  [.create ActorPath.root "p" 0, .started 0, .createChild 0 "c" 0, .started 1,
    .stop ⟨["p"]⟩, .call 0 [], .call 0 [], .leave 0, .retire 0,
    .task 0 [⟨["p", "c"]⟩], .task 0 [], .task 0 [], .leave 1, .retire 1, .task 1 [],
    .dropActor 1, .dropEnded 1, .task 0 [], .dropActor 0, .dropEnded 0, .call 0 [], .call 0 []]

theorem quietOnReturn_stopped :
    ∃ w, Schedule.run step World.init stopped = some w ∧ w.calls.map StopCall.todo = [[]] ∧
      QuietOnReturn w :=
  ⟨_, rfl, rfl, quietOnReturn_of_visible stopped _ rfl (by decide)⟩

/-- Two stops of one actor: the first takes the row, the second finds nothing
and returns while the actor is still serving. -/
def stoppedTwice : List Label :=
  [.create ActorPath.root "p" 0, .started 0, .stop ⟨["p"]⟩, .stop ⟨["p"]⟩, .call 0 [], .call 1 [],
    .call 1 []]

theorem second_stop_returns_early :
    ¬ ∀ (l : List Label) (w : World), Schedule.run step World.init l = some w →
      QuietOnReturn w := by
  intro h
  have hended := h stoppedTwice _ rfl _ (List.mem_cons_of_mem _ (List.mem_singleton_self _)) rfl
    0 (Nat.zero_lt_one) _ rfl rfl
  exact absurd hended (by decide)

end HorsieActor.Ports.Lifecycle
