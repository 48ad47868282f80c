/-!
# Schedules: running a labelled machine

A concurrent system is presented here as a partial step function: `step s a`
is the state after the label `a` has been taken in `s`, or `none` when `a` is
not enabled there.  All the nondeterminism of the system — which party moves,
what the environment answers — is in the choice of the labels, so a *schedule*
is a list of labels and a run is an ordinary left fold.  Quantifying over
schedules is quantifying over interleavings.

Two things are needed of such a machine again and again, and both are proved
once in this file.

* An invariant rule that may assume a condition on every step taken
  (`run_invariant`).  The condition sees the state the step is taken in and the
  label, never the state it leads to, so it restricts the schedule and not the
  system.
* A way to compute with schedules: `run` and `Along` reduce on concrete
  labels, and `Along` is decidable whenever the condition is.

This module imports nothing and names no particular machine.

## Main results

* `run_append`, `run_snoc` — a schedule may be cut anywhere.
* `run_invariant` — what every admitted step preserves, every admitted
  schedule preserves.
* `steps_invariant` — the same for each single step of a schedule.
* `run_observed` — books can be kept beside any run.
-/

namespace HorsieActor.Verified.Schedule

variable {σ α : Type}

/-! ## Running a schedule -/

/-- The state after taking the labels of a schedule in order, or `none` as soon
as one of them is not enabled. -/
def run (step : σ → α → Option σ) : σ → List α → Option σ
  | s, [] => some s
  | s, a :: rest => (step s a).bind fun s' => run step s' rest

variable {step : σ → α → Option σ}

@[simp] theorem run_nil (s : σ) : run step s [] = some s := rfl

theorem run_cons (s : σ) (a : α) (rest : List α) :
    run step s (a :: rest) = (step s a).bind fun s' => run step s' rest := rfl

theorem run_cons_of_step {s s' : σ} {a : α} (hs : step s a = some s') (rest : List α) :
    run step s (a :: rest) = run step s' rest := by
  rw [run_cons, hs]
  rfl

/-- A run over a non-empty schedule starts with an enabled step. -/
theorem run_cons_some {s s'' : σ} {a : α} {rest : List α}
    (h : run step s (a :: rest) = some s'') :
    ∃ s', step s a = some s' ∧ run step s' rest = some s'' := by
  rw [run_cons] at h
  cases hs : step s a with
  | none => rw [hs] at h; cases h
  | some s' => rw [hs] at h; exact ⟨s', rfl, h⟩

/-- A schedule may be cut anywhere. -/
theorem run_append (l₁ l₂ : List α) :
    ∀ s : σ, run step s (l₁ ++ l₂) = (run step s l₁).bind fun s' => run step s' l₂ := by
  induction l₁ with
  | nil => intro s; rfl
  | cons a rest ih =>
      intro s
      rw [List.cons_append, run_cons, run_cons]
      cases step s a with
      | none => rfl
      | some s' => exact ih s'

/-- Extending a schedule by one label extends its run by one step. -/
theorem run_snoc {s s' s'' : σ} {l : List α} {a : α}
    (h : run step s l = some s') (hs : step s' a = some s'') :
    run step s (l ++ [a]) = some s'' := by
  rw [run_append, h]
  show (step s' a).bind (fun s' => run step s' []) = some s''
  rw [hs]
  rfl

/-! ## Conditions along a schedule -/

/-- Every step of the schedule is taken in a state that meets the condition for
its label.  A label that is not enabled ends the schedule. -/
def Along (step : σ → α → Option σ) (C : σ → α → Prop) : σ → List α → Prop
  | _, [] => True
  | s, a :: rest =>
      C s a ∧ match step s a with
        | none => True
        | some s' => Along step C s' rest

instance Along.decidable {C : σ → α → Prop} [∀ s a, Decidable (C s a)] :
    ∀ (s : σ) (l : List α), Decidable (Along step C s l)
  | _, [] => inferInstanceAs (Decidable True)
  | s, a :: rest =>
      match h : step s a with
      | none => decidable_of_iff (C s a) (by simp [Along, h])
      | some s' =>
          have := Along.decidable (C := C) s' rest
          decidable_of_iff (C s a ∧ Along step C s' rest) (by simp [Along, h])

variable {C : σ → α → Prop}

theorem along_cons {s s' : σ} {a : α} {rest : List α} (hs : step s a = some s')
    (h : Along step C s (a :: rest)) : C s a ∧ Along step C s' rest := by
  simpa only [Along, hs] using h

theorem Along.cons {s s' : σ} {a : α} {rest : List α} (ha : C s a) (hs : step s a = some s')
    (h : Along step C s' rest) : Along step C s (a :: rest) := by
  simp only [Along, hs]
  exact ⟨ha, h⟩

/-- A condition along a schedule holds along both parts it is cut into. -/
theorem along_append {l₁ l₂ : List α} :
    ∀ {s s' : σ}, run step s l₁ = some s' → Along step C s (l₁ ++ l₂) →
      Along step C s l₁ ∧ Along step C s' l₂ := by
  induction l₁ with
  | nil =>
      intro s s' hrun h
      cases hrun
      exact ⟨trivial, h⟩
  | cons a rest ih =>
      intro s s' hrun h
      obtain ⟨m, hm, hrest⟩ := run_cons_some hrun
      obtain ⟨ha, hC⟩ := along_cons hm h
      obtain ⟨hleft, hright⟩ := ih hrest hC
      exact ⟨Along.cons ha hm hleft, hright⟩

/-- A condition on the labels alone may be added to one along the schedule. -/
theorem Along.and_forall_mem {P : α → Prop} {l : List α} :
    ∀ {s : σ}, Along step C s l → (∀ a ∈ l, P a) →
      Along step (fun s a => C s a ∧ P a) s l := by
  induction l with
  | nil => intro s _ _; trivial
  | cons a rest ih =>
      intro s h hP
      have ha := hP a (List.mem_cons_self ..)
      cases hs : step s a with
      | none =>
          simp only [Along, hs] at h ⊢
          exact ⟨⟨h.1, ha⟩, trivial⟩
      | some s' =>
          obtain ⟨hC, hrest⟩ := along_cons hs h
          exact Along.cons ⟨hC, ha⟩ hs
            (ih hrest fun b hb => hP b (List.mem_cons_of_mem _ hb))

/-- The steps of a run one by one: the state, the label taken there, the state
it leads to. -/
def steps (step : σ → α → Option σ) : σ → List α → List (σ × α × σ)
  | _, [] => []
  | s, a :: rest =>
      match step s a with
      | none => []
      | some s' => (s, a, s') :: steps step s' rest

theorem steps_cons {s s' : σ} {a : α} {rest : List α} (hs : step s a = some s') :
    steps step s (a :: rest) = (s, a, s') :: steps step s' rest := by
  simp only [steps, hs]

theorem steps_cons_none {s : σ} {a : α} {rest : List α} (hs : step s a = none) :
    steps step s (a :: rest) = [] := by
  simp only [steps, hs]

/-! ## The invariant rule -/

/-- What every admitted step preserves, every admitted schedule preserves. -/
theorem run_invariant {I : σ → Prop}
    (hStep : ∀ s a s', I s → C s a → step s a = some s' → I s') (l : List α) :
    ∀ {s s' : σ}, I s → Along step C s l → run step s l = some s' → I s' := by
  induction l with
  | nil =>
      intro s s' hI _ h
      cases h
      exact hI
  | cons a rest ih =>
      intro s s' hI hC h
      obtain ⟨m, hm, hrest⟩ := run_cons_some h
      obtain ⟨ha, hC'⟩ := along_cons hm hC
      exact ih (hStep s a m hI ha hm) hC' hrest

/-- The rule without a condition: an invariant of the step function holds after
every schedule. -/
theorem run_invariant_all {I : σ → Prop}
    (hStep : ∀ s a s', I s → step s a = some s' → I s') (l : List α) {s s' : σ}
    (hI : I s) (h : run step s l = some s') : I s' := by
  induction l generalizing s with
  | nil =>
      cases h
      exact hI
  | cons a rest ih =>
      obtain ⟨m, hm, hrest⟩ := run_cons_some h
      exact ih (hStep s a m hI hm) hrest

/-- Every step of an admitted schedule is taken in a state that satisfies the
invariant. -/
theorem steps_invariant {I : σ → Prop}
    (hStep : ∀ s a s', I s → C s a → step s a = some s' → I s') (l : List α) :
    ∀ {s : σ}, I s → Along step C s l → ∀ t ∈ steps step s l,
      I t.1 ∧ C t.1 t.2.1 ∧ step t.1 t.2.1 = some t.2.2 := by
  induction l with
  | nil =>
      intro s _ _ t ht
      cases ht
  | cons a rest ih =>
      intro s hI hC t ht
      cases hs : step s a with
      | none =>
          rw [steps_cons_none hs] at ht
          cases ht
      | some s' =>
          obtain ⟨ha, hC'⟩ := along_cons hs hC
          rw [steps_cons hs] at ht
          rcases List.mem_cons.mp ht with rfl | ht
          · exact ⟨hI, ha, hs⟩
          · exact ih (hStep s a s' hI ha hs) hC' t ht

/-! ## Keeping books on a run -/

section Observed

variable {β : Type} {note : σ → α → σ → β → β}

/-- The machine with books beside it: of every step a note is made, of the state it was
taken in, its label and the state it has led to.  The books never decide what the machine
does. -/
def observed (step : σ → α → Option σ) (note : σ → α → σ → β → β) (x : σ × β) (a : α) :
    Option (σ × β) :=
  (step x.1 a).map fun s => (s, note x.1 a s x.2)

theorem observed_eq_some {x x' : σ × β} {a : α} (h : observed step note x a = some x') :
    step x.1 a = some x'.1 ∧ x'.2 = note x.1 a x'.1 x.2 := by
  obtain ⟨s, hs, rfl⟩ := Option.map_eq_some_iff.mp h
  exact ⟨hs, rfl⟩

/-- Books can be kept on every run. -/
theorem run_observed (note : σ → α → σ → β → β) (l : List α) :
    ∀ {s s' : σ} (b : β), run step s l = some s' →
      ∃ b', run (observed step note) (s, b) l = some (s', b') := by
  induction l with
  | nil =>
      intro s s' b h
      cases h
      exact ⟨b, rfl⟩
  | cons a rest ih =>
      intro s s' b h
      obtain ⟨m, hm, hrest⟩ := run_cons_some h
      obtain ⟨b', hb'⟩ := ih (note s a m b) hrest
      have hstep : observed step note (s, b) a = some (m, note s a m b) := by
        simp only [observed, hm, Option.map_some]
      exact ⟨b', (run_cons_of_step hstep rest).trans hb'⟩

end Observed

end HorsieActor.Verified.Schedule
