import HorsieActor.Verified.Schedule
import Mathlib.Algebra.Order.BigOperators.Group.List
import Mathlib.Algebra.Order.Ring.Nat

/-!
# Schedules that come to an end

A machine may go on for ever because its environment keeps asking.  Leave the
asking out, and what remains is often bounded: some number goes down with every
step that counts and is not raised by the others.  Then no schedule can count more
such steps than that number says (`run_countP_le`).

The number is most often a sum over tasks, of which a step moves one; the sums of
this file are those.

This module names no particular machine.
-/

namespace HorsieActor.Verified.Schedule

variable {σ α : Type} {step : σ → α → Option σ}

/-- No schedule takes more of the steps that lower the measure than the measure
says. -/
theorem run_countP_le {μ : σ → Nat} {quiet counts : α → Bool}
    (hle : ∀ s a s', quiet a = true → step s a = some s' → μ s' ≤ μ s)
    (hlt : ∀ s a s', counts a = true → step s a = some s' → μ s' < μ s) (l : List α) :
    ∀ {s s' : σ}, (∀ a ∈ l, quiet a = true) → run step s l = some s' →
      l.countP counts + μ s' ≤ μ s := by
  induction l with
  | nil =>
      intro s s' _ hrun
      cases hrun
      simp
  | cons a rest ih =>
      intro s s' hquiet hrun
      obtain ⟨m, hm, hrest⟩ := run_cons_some hrun
      have hbound := ih (fun b hb => hquiet b (List.mem_cons_of_mem _ hb)) hrest
      rw [List.countP_cons]
      by_cases hcounts : counts a = true
      · have := hlt s a m hcounts hm
        rw [if_pos hcounts]
        omega
      · have := hle s a m (hquiet a (List.mem_cons_self ..)) hm
        rw [if_neg hcounts]
        omega

end HorsieActor.Verified.Schedule

namespace HorsieActor.Verified

variable {α : Type}

/-- One term of a sum has changed. -/
theorem sum_map_modify (g : α → Nat) (f : α → α) (l : List α) :
    ∀ {i : Nat} {x : α}, l[i]? = some x →
      ((l.modify i f).map g).sum + g x = (l.map g).sum + g (f x) := by
  induction l with
  | nil =>
      intro i x h
      cases h
  | cons y rest ih =>
      intro i x h
      cases i with
      | zero =>
          cases h
          simp only [List.modify_zero_cons, List.map_cons, List.sum_cons]
          omega
      | succ i =>
          have := ih (i := i) (x := x) h
          simp only [List.modify_succ_cons, List.map_cons, List.sum_cons]
          omega

theorem sum_map_set (g : α → Nat) (y : α) {l : List α} {i : Nat} {x : α} (h : l[i]? = some x) :
    ((l.set i y).map g).sum + g x = (l.map g).sum + g y := by
  rw [List.set_eq_modify]
  exact sum_map_modify g (fun _ => y) l h

end HorsieActor.Verified
