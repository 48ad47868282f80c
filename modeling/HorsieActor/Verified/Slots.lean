/-!
# Tasks by number

A machine keeps its tasks in a list and names each by its position: a new one goes
to the end, and a step of one replaces what stands at its position.  These are the
reads that follow.

This module imports nothing and names no particular machine.
-/

namespace HorsieActor.Verified.Slots

variable {α : Type} {l : List α} {i j : Nat} {x y z : α}

/-- One position has changed, and no other. -/
theorem getElem?_set_iff (h : l[i]? = some x) :
    (l.set i y)[j]? = some z ↔ (j = i ∧ z = y) ∨ (j ≠ i ∧ l[j]? = some z) := by
  obtain ⟨hlt, -⟩ := List.getElem?_eq_some_iff.mp h
  by_cases hj : j = i
  · subst hj
    rw [List.getElem?_set_self hlt, Option.some.injEq]
    constructor
    · intro heq
      exact Or.inl ⟨rfl, heq.symm⟩
    · intro h
      exact (h.resolve_right fun h => h.1 rfl).2.symm
  · rw [List.getElem?_set_ne (Ne.symm hj)]
    constructor
    · intro h
      exact Or.inr ⟨hj, h⟩
    · intro h
      exact (h.resolve_left fun h => hj h.1).2

/-- What is true of the one at a position stays true if the change keeps it so. -/
theorem exists_getElem?_set {P : α → Prop} (h : l[i]? = some x) (hj : l[j]? = some z) (hz : P z)
    (hkeeps : j = i → P x → P y) : ∃ z', (l.set i y)[j]? = some z' ∧ P z' := by
  by_cases hji : j = i
  · subst hji
    cases h.symm.trans hj
    exact ⟨y, (getElem?_set_iff h).mpr (Or.inl ⟨rfl, rfl⟩), hkeeps rfl hz⟩
  · exact ⟨z, (getElem?_set_iff h).mpr (Or.inr ⟨hji, hj⟩), hz⟩

/-- There is one more, at the end. -/
theorem getElem?_snoc_iff :
    (l ++ [x])[j]? = some z ↔ (j = l.length ∧ z = x) ∨ l[j]? = some z := by
  rcases Nat.lt_trichotomy j l.length with hlt | rfl | hgt
  · rw [List.getElem?_append_left hlt]
    constructor
    · exact Or.inr
    · intro h
      exact h.resolve_left fun h => absurd h.1 (Nat.ne_of_lt hlt)
  · rw [List.getElem?_concat_length, Option.some.injEq, List.getElem?_eq_none (Nat.le_refl _)]
    constructor
    · intro heq
      exact Or.inl ⟨rfl, heq.symm⟩
    · intro h
      exact (h.resolve_right nofun).2.symm
  · have hlen : (l ++ [x]).length ≤ j := by
      rw [List.length_append]
      exact hgt
    rw [List.getElem?_eq_none (Nat.le_of_lt hgt), List.getElem?_eq_none hlen]
    constructor
    · exact nofun
    · intro h
      exact absurd (h.resolve_right nofun).1 (Nat.ne_of_gt hgt)

/-- What holds pairwise, in either order, holds of any two positions. -/
theorem pairwise_getElem? {R : α → α → Prop} (hsymm : ∀ a b, R a b → R b a) (h : l.Pairwise R)
    (hi : l[i]? = some x) (hj : l[j]? = some y) (hij : i ≠ j) : R x y := by
  obtain ⟨hlti, rfl⟩ := List.getElem?_eq_some_iff.mp hi
  obtain ⟨hltj, rfl⟩ := List.getElem?_eq_some_iff.mp hj
  rcases Nat.lt_or_gt_of_ne hij with hlt | hgt
  · exact List.pairwise_iff_getElem.mp h i j hlti hltj hlt
  · exact hsymm _ _ (List.pairwise_iff_getElem.mp h j i hltj hlti hgt)

end HorsieActor.Verified.Slots
