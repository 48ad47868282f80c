import Mathlib.Data.Set.Basic
import Mathlib.Order.Basic

/-!
# The highest-ranked candidate

A choice by rank among candidates, where no two candidates have the same rank.
It depends on nothing but which candidates there are, and taking candidates away
changes it only when the chosen one goes.

This module names no particular candidates and no particular rank.
-/

namespace HorsieActor.Verified

variable {α β : Type} [LinearOrder β] {rank : α → β} {S T : Set α} {x y : α}

/-- `x` is one of the candidates, and none of them ranks higher. -/
def Highest (rank : α → β) (S : Set α) (x : α) : Prop := x ∈ S ∧ ∀ y ∈ S, rank y ≤ rank x

theorem Highest.unique (hinj : Function.Injective rank) (hx : Highest rank S x)
    (hy : Highest rank S y) : x = y :=
  hinj (le_antisymm (hy.2 x hx.1) (hx.2 y hy.1))

/-- Among fewer candidates the choice is the same, if it is still one of them. -/
theorem Highest.of_subset (h : Highest rank T x) (hsub : S ⊆ T) (hx : x ∈ S) :
    Highest rank S x :=
  ⟨hx, fun y hy => h.2 y (hsub hy)⟩

/-- Two choices that are candidates for each other are the same. -/
theorem Highest.eq_of_mem (hinj : Function.Injective rank) (hx : Highest rank S x)
    (hy : Highest rank T y) (hxT : x ∈ T) (hyS : y ∈ S) : x = y :=
  hinj (le_antisymm (hy.2 x hxT) (hx.2 y hyS))

end HorsieActor.Verified
