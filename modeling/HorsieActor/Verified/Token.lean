/-!
# Things that are in one place at a time

A token is what gives its holder a right that must not be had twice.  Which token
lies at which place is a relation; that no two places hold tokens of one key is an
invariant, kept by a step that moves a token, creates one with a key nothing else
has, or loses some.

This module imports nothing and names no particular tokens or places.
-/

namespace HorsieActor.Verified.Token

variable {Place Tok Key : Type} {key : Tok → Key} {holds holds' : Place → Tok → Prop}
  {src dst : Place} {t : Tok}

/-- No two places hold tokens of the same key. -/
def Single (key : Tok → Key) (holds : Place → Tok → Prop) : Prop :=
  ∀ p q t t', holds p t → holds q t' → key t = key t' → p = q

/-- Tokens have gone, at most. -/
theorem Single.mono (h : Single key holds) (hsub : ∀ p t, holds' p t → holds p t) :
    Single key holds' :=
  fun p q t t' hp hq => h p q t t' (hsub p t hp) (hsub q t' hq)

/-- A token nothing else has the key of has come to lie at `dst`. -/
theorem Single.create (h : Single key holds) (hfresh : ∀ p t', holds p t' → key t' ≠ key t)
    (hnew : ∀ p t', holds' p t' → holds p t' ∨ (p = dst ∧ t' = t)) : Single key holds' := by
  intro p q a b hp hq hkey
  rcases hnew p a hp with hp | ⟨rfl, rfl⟩
  · rcases hnew q b hq with hq | ⟨rfl, rfl⟩
    · exact h p q a b hp hq hkey
    · exact absurd hkey (hfresh p a hp)
  · rcases hnew q b hq with hq | ⟨rfl, rfl⟩
    · exact absurd hkey.symm (hfresh q b hq)
    · rfl

/-- A token has moved from `src` to `dst`. -/
theorem Single.move (h : Single key holds) (hsrc : holds src t)
    (hnew : ∀ p t', holds' p t' → (holds p t' ∧ p ≠ src) ∨ (p = dst ∧ t' = t)) :
    Single key holds' := by
  have hrest : Single key fun p t' => holds p t' ∧ p ≠ src := h.mono fun p t' hp => hp.1
  exact hrest.create (fun p t' hp hkey => hp.2 (h p src t' t hp.1 hsrc hkey)) hnew

end HorsieActor.Verified.Token
