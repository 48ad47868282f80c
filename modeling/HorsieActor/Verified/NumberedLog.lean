/-!
# Numbered logs

The suffix of an append-only log that survives compaction: entries carry the
number they were first assigned, so cutting the front of the log removes
entries and never renumbers the rest.  `numbered n xs` is the list `xs`
numbered from `n + 1` on, and the lemmas below say how it behaves under the
three things a log does — append at the end, read past a number, and drop up to
a number.

The last two are one operation on the list, a filter on the number, and
`filter_numbered` is its closed form.
-/

namespace HorsieActor.Verified

variable {β : Type}

/-- `xs` numbered consecutively, the first entry getting `n + 1`. -/
def numbered (n : Nat) : List β → List (Nat × β)
  | [] => []
  | x :: xs => (n + 1, x) :: numbered (n + 1) xs

@[simp] theorem numbered_nil (n : Nat) : numbered n ([] : List β) = [] := rfl

/-- Appending continues the numbering. -/
theorem numbered_append (xs ys : List β) :
    ∀ n, numbered n (xs ++ ys) = numbered n xs ++ numbered (n + xs.length) ys := by
  induction xs with
  | nil => intro n; rfl
  | cons x xs ih =>
      intro n
      simp only [List.cons_append, numbered, ih, List.length_cons]
      rw [show n + 1 + xs.length = n + (xs.length + 1) by omega]

/-- Which number an entry carries. -/
theorem mem_numbered {m : Nat} {x : β} (xs : List β) :
    ∀ n, (m, x) ∈ numbered n xs ↔ n < m ∧ xs[m - n - 1]? = some x := by
  induction xs with
  | nil => intro n; simp
  | cons y ys ih =>
      intro n
      rw [numbered, List.mem_cons, ih, Prod.mk.injEq]
      by_cases hm : m = n + 1
      · subst hm
        simp [eq_comm]
      · by_cases hlt : n < m
        · rw [show m - n - 1 = (m - (n + 1) - 1) + 1 by omega, List.getElem?_cons_succ]
          simp [hm, hlt, show n + 1 < m by omega]
        · simp [hm, hlt, show ¬ n + 1 < m by omega]

/-- Keeping the entries past `m` drops as many as lie at or below it, and the
numbering of the rest is untouched. -/
theorem filter_numbered (m : Nat) (xs : List β) :
    ∀ n, (numbered n xs).filter (fun p => decide (m < p.1)) =
      numbered (max n m) (xs.drop (m - n)) := by
  induction xs with
  | nil => intro n; simp
  | cons x xs ih =>
      intro n
      simp only [numbered, List.filter_cons, ih]
      by_cases h : m < n + 1
      · -- nothing is dropped from here on
        rw [if_pos (by simpa using h)]
        have h0 : m - n = 0 := by omega
        have h1 : m - (n + 1) = 0 := by omega
        rw [h0, h1, List.drop_zero, List.drop_zero, Nat.max_eq_left (by omega),
          Nat.max_eq_left (by omega), numbered]
      · rw [if_neg (by simpa using h)]
        have h1 : m - n = (m - (n + 1)) + 1 := by omega
        rw [h1, List.drop_succ_cons, Nat.max_eq_right (by omega),
          Nat.max_eq_right (by omega)]

/-- A numbered log that starts at `n` and holds everything after it, read past
`m ≥ n`: exactly the entries after `m`, under their own numbers. -/
theorem filter_numbered_drop {n m : Nat} (h : n ≤ m) (xs : List β) :
    (numbered n (xs.drop n)).filter (fun p => decide (m < p.1)) =
      numbered m (xs.drop m) := by
  rw [filter_numbered, Nat.max_eq_right h, List.drop_drop,
    show n + (m - n) = m by omega]

end HorsieActor.Verified
