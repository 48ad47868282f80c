/-!
# Words behind a delimiter

Text made of words, each with a delimiter in front of it that occurs in none of
them.  Where a word ends is then written in the text, so the text determines the
words, and a beginning of the words is a beginning of the text that stops where a
word does.

This module imports nothing and names no particular alphabet.

## Main results

* `append_cons_inj` — a text is cut at its first delimiter in one way.
* `intercalate_eq` — the delimiters in front and the delimiters in between.
* `prefix_iff` — a beginning of the words, read off the text.
* `lead_splitOn`, `splitOn_of_lead` — splitting is the way back.
-/

namespace HorsieActor.Verified.Delimited

variable {α : Type} {sep : α}

/-- Each word with the delimiter in front of it. -/
def lead (sep : α) (words : List (List α)) : List α := words.flatMap fun word => sep :: word

@[simp] theorem lead_nil (sep : α) : lead sep [] = [] := rfl

@[simp] theorem lead_cons (sep : α) (word : List α) (words : List (List α)) :
    lead sep (word :: words) = sep :: (word ++ lead sep words) := rfl

theorem lead_append (sep : α) (words more : List (List α)) :
    lead sep (words ++ more) = lead sep words ++ lead sep more :=
  List.flatMap_append

/-- What has no delimiter and is followed by one ends where the delimiter stands. -/
theorem append_cons_inj {l l' r r' : List α} (h : sep ∉ l) (h' : sep ∉ l')
    (heq : l ++ sep :: r = l' ++ sep :: r') : l = l' ∧ r = r' := by
  induction l generalizing l' with
  | nil =>
      cases l' with
      | nil =>
          cases heq
          exact ⟨rfl, rfl⟩
      | cons y l' =>
          cases heq
          exact absurd (List.mem_cons_self ..) h'
  | cons x l ih =>
      cases l' with
      | nil =>
          cases heq
          exact absurd (List.mem_cons_self ..) h
      | cons y l' =>
          obtain ⟨rfl, hrest⟩ := List.cons.inj heq
          obtain ⟨rfl, rfl⟩ := ih (fun hmem => h (List.mem_cons_of_mem _ hmem))
            (fun hmem => h' (List.mem_cons_of_mem _ hmem)) hrest
          exact ⟨rfl, rfl⟩

/-- Delimiters in front are one in front and the others in between. -/
theorem intercalate_eq {words : List (List α)} (h : words ≠ []) :
    sep :: [sep].intercalate words = lead sep words := by
  induction words with
  | nil => exact absurd rfl h
  | cons word words ih =>
      cases words with
      | nil => simp
      | cons next words =>
          have hne : next :: words ≠ [] := List.cons_ne_nil _ _
          rw [lead_cons, ← ih hne, List.intercalate_cons_of_ne_nil hne, List.append_assoc]
          rfl

/-- A text of words is empty or starts with a delimiter. -/
theorem lead_eq_nil_or (sep : α) (words : List (List α)) :
    lead sep words = [] ∨ ∃ rest, lead sep words = sep :: rest := by
  cases words with
  | nil => exact Or.inl rfl
  | cons word words => exact Or.inr ⟨_, rfl⟩

/-- A first word is followed by the end of the text or by the next delimiter; either
way it is the same in both texts. -/
theorem head_eq {word word' tail tail' : List α} (h : sep ∉ word) (h' : sep ∉ word')
    (htail : tail = [] ∨ ∃ rest, tail = sep :: rest)
    (htail' : tail' = [] ∨ ∃ rest, tail' = sep :: rest)
    (heq : word ++ tail = word' ++ tail') : word = word' ∧ tail = tail' := by
  rcases htail with rfl | ⟨rest, rfl⟩ <;> rcases htail' with rfl | ⟨rest', rfl⟩
  · rw [List.append_nil, List.append_nil] at heq
    exact ⟨heq, rfl⟩
  · rw [List.append_nil] at heq
    subst heq
    exact absurd (List.mem_append_right _ (List.mem_cons_self ..)) h
  · rw [List.append_nil] at heq
    subst heq
    exact absurd (List.mem_append_right _ (List.mem_cons_self ..)) h'
  · obtain ⟨rfl, rfl⟩ := append_cons_inj h h' heq
    exact ⟨rfl, rfl⟩

/-- The words are a beginning of these if their text is one, up to the end or up to
a delimiter. -/
theorem prefix_of_lead {words more : List (List α)} {tail : List α} (h : ∀ w ∈ words, sep ∉ w)
    (hmore : ∀ w ∈ more, sep ∉ w) (htail : tail = [] ∨ ∃ rest, tail = sep :: rest)
    (heq : lead sep more = lead sep words ++ tail) : words <+: more := by
  induction words generalizing more with
  | nil => exact List.nil_prefix
  | cons word words ih =>
      cases more with
      | nil => cases heq
      | cons word' more =>
          rw [lead_cons, lead_cons, List.cons_append, List.append_assoc] at heq
          have hnext : lead sep words ++ tail = [] ∨
              ∃ rest, lead sep words ++ tail = sep :: rest := by
            rcases lead_eq_nil_or sep words with hnil | ⟨rest, hrest⟩
            · rw [hnil]
              exact htail
            · rw [hrest]
              exact Or.inr ⟨_, rfl⟩
          obtain ⟨rfl, hrest⟩ := head_eq (hmore _ (List.mem_cons_self ..))
            (h _ (List.mem_cons_self ..)) (lead_eq_nil_or sep more) hnext (List.cons.inj heq).2
          refine List.cons_prefix_cons.mpr ⟨rfl, ih ?_ ?_ hrest⟩
          · exact fun w hw => h w (List.mem_cons_of_mem _ hw)
          · exact fun w hw => hmore w (List.mem_cons_of_mem _ hw)

/-- **A beginning of the words, read off the text**: the text is the same, or it goes
on with a delimiter. -/
theorem prefix_iff {words more : List (List α)} (h : ∀ w ∈ words, sep ∉ w)
    (hmore : ∀ w ∈ more, sep ∉ w) :
    words <+: more ↔
      lead sep more = lead sep words ∨ lead sep words ++ [sep] <+: lead sep more := by
  constructor
  · rintro ⟨rest, rfl⟩
    rw [lead_append]
    rcases lead_eq_nil_or sep rest with hnil | ⟨tail, htail⟩
    · rw [hnil, List.append_nil]
      exact Or.inl rfl
    · rw [htail]
      exact Or.inr ⟨tail, by rw [List.append_assoc]; rfl⟩
  · rintro (heq | ⟨tail, htail⟩)
    · exact prefix_of_lead h hmore (Or.inl rfl) (by rw [List.append_nil, heq])
    · refine prefix_of_lead h hmore (Or.inr ⟨tail, rfl⟩) ?_
      rw [← htail, List.append_assoc]
      rfl

/-! ## Splitting -/

section Split

variable [BEq α] [LawfulBEq α]

/-- What a text is split into holds no delimiter. -/
theorem not_mem_of_mem_splitOn {l w : List α} (h : w ∈ l.splitOn sep) : sep ∉ w := by
  induction l generalizing w with
  | nil =>
      cases List.mem_singleton.mp h
      exact List.not_mem_nil
  | cons x l ih =>
      obtain ⟨first, rest, hsplit⟩ := List.exists_cons_of_ne_nil (List.splitOn_ne_nil sep l)
      have hfirst : sep ∉ first := ih (by rw [hsplit]; exact List.mem_cons_self ..)
      have hrest : ∀ u ∈ rest, sep ∉ u := fun u hu =>
        ih (by rw [hsplit]; exact List.mem_cons_of_mem _ hu)
      rw [List.splitOn_cons_eq_if_modifyHead, hsplit] at h
      split at h
      · rcases List.mem_cons.mp h with rfl | h
        · exact List.not_mem_nil
        · rcases List.mem_cons.mp h with rfl | h
          · exact hfirst
          · exact hrest w h
      · rename_i hx
        rcases List.mem_cons.mp h with rfl | h
        · intro hmem
          rcases List.mem_cons.mp hmem with rfl | hmem
          · exact hx (beq_self_eq_true _)
          · exact hfirst hmem
        · exact hrest w h

theorem lead_splitOn (sep : α) (l : List α) : lead sep (l.splitOn sep) = sep :: l := by
  rw [← intercalate_eq (List.splitOn_ne_nil sep l), List.intercalate_splitOn]

theorem splitOn_of_lead {words : List (List α)} {l : List α} (h : ∀ w ∈ words, sep ∉ w)
    (hl : lead sep words = sep :: l) : l.splitOn sep = words := by
  have hne : words ≠ [] := by
    rintro rfl
    cases hl
  rw [← intercalate_eq hne] at hl
  rw [← (List.cons.inj hl).2, List.splitOn_intercalate sep h hne]

end Split

end HorsieActor.Verified.Delimited
