import Mathlib.Data.Countable.Basic
import Mathlib.Data.List.Sort
import Mathlib.Logic.Equiv.List
import Mathlib.Order.Lattice
import Mathlib.Tactic.Common

/-!
# Ordered maps

An ordered map is the list of its rows, strictly ascending in the key; the
order is a field, so two rows for one key cannot be built.  Iteration order,
`popFirst` and with it "evict the oldest" are then facts about a list.

`trim` is the loop that pops the lowest row while the map is over a capacity.
What it leaves is the rest of the list (`rows_trim`), and a map that is only
ever inserted into past its end and trimmed keeps exactly its last rows
(`rows_insert_of_lt`, `rows_trim`).

## Main results

* `mem_insert`, `mem_erase`, `get?_eq_some_iff` — the map as a set of rows.
* `eq_of_get?_eq` — a map is its lookups.
* `mem_ofKeys` — a list of keys collected into an ordered set.
* `rows_insert_of_lt` — a key above every other goes to the end.
* `perm_insert`, `perm_erase`, `evicted_append_trim` — no operation loses a row
  or makes two of one.
* `rows_trim`, `lt_of_mem_evicted` — what is evicted is a lowest part.
-/

namespace HorsieActor.Verified

/-- Rows in strictly ascending key order. -/
@[ext] structure OrdMap (κ : Type) [LinearOrder κ] (ν : Type) where
  rows : List (κ × ν)
  sorted : rows.Pairwise fun a b => a.1 < b.1

namespace OrdMap

variable {κ : Type} [LinearOrder κ] {ν : Type}

instance [DecidableEq ν] : DecidableEq (OrdMap κ ν) :=
  fun _ _ => decidable_of_iff _ OrdMap.ext_iff.symm

instance [Countable κ] [Countable ν] : Countable (OrdMap κ ν) :=
  Function.Injective.countable (f := OrdMap.rows) fun _ _ => OrdMap.ext

/-! ## Operations -/

def empty : OrdMap κ ν := ⟨[], List.Pairwise.nil⟩

def size (m : OrdMap κ ν) : Nat := m.rows.length

def get? (m : OrdMap κ ν) (k : κ) : Option ν :=
  (m.rows.find? fun row => decide (row.1 = k)).map Prod.snd

/-- Put a row where its key belongs, replacing a row with the same key. -/
def insertRow (k : κ) (v : ν) : List (κ × ν) → List (κ × ν)
  | [] => [(k, v)]
  | row :: rest =>
      if k < row.1 then (k, v) :: row :: rest
      else if row.1 < k then row :: insertRow k v rest
      else (k, v) :: rest

theorem mem_insertRow {k : κ} {v : ν} {l : List (κ × ν)} {row : κ × ν}
    (h : row ∈ insertRow k v l) : row = (k, v) ∨ row ∈ l := by
  induction l with
  | nil => simpa [insertRow] using h
  | cons r rest ih =>
      simp only [insertRow] at h
      split at h
      · simpa using h
      · split at h
        · rcases List.mem_cons.mp h with rfl | hr
          · exact Or.inr (List.mem_cons_self ..)
          · exact (ih hr).imp_right (List.mem_cons_of_mem _)
        · rcases List.mem_cons.mp h with rfl | hr
          · exact Or.inl rfl
          · exact Or.inr (List.mem_cons_of_mem _ hr)

theorem sorted_insertRow (k : κ) (v : ν) {l : List (κ × ν)}
    (h : l.Pairwise fun a b => a.1 < b.1) :
    (insertRow k v l).Pairwise fun a b => a.1 < b.1 := by
  induction l with
  | nil => simp [insertRow]
  | cons r rest ih =>
      obtain ⟨hr, hrest⟩ := List.pairwise_cons.mp h
      simp only [insertRow]
      split
      · rename_i hlt
        refine List.pairwise_cons.mpr ⟨fun row hrow => ?_, h⟩
        rcases List.mem_cons.mp hrow with rfl | hrow
        · exact hlt
        · exact lt_trans hlt (hr row hrow)
      · split
        · rename_i hlt
          refine List.pairwise_cons.mpr ⟨fun row hrow => ?_, ih hrest⟩
          rcases mem_insertRow hrow with rfl | hrow
          · exact hlt
          · exact hr row hrow
        · rename_i hge hle
          have heq : r.1 = k := le_antisymm (not_lt.mp hge) (not_lt.mp hle)
          refine List.pairwise_cons.mpr ⟨fun row hrow => ?_, hrest⟩
          rw [← heq]
          exact hr row hrow

def insert (m : OrdMap κ ν) (k : κ) (v : ν) : OrdMap κ ν :=
  ⟨insertRow k v m.rows, sorted_insertRow k v m.sorted⟩

def erase (m : OrdMap κ ν) (k : κ) : OrdMap κ ν :=
  ⟨m.rows.filter fun row => decide (row.1 ≠ k), m.sorted.filter _⟩

/-- Keep the rows whose key passes the test. -/
def retain (m : OrdMap κ ν) (keep : κ → Bool) : OrdMap κ ν :=
  ⟨m.rows.filter fun row => keep row.1, m.sorted.filter _⟩

/-- Remove the row with the lowest key. -/
def popFirst (m : OrdMap κ ν) : OrdMap κ ν :=
  ⟨m.rows.tail, m.sorted.tail⟩

/-- Pop the lowest row while the map holds more than `capacity`; `fuel` bounds
the number of rounds. -/
def trimLoop (capacity : Nat) : Nat → OrdMap κ ν → OrdMap κ ν
  | 0, m => m
  | fuel + 1, m => if capacity < m.size then trimLoop capacity fuel m.popFirst else m

/-- The loop run to its end: no more rounds than there are rows. -/
def trim (capacity : Nat) (m : OrdMap κ ν) : OrdMap κ ν :=
  trimLoop capacity m.size m

/-- The rows that `trim` pops. -/
def evicted (capacity : Nat) (m : OrdMap κ ν) : List (κ × ν) :=
  m.rows.take (m.size - capacity)

def keys (m : OrdMap κ ν) : List κ := m.rows.map Prod.fst

/-- An ordered set: the keys of a list, each once. -/
def ofKeys (ks : List κ) : OrdMap κ Unit := ks.foldl (fun set k => set.insert k ()) empty

/-! ## The map as a set of rows -/

variable {m : OrdMap κ ν} {k : κ} {v : ν} {row : κ × ν}

/-- One key, one row. -/
theorem eq_of_mem {v' : ν} (h : (k, v) ∈ m.rows) (h' : (k, v') ∈ m.rows) : v = v' := by
  obtain ⟨l, hl⟩ := m
  induction l with
  | nil => cases h
  | cons r rest ih =>
      obtain ⟨hr, hrest⟩ := List.pairwise_cons.mp hl
      rcases List.mem_cons.mp h with rfl | hm <;> rcases List.mem_cons.mp h' with heq | hm'
      · exact (congrArg Prod.snd heq).symm
      · exact absurd (hr _ hm') (lt_irrefl _)
      · exact absurd (hr _ hm) (by rw [← heq]; exact lt_irrefl _)
      · exact ih hrest hm hm'

theorem get?_eq_some_iff : m.get? k = some v ↔ (k, v) ∈ m.rows := by
  unfold get?
  constructor
  · intro h
    obtain ⟨⟨k', v'⟩, hf, hv⟩ := Option.map_eq_some_iff.mp h
    have hk : k' = k := by simpa using List.find?_some hf
    have hmem := List.mem_of_find?_eq_some hf
    subst hk
    subst hv
    exact hmem
  · intro h
    cases hf : m.rows.find? fun row => decide (row.1 = k) with
    | none =>
        have := List.find?_eq_none.mp hf (k, v) h
        simp at this
    | some row =>
        obtain ⟨k', v'⟩ := row
        have hk : k' = k := by simpa using List.find?_some hf
        have hmem := List.mem_of_find?_eq_some hf
        subst hk
        rw [eq_of_mem h hmem]
        rfl

theorem get?_eq_none_iff : m.get? k = none ↔ ∀ v, (k, v) ∉ m.rows := by
  rw [Option.eq_none_iff_forall_ne_some]
  exact forall_congr' fun v => not_congr get?_eq_some_iff

theorem mem_insert : row ∈ (m.insert k v).rows ↔ row = (k, v) ∨ (row.1 ≠ k ∧ row ∈ m.rows) := by
  obtain ⟨l, hl⟩ := m
  show row ∈ insertRow k v l ↔ row = (k, v) ∨ (row.1 ≠ k ∧ row ∈ l)
  induction l with
  | nil => simp [insertRow]
  | cons r rest ih =>
      obtain ⟨hr, hrest⟩ := List.pairwise_cons.mp hl
      simp only [insertRow]
      split
      · rename_i hlt
        have hne : ∀ x ∈ r :: rest, x.1 ≠ k := by
          intro x hx
          rcases List.mem_cons.mp hx with rfl | hx
          · exact ne_of_gt hlt
          · exact ne_of_gt (lt_trans hlt (hr x hx))
        rw [List.mem_cons]
        exact or_congr_right ⟨fun hx => ⟨hne row hx, hx⟩, And.right⟩
      · split
        · rename_i hlt
          rw [List.mem_cons, List.mem_cons, ih hrest]
          have hne : row = r → row.1 ≠ k := by rintro rfl; exact ne_of_lt hlt
          constructor
          · rintro (hrow | hnew | ⟨hk, hold⟩)
            · exact Or.inr ⟨hne hrow, Or.inl hrow⟩
            · exact Or.inl hnew
            · exact Or.inr ⟨hk, Or.inr hold⟩
          · rintro (hnew | ⟨hk, hrow | hold⟩)
            · exact Or.inr (Or.inl hnew)
            · exact Or.inl hrow
            · exact Or.inr (Or.inr ⟨hk, hold⟩)
        · rename_i hge hle
          have heq : r.1 = k := le_antisymm (not_lt.mp hge) (not_lt.mp hle)
          have hne : row ∈ rest → row.1 ≠ k := by
            intro hx
            rw [← heq]
            exact ne_of_gt (hr row hx)
          rw [List.mem_cons, List.mem_cons]
          constructor
          · exact Or.imp_right fun hx => ⟨hne hx, Or.inr hx⟩
          · rintro (hnew | ⟨hk, rfl | hold⟩)
            · exact Or.inl hnew
            · exact absurd heq hk
            · exact Or.inr hold

theorem mem_erase : row ∈ (m.erase k).rows ↔ row.1 ≠ k ∧ row ∈ m.rows := by
  simp [erase, and_comm]

theorem mem_retain {keep : κ → Bool} :
    row ∈ (m.retain keep).rows ↔ keep row.1 = true ∧ row ∈ m.rows := by
  simp [retain, and_comm]

/-- Maps with the same rows are the same map. -/
theorem eq_of_mem_rows_iff {m' : OrdMap κ ν} (h : ∀ row, row ∈ m.rows ↔ row ∈ m'.rows) :
    m = m' := by
  have : Std.Irrefl fun a b : κ × ν => a.1 < b.1 := ⟨fun a => lt_irrefl a.1⟩
  have : Std.Antisymm fun a b : κ × ν => a.1 < b.1 :=
    ⟨fun a b hab hba => absurd (lt_trans hab hba) (lt_irrefl a.1)⟩
  exact OrdMap.ext (m.sorted.eq_of_mem_iff m'.sorted h)

/-- Erasing a key that is not there changes nothing. -/
theorem erase_eq_self (h : m.get? k = none) : m.erase k = m := by
  apply eq_of_mem_rows_iff
  rintro ⟨k', v⟩
  rw [mem_erase]
  refine ⟨And.right, fun hrow => ⟨?_, hrow⟩⟩
  rintro rfl
  exact get?_eq_none_iff.mp h v hrow

theorem nodup_rows (m : OrdMap κ ν) : m.rows.Nodup :=
  m.sorted.imp fun hlt heq => absurd hlt (by rw [heq]; exact lt_irrefl _)

/-- A row under a new key is one row more. -/
theorem perm_insert (h : ∀ v', (k, v') ∉ m.rows) :
    (m.insert k v).rows.Perm ((k, v) :: m.rows) := by
  rw [List.perm_ext_iff_of_nodup (nodup_rows _) (List.nodup_cons.mpr ⟨h v, nodup_rows m⟩)]
  rintro ⟨k', v'⟩
  rw [mem_insert, List.mem_cons]
  refine or_congr_right ⟨And.right, fun hrow => ⟨?_, hrow⟩⟩
  rintro rfl
  exact h v' hrow

/-- Erasing a row leaves the others. -/
theorem perm_erase (h : (k, v) ∈ m.rows) : m.rows.Perm ((k, v) :: (m.erase k).rows) := by
  have hnew : (k, v) ∉ (m.erase k).rows := fun hrow => (mem_erase.mp hrow).1 rfl
  rw [List.perm_ext_iff_of_nodup (nodup_rows m) (List.nodup_cons.mpr ⟨hnew, nodup_rows _⟩)]
  rintro ⟨k', v'⟩
  rw [List.mem_cons, mem_erase]
  constructor
  · intro hrow
    by_cases hk : k' = k
    · subst hk
      exact Or.inl (by rw [eq_of_mem hrow h])
    · exact Or.inr ⟨hk, hrow⟩
  · rintro (heq | ⟨-, hrow⟩)
    · rw [heq]
      exact h
    · exact hrow

theorem get?_insert (k' : κ) :
    (m.insert k v).get? k' = if k' = k then some v else m.get? k' := by
  apply Option.ext
  intro v'
  rw [get?_eq_some_iff, mem_insert]
  by_cases hk : k' = k
  · subst hk
    simp [eq_comm]
  · rw [if_neg hk, get?_eq_some_iff]
    simp [hk]

theorem mem_keys : k ∈ m.keys ↔ ∃ v, (k, v) ∈ m.rows := by
  simp [keys]

theorem mem_keys_insert {k' : κ} : k' ∈ (m.insert k v).keys ↔ k' = k ∨ k' ∈ m.keys := by
  rw [mem_keys, mem_keys]
  by_cases h : k' = k
  · subst h
    simp [mem_insert]
  · simp [mem_insert, h]

/-- An ordered set is the set of its keys. -/
theorem eq_of_mem_keys_iff {m m' : OrdMap κ Unit} (h : ∀ k, k ∈ m.keys ↔ k ∈ m'.keys) : m = m' := by
  have hrows : ∀ {m : OrdMap κ Unit} {k : κ}, (k, ()) ∈ m.rows ↔ k ∈ m.keys := by
    intro m k
    rw [mem_keys]
    exact ⟨fun hrow => ⟨(), hrow⟩, fun ⟨_, hrow⟩ => hrow⟩
  apply eq_of_mem_rows_iff
  rintro ⟨k, u⟩
  rw [hrows, hrows, h]

theorem mem_keys_foldl_insert (ks : List κ) :
    ∀ m : OrdMap κ Unit, k ∈ (ks.foldl (fun set k => set.insert k ()) m).keys ↔
      k ∈ ks ∨ k ∈ m.keys := by
  induction ks with
  | nil => intro m; simp
  | cons k' rest ih =>
      intro m
      rw [List.foldl_cons, ih, mem_keys_insert, List.mem_cons, or_left_comm, or_assoc]

theorem mem_ofKeys {ks : List κ} : k ∈ (ofKeys ks).keys ↔ k ∈ ks := by
  rw [ofKeys, mem_keys_foldl_insert]
  simp [keys, empty]

/-! ## Ends -/

/-- A key above every other goes to the end. -/
theorem rows_insert_of_lt (h : ∀ row ∈ m.rows, row.1 < k) :
    (m.insert k v).rows = m.rows ++ [(k, v)] := by
  obtain ⟨l, hl⟩ := m
  show insertRow k v l = l ++ [(k, v)]
  induction l with
  | nil => rfl
  | cons r rest ih =>
      have hr : r.1 < k := h r (List.mem_cons_self ..)
      have hrest := ih (List.pairwise_cons.mp hl).2 fun row hrow =>
        h row (List.mem_cons_of_mem _ hrow)
      rw [insertRow, if_neg (not_lt.mpr (le_of_lt hr)), if_pos hr, hrest]
      rfl

/-- The last elements of a list, no more than `capacity` of them. -/
def keepLast {α : Type} (capacity : Nat) (l : List α) : List α := l.drop (l.length - capacity)

theorem keepLast_of_le {α : Type} {capacity : Nat} {l : List α} (h : l.length ≤ capacity) :
    keepLast capacity l = l := by
  rw [keepLast, Nat.sub_eq_zero_of_le h, List.drop_zero]

theorem length_keepLast_le {α : Type} (capacity : Nat) (l : List α) :
    (keepLast capacity l).length ≤ capacity := by
  rw [keepLast, List.length_drop]
  omega

/-- What was cut off before an append is cut off after it too. -/
theorem keepLast_append {α : Type} (capacity : Nat) (l more : List α) :
    keepLast capacity (keepLast capacity l ++ more) = keepLast capacity (l ++ more) := by
  have hk : l.length - capacity ≤ l.length := Nat.sub_le _ _
  have hcut : l.length - capacity + (l.length - (l.length - capacity) + more.length - capacity) =
      l.length + more.length - capacity := by omega
  unfold keepLast
  rw [← List.drop_append_of_le_length hk, List.drop_drop, List.length_drop, List.length_append,
    Nat.sub_add_comm hk, hcut]

/-- An element is kept exactly when fewer than `capacity` come after it. -/
theorem mem_keepLast {α : Type} {capacity : Nat} {l : List α} {x : α} :
    x ∈ keepLast capacity l ↔ ∃ p, l.length ≤ p + capacity ∧ l[p]? = some x := by
  rw [keepLast, List.mem_iff_getElem?]
  constructor
  · rintro ⟨i, hi⟩
    rw [List.getElem?_drop] at hi
    exact ⟨_, by omega, hi⟩
  · rintro ⟨p, hp, hx⟩
    refine ⟨p - (l.length - capacity), ?_⟩
    rw [List.getElem?_drop, Nat.add_sub_cancel' (by omega)]
    exact hx

/-- Between two equal elements there are at least `width` others. -/
def Spaced {α : Type} (width : Nat) (l : List α) : Prop :=
  ∀ a b x, a < b → l[a]? = some x → l[b]? = some x → a + width < b

theorem spaced_nil {α : Type} (width : Nat) : Spaced width ([] : List α) := by
  intro a b x _ ha _
  cases ha

/-- Spacing is kept by adding only what is not among the last ones. -/
theorem Spaced.snoc {α : Type} {width : Nat} {l : List α} {x : α} (h : Spaced width l)
    (hx : x ∉ keepLast width l) : Spaced width (l ++ [x]) := by
  intro a b y hab ha hb
  have hlt : a < l.length := by
    obtain ⟨hblt, -⟩ := List.getElem?_eq_some_iff.mp hb
    rw [List.length_append, List.length_singleton] at hblt
    omega
  rw [List.getElem?_append_left hlt] at ha
  by_cases hlast : b < l.length
  · rw [List.getElem?_append_left hlast] at hb
    exact h a b y hab ha hb
  · obtain ⟨hblt, hy⟩ := List.getElem?_eq_some_iff.mp hb
    rw [List.length_append, List.length_singleton] at hblt
    obtain rfl : b = l.length := by omega
    rw [List.getElem_concat_length rfl] at hy
    subst hy
    by_contra hnear
    exact hx (mem_keepLast.mpr ⟨a, by omega, ha⟩)

theorem rows_trimLoop (capacity : Nat) (fuel : Nat) :
    ∀ m : OrdMap κ ν, m.size - capacity ≤ fuel →
      (trimLoop capacity fuel m).rows = m.rows.drop (m.size - capacity) := by
  induction fuel with
  | zero =>
      intro m h
      rw [Nat.le_zero.mp h]
      rfl
  | succ fuel ih =>
      intro m h
      have hpop : m.popFirst.size = m.size - 1 := by simp [popFirst, size]
      rw [trimLoop]
      split
      · rename_i hover
        rw [ih _ (by omega), hpop]
        show m.rows.tail.drop _ = _
        rw [← List.drop_one, List.drop_drop]
        congr 1
        omega
      · rename_i hfits
        rw [show m.size - capacity = 0 by omega]
        rfl

/-- Trimming removes the lowest rows and no others. -/
theorem rows_trim (capacity : Nat) (m : OrdMap κ ν) :
    (m.trim capacity).rows = keepLast capacity m.rows :=
  rows_trimLoop capacity m.size m (Nat.sub_le _ _)

theorem evicted_append_trim (capacity : Nat) (m : OrdMap κ ν) :
    m.evicted capacity ++ (m.trim capacity).rows = m.rows := by
  rw [rows_trim]
  exact List.take_append_drop ..

/-- What is evicted is below all that stays. -/
theorem lt_of_mem_evicted {capacity : Nat} {row' : κ × ν} (h : row ∈ m.evicted capacity)
    (h' : row' ∈ (m.trim capacity).rows) : row.1 < row'.1 := by
  have hsorted := m.sorted
  rw [← evicted_append_trim capacity m] at hsorted
  exact (List.pairwise_append.mp hsorted).2.2 row h row' h'

theorem size_trim (capacity : Nat) (m : OrdMap κ ν) :
    (m.trim capacity).size = min m.size capacity := by
  show (m.trim capacity).rows.length = min m.rows.length capacity
  rw [rows_trim, keepLast, List.length_drop]
  omega

theorem mem_of_mem_trim {capacity : Nat} (h : row ∈ (m.trim capacity).rows) : row ∈ m.rows := by
  rw [rows_trim] at h
  exact List.mem_of_mem_drop h

end OrdMap

end HorsieActor.Verified
