import HorsieActor.Ports.Placement
import HorsieActor.Verified.Ranking
import Mathlib.Data.Prod.Lex

/-!
# Placement moves the minimum

`owner_of` scans the members in ascending order and keeps the last of those with
the highest score.  Two members may have the same score, so the score alone does
not rank them; the score together with the member does, and the scan returns the
member that ranks highest that way (`maxByKey_eq_some_iff`).  The tie rule is
then the same for every set of members, which is what makes a shard stay where it
is unless its own host comes or goes (`movesLeast`).
-/

namespace HorsieActor.Ports

open HorsieActor.Verified

/-! ## What the scan returns -/

section Scan

variable {α : Type} {key : α → UInt64}

theorem maxByKey_eq_none_iff {l : List α} : maxByKey key l = none ↔ l = [] := by
  cases l with
  | nil => exact ⟨fun _ => rfl, fun _ => rfl⟩
  | cons y rest => exact ⟨nofun, nofun⟩

/-- By score, and among equal scores by the order the scan walks in. -/
def scanRank (key : α → UInt64) (x : α) : Nat ×ₗ α := toLex ((key x).toNat, x)

theorem scanRank_injective (key : α → UInt64) : Function.Injective (scanRank key) := by
  intro x y h
  exact (Prod.mk.inj (toLex.injective h)).2

variable [LinearOrder α]

/-- Whoever the scan keeps of two ranks at least as high as the other, if the
other was there first. -/
theorem scanRank_le_of_lt (key : α → UInt64) {x y : α} (hxy : x < y) :
    scanRank key x ≤ scanRank key (if key y < key x then x else y) ∧
      scanRank key y ≤ scanRank key (if key y < key x then x else y) := by
  by_cases h : key y < key x
  · rw [if_pos h]
    exact ⟨le_refl _, Prod.Lex.toLex_le_toLex.mpr (Or.inl (UInt64.lt_iff_toNat_lt.mp h))⟩
  · rw [if_neg h]
    refine ⟨Prod.Lex.toLex_le_toLex.mpr ?_, le_refl _⟩
    have hle : (key x).toNat ≤ (key y).toNat :=
      Nat.le_of_not_lt fun hlt => h (UInt64.lt_iff_toNat_lt.mpr hlt)
    rcases Nat.lt_or_eq_of_le hle with hlt | heq
    · exact Or.inl hlt
    · exact Or.inr ⟨heq, le_of_lt hxy⟩

/-- The scan from a member that comes before the rest. -/
theorem highest_foldl (key : α → UInt64) (rest : List α) :
    ∀ best : α, (best :: rest).Pairwise (· < ·) →
      Highest (scanRank key) {y | y ∈ best :: rest}
        (rest.foldl (fun best y => if key y < key best then best else y) best) := by
  induction rest with
  | nil =>
      intro best _
      refine ⟨List.mem_singleton_self best, fun y hy => ?_⟩
      rw [List.mem_singleton.mp hy]
      exact le_refl _
  | cons z rest ih =>
      intro best hsorted
      obtain ⟨hbest, hrest⟩ := List.pairwise_cons.mp hsorted
      obtain ⟨hz, htail⟩ := List.pairwise_cons.mp hrest
      obtain ⟨hleft, hright⟩ := scanRank_le_of_lt key (hbest z (List.mem_cons_self ..))
      -- the one kept of the two still comes before the rest
      have hkept : ((if key z < key best then best else z) :: rest).Pairwise (· < ·) := by
        refine List.pairwise_cons.mpr ⟨fun y hy => ?_, htail⟩
        split
        · exact hbest y (List.mem_cons_of_mem z hy)
        · exact hz y hy
      obtain ⟨hmem, hmax⟩ := ih _ hkept
      have hfirst := hmax _ (List.mem_cons_self ..)
      refine ⟨?_, fun y hy => ?_⟩
      · rcases List.mem_cons.mp hmem with heq | hmem
        · rw [List.foldl_cons, heq]
          split
          · exact List.mem_cons_self ..
          · exact List.mem_cons_of_mem _ (List.mem_cons_self ..)
        · exact List.mem_cons_of_mem _ (List.mem_cons_of_mem _ hmem)
      · rcases List.mem_cons.mp hy with rfl | hy
        · exact le_trans hleft hfirst
        · rcases List.mem_cons.mp hy with rfl | hy
          · exact le_trans hright hfirst
          · exact hmax y (List.mem_cons_of_mem _ hy)

/-- **The scan is a choice by rank.** -/
theorem maxByKey_eq_some_iff {l : List α} (hsorted : l.Pairwise (· < ·)) {x : α} :
    maxByKey key l = some x ↔ Highest (scanRank key) {y | y ∈ l} x := by
  cases l with
  | nil => exact ⟨nofun, fun h => absurd h.1 List.not_mem_nil⟩
  | cons y rest =>
      have hhighest := highest_foldl key rest y hsorted
      constructor
      · intro h
        rw [← Option.some.inj h]
        exact hhighest
      · intro h
        exact congrArg some (hhighest.unique (scanRank_injective key) h)

end Scan

/-! ## Owners -/

namespace PlacementTable

variable {table : PlacementTable} {typeName shardId : String} {members : List NodeId}

theorem mem_setMembers {n : NodeId} :
    n ∈ (table.setMembers members).members.rows.map Prod.fst ↔ n ∈ members :=
  OrdMap.mem_ofKeys

/-- The owner is the member that ranks highest for the shard. -/
theorem ownerOf_eq_some_iff {n : NodeId} :
    (table.setMembers members).ownerOf typeName shardId = some n ↔
      Highest (scanRank (score typeName shardId)) {m | m ∈ members} n := by
  have hsorted : ((table.setMembers members).members.rows.map Prod.fst).Pairwise (· < ·) :=
    List.pairwise_map.mpr (table.setMembers members).members.sorted
  have hset : {m | m ∈ (table.setMembers members).members.rows.map Prod.fst} =
      {m | m ∈ members} := Set.ext fun m => mem_setMembers
  unfold ownerOf
  rw [maxByKey_eq_some_iff hsorted, hset]

theorem ownerOf_eq_none_iff :
    (table.setMembers members).ownerOf typeName shardId = none ↔ members = [] := by
  unfold ownerOf
  rw [maxByKey_eq_none_iff, List.eq_nil_iff_forall_not_mem, List.eq_nil_iff_forall_not_mem]
  exact forall_congr' fun n => not_congr mem_setMembers

end PlacementTable

/-! ## The result -/

open PlacementTable

/-- What becomes of one shard under two lists of members. -/
structure MovesLeast (table : PlacementTable) (typeName shardId : String) (A B : List NodeId) :
    Prop where
  /-- The order and the repeats of the list do not matter. -/
  sameSet : (∀ n, n ∈ A ↔ n ∈ B) →
    (table.setMembers A).ownerOf typeName shardId = (table.setMembers B).ownerOf typeName shardId
  none_iff : (table.setMembers A).ownerOf typeName shardId = none ↔ A = []
  member : ∀ n, (table.setMembers A).ownerOf typeName shardId = some n → n ∈ A
  stays : A ⊆ B → ∀ n, (table.setMembers B).ownerOf typeName shardId = some n → n ∈ A →
    (table.setMembers A).ownerOf typeName shardId = some n
  /-- From `B` to `A` a shard moves only if its owner was removed; from `A` to
  `B` it moves only to a member that was added. -/
  moved : A ⊆ B →
    (table.setMembers A).ownerOf typeName shardId ≠
      (table.setMembers B).ownerOf typeName shardId →
    ∃ n, (table.setMembers B).ownerOf typeName shardId = some n ∧ n ∈ B ∧ n ∉ A
  /-- Members that went and came back. -/
  restored : ∀ C, (∀ n, n ∈ C ↔ n ∈ B) →
    (((table.setMembers B).setMembers A).setMembers C).ownerOf typeName shardId =
      (table.setMembers B).ownerOf typeName shardId

theorem ownerOf_eq_of_mem_iff {table table' : PlacementTable} {typeName shardId : String}
    {A B : List NodeId} (h : ∀ n, n ∈ A ↔ n ∈ B) :
    (table.setMembers A).ownerOf typeName shardId =
      (table'.setMembers B).ownerOf typeName shardId := by
  apply Option.ext
  intro n
  rw [ownerOf_eq_some_iff, ownerOf_eq_some_iff, show {m | m ∈ A} = {m | m ∈ B} from Set.ext h]

/-- **Rendezvous placement moves the minimum**, for every shard and every two
lists of members. -/
theorem movesLeast (table : PlacementTable) (typeName shardId : String) (A B : List NodeId) :
    MovesLeast table typeName shardId A B where
  sameSet := ownerOf_eq_of_mem_iff
  none_iff := ownerOf_eq_none_iff
  member := fun n h => (ownerOf_eq_some_iff.mp h).1
  stays := by
    intro hsub n howner hn
    exact ownerOf_eq_some_iff.mpr ((ownerOf_eq_some_iff.mp howner).of_subset hsub hn)
  moved := by
    intro hsub hne
    cases howner : (table.setMembers B).ownerOf typeName shardId with
    | none =>
        -- nobody is left in either
        have hB := ownerOf_eq_none_iff.mp howner
        have hA : A = [] := List.subset_nil.mp (hB ▸ hsub)
        rw [howner, ownerOf_eq_none_iff.mpr hA] at hne
        exact absurd rfl hne
    | some n =>
        have hhighest := ownerOf_eq_some_iff.mp howner
        refine ⟨n, rfl, hhighest.1, fun hn => hne ?_⟩
        rw [howner]
        exact ownerOf_eq_some_iff.mpr (hhighest.of_subset hsub hn)
  restored := fun _ h => ownerOf_eq_of_mem_iff h

end HorsieActor.Ports
