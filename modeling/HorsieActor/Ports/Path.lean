import Mathlib.Data.List.Basic

/-!
# Paths and shard addresses

Port of the parts of `src/path.rs` and `src/shard.rs` that creation, resolution
and the prefix scan use.  A path is its segments, root first; "everything under
here" is a prefix of segments (`startsWith_iff`).
-/

namespace HorsieActor.Ports

/-- Where an actor is in the tree.  Root is the empty list. -/
structure ActorPath where
  segments : List String
  deriving DecidableEq, Repr

namespace ActorPath

def root : ActorPath := ⟨[]⟩

/-- The path of a child of this one. -/
def child (path : ActorPath) (name : String) : ActorPath := ⟨path.segments ++ [name]⟩

/-- This path's parent, or `none` at the root. -/
def parent (path : ActorPath) : Option ActorPath :=
  if path.segments.isEmpty then none else some ⟨path.segments.dropLast⟩

/-- The last segment, or `none` at the root. -/
def name (path : ActorPath) : Option String := path.segments.getLast?

/-- Whether `base` is this path or one of its ancestors. -/
def startsWith (path base : ActorPath) : Bool :=
  decide (base.segments.length ≤ path.segments.length) &&
    (base.segments.zip path.segments).all fun (a, b) => a == b

/-- Strictly under `base`: what `stop_descendants` scans for. -/
def under (path base : ActorPath) : Bool := path.startsWith base && path != base

/-- Whether a name can be one segment of a path. -/
def isValidName (name : String) : Bool := !name.isEmpty && !name.toList.contains '/'

/-- A path that has a last segment is the child of that name of its parent. -/
theorem exists_parent {path : ActorPath} {name : String} (h : path.name = some name) :
    ∃ parent, path.parent = some parent ∧ path = parent.child name := by
  obtain ⟨segments⟩ := path
  obtain ⟨front, rfl⟩ := List.getLast?_eq_some_iff.mp h
  exact ⟨⟨front⟩, by simp [parent], rfl⟩

theorem zip_all_beq_iff {as bs : List String} (h : as.length ≤ bs.length) :
    (as.zip bs).all (fun (a, b) => a == b) = true ↔ as <+: bs := by
  induction as generalizing bs with
  | nil => simp
  | cons a as ih =>
      cases bs with
      | nil => simp at h
      | cons b bs =>
          simp only [List.zip_cons_cons, List.all_cons, Bool.and_eq_true, beq_iff_eq,
            List.cons_prefix_cons, ih (Nat.le_of_succ_le_succ h)]

theorem startsWith_iff {path base : ActorPath} :
    path.startsWith base = true ↔ base.segments <+: path.segments := by
  unfold startsWith
  rw [Bool.and_eq_true, decide_eq_true_eq]
  constructor
  · rintro ⟨hle, hall⟩
    exact (zip_all_beq_iff hle).mp hall
  · intro h
    exact ⟨h.length_le, (zip_all_beq_iff h.length_le).mpr h⟩

theorem under_iff {path base : ActorPath} :
    path.under base = true ↔ path.startsWith base = true ∧ path ≠ base := by
  simp [under]

end ActorPath

/-! ## Shard addresses -/

/-- `/system/shard/<type>` — where a type's actors live, collectively. -/
def regionOf (typeName : String) : ActorPath :=
  ((ActorPath.root.child "system").child "shard").child typeName

/-- Which actor a recipe is asked to build: the extractors' outputs, as they
are spelled into an address. -/
structure EntityContext where
  typeName : String
  shardId : String
  entityId : String
  deriving DecidableEq, Repr

/-- `/system/shard/<type>/<shard>/<entity>` — where one actor is filed. -/
def addressOf (entity : EntityContext) : ActorPath :=
  ((regionOf entity.typeName).child entity.shardId).child entity.entityId

/-- A shard this node is running, read back off one of its actors' addresses. -/
structure PlacedShard where
  typeName : String
  shardId : String
  deriving DecidableEq, Repr

/-- `/system/shard/<type>/<shard>` — the subtree this shard's actors occupy. -/
def PlacedShard.root (shard : PlacedShard) : ActorPath :=
  (regionOf shard.typeName).child shard.shardId

/-- Which shard a path belongs to, if it is a shard address at all. -/
def shardRootOf (path : ActorPath) : Option PlacedShard :=
  match path.segments with
  | system :: shard :: typeName :: shardId :: _ =>
      if system = "system" ∧ shard = "shard" then some ⟨typeName, shardId⟩ else none
  | _ => none

/-- The shard read back off a path is the one whose subtree it is in. -/
theorem shardRootOf_eq_some_iff {path : ActorPath} {placed : PlacedShard} :
    shardRootOf path = some placed ↔ path.startsWith placed.root = true := by
  obtain ⟨segments⟩ := path
  obtain ⟨t, s⟩ := placed
  rw [ActorPath.startsWith_iff]
  show _ ↔ ["system", "shard", t, s] <+: segments
  constructor
  · intro h
    unfold shardRootOf at h
    split at h
    · rename_i system shard typeName shardId rest heq
      split at h
      · rename_i hnames
        cases h
        obtain ⟨rfl, rfl⟩ := hnames
        have heq' : segments = _ := heq
        rw [heq']
        exact ⟨rest, rfl⟩
      · cases h
    · cases h
  · rintro ⟨rest, rfl⟩
    simp [shardRootOf]

end HorsieActor.Ports
