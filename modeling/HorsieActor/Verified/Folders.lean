import HorsieActor.Verified.FileSystem

/-!
# Directories

The table of a `FileSystem` is over places.  What a program spells is a route: from the
root or from the working directory, segment by segment, down to a name, up, or nowhere.
The directories are there once and for all, since the programs this is for neither make
nor remove any; and there are no symbolic links, so a place is a list of names.

A route leads to a place (`locate`), and it is blocked where it goes on from a place that
is no directory (`block`).  A file in the way and nothing at all in the way are different
errors.  So what a reader gets depends on the file in one place, the end of the route or
the place that blocks it (`gate`, `read_eq`).
-/

namespace HorsieActor.Verified

/-- `.`, `..`, or a name. -/
inductive Segment (N : Type) where
  | here
  | up
  | name (n : N)
  deriving DecidableEq, Repr

structure Route (N : Type) where
  absolute : Bool
  segments : List (Segment N)
  deriving DecidableEq, Repr

def Route.isEmpty {N : Type} (r : Route N) : Bool := !r.absolute && r.segments.isEmpty

/-- The directories, and the one the process is in. -/
structure Folders (N : Type) where
  isFolder : List N → Bool
  root : isFolder [] = true
  parent : ∀ {place : List N} {n : N}, isFolder (place ++ [n]) = true → isFolder place = true
  cwd : List N

section Places

variable {N : Type}

def Segment.enter (place : List N) : Segment N → List N
  | .here => place
  | .up => place.dropLast
  | .name n => place ++ [n]

namespace Folders

/-- No directory but the root. -/
def rootOnly : Folders N where
  isFolder place := place.isEmpty
  root := rfl
  parent {place n} h := by simp at h
  cwd := []

variable (f : Folders N)

/-- Where a route starts. -/
def start (r : Route N) : List N := if r.absolute then [] else f.cwd

/-- Where it leads. -/
def locate (r : Route N) : List N := r.segments.foldl Segment.enter (f.start r)

/-- The first place from which it goes on although it is no directory. -/
def blockFrom : List N → List (Segment N) → Option (List N)
  | _, [] => none
  | place, s :: rest => if f.isFolder place then blockFrom (s.enter place) rest else some place

def block (r : Route N) : Option (List N) := f.blockFrom (f.start r) r.segments

/-- The place a reader depends on. -/
def gate (r : Route N) : List N := (f.block r).getD (f.locate r)

/-- `std::fs::read`, given what files there are. -/
def read (found : List N → Option (List UInt8)) (r : Route N) : Except IoError (List UInt8) :=
  if r.isEmpty then .error .notFound
  else
    match f.block r with
    | some place => if (found place).isSome then .error .notADirectory else .error .notFound
    | none =>
        if f.isFolder (f.locate r) then .error .isADirectory
        else
          match found (f.locate r) with
          | some bytes => .ok bytes
          | none => .error .notFound

/-- The calls that can succeed: a file is made, or put, in a directory, and not in the
place of one. -/
def admits {Q : Type} (route : Q → Route N) : FileCall Q → Bool
  | .create p => (f.block (route p)).isNone && !f.isFolder (f.locate (route p))
  | .rename src dst =>
      (f.block (route src)).isNone && (f.block (route dst)).isNone &&
        !f.isFolder (f.locate (route dst))
  | .write _ _ _ | .sync _ => true

variable {f} {r : Route N}

theorem gate_of_unblocked (h : f.block r = none) : f.gate r = f.locate r := by
  rw [gate, h, Option.getD_none]

/-- What is read depends on one place. -/
theorem read_eq (found : List N → Option (List UInt8)) (hempty : r.isEmpty = false)
    (hplace : f.block r = none → f.isFolder (f.locate r) = false) :
    f.read found r =
      match found (f.gate r) with
      | none => .error .notFound
      | some bytes => if (f.block r).isSome then .error .notADirectory else .ok bytes := by
  unfold read gate
  rw [hempty]
  cases hblock : f.block r with
  | none =>
      simp only [Bool.false_eq_true, if_false, hplace hblock, Option.getD_none]
      cases found (f.locate r) with
      | none => rfl
      | some bytes => rfl
  | some place =>
      simp only [Bool.false_eq_true, if_false, Option.getD_some]
      cases found place with
      | none => rfl
      | some bytes => rfl

/-! ### Names only -/

theorem foldl_enter_name (names : List N) : ∀ place : List N,
    (names.map Segment.name).foldl Segment.enter place = place ++ names := by
  induction names with
  | nil => intro place; exact (List.append_nil place).symm
  | cons n rest ih =>
      intro place
      rw [List.map_cons, List.foldl_cons, ih]
      exact (List.append_cons place n rest).symm

theorem isFolder_of_append (names : List N) : ∀ {place : List N},
    f.isFolder (place ++ names) = true → f.isFolder place = true := by
  induction names with
  | nil =>
      intro place h
      rwa [List.append_nil] at h
  | cons n rest ih =>
      intro place h
      rw [List.append_cons] at h
      exact f.parent (ih h)

/-- Nothing is in the way to a name in a directory. -/
theorem blockFrom_name (n : N) (names : List N) : ∀ {place : List N},
    f.isFolder (place ++ names) = true →
      f.blockFrom place ((names ++ [n]).map Segment.name) = none := by
  induction names with
  | nil =>
      intro place h
      rw [List.append_nil] at h
      exact if_pos h
  | cons m rest ih =>
      intro place h
      have hplace : f.isFolder place = true := isFolder_of_append (m :: rest) h
      rw [List.append_cons] at h
      exact (if_pos hplace).trans (ih h)

end Folders

end Places

end HorsieActor.Verified
