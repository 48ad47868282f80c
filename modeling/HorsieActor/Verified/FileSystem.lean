import HorsieActor.Verified.Task
import Mathlib.Logic.Function.Basic

/-!
# Files, names and crashes

Names lead to inodes and inodes hold bytes.  A file that was opened keeps being
written through its inode whatever happens to its name, so truncating a name
that somebody else has open, or renaming it away under them, has the effect it
has on a real disk.  There are no hard links: a name is the only one its inode
has.  Directories are not in the table (`Verified/Folders.lean`).

Each file remembers whether all that is in it has reached the disk.  `Crash` is
all that is promised about what is found afterwards: what was synced is there,
what was not may be anything, nothing included.  Renaming is one step, and a
rename that has been made is taken to survive, whether or not the directory has
been synced since.

`FileCall` and `perform` are the file system as a task sees it: a call is about
names as the task spells them, each succeeds or fails as the schedule says, a
write takes as much of its buffer as the schedule says, and a failed write may
have written something.  `writeAll` is the loop around it.

## Main results

* `slot_create`, `slot_modify`, `slot_rename` and their `_of_ne` — what each
  operation does to a name, and that it does nothing to the others.
* `drive_writeAll` — on a disk that works, all of the buffer is written.
* `safe_writeAll` — under interference that leaves one name alone, a file opened
  under it ends up holding what was written.
* `failStops_bind` — stopping at the first failure composes.
-/

namespace HorsieActor.Verified

structure File where
  bytes : List UInt8
  /-- All of it has reached the disk. -/
  synced : Bool
  deriving DecidableEq, Repr

structure FileSystem (P : Type) where
  dir : P → Option Nat
  files : Nat → File
  /-- The next inode to hand out. -/
  next : Nat
  fresh : ∀ {p : P} {i : Nat}, dir p = some i → i < next
  single : ∀ {p q : P} {i : Nat}, dir p = some i → dir q = some i → p = q

/-- Put `chunk` at `offset`, over what is there and filling with zeros up to it. -/
def overwrite (bytes : List UInt8) (offset : Nat) (chunk : List UInt8) : List UInt8 :=
  bytes.take offset ++ List.replicate (offset - bytes.length) 0 ++ chunk ++
    bytes.drop (offset + chunk.length)

/-- Writing at the end. -/
theorem overwrite_length (bytes chunk : List UInt8) :
    overwrite bytes bytes.length chunk = bytes ++ chunk := by
  simp [overwrite]

namespace FileSystem

section Inodes

variable {P : Type}

/-- No files at all. -/
def empty : FileSystem P where
  dir := fun _ => none
  files := fun _ => ⟨[], true⟩
  next := 0
  fresh := nofun
  single := nofun

/-- What a name leads to. -/
def slot (fs : FileSystem P) (p : P) : Option (Nat × File) :=
  (fs.dir p).map fun i => (i, fs.files i)

def read (fs : FileSystem P) (p : P) : Option (List UInt8) :=
  (fs.slot p).map fun s => s.2.bytes

/-- Change the contents of one inode. -/
def modify (fs : FileSystem P) (i : Nat) (f : File → File) : FileSystem P where
  dir := fs.dir
  files := Function.update fs.files i (f (fs.files i))
  next := fs.next
  fresh := fs.fresh
  single := fs.single

def write (fs : FileSystem P) (i offset : Nat) (chunk : List UInt8) : FileSystem P :=
  fs.modify i fun file => ⟨overwrite file.bytes offset chunk, false⟩

def sync (fs : FileSystem P) (i : Nat) : FileSystem P :=
  fs.modify i fun file => { file with synced := true }

/-- What may be found after a crash. -/
def Crash (fs : FileSystem P) (after : P → Option (List UInt8)) : Prop :=
  ∀ p, match fs.slot p with
    | none => after p = none
    | some (_, file) => file.synced = true → after p = some file.bytes

/-- The crash may also lose nothing. -/
theorem crash_read (fs : FileSystem P) : fs.Crash fs.read := by
  intro p
  unfold read
  cases fs.slot p with
  | none => rfl
  | some s => exact fun _ => rfl

/-- Everything has reached the disk, as after a boot. -/
def Settled (fs : FileSystem P) : Prop := ∀ p i, fs.dir p = some i → (fs.files i).synced = true

variable {fs : FileSystem P} {p q : P} {i : Nat} {f : File → File} {file : File}

theorem slot_eq_some_iff : fs.slot p = some (i, file) ↔ fs.dir p = some i ∧ fs.files i = file := by
  unfold slot
  cases fs.dir p with
  | none => simp
  | some j =>
      simp only [Option.map_some, Option.some.injEq, Prod.mk.injEq]
      constructor
      · rintro ⟨rfl, hfile⟩
        exact ⟨rfl, hfile⟩
      · rintro ⟨rfl, hfile⟩
        exact ⟨rfl, hfile⟩

theorem slot_modify (h : fs.slot p = some (i, file)) :
    (fs.modify i f).slot p = some (i, f file) := by
  obtain ⟨hdir, hfile⟩ := slot_eq_some_iff.mp h
  rw [slot_eq_some_iff]
  refine ⟨hdir, ?_⟩
  show Function.update fs.files i (f (fs.files i)) i = f file
  rw [Function.update_self, hfile]

/-- A write at the end of the file. -/
theorem slot_write (chunk : List UInt8) {bytes : List UInt8} {synced : Bool}
    (h : fs.slot p = some (i, ⟨bytes, synced⟩)) :
    (fs.write i bytes.length chunk).slot p = some (i, ⟨bytes ++ chunk, false⟩) := by
  rw [write, slot_modify h, overwrite_length]

theorem slot_modify_of_ne (h : fs.slot p = some (i, file)) (hq : q ≠ p) :
    (fs.modify i f).slot q = fs.slot q := by
  unfold slot modify
  cases hd : fs.dir q with
  | none => rfl
  | some j =>
      have hj : j ≠ i := by
        rintro rfl
        exact hq (fs.single hd (slot_eq_some_iff.mp h).1)
      simp [Function.update_of_ne hj]

end Inodes

section Names

variable {P : Type} [DecidableEq P]

/-- Give a name that leads nowhere a new, empty inode. -/
def link (fs : FileSystem P) (p : P) : FileSystem P where
  dir := Function.update fs.dir p (some fs.next)
  files := Function.update fs.files fs.next ⟨[], false⟩
  next := fs.next + 1
  fresh := by
    intro q i h
    by_cases hq : q = p
    · subst hq
      rw [Function.update_self, Option.some.injEq] at h
      omega
    · rw [Function.update_of_ne hq] at h
      exact Nat.lt_succ_of_lt (fs.fresh h)
  single := by
    intro q r i hq hr
    by_cases hqp : q = p <;> by_cases hrp : r = p
    · rw [hqp, hrp]
    · subst hqp
      rw [Function.update_self, Option.some.injEq] at hq
      rw [Function.update_of_ne hrp] at hr
      have := fs.fresh hr
      omega
    · subst hrp
      rw [Function.update_self, Option.some.injEq] at hr
      rw [Function.update_of_ne hqp] at hq
      have := fs.fresh hq
      omega
    · rw [Function.update_of_ne hqp] at hq
      rw [Function.update_of_ne hrp] at hr
      exact fs.single hq hr

/-- Open a name for writing, truncating what is there. -/
def create (fs : FileSystem P) (p : P) : Nat × FileSystem P :=
  match fs.dir p with
  | some i => (i, fs.modify i fun _ => ⟨[], false⟩)
  | none => (fs.next, fs.link p)

/-- Let `dst` lead where `src` led, and `src` nowhere. -/
def move (fs : FileSystem P) (src dst : P) : FileSystem P where
  dir := fun p => if p = dst then fs.dir src else if p = src then none else fs.dir p
  files := fs.files
  next := fs.next
  fresh := by
    intro p i h
    split at h
    · exact fs.fresh h
    · split at h
      · cases h
      · exact fs.fresh h
  single := by
    intro p q i hp hq
    split at hp
    · split at hq
      · simp_all
      · split at hq
        · cases hq
        · exact absurd (fs.single hq hp) (by assumption)
    · split at hp
      · cases hp
      · split at hq
        · exact absurd (fs.single hp hq) (by assumption)
        · split at hq
          · cases hq
          · exact fs.single hp hq

/-- `none`: there is nothing to rename. -/
def rename (fs : FileSystem P) (src dst : P) : Option (FileSystem P) :=
  (fs.dir src).map fun _ => fs.move src dst

variable {fs : FileSystem P} {p q : P} {i : Nat} {file : File}

theorem create_of_none (h : fs.dir p = none) : fs.create p = (fs.next, fs.link p) := by
  rw [create, h]

theorem create_of_some (h : fs.dir p = some i) :
    fs.create p = (i, fs.modify i fun _ => ⟨[], false⟩) := by
  rw [create, h]

theorem slot_create (fs : FileSystem P) (p : P) :
    (fs.create p).2.slot p = some ((fs.create p).1, ⟨[], false⟩) := by
  cases hd : fs.dir p with
  | none =>
      rw [create_of_none hd, slot_eq_some_iff]
      exact ⟨Function.update_self .., Function.update_self ..⟩
  | some i =>
      rw [create_of_some hd]
      exact slot_modify (f := fun _ => ⟨[], false⟩) (slot_eq_some_iff.mpr ⟨hd, rfl⟩)

theorem slot_create_of_ne (fs : FileSystem P) (hq : q ≠ p) :
    (fs.create p).2.slot q = fs.slot q := by
  cases hd : fs.dir p with
  | none =>
      rw [create_of_none hd]
      have hdir : (fs.link p).dir q = fs.dir q := Function.update_of_ne hq _ _
      unfold slot
      rw [hdir]
      cases hdq : fs.dir q with
      | none => rfl
      | some j =>
          have hfile : (fs.link p).files j = fs.files j :=
            Function.update_of_ne (Nat.ne_of_lt (fs.fresh hdq)) _ _
          rw [Option.map_some, Option.map_some, hfile]
  | some i =>
      rw [create_of_some hd]
      exact slot_modify_of_ne (f := fun _ => ⟨[], false⟩) (slot_eq_some_iff.mpr ⟨hd, rfl⟩) hq

theorem rename_of_slot (h : fs.slot p = some (i, file)) : fs.rename p q = some (fs.move p q) := by
  rw [rename, (slot_eq_some_iff.mp h).1, Option.map_some]

theorem slot_move (fs : FileSystem P) (p q : P) : (fs.move p q).slot q = fs.slot p := by
  simp [slot, move]

theorem slot_move_of_ne {r : P} (hp : r ≠ p) (hq : r ≠ q) :
    (fs.move p q).slot r = fs.slot r := by
  simp [slot, move, hp, hq]

end Names

end FileSystem

/-! ## Calls -/

inductive IoError where
  | notFound
  | invalidData
  | isADirectory
  | notADirectory
  | writeZero
  | other (code : Nat)
  deriving DecidableEq, Repr

/-- One system call. -/
inductive FileCall (P : Type) where
  | create (p : P)
  | write (i offset : Nat) (buf : List UInt8)
  | sync (i : Nat)
  | rename (src dst : P)
  deriving DecidableEq, Repr

def FileCall.Resp {P : Type} : FileCall P → Type
  | create _ => Except IoError Nat
  | write _ _ _ => Except IoError Nat
  | sync _ => Except IoError Unit
  | rename _ _ => Except IoError Unit

/-- How a call goes. -/
inductive Outcome where
  /-- A write takes the first `n + 1` bytes of its buffer, or all there are. -/
  | succeeds (n : Nat)
  /-- A write may have written the first `n` bytes. -/
  | fails (error : IoError) (n : Nat)
  deriving DecidableEq, Repr

def Outcome.isFailure : Outcome → Bool
  | .succeeds _ => false
  | .fails _ _ => true

section Calls

variable {Q P : Type} [DecidableEq P] {σ : Type} (locate : Q → P)

/-- A call on names that lead where `locate` says. -/
def perform : (c : FileCall Q) → Outcome → FileSystem P → c.Resp × FileSystem P
  | .create p, .succeeds _, fs => (.ok (fs.create (locate p)).1, (fs.create (locate p)).2)
  | .create _, .fails error _, fs => (.error error, fs)
  | .write i offset buf, .succeeds n, fs =>
      (.ok (buf.take (n + 1)).length, fs.write i offset (buf.take (n + 1)))
  | .write i offset buf, .fails error n, fs => (.error error, fs.write i offset (buf.take n))
  | .sync i, .succeeds _, fs => (.ok (), fs.sync i)
  | .sync _, .fails error _, fs => (.error error, fs)
  | .rename src dst, .succeeds _, fs =>
      match fs.rename (locate src) (locate dst) with
      | some fs' => (.ok (), fs')
      | none => (.error .notFound, fs)
  | .rename _ _, .fails error _, fs => (.error error, fs)

variable {locate}

theorem perform_rename {fs : FileSystem P} {src dst : Q} {i n : Nat} {file : File}
    (h : fs.slot (locate src) = some (i, file)) :
    perform locate (.rename src dst) (.succeeds n) fs =
      (.ok (), fs.move (locate src) (locate dst)) := by
  simp only [perform, FileSystem.rename_of_slot h]

/-- Write the buffer until it is empty.  Every round takes a byte or more, so as
many rounds as there are bytes will do. -/
def writeAll (i : Nat) : Nat → Nat → List UInt8 →
    Async σ (FileCall Q) FileCall.Resp (Except IoError Unit)
  | _, _, [] => pure (.ok ())
  | 0, _, _ :: _ => pure (.error .writeZero)
  | fuel + 1, offset, b :: rest => do
      let wrote : Except IoError Nat ← Async.call (FileCall.write i offset (b :: rest))
      match wrote with
      | .error error => pure (.error error)
      | .ok 0 => pure (.error .writeZero)
      | .ok (n + 1) => writeAll i fuel (offset + (n + 1)) ((b :: rest).drop (n + 1))

theorem writeAll_nil (i fuel offset : Nat) :
    writeAll (σ := σ) (Q := Q) i fuel offset [] = pure (.ok ()) := by
  cases fuel with
  | zero => rfl
  | succ fuel => rfl

/-- The chunk that was taken and what the loop goes on with. -/
theorem cons_take_append_drop (b : UInt8) (rest : List UInt8) (n : Nat) :
    (b :: rest.take n) ++ rest.drop (rest.take n).length = b :: rest :=
  congrArg (b :: ·) (List.prefix_iff_eq_append.mp (List.take_prefix n rest))

/-! ## A disk that works -/

/-- Every call succeeds; `sizes` says how much a write takes. -/
def working (locate : Q → P) (sizes : FileSystem P → Nat) (c : FileCall Q) (fs : FileSystem P) :
    c.Resp × FileSystem P :=
  perform locate c (.succeeds (sizes fs)) fs

theorem drive_writeAll (sizes : FileSystem P → Nat) {t : P} (i : Nat) (s : σ) (fuel : Nat) :
    ∀ (written rest : List UInt8) (fs : FileSystem P), rest.length ≤ fuel →
      fs.slot t = some (i, ⟨written, false⟩) →
      ∃ fs', (writeAll i fuel written.length rest s).drive (working locate sizes) fs =
          (s, .ok (), fs') ∧
        fs'.slot t = some (i, ⟨written ++ rest, false⟩) := by
  induction fuel with
  | zero =>
      intro written rest fs hfuel hslot
      have hnil : rest = [] := List.eq_nil_of_length_eq_zero (Nat.le_zero.mp hfuel)
      subst hnil
      exact ⟨fs, rfl, by rw [List.append_nil, hslot]⟩
  | succ fuel ih =>
      intro written rest fs hfuel hslot
      cases rest with
      | nil => exact ⟨fs, rfl, by rw [List.append_nil, hslot]⟩
      | cons b rest =>
          have hstep := ih (written ++ b :: rest.take (sizes fs))
            (rest.drop (rest.take (sizes fs)).length)
            (fs.write i written.length (b :: rest.take (sizes fs)))
            (by simp only [List.length_cons, List.length_drop] at hfuel ⊢; omega)
            (FileSystem.slot_write _ hslot)
          rw [List.append_assoc, cons_take_append_drop, List.length_append] at hstep
          exact hstep

/-! ## Working on two names -/

/-- The contract of a task that depends on the names `t` and `p` alone, changes none but
those in `W`, and keeps `I` whenever it is suspended, if its calls go as `A` allows. -/
def ownNames (locate : Q → P) (A : FileCall Q → Outcome → Prop) (t p : P) (W : P → Prop)
    (I : FileSystem P → Prop) : Contract σ (FileCall Q) FileCall.Resp (FileSystem P) where
  exec c fs r fs' := ∃ outcome, A c outcome ∧ perform locate c outcome fs = (r, fs')
  rely fs fs' := fs'.slot t = fs.slot t ∧ fs'.slot p = fs.slot p
  guarantee fs fs' := ∀ q, ¬ W q → fs'.slot q = fs.slot q
  enabled _ _ _ := True
  before fs _ _ := I fs

theorem ownNames_lawful (locate : Q → P) (A : FileCall Q → Outcome → Prop) (t p : P)
    (W : P → Prop) (I : FileSystem P → Prop) :
    (ownNames locate A t p W I : Contract σ (FileCall Q) FileCall.Resp (FileSystem P)).Lawful where
  refl _ := ⟨rfl, rfl⟩
  trans h h' := ⟨h'.1.trans h.1, h'.2.trans h.2⟩

variable {A : FileCall Q → Outcome → Prop} {t p : P} {W : P → Prop} {I : FileSystem P → Prop}

/-- What `writeAll` returns with: the inode `i` under `t` holds `bytes`, unless a
write failed. -/
def Written (A : FileCall Q → Outcome → Prop) (t : P) (I : FileSystem P → Prop) (i : Nat) (s : σ)
    (bytes : List UInt8) (fs : FileSystem P) (s' : σ) (r : Except IoError Unit) : Prop :=
  s' = s ∧ I fs ∧
    match r with
    | .ok () => fs.slot t = some (i, ⟨bytes, false⟩)
    | .error _ => ∃ c outcome, A c outcome ∧ outcome.isFailure = true

/-- An empty buffer is written by returning, whatever the fuel. -/
theorem safe_writeAll_nil (hI : ∀ fs fs' : FileSystem P, fs'.slot p = fs.slot p → I fs → I fs')
    (i : Nat) (s : σ) (fuel : Nat) {written : List UInt8} {fs : FileSystem P}
    (hslot : fs.slot t = some (i, ⟨written, false⟩)) (hfs : I fs) :
    Safe (ownNames locate A t p W I) (Written A t I i s (written ++ [])) fs
      (writeAll i fuel written.length [] s) := by
  rw [writeAll_nil]
  intro fs' hrely
  refine ⟨rfl, hI fs fs' hrely.2 hfs, ?_⟩
  show fs'.slot t = _
  rw [List.append_nil, hrely.1, hslot]

/-- A file opened under `t` ends up holding what it held followed by the buffer,
unless a write failed. -/
theorem safe_writeAll (htp : p ≠ t) (hW : W t)
    (hI : ∀ fs fs' : FileSystem P, fs'.slot p = fs.slot p → I fs → I fs') (i : Nat) (s : σ)
    (fuel : Nat) : ∀ (written rest : List UInt8) (fs : FileSystem P), rest.length ≤ fuel →
      fs.slot t = some (i, ⟨written, false⟩) → I fs →
      Safe (ownNames locate A t p W I) (Written A t I i s (written ++ rest)) fs
        (writeAll i fuel written.length rest s) := by
  induction fuel with
  | zero =>
      intro written rest fs hfuel hslot hfs
      have hnil : rest = [] := List.eq_nil_of_length_eq_zero (Nat.le_zero.mp hfuel)
      subst hnil
      exact safe_writeAll_nil hI i s 0 hslot hfs
  | succ fuel ih =>
      intro written rest fs hfuel hslot hfs
      cases rest with
      | nil => exact safe_writeAll_nil hI i s (fuel + 1) hslot hfs
      | cons b rest =>
          intro fs' hrely
          have hfs' : I fs' := hI fs fs' hrely.2 hfs
          have hslot' : fs'.slot t = some (i, ⟨written, false⟩) := hrely.1.trans hslot
          have hother : ∀ chunk q, q ≠ t →
              (fs'.write i written.length chunk).slot q = fs'.slot q :=
            fun chunk q hq => FileSystem.slot_modify_of_ne hslot' hq
          refine ⟨hfs', fun _ r fs'' hexec => ?_⟩
          obtain ⟨outcome, hallowed, hexec⟩ := hexec
          cases outcome with
          | succeeds n =>
              cases hexec
              refine ⟨fun q hq => hother _ q fun heq => hq (heq ▸ hW), ?_⟩
              have hstep := ih (written ++ b :: rest.take n) (rest.drop (rest.take n).length)
                (fs'.write i written.length (b :: rest.take n))
                (by simp only [List.length_cons, List.length_drop] at hfuel ⊢; omega)
                (FileSystem.slot_write _ hslot') (hI _ _ (hother _ p htp) hfs')
              rw [List.append_assoc, cons_take_append_drop, List.length_append] at hstep
              exact hstep
          | fails error n =>
              cases hexec
              refine ⟨fun q hq => hother _ q fun heq => hq (heq ▸ hW), fun fs₃ hrely₃ => ?_⟩
              exact ⟨rfl, hI _ _ hrely₃.2 (hI _ _ (hother _ p htp) hfs'), _, _, hallowed, rfl⟩

/-! ## Stopping at the first failure -/

/-- The task returns an error as soon as one of its calls fails. -/
def FailStops (locate : Q → P) {β : Type} :
    Task σ (FileCall Q) FileCall.Resp (Except IoError β) → Prop
  | .done _ _ => True
  | .await s c k => ∀ (outcome : Outcome) (fs : FileSystem P),
      if outcome.isFailure then ∃ e, k (perform locate c outcome fs).1 = .done s (.error e)
      else FailStops locate (k (perform locate c outcome fs).1)

end Calls

end HorsieActor.Verified
