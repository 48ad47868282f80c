import HorsieActor.Ports.Path
import Mathlib.Data.List.AList

/-!
# The registry

Port of the `live` map of `src/system.rs` with the operations that decide over
it: `resolve`, `get_or_create`, the removal at the start of `halt`, `retire`
and the scan of `stop_descendants`.  Each of them runs under the one lock of
the map, so each is one atomic function of it.

A row refers to an instance by number.  Whether that instance's mailbox is
still open is not the registry's to know: it is asked through `alive`, which is
`Link::is_alive` of the link the row caches.
-/

namespace HorsieActor.Ports

/-- The identity of a Rust type, as `TypeId` compares it. -/
abbrev TypeId : Type := Nat

/-- Why `actor_of` could not produce a reference. -/
inductive ActorOfError where
  | unclaimed (path : ActorPath)
  | typeCollision (typeName : String)
  | invalidName (name : String)
  | pathTaken (path : ActorPath)
  | notServing
  deriving DecidableEq, Repr

/-- One actor on this node: the command type its erased reference downcasts
to, and the instance behind its link, its stop flag and its termination
signal. -/
structure Entry where
  command : TypeId
  inst : Nat
  deriving DecidableEq, Repr

/-- Every actor on this node, keyed by its path. -/
abbrev Live : Type := AList fun _ : ActorPath => Entry

namespace Live

/-- How to reach whatever is at `path` right now: the instance, if its row has
the right command type and its mailbox is open. -/
def resolve (live : Live) (alive : Nat → Bool) (command : TypeId) (path : ActorPath) :
    Option Nat :=
  match live.lookup path with
  | none => none
  | some entry =>
      if entry.command = command then
        if alive entry.inst then some entry.inst else none
      else none

/-- Reject a name that could not be one path segment. -/
def checkName (name : String) : Except ActorOfError Unit :=
  if ActorPath.isValidName name then .ok () else .error (.invalidName name)

/-- Get-or-create the child of `parent` named `name`; `fresh` is the number a
new instance gets.  Returns the instance the caller's reference links to and
the map afterwards. -/
def getOrCreate (live : Live) (alive : Nat → Bool) (mayServe : Bool) (fresh : Nat)
    (parent : ActorPath) (name : String) (command : TypeId) :
    Except ActorOfError (Nat × Live) :=
  if mayServe then
    match checkName name with
    | .error e => .error e
    | .ok () =>
        let path := parent.child name
        match live.lookup path with
        | none => .ok (fresh, live.insert path ⟨command, fresh⟩)
        | some existing =>
            if existing.command = command then
              if alive existing.inst then .ok (existing.inst, live)
              -- a stopped actor stays in the map until this name is asked for
              else .ok (fresh, (live.erase path).insert path ⟨command, fresh⟩)
            else .error (.pathTaken path)
  else .error .notServing

/-- Drop the entry for `path` if it is still the instance `inst`. -/
def retire (live : Live) (path : ActorPath) (inst : Nat) : Live :=
  match live.lookup path with
  | none => live
  | some entry => if entry.inst = inst then live.erase path else live

/-- The rows strictly under `path`, in the map's own order. -/
def doomed (live : Live) (path : ActorPath) : List ActorPath :=
  live.keys.filter fun p => p.under path

/-! ## Specifications -/

variable {live live' : Live} {alive : Nat → Bool} {mayServe : Bool} {fresh inst : Nat}
  {parent path : ActorPath} {name : String} {command : TypeId}

theorem resolve_eq_some_iff :
    live.resolve alive command path = some inst ↔
      live.lookup path = some ⟨command, inst⟩ ∧ alive inst = true := by
  unfold resolve
  cases h : live.lookup path with
  | none => simp
  | some entry =>
      obtain ⟨c, i⟩ := entry
      by_cases hc : c = command
      · by_cases hi : alive i = true
        · simp only [hc, hi, if_true, Option.some.injEq, Entry.mk.injEq, true_and]
          exact ⟨fun heq => ⟨heq, heq ▸ hi⟩, And.left⟩
        · simp only [hc, hi, if_true, Option.some.injEq, Entry.mk.injEq, true_and]
          constructor
          · intro hnone
            cases hnone
          · rintro ⟨heq, halive⟩
            exact absurd (heq ▸ halive) hi
      · simp [hc]

/-- Inserting a row replaces whatever was there, so removing it first changes
nothing. -/
theorem insert_erase (live : Live) (path : ActorPath) (entry : Entry) :
    (live.erase path).insert path entry = live.insert path entry := by
  apply AList.ext
  rw [AList.entries_insert, AList.entries_insert]
  show _ :: List.kerase path (List.kerase path live.entries) = _
  rw [List.kerase_of_notMem_keys (List.notMem_keys_kerase path live.nodupKeys)]

/-- What a successful `getOrCreate` did: it found the row with an open mailbox,
or it started a new instance and its row is now the one at the path. -/
theorem getOrCreate_ok
    (h : live.getOrCreate alive mayServe fresh parent name command = .ok (inst, live')) :
    (live.lookup (parent.child name) = some ⟨command, inst⟩ ∧ alive inst = true ∧
        live' = live) ∨
      (inst = fresh ∧ live' = live.insert (parent.child name) ⟨command, fresh⟩ ∧
        ∀ entry, live.lookup (parent.child name) = some entry → alive entry.inst = false) := by
  unfold getOrCreate at h
  split at h
  · split at h
    · cases h
    · dsimp only at h
      split at h
      · rename_i hnone
        cases h
        exact Or.inr ⟨rfl, rfl, by simp [hnone]⟩
      · rename_i existing hsome
        split at h
        · rename_i hcmd
          split at h
          · rename_i halive
            cases h
            refine Or.inl ⟨?_, halive, rfl⟩
            rw [hsome, ← hcmd]
          · rename_i hdead
            cases h
            refine Or.inr ⟨rfl, ?_, ?_⟩
            · exact insert_erase live _ _
            · intro entry hentry
              rw [hsome] at hentry
              cases hentry
              simpa using hdead
        · cases h
  · cases h

/-- It fails for no other reason than the node, the name, and an actor of another
type at the path. -/
theorem getOrCreate_of_free (alive : Nat → Bool) (fresh : Nat)
    (hname : ActorPath.isValidName name = true)
    (hfree : ∀ entry, live.lookup (parent.child name) = some entry → entry.command = command) :
    ∃ inst live', live.getOrCreate alive true fresh parent name command = .ok (inst, live') := by
  unfold getOrCreate checkName
  rw [hname]
  dsimp only
  rw [if_pos rfl, if_pos rfl]
  cases hrow : live.lookup (parent.child name) with
  | none => exact ⟨_, _, rfl⟩
  | some existing =>
      dsimp only
      rw [if_pos (hfree existing hrow)]
      cases alive existing.inst with
      | true => exact ⟨_, _, rfl⟩
      | false => exact ⟨_, _, rfl⟩

theorem lookup_retire_ne {q : ActorPath} (h : q ≠ path) :
    (live.retire path inst).lookup q = live.lookup q := by
  unfold retire
  split
  · rfl
  · split
    · exact AList.lookup_erase_ne h
    · rfl

theorem lookup_retire_self :
    (live.retire path inst).lookup path =
      if (live.lookup path).any (fun entry => entry.inst == inst) then none
      else live.lookup path := by
  unfold retire
  cases h : live.lookup path with
  | none => simp [h]
  | some entry =>
      by_cases hi : entry.inst = inst
      · simp [hi]
      · simp [hi, h]

theorem mem_doomed {q : ActorPath} :
    q ∈ live.doomed path ↔ (live.lookup q).isSome = true ∧ q.under path = true := by
  rw [doomed, List.mem_filter, AList.lookup_isSome, AList.mem_keys]

end Live

end HorsieActor.Ports
