import Mathlib.Algebra.Group.Nat.Defs
import Mathlib.Data.Countable.Defs
import Mathlib.Data.Finset.Basic
import Mathlib.Order.Basic

/-!
# What travels between nodes, and the window that drops repeats

Port of `src/envelope.rs` and `src/cluster/delivery.rs`.

A payload is an encoded command.  What matters of it here is which values it
holds and in which order, and which of them are reply handles; the text around
them is left out.  The 128-bit ids are natural numbers, and `pack` is the one
way they are made: the node in the high half, a 64-bit counter in the low half.
-/

namespace HorsieActor.Ports

/-- An opaque blob. -/
abbrev Octets : Type := List UInt8

/-- A cluster member's identity. -/
structure NodeId where
  idx : UInt64
  deriving DecidableEq, Repr

theorem NodeId.toNat_injective : Function.Injective fun n : NodeId => n.idx.toNat := by
  rintro ⟨a⟩ ⟨b⟩ h
  have : a = b := UInt64.toNat_inj.mp h
  rw [this]

instance : LinearOrder NodeId := LinearOrder.lift' _ NodeId.toNat_injective

instance : Countable NodeId := NodeId.toNat_injective.countable

/-- `(u128::from(node) << 64) | u128::from(n)`. -/
def pack (node : NodeId) (n : UInt64) : Nat := (node.idx.toNat <<< 64) ||| n.toNat

/-- The two halves of an id do not overlap, so an id determines both. -/
theorem pack_inj {a b : NodeId} {m n : UInt64} : pack a m = pack b n ↔ a = b ∧ m = n := by
  unfold pack
  have hm : m.toNat < 2 ^ 64 := m.toNat_lt
  have hn : n.toNat < 2 ^ 64 := n.toNat_lt
  rw [← Nat.shiftLeft_add_eq_or_of_lt hm, ← Nat.shiftLeft_add_eq_or_of_lt hn,
    Nat.shiftLeft_eq, Nat.shiftLeft_eq]
  constructor
  · intro h
    have hnode : a.idx.toNat = b.idx.toNat := by omega
    have hcount : m.toNat = n.toNat := by omega
    exact ⟨NodeId.toNat_injective hnode, UInt64.toNat_inj.mp hcount⟩
  · rintro ⟨rfl, rfl⟩
    rfl

theorem pack_lt_pack {a : NodeId} {m n : UInt64} : pack a m < pack a n ↔ m.toNat < n.toNat := by
  unfold pack
  rw [← Nat.shiftLeft_add_eq_or_of_lt m.toNat_lt, ← Nat.shiftLeft_add_eq_or_of_lt n.toNat_lt]
  exact Nat.add_lt_add_iff_left

/-- Counting on from `n` without wrapping. -/
theorem toNat_add_ofNat {n : UInt64} {j : Nat} (h : n.toNat + j < 2 ^ 64) :
    (n + UInt64.ofNat j).toNat = n.toNat + j := by
  rw [UInt64.toNat_add, UInt64.toNat_ofNat', Nat.mod_eq_of_lt (by omega : j < 2 ^ 64),
    Nat.mod_eq_of_lt h]

/-- A reply handle on the wire: who is waiting, and which request they are
waiting for. -/
structure Wire where
  origin : NodeId
  correlation : Nat
  deriving DecidableEq, Repr

/-- One value of an encoded command. -/
inductive WireValue where
  | data (bytes : Octets)
  | handle (wire : Wire)
  deriving DecidableEq, Repr

abbrev Payload : Type := List WireValue

/-- The reply handles a payload holds, in order. -/
def Payload.wires (payload : Payload) : List Wire :=
  payload.filterMap fun
    | .handle wire => some wire
    | .data _ => none

/-- An answer travelling back to whoever asked; no payload says that no answer
is coming. -/
structure Reply where
  correlation : Nat
  payload : Option Octets
  deriving DecidableEq, Repr

/-- One command in flight between nodes. -/
structure Envelope where
  typeName : String
  messageId : Nat
  payload : Payload
  deriving DecidableEq, Repr

/-- Anything one node sends another. -/
inductive Message where
  | command (env : Envelope)
  | reply (reply : Reply)
  deriving DecidableEq, Repr

/-! ## The dedup window -/

/-- Remembers which envelopes have already been applied. -/
structure Dedup where
  seen : Finset Nat
  /-- Insertion order, so the oldest id is the one evicted. -/
  order : List Nat
  capacity : Nat

namespace Dedup

/-- A zero capacity is raised to one. -/
def withCapacity (capacity : Nat) : Dedup :=
  { seen := ∅, order := [], capacity := max capacity 1 }

/-- Whether this id is new, recording it if so. -/
def acceptId (d : Dedup) (messageId : Nat) : Bool × Dedup :=
  if messageId ∈ d.seen then (false, d)
  else
    let seen := insert messageId d.seen
    let order := d.order ++ [messageId]
    if d.capacity < order.length then
      match order with
      | [] => (true, { d with seen := seen, order := [] })
      | evicted :: rest => (true, { d with seen := seen.erase evicted, order := rest })
    else (true, { d with seen := seen, order := order })

/-- Whether this envelope should be applied, recording it if so. -/
def accept (d : Dedup) (env : Envelope) : Bool × Dedup := d.acceptId env.messageId

theorem acceptId_fst (d : Dedup) (id : Nat) : (d.acceptId id).1 = decide (id ∉ d.seen) := by
  unfold acceptId
  by_cases h : id ∈ d.seen
  · simp [h]
  · rw [if_neg h]
    simp only [h, not_false_eq_true, decide_true]
    split
    · split <;> rfl
    · rfl

/-- The window only ever learns the id it was asked about. -/
theorem mem_seen_acceptId {d : Dedup} {id x : Nat} (h : x ∈ (d.acceptId id).2.seen) :
    x = id ∨ x ∈ d.seen := by
  unfold acceptId at h
  split at h
  · exact Or.inr h
  · dsimp only at h
    split at h
    · split at h
      · exact Finset.mem_insert.mp h
      · exact Finset.mem_insert.mp (Finset.mem_of_mem_erase h)
    · exact Finset.mem_insert.mp h

/-- A repeat leaves the window as it was. -/
theorem acceptId_of_mem {d : Dedup} {id : Nat} (h : id ∈ d.seen) : d.acceptId id = (false, d) :=
  if_pos h

end Dedup

end HorsieActor.Ports
