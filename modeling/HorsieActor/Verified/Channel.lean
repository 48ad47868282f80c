import Mathlib.Order.Basic

/-!
# Bounded channels

A queue of a fixed capacity between any number of senders and one receiver.  A `send` that
finds it full waits, so `send` and `recv` are partial; that the queue never exceeds its
capacity is part of the type.

What the receiver has taken is kept as history, and `all` is what ever went in: sending adds
one element at its end and receiving leaves it as it is, which is all that order and
exactly-once arguments need.
-/

namespace HorsieActor.Verified

structure Channel (capacity : Nat) (α : Type) where
  waiting : List α
  /-- History: what has been received. -/
  taken : List α
  bounded : waiting.length ≤ capacity
  deriving DecidableEq, Repr

namespace Channel

variable {capacity : Nat} {α : Type}

def empty : Channel capacity α := ⟨[], [], Nat.zero_le _⟩

/-- Everything that was ever sent, in order. -/
def all (c : Channel capacity α) : List α := c.taken ++ c.waiting

def send (c : Channel capacity α) (x : α) : Option (Channel capacity α) :=
  if h : c.waiting.length < capacity then
    some ⟨c.waiting ++ [x], c.taken, List.length_append.trans_le h⟩
  else none

def recv : Channel capacity α → Option (α × Channel capacity α)
  | ⟨[], _, _⟩ => none
  | ⟨x :: rest, taken, h⟩ => some (x, ⟨rest, taken ++ [x], Nat.le_of_succ_le h⟩)

variable {c c' : Channel capacity α} {x : α}

theorem send_some (h : c.send x = some c') :
    c'.waiting = c.waiting ++ [x] ∧ c'.taken = c.taken := by
  unfold send at h
  split at h
  · cases h
    exact ⟨rfl, rfl⟩
  · cases h

theorem recv_some (h : c.recv = some (x, c')) :
    c.waiting = x :: c'.waiting ∧ c'.taken = c.taken ++ [x] := by
  obtain ⟨waiting, taken, hle⟩ := c
  cases waiting with
  | nil => cases h
  | cons y rest =>
      cases h
      exact ⟨rfl, rfl⟩

theorem all_of_send (h : c.send x = some c') : c'.all = c.all ++ [x] := by
  obtain ⟨hwaiting, htaken⟩ := send_some h
  rw [all, hwaiting, htaken, all, List.append_assoc]

theorem all_of_recv (h : c.recv = some (x, c')) : c'.all = c.all := by
  obtain ⟨hwaiting, htaken⟩ := recv_some h
  rw [all, all, hwaiting, htaken, List.append_assoc, List.singleton_append]

end Channel

end HorsieActor.Verified
