/-!
# Watch channels

A watch channel keeps the latest value sent and nothing before it.  Each send
gives the value a new version, and a receiver is the version it has seen: it is
woken exactly while that is not the current one, and marking the current version
as seen is all that reading does to it.

A receiver therefore never misses that *something* was sent after it last
looked (`send_unseen`), and can miss anything else: values that were overwritten,
and a value it marked as seen without acting on it.

This module imports nothing and names no particular channel.
-/

namespace HorsieActor.Verified

/-- The sending side: the latest value and its version. -/
structure Watch (α : Type) where
  value : α
  version : Nat
  deriving DecidableEq, Repr

namespace Watch

variable {α : Type} (c : Watch α) (v : α) {seen : Nat}

/-- A channel that has never been sent on. -/
def new (v : α) : Watch α := ⟨v, 0⟩

def send : Watch α := ⟨v, c.version + 1⟩

/-- Send only a value other than the current one. -/
def sendIfModified [DecidableEq α] : Watch α := if c.value = v then c else c.send v

/-- What a receiver has seen is never ahead of the channel. -/
theorem le_send (h : seen ≤ c.version) : seen ≤ (c.send v).version :=
  Nat.le_succ_of_le h

/-- Whoever has seen what there was has not seen what is sent now. -/
theorem send_unseen (h : seen ≤ c.version) : seen ≠ (c.send v).version :=
  Nat.ne_of_lt (Nat.lt_succ_of_le h)

theorem le_sendIfModified [DecidableEq α] (h : seen ≤ c.version) :
    seen ≤ (c.sendIfModified v).version := by
  unfold sendIfModified
  split
  · exact h
  · exact c.le_send v h

/-- A receiver behind the channel stays behind whatever is sent. -/
theorem sendIfModified_unseen [DecidableEq α] (h : seen ≤ c.version) (hne : seen ≠ c.version) :
    seen ≠ (c.sendIfModified v).version := by
  unfold sendIfModified
  split
  · exact hne
  · exact c.send_unseen v h

end Watch

end HorsieActor.Verified
