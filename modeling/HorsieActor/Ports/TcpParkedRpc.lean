import HorsieActor.Ports.TcpPeer

/-!
# Requests on a closed connection

`read_replies` clears the table of waiting callers once, when the connection
closes, and ends.  The peer stays in the cache, so a later `rpc` finds it, inserts
its row into the table nobody will clear again, and if the socket still takes its
request it waits for good (`rpc_after_close_is_parked`).

If every row is inserted before the reader has ended, the table of an ended reader
is empty, so no `rpc` that wrote its request is left in it
(`noneParked_of_insertsBeforeEnd`).
-/

namespace HorsieActor.Ports.Tcp

open HorsieActor.Verified
open HorsieActor.Verified.Schedule

/-- Once `read_replies` has ended, no `rpc` whose request was written is still in
the table. -/
def NoneParked (w : World) : Prop :=
  w.reader = .ended → ∀ i call id, w.calls[i]? = some call → call.pc = .awaiting id →
    (id, i) ∉ w.pending

/-- A caller is entered into the table before `read_replies` has ended. -/
def InsertsBeforeEnd (w : World) : Label → Prop
  | .insert _ => w.reader ≠ .ended
  | _ => True

/-- An ended reader has left the table empty. -/
def ClearedAtEnd (w : World) : Prop := w.reader = .ended → w.pending = []

theorem clearedAtEnd_step {codec : Codec Frame} (w : World) (label : Label) (w' : World)
    (h : ClearedAtEnd w) (hinserts : InsertsBeforeEnd w label)
    (hs : step codec w label = some w') : ClearedAtEnd w' := by
  by_cases hlabel : label.turns = false
  · obtain ⟨hreader, hpending⟩ := table_of_step hlabel hs
    intro hended
    rw [hreader] at hended
    rw [h hended] at hpending
    exact List.sublist_nil.mp hpending
  cases step_moves hs with
  | insert => exact fun hended => absurd hended hinserts
  | close =>
      intro hended
      cases hended
  | clear =>
      intro _
      exact List.filter_false w.pending
  | _ => exact absurd rfl hlabel

theorem ClearedAtEnd.noneParked {w : World} (h : ClearedAtEnd w) : NoneParked w := by
  intro hended i call id _ _ hrow
  rw [h hended] at hrow
  cases hrow

/-! ## The results -/

/-- **No `rpc` is parked on a closed connection**, in every run in which each
caller enters the table before `read_replies` has ended. -/
theorem noneParked_of_insertsBeforeEnd (codec : Codec Frame) (l : List Label) (w : World)
    (hrun : run (step codec) World.dialled l = some w)
    (hinserts : Along (step codec) InsertsBeforeEnd World.dialled l) : NoneParked w :=
  (run_invariant (I := ClearedAtEnd) clearedAtEnd_step l (nofun : ClearedAtEnd World.dialled)
    hinserts hrun).noneParked

/-- The connection closes on an `rpc` that has written its request. -/
def closedMidRequest : List Label :=
  [.call (.rpc [7]), .obtain 0, .mint 0, .insert 0, .acquire 0, .write 0 9, .close, .clear]

theorem noneParked_closedMidRequest :
    ∃ w, run (step demoCodec) World.dialled closedMidRequest = some w ∧
      (w.calls.map fun call => (call.pc, call.answer)) = [(.awaiting 0, .closed)] ∧
      NoneParked w :=
  ⟨_, rfl, rfl, noneParked_of_insertsBeforeEnd demoCodec closedMidRequest _ rfl
    ⟨trivial, trivial, trivial, nofun, trivial, trivial, trivial, trivial, trivial⟩⟩

/-- An `rpc` finds the cached peer after its reader has ended, and the socket
takes the request. -/
def calledAfterClose : List Label :=
  [.close, .clear, .call (.rpc [7]), .obtain 0, .mint 0, .insert 0, .acquire 0, .write 0 9]

theorem rpc_after_close_is_parked :
    ¬ ∀ (codec : Codec Frame) (l : List Label) (w : World),
      run (step codec) World.dialled l = some w → NoneParked w := by
  intro h
  exact h demoCodec calledAfterClose _ rfl rfl 0 _ 0 rfl rfl (List.mem_cons_self ..)

end HorsieActor.Ports.Tcp
