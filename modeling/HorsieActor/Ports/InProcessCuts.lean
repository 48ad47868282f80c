import HorsieActor.Ports.InProcessCalls

/-!
# Cutting nodes off and putting them back

`remove` and `restore` of `src/transport.rs`, beside everything else that goes on.

`remove` is how a test partitions a node: nothing is to reach it, and nothing it sends is to
arrive.  A call looks both ends up under the lock, so it fails from then on; a call that has
its clone of the mailboxes already may still push, however long it has waited for room.

`remove` holds `nodes` while it takes `detached`, and `restore` the other way round.  One of
each, halfway at the same time, wait for each other for good, and with them everybody who
looks anything up.

`restore` puts back what was put aside, whatever is filed by then.

## Main results

* `stuck_iff_crossed` — a lock is never free again just when both are held.
* `cut_off` — what passes between a node that is off the network and the others, and what
  does not.
* `newest_found` — calls reach the latest mailboxes of their target, unless it was attached
  anew while older ones were aside.
-/

namespace HorsieActor.Ports.InProcess

open HorsieActor.Verified HorsieActor.Verified.Schedule

/-! ## The locks -/

/-- Both locks are held, each by a cut that waits for the other. -/
def Crossed (w : World) : Prop := w.nodesLock ≠ none ∧ w.detachedLock ≠ none

/-- A lock is held by a cut that has taken its mailboxes out and not put them down. -/
structure Locked (w : World) : Prop where
  nodes : ∀ k, w.nodesLock = some k →
    ∃ cut b, w.cuts[k]? = some cut ∧ cut.kind = .remove ∧ cut.progress = .holding b
  detached : ∀ k, w.detachedLock = some k →
    ∃ cut b, w.cuts[k]? = some cut ∧ cut.kind = .restore ∧ cut.progress = .holding b

/-- A call that has not looked its target up, and may have been dropped. -/
def Unanswered (w : World) (i : Nat) : Prop :=
  ∃ call, w.calls[i]? = some call ∧ (call.progress = .looking ∨ call.progress = .cancelled)

/-- What it is to be stuck, and when it happens. -/
structure StuckIff (w : World) : Prop where
  /-- A lock is never free again just when both are held. -/
  nodes : (∀ l w', run step w l = some w' → w'.nodesLock ≠ none) ↔ Crossed w
  detached : (∀ l w', run step w l = some w' → w'.detachedLock ≠ none) ↔ Crossed w
  /-- Then nobody finds anybody any more. -/
  stays : Crossed w → ∀ l w', run step w l = some w' → w'.nodes = w.nodes ∧
    ∀ i, Unanswered w i → Unanswered w' i

section Locks

variable {w w' : World} {a : Label}

theorem locked_new : Locked World.new where
  nodes k hk := by cases hk
  detached k hk := by cases hk

/-- A cut that changes is not the holder of the other lock. -/
theorem holder_set {k j b : Nat} {cut cut' : Cut} {kind : CutKind} {progress : CutProgress}
    (hk : w.cuts[k]? = some cut) (hj : w.cuts[j]? = some cut') (hkind : cut'.kind = kind)
    (hholding : cut'.progress = .holding b) (hne : j ≠ k) :
    ∃ cut'' b, (w.setCut k cut progress).cuts[j]? = some cut'' ∧ cut''.kind = kind ∧
      cut''.progress = .holding b :=
  ⟨cut', b, (Slots.getElem?_set_iff hk).mpr (Or.inr ⟨hne, hj⟩), hkind, hholding⟩

theorem locked_step (h : Locked w) (hmoves : Moves w a w') : Locked w' := by
  -- A cut that is ready holds no lock.
  have hready : ∀ {k j b : Nat} {cut cut' : Cut}, w.cuts[k]? = some cut → cut.progress = .ready →
      w.cuts[j]? = some cut' → cut'.progress = .holding b → j ≠ k := by
    rintro k j b cut cut' hk hready hj hholding rfl
    rw [hk] at hj
    cases hj
    rw [hready] at hholding
    cases hholding
  cases hmoves with
  | cut =>
      refine ⟨fun k hk => ?_, fun k hk => ?_⟩
      · obtain ⟨cut, b, hcut, hrest⟩ := h.nodes k hk
        exact ⟨cut, b, Slots.getElem?_snoc_iff.mpr (Or.inr hcut), hrest⟩
      · obtain ⟨cut, b, hcut, hrest⟩ := h.detached k hk
        exact ⟨cut, b, Slots.getElem?_snoc_iff.mpr (Or.inr hcut), hrest⟩
  | notThere hk hr =>
      refine ⟨fun j hj => ?_, fun j hj => ?_⟩
      · obtain ⟨cut, b, hcut, hkind, hholding⟩ := h.nodes j hj
        exact holder_set hk hcut hkind hholding (hready hk hr hcut hholding)
      · obtain ⟨cut, b, hcut, hkind, hholding⟩ := h.detached j hj
        exact holder_set hk hcut hkind hholding (hready hk hr hcut hholding)
  | takeOff hk hr hkind hfree hbox =>
      refine ⟨fun j hj => ?_, fun j hj => ?_⟩
      · cases hj
        exact ⟨_, _, (Slots.getElem?_set_iff hk).mpr (Or.inl ⟨rfl, rfl⟩), hkind, rfl⟩
      · obtain ⟨cut, b, hcut, hkind, hholding⟩ := h.detached j hj
        exact holder_set hk hcut hkind hholding (hready hk hr hcut hholding)
  | fetch hk hr hkind hfree hbox =>
      refine ⟨fun j hj => ?_, fun j hj => ?_⟩
      · obtain ⟨cut, b, hcut, hkind, hholding⟩ := h.nodes j hj
        exact holder_set hk hcut hkind hholding (hready hk hr hcut hholding)
      · cases hj
        exact ⟨_, _, (Slots.getElem?_set_iff hk).mpr (Or.inl ⟨rfl, rfl⟩), hkind, rfl⟩
  | putAside hk hholding hkind hfree =>
      refine ⟨fun j hj => ?_, fun j hj => ?_⟩
      · cases hj
      · rw [show w.detachedLock = some j from hj] at hfree
        cases hfree
  | putBack hk hholding hkind hfree =>
      refine ⟨fun j hj => ?_, fun j hj => ?_⟩
      · rw [show w.nodesLock = some j from hj] at hfree
        cases hfree
      · cases hj
  | _ => exact ⟨h.nodes, h.detached⟩

theorem Unanswered.of_calls (hcalls : w'.calls = w.calls) {i : Nat} (h : Unanswered w i) :
    Unanswered w' i := by
  rwa [Unanswered, hcalls]

/-- A call that goes on had looked its target up, or is dropped. -/
theorem Unanswered.setCall {i j : Nat} {call : Call} {progress : Progress}
    (h : Unanswered w i) (hj : w.calls[j]? = some call)
    (hprogress : progress = .cancelled ∨ call.progress ≠ .looking ∧ call.progress ≠ .cancelled) :
    Unanswered (w.setCall j call progress) i := by
  obtain ⟨call', hi, hwaits⟩ := h
  by_cases hij : i = j
  · subst hij
    rw [hj] at hi
    cases hi
    refine ⟨_, (Slots.getElem?_set_iff hj).mpr (Or.inl ⟨rfl, rfl⟩), Or.inr ?_⟩
    rcases hprogress with hprogress | ⟨hlooking, hcancelled⟩
    · exact hprogress
    · rcases hwaits with hwaits | hwaits
      · exact absurd hwaits hlooking
      · exact absurd hwaits hcancelled
  · exact ⟨call', (Slots.getElem?_set_iff hj).mpr (Or.inr ⟨hij, hi⟩), hwaits⟩

/-- With both locks held no step takes or gives back either, and none looks anything up. -/
theorem crossed_moves (h : Crossed w) (hmoves : Moves w a w') :
    Crossed w' ∧ w'.nodes = w.nodes ∧ ∀ i, Unanswered w i → Unanswered w' i := by
  cases hmoves with
  | node hfree | look hi hlooking hfree | takeOff hk hr hkind hfree | putBack hk hh hkind hfree =>
      exact absurd hfree h.1
  | fetch hk hr hkind hfree | putAside hk hh hkind hfree => exact absurd hfree h.2
  | call =>
      refine ⟨h, rfl, fun i hi => ?_⟩
      obtain ⟨call, hi, hwaits⟩ := hi
      exact ⟨call, Slots.getElem?_snoc_iff.mpr (Or.inr hi), hwaits⟩
  | push hj hpushing =>
      refine ⟨h, rfl, fun i hi => ?_⟩
      exact (hi.setCall hj (Or.inr (by rw [hpushing]; exact ⟨nofun, nofun⟩))).of_calls rfl
  | closed hj hpushing =>
      refine ⟨h, rfl, fun i hi => hi.setCall hj (Or.inr ?_)⟩
      rw [hpushing]
      exact ⟨nofun, nofun⟩
  | answered hj hawaits | unanswered hj hawaits =>
      refine ⟨h, rfl, fun i hi => hi.setCall hj (Or.inr ?_)⟩
      rw [hawaits]
      exact ⟨nofun, nofun⟩
  | cancel hj => exact ⟨h, rfl, fun i hi => hi.setCall hj (Or.inl rfl)⟩
  | _ => exact ⟨h, rfl, fun i hi => hi.of_calls rfl⟩

theorem crossed_run (h : Crossed w) (l : List Label) (hrun : run step w l = some w') :
    Crossed w' ∧ w'.nodes = w.nodes ∧ ∀ i, Unanswered w i → Unanswered w' i := by
  refine run_invariant_all
    (I := fun x => Crossed x ∧ x.nodes = w.nodes ∧ ∀ i, Unanswered w i → Unanswered x i)
    (fun x a x' hx hstep => ?_) l ⟨h, rfl, fun _ => id⟩ hrun
  obtain ⟨hcrossed, hnodes, hwaits⟩ := hx
  obtain ⟨hcrossed', hnodes', hwaits'⟩ := crossed_moves hcrossed (step_moves hstep)
  exact ⟨hcrossed', hnodes'.trans hnodes, fun i hi => hwaits' i (hwaits i hi)⟩

/-- A cut that holds its first lock can go on when the second is free, and then lets go. -/
theorem Locked.lets_go (h : Locked w) :
    (∀ k, w.nodesLock = some k → w.detachedLock = none →
      ∃ w', step w (.file k) = some w' ∧ w'.nodesLock = none) ∧
    ∀ k, w.detachedLock = some k → w.nodesLock = none →
      ∃ w', step w (.file k) = some w' ∧ w'.detachedLock = none := by
  refine ⟨fun k hk hfree => ?_, fun k hk hfree => ?_⟩
  · obtain ⟨cut, b, hcut, hkind, hholding⟩ := h.nodes k hk
    refine ⟨{ w.setCut k cut .returned with
      detached := Function.update w.detached cut.id (some b), nodesLock := none }, ?_, rfl⟩
    simp only [step, hcut, hkind, hholding, hfree, if_true]
  · obtain ⟨cut, b, hcut, hkind, hholding⟩ := h.detached k hk
    refine ⟨{ w.setCut k cut .returned with
      nodes := Function.update w.nodes cut.id (some b), detachedLock := none }, ?_, rfl⟩
    simp only [step, hcut, hkind, hholding, hfree, if_true]

theorem Locked.stuckIff (h : Locked w) : StuckIff w where
  nodes := by
    constructor
    · intro hnever
      cases hnodes : w.nodesLock with
      | none => exact absurd hnodes (hnever [] w rfl)
      | some k =>
          cases hdetached : w.detachedLock with
          | none =>
              obtain ⟨w', hstep, hfree⟩ := h.lets_go.1 k hnodes hdetached
              exact absurd hfree (hnever [.file k] w' (run_cons_of_step hstep []))
          | some j => exact ⟨by rw [hnodes]; nofun, by rw [hdetached]; nofun⟩
    · intro hcrossed l w' hrun
      exact (crossed_run hcrossed l hrun).1.1
  detached := by
    constructor
    · intro hnever
      cases hdetached : w.detachedLock with
      | none => exact absurd hdetached (hnever [] w rfl)
      | some k =>
          cases hnodes : w.nodesLock with
          | none =>
              obtain ⟨w', hstep, hfree⟩ := h.lets_go.2 k hdetached hnodes
              exact absurd hfree (hnever [.file k] w' (run_cons_of_step hstep []))
          | some j => exact ⟨by rw [hnodes]; nofun, by rw [hdetached]; nofun⟩
    · intro hcrossed l w' hrun
      exact (crossed_run hcrossed l hrun).1.2
  stays hcrossed l w' hrun := (crossed_run hcrossed l hrun).2

end Locks

/-- **The network is stuck just when a `remove` and a `restore` have crossed**: from any
state a run leads to, a lock is never free again exactly if both are held. -/
theorem stuck_iff_crossed (l : List Label) (w : World) (hrun : run step World.new l = some w) :
    StuckIff w :=
  (run_invariant_all (I := Locked) (fun _ _ _ hx hstep => locked_step hx (step_moves hstep)) l
    locked_new hrun).stuckIff

/-- One node is cut off; while another one is being cut off, it is to come back. -/
def crossing : List Label :=
  [.node ⟨1⟩, .node ⟨2⟩, .cut .remove ⟨1⟩, .lock 0, .file 0, .cut .remove ⟨2⟩, .cut .restore ⟨1⟩,
    .lock 1, .lock 2]

theorem stuck_iff_crossed_crossing :
    ∃ w, run step World.new crossing = some w ∧ Crossed w ∧ StuckIff w :=
  ⟨_, rfl, ⟨nofun, nofun⟩, stuck_iff_crossed crossing _ rfl⟩

/-! ## Cut off -/

/-- The call has `id` at one of its ends. -/
def Touches (id : NodeId) (call : Call) : Prop := call.source = id ∨ call.target = id

/-- It got nowhere: it is still to look, was dropped, or was told so. -/
def Call.Refused (call : Call) : Prop :=
  call.progress = .looking ∨ call.progress = .cancelled ∨
    call.progress = .returned (.error (.unreachable call.target))

/-- If the call of a push in `w'` has `id` at one end, it had these mailboxes in `w`. -/
def InHand (id : NodeId) (w w' : World) (x : Push) : Prop :=
  ∃ call : Call, w'.calls[x.call]? = some call ∧ (Touches id call →
    ∃ call₀ : Call, w.calls[x.call]? = some call₀ ∧ call₀.progress = .pushing x.box)

section Away

variable {id : NodeId} {w₀ w w' : World} {a : Label} {i : Nat} {call : Call}

/-- What holds of a call with `id` at one end since `w₀`. -/
structure Shut (w₀ : World) (i : Nat) (call : Call) : Prop where
  inHand : ∀ b, call.progress = .pushing b →
    ∃ call₀ : Call, w₀.calls[i]? = some call₀ ∧ call₀.progress = .pushing b
  refused : (∀ call₀ : Call, w₀.calls[i]? = some call₀ → call₀.progress = .looking) →
    call.Refused

structure Away (id : NodeId) (w₀ w : World) : Prop where
  gone : w.nodes id = none
  shut : ∀ (i : Nat) (call : Call), w.calls[i]? = some call → Touches id call → Shut w₀ i call
  pushes : ∃ more, w.pushes = w₀.pushes ++ more ∧ ∀ x ∈ more, InHand id w₀ w x

theorem InHand.setCall {progress : Progress} {x : Push} (h : InHand id w₀ w x)
    (hi : w.calls[i]? = some call) : InHand id w₀ (w.setCall i call progress) x := by
  obtain ⟨call', hcall', hin⟩ := h
  by_cases hx : x.call = i
  · rw [hx, hi] at hcall'
    cases hcall'
    exact ⟨_, (Slots.getElem?_set_iff hi).mpr (Or.inl ⟨hx, rfl⟩), hin⟩
  · exact ⟨call', (Slots.getElem?_set_iff hi).mpr (Or.inr ⟨hx, hcall'⟩), hin⟩

/-- A call goes on without a push. -/
theorem Away.setCall {progress : Progress} (h : Away id w₀ w) (hi : w.calls[i]? = some call)
    (hshut : Touches id call → Shut w₀ i { call with progress := progress }) :
    Away id w₀ (w.setCall i call progress) where
  gone := h.gone
  shut j call' hj htouches := by
    rcases (Slots.getElem?_set_iff hi).mp hj with ⟨rfl, rfl⟩ | ⟨-, hj⟩
    · exact hshut htouches
    · exact h.shut j call' hj htouches
  pushes := by
    obtain ⟨more, hmore, hin⟩ := h.pushes
    exact ⟨more, hmore, fun x hx => (hin x hx).setCall hi⟩

/-- Nothing happens to the calls, and nothing puts `id` back. -/
theorem Away.aside (h : Away id w₀ w) (hnodes : w'.nodes id = none) (hcalls : w'.calls = w.calls)
    (hpushes : w'.pushes = w.pushes) : Away id w₀ w' where
  gone := hnodes
  shut i call hi := by
    rw [hcalls] at hi
    exact h.shut i call hi
  pushes := by
    obtain ⟨more, hmore, hin⟩ := h.pushes
    refine ⟨more, hpushes.trans hmore, fun x hx => ?_⟩
    rw [InHand, hcalls]
    exact hin x hx

theorem Away.newCall (h : Away id w₀ w) (source target : NodeId) (load : Load) :
    Away id w₀ { w with calls := w.calls ++ [⟨source, target, load, .looking⟩] } where
  gone := h.gone
  shut i call hi htouches := by
    rcases Slots.getElem?_snoc_iff.mp hi with ⟨-, rfl⟩ | hi
    · refine ⟨fun b hb => ?_, fun _ => Or.inl rfl⟩
      cases hb
    · exact h.shut i call hi htouches
  pushes := by
    obtain ⟨more, hmore, hin⟩ := h.pushes
    refine ⟨more, hmore, fun x hx => ?_⟩
    obtain ⟨call, hcall, hin⟩ := hin x hx
    exact ⟨call, Slots.getElem?_snoc_iff.mpr (Or.inr hcall), hin⟩

/-- A call that is past its lookup was so in `w₀`, and so is not one that must be refused. -/
theorem Shut.goOn {progress : Progress} (h : Shut w₀ i call) (hnot : ¬ call.Refused)
    (hpast : ∀ b, progress ≠ .pushing b) : Shut w₀ i { call with progress := progress } where
  inHand b hb := absurd hb (hpast b)
  refused hlooking := absurd (h.refused hlooking) hnot

theorem Shut.stop {progress : Progress} (hpast : ∀ b, progress ≠ .pushing b)
    (hrefused : ({ call with progress := progress } : Call).Refused) :
    Shut w₀ i { call with progress := progress } where
  inHand b hb := absurd hb (hpast b)
  refused _ := hrefused

end Away

/-- A node is attached only while no mailboxes of it are aside or on their way. -/
def NoneAside (w : World) : Label → Prop
  | .node id => w.detached id = none ∧ ∀ (k : Nat) (cut : Cut), w.cuts[k]? = some cut →
      cut.id = id → ∀ b, cut.progress ≠ .holding b
  | _ => True

/-- Whatever is kept under an id, on the network, aside or on its way, is the mailbox that
was made for it last; and that is what a lookup finds. -/
structure Newest (w : World) : Prop where
  kept : ∀ id b, Bound w id b → ∀ b', w.owner b' = some id → b' ≤ b
  found : ∀ source target b, w.mailboxes source target = .ok b →
    w.owner b = some target ∧ ∀ b', w.owner b' = some target → b' ≤ b

section Latest

variable {w w' : World} {a : Label} {id : NodeId} {b : Nat}

/-- Only `node` makes mailboxes. -/
theorem Moves.owner_back (h : Moves w a w') (howner : w'.owner b = some id) :
    w.owner b = some id ∨ a = .node id ∧ b = w.boxes.length := by
  cases h with
  | node =>
      obtain ⟨box, hb, rfl⟩ := Option.map_eq_some_iff.mp howner
      rcases Slots.getElem?_snoc_iff.mp hb with ⟨hlast, rfl⟩ | hb
      · exact Or.inr ⟨rfl, hlast⟩
      · exact Or.inl (by rw [World.owner, hb]; rfl)
  | push hi hpushing hb hopen hpush =>
      exact Or.inl ((owner_set hb rfl (push_id hpush)).symm.trans howner)
  | recv hb | recvRpc hb | dropInbox hb | dropRpcInbox hb =>
      exact Or.inl ((owner_set hb rfl (by rfl)).symm.trans howner)
  | _ => exact Or.inl howner

theorem owner_lt (howner : w.owner b = some id) : b < w.boxes.length := by
  obtain ⟨box, hb, -⟩ := Option.map_eq_some_iff.mp howner
  exact (List.getElem?_eq_some_iff.mp hb).1

/-- A mailbox that is kept was kept before, and then no newer one has been made; or it is the
new one. -/
theorem newest_step (h : ∀ id b, Bound w id b → ∀ b', w.owner b' = some id → b' ≤ b)
    (hnone : NoneAside w a) (hmoves : Moves w a w') :
    ∀ id b, Bound w' id b → ∀ b', w'.owner b' = some id → b' ≤ b := by
  intro id b hbound b' howner
  rcases hmoves.owner_back howner with hold | ⟨rfl, rfl⟩
  · rcases hmoves.bound hbound with hkept | ⟨rfl, rfl⟩
    · exact h id b hkept b' hold
    · exact Nat.le_of_lt (owner_lt hold)
  · -- A new mailbox is filed at once, and nothing else of the id is anywhere.
    obtain ⟨hdetached, hcarried⟩ := hnone
    cases hmoves with
    | node =>
        cases hbound with
        | nodes hb =>
            rcases update_eq_some.mp hb with ⟨-, hnew⟩ | ⟨hne, -⟩
            · exact Nat.le_of_eq (Option.some.inj hnew)
            · exact absurd rfl hne
        | detached hb =>
            rw [show w.detached id = some b from hb] at hdetached
            cases hdetached
        | carried hk hid hholding => exact absurd hholding (hcarried _ _ hk hid b)

end Latest

/-- **What is restored is the latest**: in every run in which no node is attached anew while
mailboxes of it are aside, calls reach the mailboxes their target was given last. -/
theorem newest_found (l : List Label) (w : World) (hrun : run step World.new l = some w)
    (hnone : Along step NoneAside World.new l) : Newest w := by
  have hkept : ∀ id b, Bound w id b → ∀ b', w.owner b' = some id → b' ≤ b :=
    run_invariant (I := fun x => ∀ id b, Bound x id b → ∀ b', x.owner b' = some id → b' ≤ b)
      (fun _ _ _ hx hn hstep => newest_step hx hn (step_moves hstep)) l
      (fun id b hb => absurd (inv_new.bound id b hb) (by intro howner; cases howner)) hnone hrun
  have hinv := run_invariant_all inv_step l inv_new hrun
  refine ⟨hkept, fun source target b hfound => ?_⟩
  have hnodes : w.nodes target = some b := by
    unfold World.mailboxes at hfound
    split at hfound
    · cases hfound
    · split at hfound
      · cases hfound
      · cases hfound
        assumption
  exact ⟨hinv.bound target b (.nodes hnodes), hkept target b (.nodes hnodes)⟩

/-- A node is cut off and comes back. -/
def healed : List Label :=
  [.node ⟨1⟩, .node ⟨2⟩, .cut .remove ⟨1⟩, .lock 0, .file 0, .cut .restore ⟨1⟩, .lock 1, .file 1]

theorem newest_found_healed :
    ∃ w, run step World.new healed = some w ∧ w.nodes ⟨1⟩ = some 0 ∧ Newest w := by
  refine ⟨_, rfl, rfl, newest_found healed _ rfl ?_⟩
  refine ⟨⟨rfl, ?_⟩, ⟨rfl, ?_⟩, trivial, trivial, trivial, trivial, trivial, trivial, trivial⟩
  · intro k cut hk
    cases hk
  · intro k cut hk
    cases hk

/-- Attached anew in between, it comes back with the mailboxes it had before. -/
example :
    (run step World.new
      [.node ⟨1⟩, .cut .remove ⟨1⟩, .lock 0, .file 0, .node ⟨1⟩, .cut .restore ⟨1⟩, .lock 1,
        .file 1]).map (fun w => (w.nodes ⟨1⟩, w.boxes.length)) = some (some 0, 2) := rfl

end HorsieActor.Ports.InProcess
