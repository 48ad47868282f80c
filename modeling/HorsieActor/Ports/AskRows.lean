import HorsieActor.Ports.Reply
import HorsieActor.Verified.Schedule
import HorsieActor.Verified.Slots

/-!
# What an ended ask leaves in the waiting table

`ActorRef::ask` holds a guard that, when the future is dropped, takes the closure
out of the handle's shared slot and runs it; the closure forgets the handle's row.
The row and the closure come into being when the handle is encoded, which may be
on another task: a local actor that was given the command forwards it to a shard
on another node.  The guard looks into the slot once.  If the sender is taken for
an encode after that, or was taken before it and the slot is filled after it, the
row stays until the table is full (`encode_after_end_leaves_row`).

`noRowLeft_of_timely` is what holds otherwise: no encode takes the sender of an
ask that has begun to end, and no ask begins to end while its handle is being
encoded.  An encode by the ask's own send is always in time.

An encode is four steps: the sender is taken, the correlation minted, the row
inserted, the slot filled; `run_encode` says that together they are
`ReplyTo.serialize`.  A handle over a channel of somebody else's is an ask here
that does not end.
-/

namespace HorsieActor.Ports.Asking

open HorsieActor.Verified

/-! ## The machine -/

/-- Where an encode of a handle stands; `own` when it is the ask's own send. -/
inductive Encode where
  | idle
  | taken (tx : Caller) (own : Bool)
  | minted (tx : Caller) (correlation : Nat) (own : Bool)
  | inserted (correlation : Nat) (own : Bool)
  deriving DecidableEq

/-- The ask's own task is inside the encode. -/
def Encode.own : Encode → Bool
  | .idle => false
  | .taken _ own => own
  | .minted _ _ own => own
  | .inserted _ own => own

/-- Where the future stands. -/
inductive Pc where
  /-- Somewhere before its result. -/
  | waiting
  /-- The guard has taken this out of the slot. -/
  | ending (correlation : Option Nat)
  /-- Completed or dropped. -/
  | ended
  deriving DecidableEq

structure Ask where
  handle : ReplyTo
  encode : Encode
  pc : Pc
  deriving DecidableEq

structure World where
  node : ClusterNode
  asks : List Ask

def World.start (localId : NodeId) : World := ⟨ClusterNode.start localId, []⟩

def World.setAsk (w : World) (i : Nat) (ask : Ask) : World := { w with asks := w.asks.set i ask }

inductive Label where
  | ask
  | take (i : Nat) (own : Bool)
  | mint (i : Nat)
  | insert (i : Nat)
  | fillSlot (i : Nat)
  /-- The handle is answered or dropped in this process. -/
  | release (i : Nat)
  | reply (reply : Reply)
  | abandonWaiting
  /-- The future completes or is dropped: the guard looks into the slot. -/
  | stop (i : Nat)
  /-- The guard runs what it found there. -/
  | forget (i : Nat)
  deriving DecidableEq

def step (w : World) : Label → Option World
  | .ask => some { w with asks := w.asks ++ [⟨.fromSender w.asks.length, .idle, .waiting⟩] }
  | .take i own =>
      match w.asks[i]? with
      | some ⟨⟨.localTx (some tx), slot⟩, .idle, pc⟩ =>
          if own = true ∧ pc ≠ .waiting then none
          else some (w.setAsk i ⟨⟨.localTx none, slot⟩, .taken tx own, pc⟩)
      | _ => none
  | .mint i =>
      match w.asks[i]? with
      | some ⟨handle, .taken tx own, pc⟩ =>
          let (correlation, node) := w.node.mintCorrelation
          some (({ w with node := node } : World).setAsk i
            ⟨handle, .minted tx correlation own, pc⟩)
      | _ => none
  | .insert i =>
      match w.asks[i]? with
      | some ⟨handle, .minted tx correlation own, pc⟩ =>
          some (({ w with node := w.node.insertWaiting correlation tx } : World).setAsk i
            ⟨handle, .inserted correlation own, pc⟩)
      | _ => none
  | .fillSlot i =>
      match w.asks[i]? with
      | some ⟨⟨inner, _⟩, .inserted correlation _, pc⟩ =>
          some (w.setAsk i ⟨⟨inner, some correlation⟩, .idle, pc⟩)
      | _ => none
  | .release i =>
      match w.asks[i]? with
      | some ⟨⟨.localTx (some _), slot⟩, .idle, pc⟩ =>
          some (w.setAsk i ⟨⟨.localTx none, slot⟩, .idle, pc⟩)
      | _ => none
  | .reply reply => some { w with node := (w.node.deliverReply reply).1 }
  | .abandonWaiting => some { w with node := w.node.abandonWaiting }
  | .stop i =>
      match w.asks[i]? with
      | some ⟨⟨inner, slot⟩, encode, .waiting⟩ =>
          if encode.own then none else some (w.setAsk i ⟨⟨inner, none⟩, encode, .ending slot⟩)
      | _ => none
  | .forget i =>
      match w.asks[i]? with
      | some ⟨handle, encode, .ending slot⟩ =>
          let node := match slot with
            | none => w.node
            | some correlation => w.node.forget correlation
          some (({ w with node := node } : World).setAsk i ⟨handle, encode, .ended⟩)
      | _ => none

/-! ## An encode step by step -/

section Encoding

variable {w : World} {i : Nat} {tx : Caller} {handle : ReplyTo} {slot : Option Nat} {pc : Pc}
  {own : Bool} {correlation : Nat}

theorem getElem?_setAsk_self {ask : Ask} (hi : w.asks[i]? = some ask) (ask' : Ask) :
    (w.setAsk i ask').asks[i]? = some ask' :=
  List.getElem?_set_self (List.getElem?_eq_some_iff.mp hi).1

theorem step_take (hi : w.asks[i]? = some ⟨⟨.localTx (some tx), slot⟩, .idle, pc⟩)
    (hown : own = true → pc = .waiting) :
    step w (.take i own) = some (w.setAsk i ⟨⟨.localTx none, slot⟩, .taken tx own, pc⟩) := by
  have hgo : ¬ (own = true ∧ pc ≠ .waiting) := fun h => h.2 (hown h.1)
  simp only [step, hi, if_neg hgo]

theorem step_mint (hi : w.asks[i]? = some ⟨handle, .taken tx own, pc⟩) :
    step w (.mint i) = some (({ w with node := w.node.mintCorrelation.2 } : World).setAsk i
      ⟨handle, .minted tx w.node.mintCorrelation.1 own, pc⟩) := by
  simp only [step, hi]

theorem step_insert (hi : w.asks[i]? = some ⟨handle, .minted tx correlation own, pc⟩) :
    step w (.insert i) = some (({ w with node := w.node.insertWaiting correlation tx } :
      World).setAsk i ⟨handle, .inserted correlation own, pc⟩) := by
  simp only [step, hi]

theorem step_fillSlot (hi : w.asks[i]? = some ⟨handle, .inserted correlation own, pc⟩) :
    step w (.fillSlot i) =
      some (w.setAsk i ⟨⟨handle.inner, some correlation⟩, .idle, pc⟩) := by
  simp only [step, hi]

/-- **The four steps of an encode are `ReplyTo.serialize`.** -/
theorem run_encode (hi : w.asks[i]? = some ⟨⟨.localTx (some tx), slot⟩, .idle, pc⟩)
    (hown : own = true → pc = .waiting) :
    Schedule.run step w [.take i own, .mint i, .insert i, .fillSlot i] =
      some ⟨(ReplyTo.serialize w.node ⟨.localTx (some tx), slot⟩).2.2,
        w.asks.set i ⟨(ReplyTo.serialize w.node ⟨.localTx (some tx), slot⟩).2.1, .idle, pc⟩⟩ := by
  -- each step finds at position `i` what the one before it has put there
  have htaken := getElem?_setAsk_self hi ⟨⟨.localTx none, slot⟩, .taken tx own, pc⟩
  have hminted := getElem?_setAsk_self (w := ⟨w.node.mintCorrelation.2, _⟩) htaken
    ⟨⟨.localTx none, slot⟩, .minted tx w.node.mintCorrelation.1 own, pc⟩
  have hinserted := getElem?_setAsk_self (w := ⟨(w.node.register tx).2, _⟩) hminted
    ⟨⟨.localTx none, slot⟩, .inserted w.node.mintCorrelation.1 own, pc⟩
  refine (Schedule.run_snoc (l := [.take i own, .mint i, .insert i]) (Schedule.run_snoc
    (l := [.take i own, .mint i]) (Schedule.run_snoc (l := [.take i own]) (Schedule.run_snoc
      (l := []) rfl (step_take hi hown)) (step_mint htaken)) (step_insert hminted))
    (step_fillSlot hinserted)).trans ?_
  simp [World.setAsk, ReplyTo.serialize, ClusterNode.register]

end Encoding

/-! ## The property -/

/-- An ask that has ended, and whose handle is not being encoded, has no row. -/
def NoRowLeft (w : World) : Prop :=
  ∀ (i : Nat) (ask : Ask), w.asks[i]? = some ask → ask.pc = .ended → ask.encode = .idle →
    ∀ correlation, (correlation, i) ∉ w.node.waiting.rows

/-- No sender is taken for an encode once its ask has begun to end, and no ask
begins to end while its handle is being encoded. -/
def Timely (w : World) : Label → Prop
  | .take i _ => ∀ ask ∈ w.asks[i]?, ask.pc = .waiting
  | .stop i => ∀ ask ∈ w.asks[i]?, ask.encode = .idle
  | _ => True

instance (w : World) : ∀ a : Label, Decidable (Timely w a)
  | .take i _ => inferInstanceAs (Decidable (∀ ask ∈ w.asks[i]?, ask.pc = .waiting))
  | .stop i => inferInstanceAs (Decidable (∀ ask ∈ w.asks[i]?, ask.encode = .idle))
  | .ask | .mint _ | .insert _ | .fillSlot _ | .release _ | .reply _ | .abandonWaiting
  | .forget _ => isTrue trivial

/-! ## The invariant -/

/-- The ask will see to it that this row goes: the row is in the table and its
closure still to be put into the slot, or there, or in the guard's hands. -/
def Ask.owes (ask : Ask) (correlation : Nat) : Prop :=
  ask.handle.inner = .localTx none ∧
    ((∃ own, ask.encode = .inserted correlation own ∧ ask.pc = .waiting) ∨
      (ask.encode = .idle ∧ ask.handle.deregister = some correlation ∧ ask.pc = .waiting) ∨
      (ask.encode = .idle ∧ ask.pc = .ending (some correlation)))

/-- The handle is the ask's own, and is encoded while the ask waits. -/
structure Sound (i : Nat) (ask : Ask) : Prop where
  sender : ∀ tx, ask.handle.inner = .localTx (some tx) → tx = i ∧ ask.encode = .idle
  taken : ∀ tx own, ask.encode = .taken tx own → tx = i
  minted : ∀ tx c own, ask.encode = .minted tx c own → tx = i
  inTime : ask.encode ≠ .idle → ask.pc = .waiting ∧ ask.handle.inner = .localTx none

structure Inv (w : World) : Prop where
  sound : ∀ i ask, w.asks[i]? = some ask → Sound i ask
  rows : ∀ c i, (c, i) ∈ w.node.waiting.rows → ∃ ask, w.asks[i]? = some ask ∧ ask.owes c

theorem Ask.not_owes_ended {ask : Ask} (h : ask.pc = .ended) (c : Nat) : ¬ ask.owes c := by
  rintro ⟨-, ⟨own, -, hpc⟩ | ⟨-, -, hpc⟩ | ⟨-, hpc⟩⟩
  all_goals
    rw [h] at hpc
    cases hpc

theorem noRowLeft_of_inv {w : World} (h : Inv w) : NoRowLeft w := by
  intro i ask hi hpc _ c hrow
  obtain ⟨ask', hi', howes⟩ := h.rows c i hrow
  cases hi.symm.trans hi'
  exact Ask.not_owes_ended hpc c howes

section Steps

variable {w : World} {i : Nat} {ask ask' : Ask}

/-- Rows have gone, at most. -/
theorem Inv.shrink (h : Inv w) {node : ClusterNode}
    (hsub : ∀ row ∈ node.waiting.rows, row ∈ w.node.waiting.rows) :
    Inv { w with node := node } :=
  ⟨h.sound, fun c i hrow => h.rows c i (hsub _ hrow)⟩

/-- One ask has moved, and owes what rows of its own there are. -/
theorem Inv.setAsk (h : Inv w) (hi : w.asks[i]? = some ask) {node : ClusterNode}
    (hsound : Sound i ask')
    (hothers : ∀ c j, j ≠ i → (c, j) ∈ node.waiting.rows → (c, j) ∈ w.node.waiting.rows)
    (howes : ∀ c, (c, i) ∈ node.waiting.rows → ask'.owes c) :
    Inv (({ w with node := node } : World).setAsk i ask') := by
  constructor
  · intro j x hj
    rcases (Slots.getElem?_set_iff hi).mp hj with ⟨rfl, rfl⟩ | ⟨-, hj⟩
    · exact hsound
    · exact h.sound j x hj
  · intro c j hrow
    by_cases hji : j = i
    · subst hji
      exact ⟨ask', getElem?_setAsk_self hi _, howes c hrow⟩
    · obtain ⟨x, hj, hx⟩ := h.rows c j (hothers c j hji hrow)
      exact ⟨x, (Slots.getElem?_set_iff hi).mpr (Or.inr ⟨hji, hj⟩), hx⟩

/-- An ask that owes nothing has no row. -/
theorem Inv.no_row (h : Inv w) (hi : w.asks[i]? = some ask) (hnone : ∀ c, ¬ ask.owes c) (c : Nat) :
    (c, i) ∉ w.node.waiting.rows := by
  intro hrow
  obtain ⟨x, hx, howes⟩ := h.rows c i hrow
  cases hi.symm.trans hx
  exact hnone c howes

theorem Inv.asked (h : Inv w) :
    Inv { w with asks := w.asks ++ [⟨.fromSender w.asks.length, .idle, .waiting⟩] } := by
  constructor
  · intro i x hi
    rcases Slots.getElem?_snoc_iff.mp hi with ⟨rfl, rfl⟩ | hi
    · refine ⟨?_, nofun, nofun, fun hne => absurd rfl hne⟩
      intro tx htx
      cases htx
      exact ⟨rfl, rfl⟩
    · exact h.sound i x hi
  · intro c i hrow
    obtain ⟨x, hi, hx⟩ := h.rows c i hrow
    exact ⟨x, Slots.getElem?_snoc_iff.mpr (Or.inr hi), hx⟩

variable {handle : ReplyTo} {slot : Option Nat} {tx : Caller} {own : Bool} {pc : Pc} {c : Nat}

/-- A handle whose sender is there was never encoded. -/
theorem not_owes_sender : ¬ Ask.owes ⟨⟨.localTx (some tx), slot⟩, .idle, pc⟩ c := by
  rintro ⟨htx, -⟩
  cases htx

theorem Inv.take (h : Inv w) (hi : w.asks[i]? = some ⟨⟨.localTx (some tx), slot⟩, .idle, pc⟩)
    (hpc : pc = .waiting) :
    Inv (w.setAsk i ⟨⟨.localTx none, slot⟩, .taken tx own, pc⟩) := by
  obtain ⟨rfl, -⟩ := (h.sound i _ hi).sender tx rfl
  refine h.setAsk hi ⟨nofun, ?_, nofun, fun _ => ⟨hpc, rfl⟩⟩ (fun _ _ _ hrow => hrow) ?_
  · intro tx' own' heq
    cases heq
    rfl
  · intro c hrow
    exact absurd hrow (h.no_row hi (fun _ => not_owes_sender) c)

theorem Inv.mint (h : Inv w) (hi : w.asks[i]? = some ⟨handle, .taken tx own, pc⟩) :
    Inv (({ w with node := w.node.mintCorrelation.2 } : World).setAsk i
      ⟨handle, .minted tx w.node.mintCorrelation.1 own, pc⟩) := by
  have hsound := h.sound i _ hi
  have htx : tx = i := hsound.taken tx own rfl
  have hin := hsound.inTime nofun
  refine h.setAsk hi ⟨?_, nofun, ?_, fun _ => hin⟩ (fun _ _ _ hrow => hrow) ?_
  · intro tx' heq
    cases hin.2.symm.trans heq
  · intro tx' c own' heq
    cases heq
    exact htx
  · intro c hrow
    refine absurd hrow (h.no_row hi ?_ c)
    rintro c ⟨-, ⟨_, henc, -⟩ | ⟨henc, -⟩ | ⟨henc, -⟩⟩
    all_goals cases henc

theorem Inv.insert (h : Inv w) (hi : w.asks[i]? = some ⟨handle, .minted tx c own, pc⟩) :
    Inv (({ w with node := w.node.insertWaiting c tx } : World).setAsk i
      ⟨handle, .inserted c own, pc⟩) := by
  have hsound := h.sound i _ hi
  obtain rfl : tx = i := hsound.minted tx c own rfl
  have hin := hsound.inTime nofun
  have hrows : ∀ row ∈ (w.node.insertWaiting c tx).waiting.rows,
      row = (c, tx) ∨ row ∈ w.node.waiting.rows := by
    intro row hrow
    rcases OrdMap.mem_insert.mp (OrdMap.mem_of_mem_trim hrow) with heq | ⟨-, hold⟩
    · exact Or.inl heq
    · exact Or.inr hold
  refine h.setAsk hi ⟨?_, nofun, nofun, fun _ => hin⟩ ?_ ?_
  · intro tx' heq
    cases hin.2.symm.trans heq
  · intro c' j hj hrow
    rcases hrows _ hrow with heq | hold
    · cases heq
      exact absurd rfl hj
    · exact hold
  · intro c' hrow
    rcases hrows _ hrow with heq | hold
    · cases heq
      exact ⟨hin.2, Or.inl ⟨own, rfl, hin.1⟩⟩
    · refine absurd hold (h.no_row hi ?_ c')
      rintro c' ⟨-, ⟨_, henc, -⟩ | ⟨henc, -⟩ | ⟨henc, -⟩⟩
      all_goals cases henc

theorem Inv.fillSlot (h : Inv w) (hi : w.asks[i]? = some ⟨handle, .inserted c own, pc⟩) :
    Inv (w.setAsk i ⟨⟨handle.inner, some c⟩, .idle, pc⟩) := by
  have hin := (h.sound i _ hi).inTime nofun
  refine h.setAsk hi ⟨?_, nofun, nofun, fun hne => absurd rfl hne⟩ (fun _ _ _ hrow => hrow) ?_
  · intro tx' heq
    cases hin.2.symm.trans heq
  · intro c' hrow
    obtain ⟨x, hx, -, ⟨_, henc, -⟩ | ⟨henc, -⟩ | ⟨henc, -⟩⟩ := h.rows c' i hrow
    all_goals cases hi.symm.trans hx
    all_goals cases henc
    exact ⟨hin.2, Or.inr (Or.inl ⟨rfl, rfl, hin.1⟩)⟩

theorem Inv.release (h : Inv w)
    (hi : w.asks[i]? = some ⟨⟨.localTx (some tx), slot⟩, .idle, pc⟩) :
    Inv (w.setAsk i ⟨⟨.localTx none, slot⟩, .idle, pc⟩) := by
  refine h.setAsk hi ⟨nofun, nofun, nofun, fun hne => absurd rfl hne⟩ (fun _ _ _ hrow => hrow) ?_
  intro c hrow
  exact absurd hrow (h.no_row hi (fun _ => not_owes_sender) c)

/-- The guard finds in the slot what was put there. -/
theorem Inv.stop (h : Inv w) (hi : w.asks[i]? = some ⟨handle, .idle, .waiting⟩) :
    Inv (w.setAsk i ⟨⟨handle.inner, none⟩, .idle, .ending handle.deregister⟩) := by
  have hsound := h.sound i _ hi
  refine h.setAsk hi ⟨hsound.sender, nofun, nofun, fun hne => absurd rfl hne⟩
    (fun _ _ _ hrow => hrow) ?_
  intro c hrow
  obtain ⟨x, hx, hinner, howes⟩ := h.rows c i hrow
  cases hi.symm.trans hx
  rcases howes with ⟨_, henc, -⟩ | ⟨-, hslot, -⟩ | ⟨-, hpc⟩
  · cases henc
  · exact ⟨hinner, Or.inr (Or.inr ⟨rfl, congrArg Pc.ending hslot⟩)⟩
  · cases hpc

theorem Inv.forget (h : Inv w) {encode : Encode}
    (hi : w.asks[i]? = some ⟨handle, encode, .ending slot⟩) {node : ClusterNode}
    (hsub : ∀ row ∈ node.waiting.rows, row ∈ w.node.waiting.rows)
    (hgone : ∀ c, slot = some c → ∀ j, (c, j) ∉ node.waiting.rows) :
    Inv (({ w with node := node } : World).setAsk i ⟨handle, encode, .ended⟩) := by
  have hsound := h.sound i _ hi
  refine h.setAsk hi ⟨hsound.sender, hsound.taken, hsound.minted, ?_⟩
    (fun _ _ _ hrow => hsub _ hrow) ?_
  · intro hne
    cases (hsound.inTime hne).1
  · intro c hrow
    obtain ⟨x, hx, -, howes⟩ := h.rows c i (hsub _ hrow)
    cases hi.symm.trans hx
    rcases howes with ⟨_, -, hpc⟩ | ⟨-, -, hpc⟩ | ⟨-, hpc⟩
    · cases hpc
    · cases hpc
    · cases hpc
      exact absurd hrow (hgone c rfl i)

end Steps

theorem inv_step {w w' : World} {a : Label} (h : Inv w) (hC : Timely w a)
    (hs : step w a = some w') : Inv w' := by
  cases a with
  | ask =>
      cases hs
      exact h.asked
  | take i own =>
      simp only [step] at hs
      split at hs
      · rename_i tx slot pc hi
        split at hs
        · cases hs
        · cases hs
          exact h.take hi (hC _ hi)
      · cases hs
  | mint i =>
      simp only [step] at hs
      split at hs
      · rename_i hi
        cases hs
        exact h.mint hi
      · cases hs
  | insert i =>
      simp only [step] at hs
      split at hs
      · rename_i hi
        cases hs
        exact h.insert hi
      · cases hs
  | fillSlot i =>
      simp only [step] at hs
      split at hs
      · rename_i hi
        cases hs
        exact h.fillSlot hi
      · cases hs
  | release i =>
      simp only [step] at hs
      split at hs
      · rename_i hi
        cases hs
        exact h.release hi
      · cases hs
  | reply reply =>
      cases hs
      exact h.shrink fun row hrow => (ClusterNode.mem_deliverReply.mp hrow).2
  | abandonWaiting =>
      cases hs
      exact h.shrink fun row hrow => absurd hrow List.not_mem_nil
  | stop i =>
      simp only [step] at hs
      split at hs
      · rename_i inner slot encode hi
        split at hs
        · cases hs
        · cases hs
          obtain rfl : encode = .idle := hC _ hi
          exact h.stop hi
      · cases hs
  | forget i =>
      simp only [step] at hs
      split at hs
      · rename_i handle encode slot hi
        cases hs
        cases slot with
        | none => exact h.forget hi (fun row hrow => hrow) nofun
        | some c =>
            refine h.forget hi (fun row hrow => (ClusterNode.mem_forget.mp hrow).2) ?_
            intro c' heq j hrow
            cases heq
            exact (ClusterNode.mem_forget.mp hrow).1 rfl
      · cases hs

/-! ## The result -/

/-- **An ended ask leaves no row**, on any schedule that encodes in time. -/
theorem noRowLeft_of_timely (localId : NodeId) (l : List Label) (w : World)
    (hC : Schedule.Along step Timely (World.start localId) l)
    (hrun : Schedule.run step (World.start localId) l = some w) : NoRowLeft w := by
  have hstart : Inv (World.start localId) := ⟨nofun, nofun⟩
  exact noRowLeft_of_inv (Schedule.run_invariant (fun _ _ _ => inv_step) l hstart hC hrun)

/-- An ask whose own send encodes its handle, and which is cancelled then. -/
def cancelledAfterSend : List Label :=
  [.ask, .take 0 true, .mint 0, .insert 0, .fillSlot 0, .stop 0, .forget 0]

theorem noRowLeft_cancelledAfterSend :
    ∃ w, Schedule.run step (World.start ⟨1⟩) cancelledAfterSend = some w ∧
      w.asks.map Ask.pc = [.ended] ∧ NoRowLeft w :=
  ⟨_, rfl, rfl, noRowLeft_of_timely ⟨1⟩ cancelledAfterSend _ (by decide) rfl⟩

/-- The same ask cancelled first, and its handle forwarded by the local actor that
was given the command. -/
def forwardedAfterCancel : List Label :=
  [.ask, .stop 0, .forget 0, .take 0 false, .mint 0, .insert 0, .fillSlot 0]

theorem encode_after_end_leaves_row :
    ¬ ∀ (localId : NodeId) (l : List Label) (w : World),
      Schedule.run step (World.start localId) l = some w → NoRowLeft w := by
  intro hall
  exact hall ⟨1⟩ forwardedAfterCancel _ rfl 0 _ rfl rfl rfl (pack ⟨1⟩ 0) (by decide)

end HorsieActor.Ports.Asking
