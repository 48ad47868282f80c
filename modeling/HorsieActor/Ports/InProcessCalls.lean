import HorsieActor.Ports.InProcess
import HorsieActor.Verified.Schedule
import HorsieActor.Verified.Slots
import Mathlib.Data.List.Nodup

/-!
# What an in-process call says, and what has happened

`send` and `rpc` of `src/transport.rs` are three steps each: a lookup, a push into a mailbox
that may be full, and for a request the wait for its oneshot channel.  Between them mailboxes
are moved about, inboxes are dropped and responders change hands.

Four things hold together in every run.  Mailboxes stay whose they are, wherever they are
kept (`Moves.bound`).  A mailbox has had what was pushed into it, in order, and every call is
pushed once at most (`Posted`).  A responder is queued just while its request waits in a
mailbox that is read (`Replies`).  And each call is where the other three allow (`Fits`).

## Main results

* `inv_step` — the four are kept by every step.
* `transport_delivers` — `Ok` is one place in the mailbox of the target, `Unreachable` is
  none; an answer is the one given to this very request; nobody waits for a responder that
  is gone.
-/

namespace HorsieActor.Ports.InProcess

open HorsieActor.Verified HorsieActor.Verified.Schedule

/-! ## The property -/

/-- What a push has put into the messages, or the requests, of a mailbox. -/
def Push.message? (b : Nat) (x : Push) : Option (Nat × Message) :=
  match x.load with
  | .message m => if x.box = b then some (x.call, m) else none
  | .request _ => none

def Push.request? (b : Nat) (x : Push) : Option (Nat × Octets) :=
  match x.load with
  | .message _ => none
  | .request payload => if x.box = b then some (x.call, payload) else none

namespace World

/-- Whose mailbox it is. -/
def owner (w : World) (b : Nat) : Option NodeId := w.boxes[b]?.map Mailboxes.id

/-- The calls whose load is in a mailbox, or was taken out of one. -/
def pushed (w : World) : List Nat := w.pushes.map Push.call

/-- The request of call `i` waits in a mailbox that is still read. -/
def Queued (w : World) (i : Nat) : Prop :=
  ∃ (b : Nat) (box : Mailboxes), w.boxes[b]? = some box ∧ box.requestsOpen = true ∧
    i ∈ box.requests.waiting.map Prod.fst

/-- The request of call `i` was taken out of a mailbox. -/
def Taken (w : World) (i : Nat) : Prop :=
  ∃ (b : Nat) (box : Mailboxes), w.boxes[b]? = some box ∧ i ∈ box.requests.taken.map Prod.fst

end World

structure Delivers (w : World) : Prop where
  /-- A mailbox has what was pushed into it, in that order. -/
  messages : ∀ b box, w.boxes[b]? = some box →
    box.messages.all = w.pushes.filterMap (Push.message? b)
  requests : ∀ b box, w.boxes[b]? = some box →
    box.requests.all = w.pushes.filterMap (Push.request? b)
  /-- A push is of the load of its call, to the target of it, and there is one at most. -/
  pushed : ∀ x ∈ w.pushes, ∃ call, w.calls[x.call]? = some call ∧ call.load = x.load ∧
    w.owner x.box = some call.target
  once : w.pushed.Nodup
  /-- `Ok` is said of what was pushed, and `Unreachable` of what never was. -/
  ok : ∀ i call r, w.calls[i]? = some call → call.progress = .returned (.ok r) → i ∈ w.pushed
  unreachable : ∀ i call target, w.calls[i]? = some call →
    call.progress = .returned (.error (.unreachable target)) →
    target = call.target ∧ i ∉ w.pushed
  /-- An answer was given by whoever took this request out of the target's mailbox. -/
  answered : ∀ i call payload, w.calls[i]? = some call →
    call.progress = .returned (.ok (some payload)) → w.responders i = .sent payload ∧
      ∃ (b : Nat) (box : Mailboxes) (request : Octets), w.boxes[b]? = some box ∧
        box.id = call.target ∧ call.load = .request request ∧ (i, request) ∈ box.requests.taken
  /-- Whoever awaits an answer can go on, or its responder is still about. -/
  waits : ∀ i call, w.calls[i]? = some call → call.progress = .awaiting →
    step w (.wake i) ≠ none ∨ w.responders i = .held ∨ w.Queued i

/-! ## Whose mailboxes -/

/-- The mailboxes kept somewhere under `id`. -/
inductive Bound (w : World) (id : NodeId) (b : Nat) : Prop
  | nodes (h : w.nodes id = some b)
  | detached (h : w.detached id = some b)
  | carried {k : Nat} {cut : Cut} (hk : w.cuts[k]? = some cut) (hid : cut.id = id)
      (hholding : cut.progress = .holding b)

section Bounds

variable {w w' : World} {a : Label} {id : NodeId} {b : Nat}

theorem owner_set {c : Nat} {box box' : Mailboxes} (hc : w.boxes[c]? = some box)
    (hboxes : w'.boxes = w.boxes.set c box') (hid : box'.id = box.id) :
    w'.owner b = w.owner b := by
  rw [World.owner, World.owner, hboxes, List.getElem?_set]
  split
  · rename_i heq
    subst heq
    split
    · rw [hc, Option.map_some, Option.map_some, hid]
    · rename_i hlt
      exact absurd (List.getElem?_eq_some_iff.mp hc).1 hlt
  · rfl

theorem push_id {box box' : Mailboxes} {i : Nat} {load : Load}
    (h : box.push i load = some box') : box'.id = box.id := by
  cases load with
  | message m =>
      obtain ⟨messages, -, rfl⟩ := Option.map_eq_some_iff.mp h
      rfl
  | request payload =>
      obtain ⟨requests, -, rfl⟩ := Option.map_eq_some_iff.mp h
      rfl

/-- A mailbox stays whose it is. -/
theorem Moves.owner (h : Moves w a w') (howner : w.owner b = some id) : w'.owner b = some id := by
  cases h with
  | node =>
      obtain ⟨box, hb, hid⟩ := Option.map_eq_some_iff.mp howner
      obtain ⟨hlt, -⟩ := List.getElem?_eq_some_iff.mp hb
      simp only [World.owner, List.getElem?_append_left hlt, hb, Option.map_some, hid]
  | push hi hpushing hb hopen hpush => exact (owner_set hb rfl (push_id hpush)).trans howner
  | recv hb | recvRpc hb | dropInbox hb | dropRpcInbox hb =>
      exact (owner_set hb rfl (by rfl)).trans howner
  | _ => exact howner

theorem update_eq_some {f : NodeId → Option Nat} {x : Option Nat} {id' : NodeId} :
    Function.update f id' x id = some b ↔ id = id' ∧ x = some b ∨ id ≠ id' ∧ f id = some b := by
  by_cases h : id = id'
  · subst h
    simp
  · simp [h]

/-- Mailboxes are moved about under the id they have; `node` alone makes new ones. -/
theorem Moves.bound (h : Moves w a w') (hbound : Bound w' id b) :
    Bound w id b ∨ a = .node id ∧ b = w.boxes.length := by
  -- A cut that has returned carries nothing, and one that has taken its first lock carries
  -- what it found.
  have hcarried : ∀ {k : Nat} {cut : Cut} {progress : CutProgress} {j : Nat} {cut' : Cut},
      w.cuts[k]? = some cut → (w.setCut k cut progress).cuts[j]? = some cut' → cut'.id = id →
      cut'.progress = .holding b → cut.id = id ∧ progress = .holding b ∨ Bound w id b := by
    intro k cut progress j cut' hk hj hid hholding
    rcases (Slots.getElem?_set_iff hk).mp hj with ⟨-, rfl⟩ | ⟨-, hj⟩
    · exact Or.inl ⟨hid, hholding⟩
    · exact Or.inr (.carried hj hid hholding)
  cases h with
  | node hfree =>
      cases hbound with
      | nodes hb =>
          rcases update_eq_some.mp hb with ⟨rfl, hnew⟩ | ⟨-, hold⟩
          · cases hnew
            exact Or.inr ⟨rfl, rfl⟩
          · exact Or.inl (.nodes hold)
      | detached hb => exact Or.inl (.detached hb)
      | carried hk hid hholding => exact Or.inl (.carried hk hid hholding)
  | cut =>
      cases hbound with
      | nodes hb => exact Or.inl (.nodes hb)
      | detached hb => exact Or.inl (.detached hb)
      | carried hk hid hholding =>
          rcases Slots.getElem?_snoc_iff.mp hk with ⟨-, rfl⟩ | hk
          · cases hholding
          · exact Or.inl (.carried hk hid hholding)
  | notThere hk hready =>
      cases hbound with
      | nodes hb => exact Or.inl (.nodes hb)
      | detached hb => exact Or.inl (.detached hb)
      | carried hj hid hholding =>
          rcases hcarried hk hj hid hholding with ⟨-, hnot⟩ | hold
          · cases hnot
          · exact Or.inl hold
  | takeOff hk hready hkind hfree hbox =>
      cases hbound with
      | nodes hb =>
          rcases update_eq_some.mp hb with ⟨-, hb⟩ | ⟨-, hb⟩
          · cases hb
          · exact Or.inl (.nodes hb)
      | detached hb => exact Or.inl (.detached hb)
      | carried hj hid hholding =>
          rcases hcarried hk hj hid hholding with ⟨rfl, htakes⟩ | hold
          · cases htakes
            exact Or.inl (.nodes hbox)
          · exact Or.inl hold
  | fetch hk hready hkind hfree hbox =>
      cases hbound with
      | nodes hb => exact Or.inl (.nodes hb)
      | detached hb =>
          rcases update_eq_some.mp hb with ⟨-, hb⟩ | ⟨-, hb⟩
          · cases hb
          · exact Or.inl (.detached hb)
      | carried hj hid hholding =>
          rcases hcarried hk hj hid hholding with ⟨rfl, htakes⟩ | hold
          · cases htakes
            exact Or.inl (.detached hbox)
          · exact Or.inl hold
  | putAside hk hholds hkind hfree =>
      cases hbound with
      | nodes hb => exact Or.inl (.nodes hb)
      | detached hb =>
          rcases update_eq_some.mp hb with ⟨rfl, hnew⟩ | ⟨-, hold⟩
          · cases hnew
            exact Or.inl (.carried hk rfl hholds)
          · exact Or.inl (.detached hold)
      | carried hj hid hholding =>
          rcases hcarried hk hj hid hholding with ⟨-, hnot⟩ | hold
          · cases hnot
          · exact Or.inl hold
  | putBack hk hholds hkind hfree =>
      cases hbound with
      | nodes hb =>
          rcases update_eq_some.mp hb with ⟨rfl, hnew⟩ | ⟨-, hold⟩
          · cases hnew
            exact Or.inl (.carried hk rfl hholds)
          · exact Or.inl (.nodes hold)
      | detached hb => exact Or.inl (.detached hb)
      | carried hj hid hholding =>
          rcases hcarried hk hj hid hholding with ⟨-, hnot⟩ | hold
          · cases hnot
          · exact Or.inl hold
  | _ =>
      cases hbound with
      | nodes hb => exact Or.inl (.nodes hb)
      | detached hb => exact Or.inl (.detached hb)
      | carried hk hid hholding => exact Or.inl (.carried hk hid hholding)

/-- What is kept under an id stays a mailbox of that id. -/
theorem Moves.owned (h : Moves w a w') (howned : ∀ id b, Bound w id b → w.owner b = some id) :
    ∀ id b, Bound w' id b → w'.owner b = some id := by
  intro id b hbound
  rcases h.bound hbound with hold | ⟨rfl, rfl⟩
  · exact h.owner (howned id b hold)
  · cases h with
    | node => simp [World.owner]

end Bounds

/-! ## Pushes -/

/-- What `Delivers` says of pushes. -/
structure Posted (w : World) : Prop where
  messages : ∀ b box, w.boxes[b]? = some box →
    box.messages.all = w.pushes.filterMap (Push.message? b)
  requests : ∀ b box, w.boxes[b]? = some box →
    box.requests.all = w.pushes.filterMap (Push.request? b)
  pushed : ∀ x ∈ w.pushes, ∃ call, w.calls[x.call]? = some call ∧ call.load = x.load ∧
    w.owner x.box = some call.target
  once : w.pushed.Nodup

section Pushes

variable {w w' : World} {a : Label} {b i : Nat} {call : Call} {box box' : Mailboxes}

theorem calls_set (hi : w.calls[i]? = some call) (progress : Progress) {j : Nat} {call' : Call}
    (hj : w.calls[j]? = some call') :
    ∃ call'', (w.setCall i call progress).calls[j]? = some call'' ∧ call''.load = call'.load ∧
      call''.target = call'.target := by
  by_cases heq : j = i
  · subst heq
    rw [hi] at hj
    cases hj
    exact ⟨_, (Slots.getElem?_set_iff hi).mpr (Or.inl ⟨rfl, rfl⟩), rfl, rfl⟩
  · exact ⟨call', (Slots.getElem?_set_iff hi).mpr (Or.inr ⟨heq, hj⟩), rfl, rfl⟩

/-- A call keeps its load and its target. -/
theorem Moves.call_kept (h : Moves w a w') (hi : w.calls[i]? = some call) :
    ∃ call', w'.calls[i]? = some call' ∧ call'.load = call.load ∧ call'.target = call.target := by
  cases h with
  | call => exact ⟨call, Slots.getElem?_snoc_iff.mpr (Or.inr hi), rfl, rfl⟩
  | look hj | push hj | closed hj | answered hj | unanswered hj | cancel hj =>
      exact calls_set hj _ hi
  | _ => exact ⟨call, hi, rfl, rfl⟩

/-- A step that pushes nothing leaves the mailboxes with what was ever in them; new ones
are empty. -/
theorem Moves.all (h : Moves w a w') (hpushes : w'.pushes = w.pushes)
    (hb : w'.boxes[b]? = some box') :
    (∃ box, w.boxes[b]? = some box ∧ box'.messages.all = box.messages.all ∧
      box'.requests.all = box.requests.all) ∨
    b = w.boxes.length ∧ box'.messages.all = [] ∧ box'.requests.all = [] := by
  cases h with
  | node =>
      rcases Slots.getElem?_snoc_iff.mp hb with ⟨hlast, rfl⟩ | hb
      · exact Or.inr ⟨hlast, rfl, rfl⟩
      · exact Or.inl ⟨box', hb, rfl, rfl⟩
  | push =>
      have hlength := congrArg List.length hpushes
      rw [List.length_append] at hlength
      exact absurd hlength (Nat.succ_ne_self _)
  | recv hc hrecv =>
      rcases (Slots.getElem?_set_iff hc).mp hb with ⟨rfl, rfl⟩ | ⟨-, hb⟩
      · exact Or.inl ⟨_, hc, Channel.all_of_recv hrecv, rfl⟩
      · exact Or.inl ⟨box', hb, rfl, rfl⟩
  | recvRpc hc hopen hrecv =>
      rcases (Slots.getElem?_set_iff hc).mp hb with ⟨rfl, rfl⟩ | ⟨-, hb⟩
      · exact Or.inl ⟨_, hc, rfl, Channel.all_of_recv hrecv⟩
      · exact Or.inl ⟨box', hb, rfl, rfl⟩
  | dropInbox hc | dropRpcInbox hc =>
      rcases (Slots.getElem?_set_iff hc).mp hb with ⟨rfl, rfl⟩ | ⟨-, hb⟩
      · exact Or.inl ⟨_, hc, rfl, rfl⟩
      · exact Or.inl ⟨box', hb, rfl, rfl⟩
  | _ => exact Or.inl ⟨box', hb, rfl, rfl⟩

/-- Nothing has been pushed into mailboxes to come. -/
theorem Posted.box_lt (h : Posted w) {x : Push} (hx : x ∈ w.pushes) : x.box < w.boxes.length := by
  obtain ⟨call, -, -, howner⟩ := h.pushed x hx
  obtain ⟨box, hb, -⟩ := Option.map_eq_some_iff.mp howner
  exact (List.getElem?_eq_some_iff.mp hb).1

theorem Push.message?_ne {x : Push} (h : x.box ≠ b) : x.message? b = none := by
  unfold Push.message?
  split
  · exact if_neg h
  · rfl

theorem Push.request?_ne {x : Push} (h : x.box ≠ b) : x.request? b = none := by
  unfold Push.request?
  split
  · rfl
  · exact if_neg h

theorem Posted.still (h : Posted w) (hmoves : Moves w a w') (hpushes : w'.pushes = w.pushes) :
    Posted w' where
  messages b box' hb := by
    rw [hpushes]
    rcases hmoves.all hpushes hb with ⟨box, hold, hall, -⟩ | ⟨rfl, hnil, -⟩
    · rw [hall, h.messages b box hold]
    · rw [hnil, eq_comm, List.filterMap_eq_nil_iff]
      exact fun x hx => Push.message?_ne (Nat.ne_of_lt (h.box_lt hx))
  requests b box' hb := by
    rw [hpushes]
    rcases hmoves.all hpushes hb with ⟨box, hold, -, hall⟩ | ⟨rfl, -, hnil⟩
    · rw [hall, h.requests b box hold]
    · rw [hnil, eq_comm, List.filterMap_eq_nil_iff]
      exact fun x hx => Push.request?_ne (Nat.ne_of_lt (h.box_lt hx))
  pushed x hx := by
    rw [hpushes] at hx
    obtain ⟨call, hcall, hload, howner⟩ := h.pushed x hx
    obtain ⟨call', hcall', hload', htarget⟩ := hmoves.call_kept hcall
    exact ⟨call', hcall', hload'.trans hload, by rw [htarget]; exact hmoves.owner howner⟩
  once := by
    rw [World.pushed, hpushes]
    exact h.once

/-- A push into one mailbox, seen from any of them. -/
theorem push_all {b' : Nat} {load : Load} (hb : w.boxes[b]? = some box)
    (hpush : box.push i load = some box') {c : Mailboxes}
    (hc : (w.boxes.set b box')[b']? = some c) :
    ∃ c₀, w.boxes[b']? = some c₀ ∧
      c.messages.all = c₀.messages.all ++ ((⟨b, i, load⟩ : Push).message? b').toList ∧
      c.requests.all = c₀.requests.all ++ ((⟨b, i, load⟩ : Push).request? b').toList := by
  rcases (Slots.getElem?_set_iff hb).mp hc with ⟨rfl, rfl⟩ | ⟨hne, hc⟩
  · refine ⟨box, hb, ?_⟩
    cases load with
    | message m =>
        obtain ⟨messages, hsend, rfl⟩ := Option.map_eq_some_iff.mp hpush
        simp only [Push.message?, Push.request?, if_true, Option.toList_some, Option.toList_none,
          List.append_nil, and_true]
        exact Channel.all_of_send hsend
    | request payload =>
        obtain ⟨requests, hsend, rfl⟩ := Option.map_eq_some_iff.mp hpush
        simp only [Push.message?, Push.request?, if_true, Option.toList_some, Option.toList_none,
          List.append_nil, true_and]
        exact Channel.all_of_send hsend
  · refine ⟨c, hc, ?_⟩
    rw [Push.message?_ne (x := ⟨b, i, load⟩) (Ne.symm hne),
      Push.request?_ne (x := ⟨b, i, load⟩) (Ne.symm hne)]
    simp only [Option.toList_none, List.append_nil, and_self]

theorem filterMap_snoc {α β : Type} (f : α → Option β) (l : List α) (x : α) :
    (l ++ [x]).filterMap f = l.filterMap f ++ (f x).toList := by
  rw [List.filterMap_append, List.filterMap_cons, List.filterMap_nil]
  cases f x <;> rfl

theorem Posted.push (h : Posted w) (hi : w.calls[i]? = some call)
    (hpushing : call.progress = .pushing b) (hb : w.boxes[b]? = some box)
    (hopen : box.isOpen call.load = true) (hpush : box.push i call.load = some box')
    (hnew : i ∉ w.pushed) (howner : w.owner b = some call.target) :
    Posted { w.setCall i call call.load.pushed with
      boxes := w.boxes.set b box'
      responders := Function.update w.responders i call.load.responder
      pushes := w.pushes ++ [⟨b, i, call.load⟩] } where
  messages b' c hc := by
    obtain ⟨c₀, hc₀, hall, -⟩ := push_all hb hpush hc
    rw [hall, h.messages b' c₀ hc₀, filterMap_snoc]
  requests b' c hc := by
    obtain ⟨c₀, hc₀, -, hall⟩ := push_all hb hpush hc
    rw [hall, h.requests b' c₀ hc₀, filterMap_snoc]
  pushed x hx := by
    have hmoves := Moves.push hi hpushing hb hopen hpush
    rcases List.mem_append.mp hx with hx | hx
    · obtain ⟨call₀, hcall, hload, howner⟩ := h.pushed x hx
      obtain ⟨call', hcall', hload', htarget⟩ := hmoves.call_kept hcall
      exact ⟨call', hcall', hload'.trans hload, by rw [htarget]; exact hmoves.owner howner⟩
    · cases List.mem_singleton.mp hx
      obtain ⟨call', hcall', hload', htarget⟩ := hmoves.call_kept hi
      exact ⟨call', hcall', hload', by rw [htarget]; exact hmoves.owner howner⟩
  once := by
    show ((w.pushes ++ [(⟨b, i, call.load⟩ : Push)]).map Push.call).Nodup
    rw [List.map_append, List.nodup_append]
    refine ⟨h.once, List.nodup_singleton _, ?_⟩
    rintro j hj _ hi' rfl
    cases List.mem_singleton.mp hi'
    exact hnew hj

end Pushes

/-! ## Responders -/

/-- Where the responders are: in a mailbox just when they are queued, and out of it when
they are held or used. -/
structure Replies (w : World) : Prop where
  queued : ∀ i, w.responders i = .queued ↔ w.Queued i
  taken : ∀ i, (w.responders i = .held ∨ ∃ payload, w.responders i = .sent payload) → w.Taken i

section Responders

variable {w w' : World} {a : Label} {b i : Nat} {call : Call} {box box' : Mailboxes}

/-- A responder that is not with the node and has not answered. -/
theorem Responder.not_out {r : Responder} (h : r = .unsent ∨ r = .queued ∨ r = .dropped) :
    ¬ (r = .held ∨ ∃ payload, r = .sent payload) := by
  rintro (rfl | ⟨payload, rfl⟩)
  · rcases h with h | h | h <;> cases h
  · rcases h with h | h | h <;> cases h

theorem map_filterMap_sublist {α β γ : Type} {f : α → Option β} {g : β → γ} {h : α → γ}
    (hfg : ∀ x y, f x = some y → g y = h x) (l : List α) :
    ((l.filterMap f).map g).Sublist (l.map h) := by
  induction l with
  | nil => exact .slnil
  | cons x rest ih =>
      cases hx : f x with
      | none =>
          rw [List.filterMap_cons_none hx]
          exact ih.cons _
      | some y =>
          rw [List.filterMap_cons_some hx, List.map_cons, hfg x y hx]
          exact ih.cons_cons _

theorem Push.request?_eq_some {x : Push} {y : Nat × Octets} (h : x.request? b = some y) :
    x.box = b ∧ x.call = y.1 ∧ x.load = .request y.2 := by
  unfold Push.request? at h
  split at h
  · cases h
  · rename_i payload hload
    split at h
    · rename_i hbox
      cases h
      exact ⟨hbox, rfl, hload⟩
    · cases h

theorem Posted.mem_requests (h : Posted w) (hb : w.boxes[b]? = some box) {y : Nat × Octets}
    (hy : y ∈ box.requests.all) :
    ∃ x ∈ w.pushes, x.box = b ∧ x.call = y.1 ∧ x.load = .request y.2 := by
  rw [h.requests b box hb, List.mem_filterMap] at hy
  obtain ⟨x, hx, hreq⟩ := hy
  exact ⟨x, hx, Push.request?_eq_some hreq⟩

/-- A request is in one mailbox at most, and once. -/
theorem Posted.eq_of_mem (h : Posted w) {b' : Nat} (hb : w.boxes[b]? = some box)
    (hb' : w.boxes[b']? = some box') (hi : i ∈ box.requests.all.map Prod.fst)
    (hi' : i ∈ box'.requests.all.map Prod.fst) : b = b' := by
  obtain ⟨y, hy, rfl⟩ := List.mem_map.mp hi
  obtain ⟨y', hy', heq⟩ := List.mem_map.mp hi'
  obtain ⟨x, hx, rfl, hcall, -⟩ := h.mem_requests hb hy
  obtain ⟨x', hx', rfl, hcall', -⟩ := h.mem_requests hb' hy'
  have hsame : x = x' := List.inj_on_of_nodup_map h.once hx hx' (by rw [hcall, hcall', heq])
  rw [hsame]

theorem Posted.requests_nodup (h : Posted w) (hb : w.boxes[b]? = some box) :
    (box.requests.all.map Prod.fst).Nodup := by
  rw [h.requests b box hb]
  exact h.once.sublist (map_filterMap_sublist
    (fun x y hxy => (Push.request?_eq_some hxy).2.1.symm) w.pushes)

theorem Posted.mem_pushed (h : Posted w) (hb : w.boxes[b]? = some box)
    (hi : i ∈ box.requests.all.map Prod.fst) : i ∈ w.pushed := by
  obtain ⟨y, hy, rfl⟩ := List.mem_map.mp hi
  obtain ⟨x, hx, -, hcall, -⟩ := h.mem_requests hb hy
  exact List.mem_map.mpr ⟨x, hx, hcall⟩

theorem mem_all_of_waiting (hi : i ∈ box.requests.waiting.map Prod.fst) :
    i ∈ box.requests.all.map Prod.fst := by
  rw [Channel.all, List.map_append]
  exact List.mem_append_right _ hi

theorem Posted.pushed_of_queued (h : Posted w) (hi : w.Queued i) : i ∈ w.pushed := by
  obtain ⟨b, box, hb, -, hmem⟩ := hi
  exact h.mem_pushed hb (mem_all_of_waiting hmem)

/-- The request of call `i` waits in a mailbox other than `b`. -/
def World.QueuedBeside (w : World) (b i : Nat) : Prop :=
  ∃ (c : Nat) (box : Mailboxes), c ≠ b ∧ w.boxes[c]? = some box ∧ box.requestsOpen = true ∧
    i ∈ box.requests.waiting.map Prod.fst

theorem queued_iff (hb : w.boxes[b]? = some box) :
    w.Queued i ↔ box.requestsOpen = true ∧ i ∈ box.requests.waiting.map Prod.fst ∨
      w.QueuedBeside b i := by
  constructor
  · rintro ⟨c, d, hd, hopen, hmem⟩
    by_cases hc : c = b
    · subst hc
      rw [hb] at hd
      cases hd
      exact Or.inl ⟨hopen, hmem⟩
    · exact Or.inr ⟨c, d, hc, hd, hopen, hmem⟩
  · rintro (⟨hopen, hmem⟩ | ⟨c, d, -, hd, hopen, hmem⟩)
    · exact ⟨b, box, hb, hopen, hmem⟩
    · exact ⟨c, d, hd, hopen, hmem⟩

/-- Replacing one mailbox changes what waits in that one. -/
theorem queued_set (hb : w.boxes[b]? = some box) (hboxes : w'.boxes = w.boxes.set b box') :
    w'.Queued i ↔ box'.requestsOpen = true ∧ i ∈ box'.requests.waiting.map Prod.fst ∨
      w.QueuedBeside b i := by
  have hself : w'.boxes[b]? = some box' := by
    rw [hboxes]
    exact (Slots.getElem?_set_iff hb).mpr (Or.inl ⟨rfl, rfl⟩)
  have hbeside : w'.QueuedBeside b i ↔ w.QueuedBeside b i := by
    refine exists_congr fun c => exists_congr fun d => and_congr_right fun hc => ?_
    rw [hboxes, List.getElem?_set_ne (Ne.symm hc)]
  rw [queued_iff hself, hbeside]

theorem taken_set (hb : w.boxes[b]? = some box) (hboxes : w'.boxes = w.boxes.set b box')
    (htaken : ∀ y ∈ box.requests.taken, y ∈ box'.requests.taken) (hi : w.Taken i) :
    w'.Taken i := by
  obtain ⟨c, d, hd, hmem⟩ := hi
  by_cases hc : c = b
  · subst hc
    rw [hb] at hd
    cases hd
    obtain ⟨y, hy, rfl⟩ := List.mem_map.mp hmem
    refine ⟨c, box', ?_, List.mem_map_of_mem (htaken y hy)⟩
    rw [hboxes]
    exact (Slots.getElem?_set_iff hb).mpr (Or.inl ⟨rfl, rfl⟩)
  · refine ⟨c, d, ?_, hmem⟩
    rw [hboxes, List.getElem?_set_ne (Ne.symm hc), hd]

/-- Nothing beside `b` waits under a number that `b` has had. -/
theorem Posted.not_beside (h : Posted w) (hb : w.boxes[b]? = some box)
    (hi : i ∈ box.requests.all.map Prod.fst) : ¬ w.QueuedBeside b i := by
  rintro ⟨c, d, hc, hd, -, hmem⟩
  exact hc (h.eq_of_mem hd hb (mem_all_of_waiting hmem) hi)

theorem Replies.same (h : Replies w) (hresponders : w'.responders = w.responders)
    (hqueued : ∀ i, w'.Queued i ↔ w.Queued i) (htaken : ∀ i, w.Taken i → w'.Taken i) :
    Replies w' where
  queued i := by rw [hresponders, hqueued, h.queued]
  taken i hi := by
    rw [hresponders] at hi
    exact htaken i (h.taken i hi)

/-- One mailbox is replaced by one with the same requests. -/
theorem Replies.setBox (h : Replies w) (hresponders : w'.responders = w.responders)
    (hb : w.boxes[b]? = some box) (hboxes : w'.boxes = w.boxes.set b box')
    (hrequests : box'.requests = box.requests) (hopen : box'.requestsOpen = box.requestsOpen) :
    Replies w' := by
  refine h.same hresponders (fun i => ?_) fun i => taken_set hb hboxes ?_
  · rw [queued_set hb hboxes, queued_iff hb, hrequests, hopen]
  · rw [hrequests]
    exact fun _ => id

/-- One responder goes from one place to another. -/
theorem Replies.update {r : Responder} (h : Replies w)
    (hresponders : w'.responders = Function.update w.responders i r)
    (hqueued : ∀ j, j ≠ i → (w'.Queued j ↔ w.Queued j)) (hself : r = .queued ↔ w'.Queued i)
    (htaken : ∀ j, w.Taken j → w'.Taken j)
    (hout : (r = .held ∨ ∃ payload, r = .sent payload) → w'.Taken i) : Replies w' where
  queued j := by
    rw [hresponders]
    by_cases hj : j = i
    · rw [hj, Function.update_self, hself]
    · rw [Function.update_of_ne hj, hqueued j hj, h.queued]
  taken j hor := by
    rw [hresponders] at hor
    by_cases hj : j = i
    · rw [hj, Function.update_self] at hor
      rw [hj]
      exact hout hor
    · rw [Function.update_of_ne hj] at hor
      exact htaken j (h.taken j hor)

theorem Replies.push (h : Replies w) (hposted : Posted w) {load : Load} (hi : i ∉ w.pushed)
    (hb : w.boxes[b]? = some box) (hopen : box.isOpen load = true)
    (hpush : box.push i load = some box') (hboxes : w'.boxes = w.boxes.set b box')
    (hresponders : w'.responders = Function.update w.responders i load.responder) :
    Replies w' := by
  cases load with
  | message m =>
      obtain ⟨messages, -, rfl⟩ := Option.map_eq_some_iff.mp hpush
      have hqueued : ∀ j, w'.Queued j ↔ w.Queued j := fun j =>
        (queued_set hb hboxes).trans (queued_iff hb).symm
      refine h.update hresponders (fun j _ => hqueued j) ?_
        (fun _ => taken_set hb hboxes fun _ => id) ?_
      · constructor
        · intro hqueue
          cases hqueue
        · intro hqueue
          exact absurd (hposted.pushed_of_queued ((hqueued i).mp hqueue)) hi
      · exact fun hor => absurd hor (Responder.not_out (Or.inl rfl))
  | request payload =>
      obtain ⟨requests, hsend, rfl⟩ := Option.map_eq_some_iff.mp hpush
      obtain ⟨hwaiting, htaken⟩ := Channel.send_some hsend
      refine h.update hresponders ?_ ?_ (fun _ => taken_set hb hboxes fun y hy => ?_) ?_
      · intro j hj
        rw [queued_set hb hboxes, queued_iff hb]
        simp only [hwaiting, List.map_append, List.map_singleton, List.mem_append,
          List.mem_singleton, hj, or_false]
      · refine ⟨fun _ => (queued_set hb hboxes).mpr (Or.inl ⟨hopen, ?_⟩), fun _ => rfl⟩
        simp only [hwaiting, List.map_append, List.map_singleton, List.mem_append,
          List.mem_singleton, or_true]
      · rwa [htaken]
      · exact fun hor => absurd hor (Responder.not_out (Or.inr (Or.inl rfl)))

theorem Replies.recvRpc (h : Replies w) (hposted : Posted w)
    {r : (Nat × Octets) × Channel inboxCapacity (Nat × Octets)} (hb : w.boxes[b]? = some box)
    (hrecv : box.requests.recv = some r)
    (hboxes : w'.boxes = w.boxes.set b { box with requests := r.2 })
    (hresponders : w'.responders = Function.update w.responders r.1.1 .held) : Replies w' := by
  obtain ⟨y, requests⟩ := r
  obtain ⟨hwaiting, htaken⟩ := Channel.recv_some hrecv
  have hmem : y.1 ∈ box.requests.all.map Prod.fst := by
    refine mem_all_of_waiting ?_
    rw [hwaiting]
    exact List.mem_cons_self
  -- The request taken out is not in the rest of the queue.
  have hnot : y.1 ∉ requests.waiting.map Prod.fst := by
    have hnodup := hposted.requests_nodup hb
    rw [Channel.all, hwaiting, List.map_append, List.map_cons, List.nodup_append,
      List.nodup_cons] at hnodup
    exact hnodup.2.1.1
  refine h.update hresponders ?_ ?_ (fun _ => taken_set hb hboxes fun x hx => ?_) fun _ => ?_
  · intro j hj
    rw [queued_set hb hboxes, queued_iff hb]
    simp only [hwaiting, List.map_cons, List.mem_cons, hj, false_or]
  · constructor
    · intro hqueue
      cases hqueue
    · intro hqueue
      rcases (queued_set hb hboxes).mp hqueue with ⟨-, hin⟩ | hbeside
      · exact absurd hin hnot
      · exact absurd hbeside (hposted.not_beside hb hmem)
  · rw [htaken]
    exact List.mem_append_left _ hx
  · refine ⟨b, { box with requests := requests }, ?_, ?_⟩
    · rw [hboxes]
      exact (Slots.getElem?_set_iff hb).mpr (Or.inl ⟨rfl, rfl⟩)
    · rw [htaken, List.map_append]
      exact List.mem_append_right _ (List.mem_singleton_self _)

/-- A held responder is used up. -/
theorem Replies.use (h : Replies w) {r : Responder} (hheld : w.responders i = .held)
    (hboxes : w'.boxes = w.boxes) (hresponders : w'.responders = Function.update w.responders i r)
    (hr : r ≠ .queued) : Replies w' := by
  have hqueued : ∀ j, w'.Queued j ↔ w.Queued j := by
    intro j
    rw [World.Queued, World.Queued, hboxes]
  have htaken : ∀ j, w.Taken j → w'.Taken j := by
    intro j hj
    rwa [World.Taken, hboxes]
  refine h.update hresponders (fun j _ => hqueued j) ?_ htaken fun _ =>
    htaken i (h.taken i (Or.inl hheld))
  refine ⟨fun heq => absurd heq hr, fun hqueue => ?_⟩
  have hboth := (h.queued i).mpr ((hqueued i).mp hqueue)
  rw [hheld] at hboth
  cases hboth

theorem Replies.dropRpcInbox (h : Replies w) (hposted : Posted w) (hb : w.boxes[b]? = some box)
    (hboxes : w'.boxes = w.boxes.set b { box with requestsOpen := false })
    (hresponders : w'.responders = fun i =>
      if box.requestsOpen ∧ i ∈ box.requests.waiting.map Prod.fst then .dropped
      else w.responders i) : Replies w' where
  queued i := by
    rw [hresponders, queued_set hb hboxes]
    simp only [Bool.false_eq_true, false_and, false_or]
    by_cases hin : box.requestsOpen ∧ i ∈ box.requests.waiting.map Prod.fst
    · rw [if_pos hin]
      constructor
      · intro hqueue
        cases hqueue
      · intro hbeside
        exact absurd hbeside (hposted.not_beside hb (mem_all_of_waiting hin.2))
    · rw [if_neg hin, h.queued, queued_iff hb]
      exact or_iff_right hin
  taken i hor := by
    rw [hresponders] at hor
    refine taken_set hb hboxes (fun _ => id) (h.taken i ?_)
    by_cases hin : box.requestsOpen ∧ i ∈ box.requests.waiting.map Prod.fst
    · simp only [if_pos hin] at hor
      exact absurd hor (Responder.not_out (Or.inr (Or.inr rfl)))
    · simp only [if_neg hin] at hor
      exact hor

end Responders

/-! ## Calls -/

/-- What is true of a call that has come this far. -/
def Call.Fits (w : World) (i : Nat) (call : Call) : Prop :=
  match call.progress with
  | .looking => i ∉ w.pushed
  | .pushing b => i ∉ w.pushed ∧ w.owner b = some call.target
  | .awaiting => i ∈ w.pushed ∧ w.responders i ≠ .unsent
  | .returned (.ok none) => i ∈ w.pushed
  | .returned (.ok (some payload)) => i ∈ w.pushed ∧ w.responders i = .sent payload
  | .returned (.error (.unreachable target)) => target = call.target ∧ i ∉ w.pushed
  | .returned (.error (.io _)) => True
  | .cancelled => True

structure Inv (w : World) : Prop where
  bound : ∀ id b, Bound w id b → w.owner b = some id
  posted : Posted w
  replies : Replies w
  fits : ∀ (i : Nat) (call : Call), w.calls[i]? = some call → call.Fits w i
  known : ∀ i ∈ w.pushed, i < w.calls.length

section Calls

variable {w w' : World} {a : Label} {b i : Nat} {call : Call}

/-- A call that nothing happens to. -/
theorem Call.Fits.still (h : call.Fits w i) (hpushed : i ∈ w'.pushed ↔ i ∈ w.pushed)
    (howner : ∀ b id, w.owner b = some id → w'.owner b = some id)
    (hsent : i ∈ w.pushed → w.responders i ≠ .unsent → w'.responders i ≠ .unsent)
    (hanswer : i ∈ w.pushed → ∀ payload, w.responders i = .sent payload →
      w'.responders i = .sent payload) : call.Fits w' i := by
  unfold Call.Fits at h ⊢
  split at h
  · rwa [hpushed]
  · exact ⟨by rw [hpushed]; exact h.1, howner _ _ h.2⟩
  · exact ⟨hpushed.mpr h.1, hsent h.1 h.2⟩
  · exact hpushed.mpr h
  · exact ⟨hpushed.mpr h.1, hanswer h.1 _ h.2⟩
  · exact ⟨h.1, by rw [hpushed]; exact h.2⟩
  · trivial
  · trivial

/-- A responder that is used stays used. -/
theorem Moves.responder (h : Moves w a w') (hinv : Inv w) (hi : i ∈ w.pushed) :
    (w.responders i ≠ .unsent → w'.responders i ≠ .unsent) ∧
      ∀ payload, w.responders i = .sent payload → w'.responders i = .sent payload := by
  -- What a step moves on is a responder that was queued or held.
  have hmoved : ∀ {j : Nat} {r : Responder},
      (w.responders j = .queued ∨ w.responders j = .held) → r ≠ .unsent →
      (w.responders i ≠ .unsent → Function.update w.responders j r i ≠ .unsent) ∧
        ∀ payload, w.responders i = .sent payload →
          Function.update w.responders j r i = .sent payload := by
    intro j r hj hr
    by_cases hij : i = j
    · subst hij
      rw [Function.update_self]
      refine ⟨fun _ => hr, fun payload hsent => ?_⟩
      rw [hsent] at hj
      rcases hj with hj | hj
      · cases hj
      · cases hj
    · rw [Function.update_of_ne hij]
      exact ⟨id, fun _ => id⟩
  cases h with
  | @push j call b box box' hj hpushing hb hopen hpush =>
      have hfits := hinv.fits j call hj
      rw [Call.Fits, hpushing] at hfits
      have hne : i ≠ j := fun heq => hfits.1 (heq ▸ hi)
      simp only [Function.update_of_ne hne]
      exact ⟨id, fun _ => id⟩
  | recvRpc hb hopen hrecv =>
      refine hmoved (Or.inl ((hinv.replies.queued _).mpr ⟨_, _, hb, hopen, ?_⟩)) (by decide)
      rw [(Channel.recv_some hrecv).1]
      exact List.mem_cons_self
  | answer hheld => exact hmoved (Or.inr hheld) (by intro heq; cases heq)
  | dropResponder hheld => exact hmoved (Or.inr hheld) (by decide)
  | @dropRpcInbox b box hb =>
      by_cases hin : box.requestsOpen ∧ i ∈ box.requests.waiting.map Prod.fst
      · have hqueued := (hinv.replies.queued i).mpr ⟨b, box, hb, hin.1, hin.2⟩
        simp only [if_pos hin]
        refine ⟨fun _ => by decide, fun payload hsent => ?_⟩
        rw [hqueued] at hsent
        cases hsent
      · simp only [if_neg hin]
        exact ⟨id, fun _ => id⟩
  | _ => exact ⟨id, fun _ => id⟩

theorem Moves.still (h : Moves w a w') (hinv : Inv w) (hi : call.Fits w i)
    (hpushed : i ∈ w'.pushed ↔ i ∈ w.pushed) : call.Fits w' i :=
  hi.still hpushed (fun _ _ => h.owner) (fun hp => (h.responder hinv hp).1)
    fun hp => (h.responder hinv hp).2

theorem length_setCall (w : World) (i : Nat) (call : Call) (progress : Progress) :
    (w.setCall i call progress).calls.length = w.calls.length := List.length_set ..

/-- A call goes on without pushing anything. -/
theorem Inv.setCall (h : Inv w) {progress : Progress} (hi : w.calls[i]? = some call)
    (hmoves : Moves w a (w.setCall i call progress))
    (hfits : Call.Fits w i { call with progress := progress }) :
    Inv (w.setCall i call progress) where
  bound := hmoves.owned h.bound
  posted := h.posted.still hmoves rfl
  replies := h.replies.same rfl (fun _ => Iff.rfl) fun _ => id
  fits j call' hj := by
    rcases (Slots.getElem?_set_iff hi).mp hj with ⟨rfl, rfl⟩ | ⟨-, hj⟩
    · exact hmoves.still h hfits Iff.rfl
    · exact hmoves.still h (h.fits j call' hj) Iff.rfl
  known j hj := by
    rw [length_setCall]
    exact h.known j hj

/-- The calls and the pushes are as they were. -/
theorem Inv.aside (h : Inv w) (hmoves : Moves w a w') (hcalls : w'.calls = w.calls)
    (hpushes : w'.pushes = w.pushes) (hreplies : Replies w') : Inv w' where
  bound := hmoves.owned h.bound
  posted := h.posted.still hmoves hpushes
  replies := hreplies
  fits j call' hj := by
    rw [hcalls] at hj
    exact hmoves.still h (h.fits j call' hj) (by rw [World.pushed, World.pushed, hpushes])
  known j hj := by
    rw [World.pushed, hpushes] at hj
    rw [hcalls]
    exact h.known j hj

theorem Inv.newCall (h : Inv w) (source target : NodeId) (load : Load) :
    Inv { w with calls := w.calls ++ [⟨source, target, load, .looking⟩] } where
  bound := Moves.call.owned h.bound
  posted := h.posted.still .call rfl
  replies := h.replies.same rfl (fun _ => Iff.rfl) fun _ => id
  fits j call' hj := by
    rcases Slots.getElem?_snoc_iff.mp hj with ⟨rfl, rfl⟩ | hj
    · intro hmem
      exact absurd (h.known _ hmem) (Nat.lt_irrefl _)
    · exact Moves.call.still h (h.fits j call' hj) Iff.rfl
  known j hj := by
    have hlt := h.known j hj
    rw [List.length_append]
    exact Nat.lt_add_right _ hlt

theorem found_fits (h : Inv w) (hnew : i ∉ w.pushed) :
    Call.Fits w i { call with progress := found (w.mailboxes call.source call.target) } := by
  unfold World.mailboxes
  split
  · exact ⟨rfl, hnew⟩
  · split
    · exact ⟨rfl, hnew⟩
    · exact ⟨hnew, h.bound _ _ (.nodes ‹_›)⟩

theorem pushed_fits {load : Load} (hi : i ∈ w.pushed)
    (hresponder : w.responders i = load.responder) :
    Call.Fits w i { call with progress := load.pushed } := by
  cases load with
  | message m => exact hi
  | request payload =>
      refine ⟨hi, ?_⟩
      rw [hresponder]
      intro heq
      cases heq

theorem Inv.push {box box' : Mailboxes} (h : Inv w) (hi : w.calls[i]? = some call)
    (hpushing : call.progress = .pushing b) (hb : w.boxes[b]? = some box)
    (hopen : box.isOpen call.load = true) (hpush : box.push i call.load = some box') :
    Inv { w.setCall i call call.load.pushed with
      boxes := w.boxes.set b box'
      responders := Function.update w.responders i call.load.responder
      pushes := w.pushes ++ [⟨b, i, call.load⟩] } := by
  have hmoves := Moves.push hi hpushing hb hopen hpush
  have hfits := h.fits i call hi
  rw [Call.Fits, hpushing] at hfits
  obtain ⟨hnew, howner⟩ := hfits
  have hmem : ∀ j, j ∈ (w.pushes ++ [(⟨b, i, call.load⟩ : Push)]).map Push.call ↔
      j ∈ w.pushed ∨ j = i := by
    intro j
    rw [List.map_append, List.mem_append, List.map_singleton, List.mem_singleton]
    rfl
  refine ⟨hmoves.owned h.bound, h.posted.push hi hpushing hb hopen hpush hnew howner,
    h.replies.push h.posted hnew hb hopen hpush rfl rfl, ?_, ?_⟩
  · intro j call' hj
    rcases (Slots.getElem?_set_iff hi).mp hj with ⟨rfl, rfl⟩ | ⟨hne, hj⟩
    · exact pushed_fits ((hmem j).mpr (Or.inr rfl)) (Function.update_self ..)
    · exact hmoves.still h (h.fits j call' hj) ((hmem j).trans (or_iff_left hne))
  · intro j hj
    rw [show (_ : World).calls.length = _ from length_setCall w i call _]
    rcases (hmem j).mp hj with hj | rfl
    · exact h.known j hj
    · exact (List.getElem?_eq_some_iff.mp hi).1

/-- New mailboxes are empty. -/
theorem queued_node (w : World) (id : NodeId) (nodes : NodeId → Option Nat) :
    ∀ i, ({ w with
      boxes := w.boxes ++ [⟨id, .empty, .empty, true, true⟩], nodes := nodes } : World).Queued i ↔
      w.Queued i := by
  intro i
  constructor
  · rintro ⟨b, box, hb, hopen, hmem⟩
    rcases Slots.getElem?_snoc_iff.mp hb with ⟨-, rfl⟩ | hb
    · cases hmem
    · exact ⟨b, box, hb, hopen, hmem⟩
  · rintro ⟨b, box, hb, hopen, hmem⟩
    exact ⟨b, box, Slots.getElem?_snoc_iff.mpr (Or.inr hb), hopen, hmem⟩

theorem inv_step (w : World) (a : Label) (w' : World) (h : Inv w) (hstep : step w a = some w') :
    Inv w' := by
  have hmoves := step_moves hstep
  have hcases := hmoves
  cases hcases with
  | node hfree =>
      refine h.aside hmoves rfl rfl (h.replies.same rfl (queued_node w _ _) ?_)
      rintro i ⟨b, box, hb, hmem⟩
      exact ⟨b, box, Slots.getElem?_snoc_iff.mpr (Or.inr hb), hmem⟩
  | call => exact h.newCall _ _ _
  | look hi hlooking hfree =>
      have hfits := h.fits _ _ hi
      rw [Call.Fits, hlooking] at hfits
      exact h.setCall hi hmoves (found_fits h hfits)
  | push hi hpushing hb hopen hpush => exact h.push hi hpushing hb hopen hpush
  | closed hi hpushing =>
      have hfits := h.fits _ _ hi
      rw [Call.Fits, hpushing] at hfits
      exact h.setCall hi hmoves ⟨rfl, hfits.1⟩
  | answered hi hawaits hsent =>
      have hfits := h.fits _ _ hi
      rw [Call.Fits, hawaits] at hfits
      exact h.setCall hi hmoves ⟨hfits.1, hsent⟩
  | unanswered hi hawaits hdropped => exact h.setCall hi hmoves trivial
  | cancel hi => exact h.setCall hi hmoves trivial
  | cut | notThere | takeOff | fetch | putAside | putBack =>
      exact h.aside hmoves rfl rfl (h.replies.same rfl (fun _ => Iff.rfl) fun _ => id)
  | recv hb | dropInbox hb =>
      exact h.aside hmoves rfl rfl (h.replies.setBox rfl hb rfl (by rfl) (by rfl))
  | recvRpc hb hopen hrecv =>
      exact h.aside hmoves rfl rfl (h.replies.recvRpc h.posted hb hrecv rfl rfl)
  | answer hheld =>
      exact h.aside hmoves rfl rfl (h.replies.use hheld rfl rfl (by intro heq; cases heq))
  | dropResponder hheld =>
      exact h.aside hmoves rfl rfl (h.replies.use hheld rfl rfl (by decide))
  | dropRpcInbox hb =>
      exact h.aside hmoves rfl rfl (h.replies.dropRpcInbox h.posted hb rfl rfl)

theorem inv_new : Inv World.new where
  bound id b hb := by
    cases hb with
    | nodes hb => cases hb
    | detached hb => cases hb
    | carried hk => cases hk
  posted :=
    { messages := fun b box hb => by cases hb
      requests := fun b box hb => by cases hb
      pushed := fun x hx => by cases hx
      once := List.nodup_nil }
  replies :=
    { queued := fun i => by
        constructor
        · intro hqueue
          cases hqueue
        · rintro ⟨b, box, hb, -⟩
          cases hb
      taken := fun i hor => absurd hor (Responder.not_out (Or.inl rfl)) }
  fits i call hi := by cases hi
  known i hi := by cases hi

theorem Inv.delivers (h : Inv w) : Delivers w where
  messages := h.posted.messages
  requests := h.posted.requests
  pushed := h.posted.pushed
  once := h.posted.once
  ok i call r hi hreturned := by
    have hfits := h.fits i call hi
    rw [Call.Fits, hreturned] at hfits
    cases r with
    | none => exact hfits
    | some payload => exact hfits.1
  unreachable i call target hi hreturned := by
    have hfits := h.fits i call hi
    rw [Call.Fits, hreturned] at hfits
    exact hfits
  answered i call payload hi hreturned := by
    have hfits := h.fits i call hi
    rw [Call.Fits, hreturned] at hfits
    obtain ⟨-, hsent⟩ := hfits
    obtain ⟨b, box, hb, hmem⟩ := h.replies.taken i (Or.inr ⟨payload, hsent⟩)
    obtain ⟨y, hy, rfl⟩ := List.mem_map.mp hmem
    -- The request is that of the push it came from, and so of this call.
    obtain ⟨x, hx, rfl, hcall, hload⟩ := h.posted.mem_requests hb (List.mem_append_left _ hy)
    obtain ⟨call', hcall', hload', howner⟩ := h.posted.pushed x hx
    rw [hcall, hi] at hcall'
    cases hcall'
    rw [World.owner, hb, Option.map_some, Option.some.injEq] at howner
    exact ⟨hsent, x.box, box, y.2, hb, howner, hload'.trans hload, hy⟩
  waits i call hi hawaits := by
    have hfits := h.fits i call hi
    rw [Call.Fits, hawaits] at hfits
    cases hresponder : w.responders i with
    | unsent => exact absurd hresponder hfits.2
    | queued => exact Or.inr (Or.inr ((h.replies.queued i).mp hresponder))
    | held => exact Or.inr (Or.inl rfl)
    | sent payload =>
        left
        simp only [step, hi, hawaits, hresponder, if_true]
        intro hnone
        cases hnone
    | dropped =>
        left
        simp only [step, hi, hawaits, hresponder, if_true]
        intro hnone
        cases hnone

end Calls

/-- **The in-process transport delivers what it says it does**, in every run: whoever is
cut off and put back, whichever calls are dropped, whichever inboxes are. -/
theorem transport_delivers (l : List Label) (w : World)
    (hrun : run step World.new l = some w) : Delivers w :=
  (run_invariant_all inv_step l inv_new hrun).delivers

/-- Node 1 asks node 2, and has its answer. -/
def askedAndAnswered : List Label :=
  [.node ⟨1⟩, .node ⟨2⟩, .call ⟨1⟩ ⟨2⟩ (.request [7]), .look 0, .push 0, .recvRpc 1,
    .answer 0 [8], .wake 0]

theorem transport_delivers_askedAndAnswered :
    ∃ w, run step World.new askedAndAnswered = some w ∧
      w.calls.map Call.progress = [.returned (.ok (some [8]))] ∧ Delivers w :=
  ⟨_, rfl, rfl, transport_delivers askedAndAnswered _ rfl⟩

end HorsieActor.Ports.InProcess
