import HorsieActor.Ports.DedupWindow
import HorsieActor.Ports.Net
import Mathlib.Data.List.Nodup
import Mathlib.Data.List.Perm.Basic

/-!
# How often a command is delivered

`ClusterNode::send` tries a command on up to `SEND_ATTEMPTS` hosts and cannot know of a
failed attempt that it did not arrive; `dispatch` drops what its window remembers.  Neither
is exactly-once: a receiver that was restarted has an empty window, two hosts may each get
one attempt, and a window forgets.  What the two give together, over any number of nodes
and any restarts, is a bound.

The machine is that of `Net`.  A ledger kept beside it says of every command that passes a
window where and in which lifetime that was (`accepts`).  What is in flight and what the
ledger holds together are the copies a call has sent (`traffic`): an attempt adds one, an
arrival moves one over, a loss takes one away.

## Main results

* `Effect`, `step_effect` — what a step does to calls, traffic and windows.
* `sent_effect` — a call has no more copies than attempts, all under one message id.
* `windowed_effect` — a window holds the last ids of its lifetime in the ledger.
* `deliveries_bounded` — a command is let through at most `SEND_ATTEMPTS` times, and twice
  by one process only when the window's length of others came between.
-/

namespace HorsieActor.Ports.Net.Deliveries

open HorsieActor.Verified HorsieActor.Verified.OrdMap HorsieActor.Verified.Schedule

/-! ## The ledger -/

/-- A command let through by a window. -/
structure Acceptance where
  lifetime : Nat
  messageId : Nat
  call : Nat
  deriving DecidableEq

/-- What a step lets through, read where it is taken. -/
def accepts (w : World) : Label → Option Acceptance
  | .arrive j _ =>
      match w.net[j]? with
      | none => none
      | some packet =>
          match w.procs packet.dest with
          | none => none
          | some p =>
              if p.node.serving ∧ packet.messageId ∉ p.seen.seen then
                some ⟨p.lifetime, packet.messageId, packet.call⟩
              else none
  | _ => none

/-- The ledger grows at its end. -/
def note (w : World) (a : Label) (_ : World) (ledger : List Acceptance) : List Acceptance :=
  ledger ++ (accepts w a).toList

/-- What one process has let through. -/
def during (ledger : List Acceptance) (lifetime : Nat) : List Acceptance :=
  ledger.filter fun e => e.lifetime = lifetime

/-- Every copy that is in flight or was let through: its call and its message id. -/
def traffic (w : World) (ledger : List Acceptance) : List (Nat × Nat) :=
  ledger.map (fun e => (e.call, e.messageId)) ++ w.net.map fun packet =>
    (packet.call, packet.messageId)

/-- The copies of one call. -/
def copies (sent : List (Nat × Nat)) (call : Nat) : Nat := sent.countP fun x => x.1 = call

/-! ## What a step does -/

/-- What `send` knows of a call. -/
structure Sending where
  id : Nat
  messageId : Option Nat
  attempts : Nat

def sendingOf (call : Call) : Sending := ⟨call.id, call.messageId, call.attempts⟩

def sendings (p : Process) : List Sending := p.calls.map sendingOf

/-- The window of a process and the lifetime it is for are the same. -/
structure SameWindow (p p' : Process) : Prop where
  lifetime : p'.lifetime = p.lifetime
  seen : p'.seen = p.seen
  accepted : p'.accepted = p.accepted

/-- From `p` to `p'` a call moves on: it is made, it gets its message id, or it is tried
once more. -/
inductive Sends (w : World) (p p' : Process) (w' : World) : Prop
  | begin (hsend : sendings p' = sendings p ++ [⟨w.callIds, none, 0⟩]) (hnet : w'.net = w.net)
      (hcalls : w'.callIds = w.callIds + 1)
  | name {k s id} (hk : (sendings p)[k]? = some s) (hnone : s.messageId = none)
      (hsend : sendings p' = (sendings p).set k { s with messageId := some id })
      (hnet : w'.net = w.net) (hcalls : w'.callIds = w.callIds)
  | attempt {k s packet} (hk : (sendings p)[k]? = some s) (hnet : w'.net = w.net ++ [packet])
      (hcall : packet.call = s.id) (hid : s.messageId = some packet.messageId)
      (hleft : s.attempts < sendAttempts)
      (hsend : sendings p' = (sendings p).set k { s with attempts := s.attempts + 1 })
      (hcalls : w'.callIds = w.callIds)

/-- What a step does to calls, traffic and windows. -/
inductive Effect (w : World) (ledger : List Acceptance) : World → List Acceptance → Prop
  /-- Processes, calls and packets may go, and none is added or changed. -/
  | quiet {w'}
      (hprocs : ∀ n p', w'.procs n = some p' →
        ∃ p, w.procs n = some p ∧ SameWindow p p' ∧ (sendings p').Sublist (sendings p))
      (hnet : w'.net.Sublist w.net) (hcalls : w'.callIds = w.callIds)
      (hlife : w'.lifetimes = w.lifetimes) : Effect w ledger w' ledger
  | start {n} :
      Effect w ledger
        { w.put n (Process.start n w.lifetimes) with lifetimes := w.lifetimes + 1 } ledger
  | send {w' n p p'} (hp : w.procs n = some p) (hprocs : w'.procs = (w.put n p').procs)
      (hsame : SameWindow p p') (hlife : w'.lifetimes = w.lifetimes)
      (hsends : Sends w p p' w') : Effect w ledger w' ledger
  | accept {j taken packet p} (hj : w.net[j]? = some packet)
      (hp : w.procs packet.dest = some p) (hnew : packet.messageId ∉ p.seen.seen) :
      Effect w ledger
        { w.put packet.dest { p with
            seen := (p.seen.acceptId packet.messageId).2
            held := p.held ++ taken
            accepted := p.accepted ++ [(packet.messageId, packet.call)] }
          with net := w.net.eraseIdx j }
        (ledger ++ [⟨p.lifetime, packet.messageId, packet.call⟩])

section Steps

variable {w w' : World} {ledger : List Acceptance} {n : NodeId} {k : Nat} {p p' : Process}
variable {call call' : Call}

theorem SameWindow.refl (p : Process) : SameWindow p p := ⟨rfl, rfl, rfl⟩

theorem sendings_set (call' : Call) :
    (p.calls.set k call').map sendingOf = (sendings p).set k (sendingOf call') := List.map_set ..

theorem getElem?_sendings (hk : p.calls[k]? = some call) :
    (sendings p)[k]? = some (sendingOf call) := by
  rw [sendings, List.getElem?_map, hk]
  rfl

/-- A change of a call that `send` does not see. -/
theorem sendings_set_same (hk : p.calls[k]? = some call)
    (hsame : sendingOf call' = sendingOf call) :
    (p.calls.set k call').map sendingOf = sendings p := by
  obtain ⟨hlt, hget⟩ := List.getElem?_eq_some_iff.mp (getElem?_sendings hk)
  rw [sendings_set, hsame, ← hget, List.set_getElem_self]

/-- A step on one process that `send` and the window do not see. -/
theorem Effect.aside (hp : w.procs n = some p) (hprocs : w'.procs = (w.put n p').procs)
    (hsame : SameWindow p p') (hsend : (sendings p').Sublist (sendings p))
    (hnet : w'.net = w.net) (hcalls : w'.callIds = w.callIds)
    (hlife : w'.lifetimes = w.lifetimes) : Effect w ledger w' ledger := by
  refine .quiet ?_ (by rw [hnet]) hcalls hlife
  intro m q hq
  rw [hprocs, put_procs] at hq
  rcases hq with ⟨rfl, rfl⟩ | ⟨-, hq⟩
  · exact ⟨p, hp, hsame, hsend⟩
  · exact ⟨q, hq, .refl q, .refl _⟩

/-- A packet is lost, or refused. -/
theorem Effect.drop (j : Nat) : Effect w ledger { w with net := w.net.eraseIdx j } ledger :=
  .quiet (fun _ p hp => ⟨p, hp, .refl p, .refl _⟩) (List.eraseIdx_sublist ..) rfl rfl

/-- An attempt is made only while there is one left. -/
theorem effect_attempt (h : step w (.attempt n k) = some w') : Effect w ledger w' ledger := by
  simp only [step] at h
  split at h
  · cases h
  · rename_i p call hat
    obtain ⟨hp, hk⟩ := callAt_eq_some.mp hat
    split at h
    · rename_i id owner hid howner
      split at h
      · rename_i hleft
        cases h
        exact .send hp rfl ⟨rfl, rfl, rfl⟩ rfl
          (.attempt (getElem?_sendings hk) rfl rfl hid hleft (sendings_set _) rfl)
      · cases h
    · cases h

theorem effect_arrive {j : Nat} {taken : List Handle} (h : step w (.arrive j taken) = some w') :
    Effect w ledger w' (note w (.arrive j taken) w' ledger) := by
  simp only [step] at h
  unfold note
  split at h
  · cases h
  · rename_i packet hj
    split at h
    · cases h
    · rename_i p hp
      have hnone : ∀ {P : Prop} [Decidable P], ¬ P →
          ledger ++ (if P then some (⟨p.lifetime, packet.messageId, packet.call⟩ : Acceptance)
            else none).toList = ledger := by
        intro P _ hP
        rw [if_neg hP]
        exact List.append_nil ledger
      simp only [accepts, hj, hp]
      split at h
      · rename_i hserving
        have hfst := Dedup.acceptId_fst p.seen packet.messageId
        split at h
        · rename_i hacc
          cases h
          rw [hacc] at hfst
          rw [hnone fun hboth => of_decide_eq_false hfst.symm hboth.2]
          exact .drop j
        · rename_i seen hacc
          split at h
          · cases h
            rw [hacc] at hfst
            have hnew := of_decide_eq_true hfst.symm
            rw [if_pos ⟨hserving, hnew⟩]
            have heffect := @Effect.accept w ledger j taken packet p hj hp hnew
            rw [hacc] at heffect
            exact heffect
          · cases h
      · rename_i hserving
        cases h
        rw [hnone fun hboth => hserving hboth.1]
        exact .drop j

theorem Effect.setCall {node : ClusterNode} {held : List Handle} (hp : w.procs n = some p)
    (hk : p.calls[k]? = some call)
    (hprocs : w'.procs = (w.put n { p with
      node := node, held := held, calls := p.calls.set k call' }).procs)
    (hsame : sendingOf call' = sendingOf call) (hnet : w'.net = w.net)
    (hcalls : w'.callIds = w.callIds) (hlife : w'.lifetimes = w.lifetimes) :
    Effect w ledger w' ledger := by
  have hsend := sendings_set_same hk hsame
  exact .aside hp hprocs ⟨rfl, rfl, rfl⟩ (hsend ▸ .refl _) hnet hcalls hlife

/-- Only an arrival may let something through; the other steps leave the ledger alone. -/
theorem step_effect {a : Label} (h : step w a = some w') :
    Effect w ledger w' (note w a w' ledger) := by
  have hnote : accepts w a = none → note w a w' ledger = ledger := by
    intro hnone
    rw [note, hnone]
    exact List.append_nil ledger
  cases step_moves h with
  | start hn =>
      rw [hnote rfl]
      exact .start
  | stop =>
      rw [hnote rfl]
      refine .quiet (fun m q hq => ?_) (.refl _) rfl rfl
      simp only [Function.update_apply] at hq
      split at hq
      · cases hq
      · exact ⟨q, hq, .refl q, .refl _⟩
  | setServing hp | setLive hp | forget hp | abandonWaiting hp | respondHere hp | respondThere hp
    | deliver _ hp =>
      rw [hnote rfl]
      exact .aside hp rfl ⟨rfl, rfl, rfl⟩ (.refl _) rfl rfl rfl
  | mint hp hk | insert hp hk | forward hp hk =>
      rw [hnote rfl]
      exact .setCall hp hk rfl rfl rfl rfl rfl
  | call hp =>
      rw [hnote rfl]
      exact .send hp rfl ⟨rfl, rfl, rfl⟩ rfl (.begin (List.map_append ..) rfl rfl)
  | nextMessageId hp hk hnew =>
      rw [hnote rfl]
      exact .send hp rfl ⟨rfl, rfl, rfl⟩ rfl
        (.name (getElem?_sendings hk) hnew.2 (sendings_set _) rfl rfl)
  | attempt =>
      rw [hnote rfl]
      exact effect_attempt h
  | finish hp =>
      rw [hnote rfl]
      exact .aside hp rfl ⟨rfl, rfl, rfl⟩ ((List.eraseIdx_sublist ..).map _) rfl rfl rfl
  | refuse | accept => exact effect_arrive h
  | lose =>
      rw [hnote rfl]
      exact .drop _
  | loseReply =>
      rw [hnote rfl]
      exact .quiet (fun _ q hq => ⟨q, hq, .refl q, .refl _⟩) (.refl _) rfl rfl

end Steps

/-! ## Copies -/

/-- What is known of a call that is under way: no more copies of it than attempts, each
under its message id. -/
structure Sending.Tracks (s : Sending) (sent : List (Nat × Nat)) (callIds : Nat) : Prop where
  young : s.id < callIds
  tried : copies sent s.id ≤ s.attempts
  named : ∀ x ∈ sent, x.1 = s.id → s.messageId = some x.2

structure Sent (w : World) (sent : List (Nat × Nat)) : Prop where
  total : ∀ call, copies sent call ≤ sendAttempts
  young : ∀ x ∈ sent, x.1 < w.callIds
  same : ∀ x ∈ sent, ∀ y ∈ sent, x.1 = y.1 → x.2 = y.2
  tracks : ∀ n p, w.procs n = some p → ∀ s ∈ sendings p, s.Tracks sent w.callIds
  once : ∀ n p, w.procs n = some p → ((sendings p).map Sending.id).Nodup
  apart : ∀ n n' p p', w.procs n = some p → w.procs n' = some p' → n ≠ n' →
    ∀ s ∈ sendings p, ∀ s' ∈ sendings p', s.id ≠ s'.id

section Copies

variable {w w' : World} {sent sent' : List (Nat × Nat)} {n : NodeId} {k : Nat} {p p' : Process}
variable {s s' : Sending} {ledger ledger' : List Acceptance}

theorem copies_snoc (sent : List (Nat × Nat)) (x : Nat × Nat) (call : Nat) :
    copies (sent ++ [x]) call = copies sent call + if x.1 = call then 1 else 0 := by
  rw [copies, List.countP_append, List.countP_singleton]
  simp only [decide_eq_true_eq]
  rfl

theorem copies_eq_zero {call : Nat} (h : ∀ x ∈ sent, x.1 ≠ call) : copies sent call = 0 :=
  List.countP_eq_zero.mpr fun x hx hcall => h x hx (of_decide_eq_true hcall)

theorem Sending.Tracks.fewer {callIds : Nat} (h : s.Tracks sent callIds)
    (hcopies : ∀ call, copies sent' call ≤ copies sent call) (hsub : ∀ x ∈ sent', x ∈ sent) :
    s.Tracks sent' callIds :=
  { young := h.young
    tried := Nat.le_trans (hcopies _) h.tried
    named := fun x hx => h.named x (hsub x hx) }

/-- Nothing is added: processes, calls and copies may only go, and copies may change
places.  A process that is new has no calls. -/
theorem Sent.fewer (h : Sent w sent)
    (hprocs : ∀ n p', w'.procs n = some p' → ∀ s ∈ sendings p',
      ∃ p, w.procs n = some p ∧ (sendings p').Sublist (sendings p))
    (hcalls : w'.callIds = w.callIds) (hcopies : ∀ call, copies sent' call ≤ copies sent call)
    (hsub : ∀ x ∈ sent', x ∈ sent) : Sent w' sent' where
  total call := Nat.le_trans (hcopies call) (h.total call)
  young x hx := by
    rw [hcalls]
    exact h.young x (hsub x hx)
  same x hx y hy := h.same x (hsub x hx) y (hsub y hy)
  tracks n p' hp' s hs := by
    obtain ⟨p, hp, hsends⟩ := hprocs n p' hp' s hs
    rw [hcalls]
    exact (h.tracks n p hp s (hsends.subset hs)).fewer hcopies hsub
  once n p' hp' := by
    cases hsends : sendings p' with
    | nil => exact List.nodup_nil
    | cons s rest =>
        obtain ⟨p, hp, hsends'⟩ := hprocs n p' hp' s (hsends ▸ List.mem_cons_self)
        rw [← hsends]
        exact (h.once n p hp).sublist (hsends'.map _)
  apart n m p' q' hp' hq' hne s hs t ht := by
    obtain ⟨p, hp, hsends⟩ := hprocs n p' hp' s hs
    obtain ⟨q, hq, hsends'⟩ := hprocs m q' hq' t ht
    exact h.apart n m p q hp hq hne s (hsends.subset hs) t (hsends'.subset ht)

/-- One process has new sendings, each with an id it had or with one nobody has had. -/
theorem Sent.put (h : Sent w sent) (hp : w.procs n = some p)
    (hprocs : w'.procs = (w.put n p').procs)
    (hids : ∀ s ∈ sendings p', (∃ s₀ ∈ sendings p, s₀.id = s.id) ∨ s.id = w.callIds)
    (honce : ((sendings p').map Sending.id).Nodup)
    (htotal : ∀ call, copies sent' call ≤ sendAttempts) (hyoung : ∀ x ∈ sent', x.1 < w'.callIds)
    (hsame : ∀ x ∈ sent', ∀ y ∈ sent', x.1 = y.1 → x.2 = y.2)
    (hown : ∀ s ∈ sendings p', s.Tracks sent' w'.callIds)
    (hothers : ∀ s : Sending, s.Tracks sent w.callIds → (∀ s' ∈ sendings p, s.id ≠ s'.id) →
      s.Tracks sent' w'.callIds) : Sent w' sent' := by
  -- The ids of the process are not those of another.
  have hne : ∀ m q, m ≠ n → w.procs m = some q → ∀ s ∈ sendings p', ∀ t ∈ sendings q,
      s.id ≠ t.id := by
    intro m q hm hq s hs t ht
    rcases hids s hs with ⟨s₀, hs₀, heq⟩ | hnew
    · rw [← heq]
      exact h.apart n m p q hp hq (Ne.symm hm) s₀ hs₀ t ht
    · have hlt := (h.tracks m q hq t ht).young
      omega
  refine ⟨htotal, hyoung, hsame, ?_, ?_, ?_⟩
  · intro m q hq s hs
    rw [hprocs, put_procs] at hq
    rcases hq with ⟨rfl, rfl⟩ | ⟨hm, hq⟩
    · exact hown s hs
    · exact hothers s (h.tracks m q hq s hs) fun s' hs' => h.apart m n q p hq hp hm s hs s' hs'
  · intro m q hq
    rw [hprocs, put_procs] at hq
    rcases hq with ⟨rfl, rfl⟩ | ⟨hm, hq⟩
    · exact honce
    · exact h.once m q hq
  · intro m m' q q' hq hq' hmm s hs t ht
    rw [hprocs, put_procs] at hq hq'
    rcases hq with ⟨rfl, rfl⟩ | ⟨hm, hq⟩
    · rcases hq' with ⟨rfl, rfl⟩ | ⟨hm', hq'⟩
      · exact absurd rfl hmm
      · exact hne m' q' hm' hq' s hs t ht
    · rcases hq' with ⟨rfl, rfl⟩ | ⟨hm', hq'⟩
      · exact Ne.symm (hne m q hm hq t ht s hs)
      · exact h.apart m m' q q' hq hq' hmm s hs t ht

theorem map_id_set (hk : (sendings p)[k]? = some s) (hid : s'.id = s.id) :
    ((sendings p).set k s').map Sending.id = (sendings p).map Sending.id := by
  obtain ⟨hlt, rfl⟩ := List.getElem?_eq_some_iff.mp hk
  rw [List.map_set, hid]
  have hget : (sendings p).map Sending.id = (((sendings p).map Sending.id).set k
      (((sendings p).map Sending.id).get ⟨k, by rwa [List.length_map]⟩)) := by
    rw [List.get_eq_getElem, List.set_getElem_self]
  rw [List.get_eq_getElem, List.getElem_map] at hget
  exact hget.symm

/-- After an update of the sending `s` to `s'`, what has the id of `s` is `s'` and the
others are as before. -/
theorem mem_set (honce : ((sendings p).map Sending.id).Nodup) (hk : (sendings p)[k]? = some s)
    (hid : s'.id = s.id) {t : Sending} (ht : t ∈ (sendings p).set k s') :
    t = s' ∨ t ∈ sendings p ∧ t.id ≠ s.id := by
  by_cases heq : t.id = s.id
  · left
    obtain ⟨hlt, -⟩ := List.getElem?_eq_some_iff.mp hk
    rw [← map_id_set hk hid] at honce
    exact List.inj_on_of_nodup_map honce ht (List.mem_set hlt s') (heq.trans hid.symm)
  · right
    rcases List.mem_or_eq_of_mem_set ht with hmem | rfl
    · exact ⟨hmem, heq⟩
    · exact absurd hid heq

theorem traffic_net (ledger : List Acceptance) (hnet : w'.net = w.net) :
    traffic w' ledger = traffic w ledger := by
  rw [traffic, traffic, hnet]

theorem traffic_snoc (ledger : List Acceptance) {packet : Packet}
    (hnet : w'.net = w.net ++ [packet]) :
    traffic w' ledger = traffic w ledger ++ [(packet.call, packet.messageId)] := by
  rw [traffic, traffic, hnet, List.map_append, List.append_assoc]
  rfl

/-- Letting a packet through moves its copy from the net to the ledger. -/
theorem traffic_accept {j lifetime : Nat} {packet : Packet} (ledger : List Acceptance)
    (hj : w.net[j]? = some packet) (hnet : w'.net = w.net.eraseIdx j) :
    (traffic w' (ledger ++ [⟨lifetime, packet.messageId, packet.call⟩])).Perm
      (traffic w ledger) := by
  obtain ⟨hlt, rfl⟩ := List.getElem?_eq_some_iff.mp hj
  have hperm := (List.getElem_cons_eraseIdx_perm hlt).map fun packet : Packet =>
    (packet.call, packet.messageId)
  rw [traffic, hnet, List.map_append, List.append_assoc]
  exact hperm.append_left _

/-- A new call: nothing has been sent for it. -/
theorem Sent.begin (h : Sent w sent) (hp : w.procs n = some p)
    (hprocs : w'.procs = (w.put n p').procs)
    (hsend : sendings p' = sendings p ++ [⟨w.callIds, none, 0⟩])
    (hcalls : w'.callIds = w.callIds + 1) : Sent w' sent := by
  have holder : ∀ s : Sending, s.Tracks sent w.callIds → s.Tracks sent w'.callIds := by
    intro s hs
    have hlt := hs.young
    exact { hs with young := by omega }
  have hnone : ∀ x ∈ sent, x.1 ≠ w.callIds := by
    intro x hx
    have hlt := h.young x hx
    omega
  refine h.put hp hprocs ?_ ?_ h.total ?_ h.same ?_ fun s hs _ => holder s hs
  · intro s hs
    rw [hsend, List.mem_append, List.mem_singleton] at hs
    rcases hs with hs | rfl
    · exact Or.inl ⟨s, hs, rfl⟩
    · exact Or.inr rfl
  · rw [hsend, List.map_append, List.map_singleton, List.nodup_append_comm, List.singleton_append,
      List.nodup_cons]
    refine ⟨?_, h.once n p hp⟩
    intro hmem
    obtain ⟨s, hs, hid⟩ := List.mem_map.mp hmem
    have hlt := (h.tracks n p hp s hs).young
    simp only at hid
    omega
  · intro x hx
    have hlt := h.young x hx
    omega
  · intro s hs
    rw [hsend, List.mem_append, List.mem_singleton] at hs
    rcases hs with hs | rfl
    · exact holder s (h.tracks n p hp s hs)
    · refine ⟨by simp only; omega, ?_, ?_⟩
      · rw [copies_eq_zero hnone]
      · intro x hx heq
        exact absurd heq (hnone x hx)

/-- One sending changes, and with it perhaps what has been sent for its call. -/
theorem Sent.set (h : Sent w sent) (hp : w.procs n = some p)
    (hprocs : w'.procs = (w.put n p').procs) (hk : (sendings p)[k]? = some s)
    (hsend : sendings p' = (sendings p).set k s') (hid : s'.id = s.id)
    (hcalls : w'.callIds = w.callIds) (htotal : ∀ call, copies sent' call ≤ sendAttempts)
    (hyoung : ∀ x ∈ sent', x.1 < w.callIds)
    (hsame : ∀ x ∈ sent', ∀ y ∈ sent', x.1 = y.1 → x.2 = y.2) (hown : s'.Tracks sent' w.callIds)
    (hothers : ∀ t : Sending, t.Tracks sent w.callIds → t.id ≠ s.id →
      t.Tracks sent' w.callIds) : Sent w' sent' := by
  have hs : s ∈ sendings p := List.mem_of_getElem? hk
  refine h.put hp hprocs ?_ ?_ htotal (by rwa [hcalls]) hsame ?_ ?_
  · intro t ht
    rw [hsend] at ht
    rcases mem_set (h.once n p hp) hk hid ht with rfl | ⟨ht, -⟩
    · exact Or.inl ⟨s, hs, hid.symm⟩
    · exact Or.inl ⟨t, ht, rfl⟩
  · rw [hsend, map_id_set hk hid]
    exact h.once n p hp
  · intro t ht
    rw [hsend] at ht
    rw [hcalls]
    rcases mem_set (h.once n p hp) hk hid ht with rfl | ⟨ht, hne⟩
    · exact hown
    · exact hothers t (h.tracks n p hp t ht) hne
  · intro t ht hne
    rw [hcalls]
    exact hothers t ht (hne s hs)

/-- A message id is given to a call nothing has been sent for. -/
theorem Sent.name {id : Nat} (h : Sent w sent) (hp : w.procs n = some p)
    (hprocs : w'.procs = (w.put n p').procs) (hk : (sendings p)[k]? = some s)
    (hnone : s.messageId = none)
    (hsend : sendings p' = (sendings p).set k { s with messageId := some id })
    (hcalls : w'.callIds = w.callIds) : Sent w' sent := by
  have hs := h.tracks n p hp s (List.mem_of_getElem? hk)
  refine h.set hp hprocs hk hsend rfl hcalls h.total h.young h.same ?_ fun _ ht _ => ht
  refine ⟨hs.young, hs.tried, ?_⟩
  intro x hx heq
  have hnamed := hs.named x hx heq
  rw [hnone] at hnamed
  cases hnamed

/-- One more copy, counted by the attempt it is. -/
theorem Sent.attempt {id : Nat} (h : Sent w sent) (hp : w.procs n = some p)
    (hprocs : w'.procs = (w.put n p').procs) (hk : (sendings p)[k]? = some s)
    (hid : s.messageId = some id) (hleft : s.attempts < sendAttempts)
    (hsend : sendings p' = (sendings p).set k { s with attempts := s.attempts + 1 })
    (hcalls : w'.callIds = w.callIds) : Sent w' (sent ++ [(s.id, id)]) := by
  have hs := h.tracks n p hp s (List.mem_of_getElem? hk)
  have htried := hs.tried
  refine h.set hp hprocs hk hsend rfl hcalls ?_ ?_ ?_ ?_ ?_
  · intro call
    rw [copies_snoc]
    by_cases hcall : s.id = call
    · rw [if_pos hcall, ← hcall]
      omega
    · rw [if_neg hcall]
      exact h.total call
  · intro x hx
    rw [List.mem_append, List.mem_singleton] at hx
    rcases hx with hx | rfl
    · exact h.young x hx
    · exact hs.young
  · -- The new copy has the id of the others, since both are the call's.
    have hnew : ∀ x ∈ sent, x.1 = s.id → x.2 = id := by
      intro x hx heq
      have hnamed := hs.named x hx heq
      rw [hid] at hnamed
      exact (Option.some.inj hnamed).symm
    intro x hx y hy heq
    rw [List.mem_append, List.mem_singleton] at hx hy
    rcases hx with hx | rfl
    · rcases hy with hy | rfl
      · exact h.same x hx y hy heq
      · exact hnew x hx heq
    · rcases hy with hy | rfl
      · exact (hnew y hy heq.symm).symm
      · rfl
  · refine ⟨hs.young, ?_, ?_⟩
    · rw [copies_snoc, if_pos rfl]
      exact Nat.succ_le_succ htried
    · intro x hx heq
      rw [List.mem_append, List.mem_singleton] at hx
      rcases hx with hx | rfl
      · exact hs.named x hx heq
      · exact hid
  · intro t ht hne
    refine ⟨ht.young, ?_, ?_⟩
    · rw [copies_snoc, if_neg (Ne.symm hne)]
      exact ht.tried
    · intro x hx heq
      rw [List.mem_append, List.mem_singleton] at hx
      rcases hx with hx | rfl
      · exact ht.named x hx heq
      · exact absurd heq (Ne.symm hne)

theorem sent_sends (h : Sent w (traffic w ledger)) (hp : w.procs n = some p)
    (hprocs : w'.procs = (w.put n p').procs) (hsends : Sends w p p' w') :
    Sent w' (traffic w' ledger) := by
  cases hsends with
  | begin hsend hnet hcalls =>
      rw [traffic_net ledger hnet]
      exact h.begin hp hprocs hsend hcalls
  | name hk hnone hsend hnet hcalls =>
      rw [traffic_net ledger hnet]
      exact h.name hp hprocs hk hnone hsend hcalls
  | attempt hk hnet hcall hid hleft hsend hcalls =>
      rw [traffic_snoc ledger hnet, hcall]
      exact h.attempt hp hprocs hk hid hleft hsend hcalls

theorem sent_effect (h : Sent w (traffic w ledger)) (heffect : Effect w ledger w' ledger') :
    Sent w' (traffic w' ledger') := by
  cases heffect with
  | quiet hprocs hnet hcalls hlife =>
      have hsub := (List.Sublist.refl (ledger.map fun e => (e.call, e.messageId))).append
        (hnet.map fun packet => (packet.call, packet.messageId))
      refine h.fewer ?_ hcalls (fun _ => hsub.countP_le) fun _ hx => hsub.subset hx
      intro n p' hp' _ _
      obtain ⟨p, hp, -, hsends⟩ := hprocs n p' hp'
      exact ⟨p, hp, hsends⟩
  | start =>
      refine h.fewer ?_ rfl (fun _ => Nat.le_refl _) fun _ hx => hx
      intro m q hq s hs
      rcases put_procs.mp hq with ⟨-, rfl⟩ | ⟨-, hq⟩
      · cases hs
      · exact ⟨q, hq, .refl _⟩
  | send hp hprocs hsame hlife hsends => exact sent_sends h hp hprocs hsends
  | accept hj hp hnew =>
      refine h.fewer ?_ rfl (fun _ => Nat.le_of_eq ((traffic_accept ledger hj rfl).countP_eq _))
        fun _ hx => (traffic_accept ledger hj rfl).mem_iff.mp hx
      intro m q hq _ _
      rcases put_procs.mp hq with ⟨rfl, rfl⟩ | ⟨-, hq⟩
      · exact ⟨_, hp, .refl _⟩
      · exact ⟨q, hq, .refl _⟩

end Copies

/-! ## Windows -/

/-- What the windows and the ledger say of each other. -/
structure Windowed (w : World) (ledger : List Acceptance) : Prop where
  young : ∀ n p, w.procs n = some p → p.lifetime < w.lifetimes
  past : ∀ e ∈ ledger, e.lifetime < w.lifetimes
  apart : ∀ n n' p p', w.procs n = some p → w.procs n' = some p' →
    p.lifetime = p'.lifetime → n = n'
  /-- What a process has let through is what the ledger has of its lifetime. -/
  accepted : ∀ n p, w.procs n = some p →
    p.accepted = (during ledger p.lifetime).map fun e => (e.messageId, e.call)
  holds : ∀ n p, w.procs n = some p →
    Dedup.Holds dedupWindow ⟨p.seen, (during ledger p.lifetime).map Acceptance.messageId⟩
  spaced : ∀ lifetime, Spaced dedupWindow ((during ledger lifetime).map Acceptance.messageId)

section Windows

variable {w w' : World} {ledger ledger' : List Acceptance} {p p' : Process}

theorem during_snoc_self (ledger : List Acceptance) (e : Acceptance) :
    during (ledger ++ [e]) e.lifetime = during ledger e.lifetime ++ [e] := by
  simp only [during, List.filter_append, List.filter_singleton, decide_true, cond_true]

theorem during_snoc_ne (ledger : List Acceptance) {e : Acceptance} {lifetime : Nat}
    (h : e.lifetime ≠ lifetime) : during (ledger ++ [e]) lifetime = during ledger lifetime := by
  simp only [during, List.filter_append, List.filter_singleton, h, decide_false, cond_false,
    List.append_nil]

/-- Nothing of a lifetime to come is in the ledger. -/
theorem Windowed.during_nil (h : Windowed w ledger) {lifetime : Nat}
    (hnew : w.lifetimes ≤ lifetime) : during ledger lifetime = [] := by
  rw [during, List.filter_eq_nil_iff]
  intro e he heq
  have hlt := h.past e he
  have hlife : e.lifetime = lifetime := of_decide_eq_true heq
  omega

theorem Windowed.same (h : Windowed w ledger)
    (hprocs : ∀ n p', w'.procs n = some p' → ∃ p, w.procs n = some p ∧ SameWindow p p')
    (hlife : w'.lifetimes = w.lifetimes) : Windowed w' ledger where
  young n p' hp' := by
    obtain ⟨p, hp, hsame⟩ := hprocs n p' hp'
    rw [hsame.lifetime, hlife]
    exact h.young n p hp
  past e he := by
    rw [hlife]
    exact h.past e he
  apart n m p' q' hp' hq' heq := by
    obtain ⟨p, hp, hsame⟩ := hprocs n p' hp'
    obtain ⟨q, hq, hsame'⟩ := hprocs m q' hq'
    exact h.apart n m p q hp hq (by rw [← hsame.lifetime, heq, hsame'.lifetime])
  accepted n p' hp' := by
    obtain ⟨p, hp, hsame⟩ := hprocs n p' hp'
    rw [hsame.accepted, hsame.lifetime]
    exact h.accepted n p hp
  holds n p' hp' := by
    obtain ⟨p, hp, hsame⟩ := hprocs n p' hp'
    rw [hsame.seen, hsame.lifetime]
    exact h.holds n p hp
  spaced := h.spaced

/-- A new process has an empty window, in a lifetime of its own. -/
theorem Windowed.start (h : Windowed w ledger) (n : NodeId) :
    Windowed { w.put n (Process.start n w.lifetimes) with lifetimes := w.lifetimes + 1 }
      ledger := by
  have hnil := h.during_nil (Nat.le_refl w.lifetimes)
  have hold : ∀ m q, w.procs m = some q → q.lifetime ≠ w.lifetimes := by
    intro m q hq
    exact Nat.ne_of_lt (h.young m q hq)
  refine ⟨?_, fun e he => Nat.lt_succ_of_lt (h.past e he), ?_, ?_, ?_, h.spaced⟩
  · intro m q hq
    rcases put_procs.mp hq with ⟨-, rfl⟩ | ⟨-, hq⟩
    · exact Nat.lt_succ_self _
    · exact Nat.lt_succ_of_lt (h.young m q hq)
  · intro m m' q q' hq hq' heq
    rcases put_procs.mp hq with ⟨rfl, rfl⟩ | ⟨-, hmq⟩
    · rcases put_procs.mp hq' with ⟨rfl, rfl⟩ | ⟨-, hmq'⟩
      · rfl
      · exact absurd heq.symm (hold m' q' hmq')
    · rcases put_procs.mp hq' with ⟨rfl, rfl⟩ | ⟨-, hmq'⟩
      · exact absurd heq (hold m q hmq)
      · exact h.apart m m' q q' hmq hmq' heq
  · intro m q hq
    rcases put_procs.mp hq with ⟨-, rfl⟩ | ⟨-, hq⟩
    · exact (congrArg (List.map _) hnil).symm
    · exact h.accepted m q hq
  · intro m q hq
    rcases put_procs.mp hq with ⟨-, rfl⟩ | ⟨-, hq⟩
    · show Dedup.Holds dedupWindow ⟨_, (during ledger w.lifetimes).map _⟩
      rw [hnil]
      exact
        { capacity := Nat.max_eq_left (by decide : 1 ≤ dedupWindow)
          order := (keepLast_of_le (Nat.zero_le _)).symm
          nodup := List.nodup_nil
          inStep := fun x => Iff.rfl }
    · exact h.holds m q hq

/-- Letting a command through: the window learns its id, and it was not among the last. -/
theorem Windowed.accept {j : Nat} {taken : List Handle} {packet : Packet} (h : Windowed w ledger)
    (hp : w.procs packet.dest = some p) (hnew : packet.messageId ∉ p.seen.seen) :
    Windowed { w.put packet.dest { p with
            seen := (p.seen.acceptId packet.messageId).2
            held := p.held ++ taken
            accepted := p.accepted ++ [(packet.messageId, packet.call)] }
          with net := w.net.eraseIdx j }
      (ledger ++ [⟨p.lifetime, packet.messageId, packet.call⟩]) := by
  have hself := during_snoc_self ledger ⟨p.lifetime, packet.messageId, packet.call⟩
  have hanswer : (p.seen.acceptId packet.messageId).1 = true := by
    rw [Dedup.acceptId_fst, decide_eq_true hnew]
  have hother : ∀ m q, m ≠ packet.dest → w.procs m = some q →
      during (ledger ++ [⟨p.lifetime, packet.messageId, packet.call⟩]) q.lifetime =
        during ledger q.lifetime := by
    intro m q hm hq
    refine during_snoc_ne ledger fun heq => hm ?_
    exact (h.apart _ _ p q hp hq heq).symm
  refine ⟨?_, ?_, ?_, ?_, ?_, ?_⟩
  · intro m q hq
    rcases put_procs.mp hq with ⟨rfl, rfl⟩ | ⟨-, hq⟩
    · exact h.young _ p hp
    · exact h.young m q hq
  · intro e he
    rw [List.mem_append, List.mem_singleton] at he
    rcases he with he | rfl
    · exact h.past e he
    · exact h.young _ p hp
  · intro m m' q q' hq hq' heq
    rcases put_procs.mp hq with ⟨rfl, rfl⟩ | ⟨-, hmq⟩
    · rcases put_procs.mp hq' with ⟨rfl, rfl⟩ | ⟨-, hmq'⟩
      · rfl
      · exact h.apart _ m' p q' hp hmq' heq
    · rcases put_procs.mp hq' with ⟨rfl, rfl⟩ | ⟨-, hmq'⟩
      · exact h.apart m _ q p hmq hp heq
      · exact h.apart m m' q q' hmq hmq' heq
  · intro m q hq
    rcases put_procs.mp hq with ⟨rfl, rfl⟩ | ⟨hm, hq⟩
    · rw [hself, List.map_append, ← h.accepted _ p hp]
      rfl
    · rw [hother m q hm hq]
      exact h.accepted m q hq
  · intro m q hq
    rcases put_procs.mp hq with ⟨rfl, rfl⟩ | ⟨hm, hq⟩
    · have hask := (h.holds _ p hp).ask packet.messageId
      rw [Dedup.Asked.ask, if_pos hanswer] at hask
      rw [hself, List.map_append]
      exact hask
    · rw [hother m q hm hq]
      exact h.holds m q hq
  · intro lifetime
    by_cases heq : p.lifetime = lifetime
    · subst heq
      rw [hself, List.map_append]
      refine (h.spaced p.lifetime).snoc fun hmem => ?_
      have hfalse := (h.holds _ p hp).answer.mpr hmem
      rw [hanswer] at hfalse
      cases hfalse
    · rw [during_snoc_ne ledger heq]
      exact h.spaced lifetime

theorem windowed_effect (h : Windowed w ledger) (heffect : Effect w ledger w' ledger') :
    Windowed w' ledger' := by
  cases heffect with
  | quiet hprocs hnet hcalls hlife =>
      refine h.same ?_ hlife
      intro n p' hp'
      obtain ⟨p, hp, hsame, -⟩ := hprocs n p' hp'
      exact ⟨p, hp, hsame⟩
  | start => exact h.start _
  | send hp hprocs hsame hlife hsends =>
      refine h.same ?_ hlife
      intro m q hq
      rw [hprocs, put_procs] at hq
      rcases hq with ⟨rfl, rfl⟩ | ⟨-, hq⟩
      · exact ⟨_, hp, hsame⟩
      · exact ⟨q, hq, .refl q⟩
  | accept hj hp hnew => exact h.accept hp hnew

end Windows

/-! ## Whole runs -/

/-- Of every call at most `SEND_ATTEMPTS` copies are let through; one process lets through
two only with at least a window's length of others between; and the ledger is what the
processes have let through. -/
structure FewDeliveries (w : World) (ledger : List Acceptance) : Prop where
  total : ∀ call, (ledger.filter fun e => e.call = call).length ≤ sendAttempts
  spaced : ∀ lifetime, Spaced dedupWindow ((during ledger lifetime).map Acceptance.call)
  accepted : ∀ n p, w.procs n = some p →
    p.accepted = (during ledger p.lifetime).map fun e => (e.messageId, e.call)

theorem sent_init : Sent World.init (traffic World.init []) where
  total _ := Nat.zero_le _
  young x hx := by cases hx
  same x hx := by cases hx
  tracks n p hp := by cases hp
  once n p hp := by cases hp
  apart n n' p p' hp := by cases hp

theorem windowed_init : Windowed World.init [] where
  young n p hp := by cases hp
  past e he := by cases he
  apart n n' p p' hp := by cases hp
  accepted n p hp := by cases hp
  holds n p hp := by cases hp
  spaced _ := spaced_nil _

/-- Two acceptances of one call have one message id, so calls are spaced as ids are. -/
theorem fewDeliveries {w : World} {ledger : List Acceptance} (hsent : Sent w (traffic w ledger))
    (hwin : Windowed w ledger) : FewDeliveries w ledger where
  total call := by
    have htotal := hsent.total call
    rw [copies, traffic, List.countP_append, List.countP_map] at htotal
    rw [← List.countP_eq_length_filter]
    exact Nat.le_trans (Nat.le_add_right _ _) htotal
  spaced lifetime := by
    intro a b call hab ha hb
    rw [List.getElem?_map, Option.map_eq_some_iff] at ha hb
    obtain ⟨e, he, rfl⟩ := ha
    obtain ⟨e', he', hcall⟩ := hb
    have hmem : ∀ {i : Nat} {e : Acceptance}, (during ledger lifetime)[i]? = some e →
        (e.call, e.messageId) ∈ traffic w ledger := by
      intro i e hi
      exact List.mem_append_left _
        (List.mem_map_of_mem (List.mem_of_mem_filter (List.mem_of_getElem? hi)))
    have hid : e'.messageId = e.messageId := hsent.same _ (hmem he') _ (hmem he) hcall
    refine hwin.spaced lifetime a b e.messageId hab ?_ ?_
    · rw [List.getElem?_map, he, Option.map_some]
    · rw [List.getElem?_map, he', Option.map_some, hid]
  accepted := hwin.accepted

/-- **A command is delivered a few times at most**, in every run of any number of nodes with
any losses, crashes and restarts. -/
theorem deliveries_bounded (l : List Label) (w : World)
    (hrun : run step World.init l = some w) :
    ∃ ledger, run (observed step note) (World.init, []) l = some (w, ledger) ∧
      FewDeliveries w ledger := by
  obtain ⟨ledger, hbooks⟩ := run_observed note l [] hrun
  refine ⟨ledger, hbooks, ?_⟩
  have hboth := run_invariant_all
    (I := fun x : World × List Acceptance => Sent x.1 (traffic x.1 x.2) ∧ Windowed x.1 x.2)
    (fun x a x' hx hstep => by
      obtain ⟨hstep, hnote⟩ := observed_eq_some hstep
      have heffect : Effect x.1 x.2 x'.1 (note x.1 a x'.1 x.2) := step_effect hstep
      rw [← hnote] at heffect
      exact ⟨sent_effect hx.1 heffect, windowed_effect hx.2 heffect⟩)
    l ⟨sent_init, windowed_init⟩ hbooks
  exact fewDeliveries hboth.1 hboth.2

/-- Node 1 tries a command three times on node 2, which is restarted after the first and
lets it through once in each lifetime. -/
def triedThrice : List Label :=
  [.start ⟨1⟩, .setLive ⟨1⟩ [⟨2⟩], .start ⟨2⟩, .setServing ⟨2⟩ true, .call ⟨1⟩ "counter" "c1",
    .nextMessageId ⟨1⟩ 0, .attempt ⟨1⟩ 0, .arrive 0 [], .stop ⟨2⟩, .start ⟨2⟩,
    .setServing ⟨2⟩ true, .attempt ⟨1⟩ 0, .arrive 0 [], .attempt ⟨1⟩ 0, .arrive 0 []]

theorem deliveries_bounded_triedThrice :
    ∃ w ledger, run (observed step note) (World.init, []) triedThrice = some (w, ledger) ∧
      ledger.map Acceptance.call = [0, 0] ∧ FewDeliveries w ledger := by
  obtain ⟨ledger, hbooks, hfew⟩ := deliveries_bounded triedThrice _ rfl
  refine ⟨_, ledger, hbooks, ?_, hfew⟩
  have hledger := congrArg (fun x => x.map fun y => y.2.map Acceptance.call) hbooks
  exact (Option.some.inj hledger).symm

end HorsieActor.Ports.Net.Deliveries
