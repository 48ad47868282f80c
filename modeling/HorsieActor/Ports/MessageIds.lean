import HorsieActor.Ports.Net

/-!
# Message ids and the window that drops repeats

`next_message_id` puts the node in the high half of the id and a counter in the
low half, and the counter starts at zero with the process.  Two processes under
one node id therefore give out the same ids, and a receiver that remembers the
first takes a command of the second for a repeat.

`newNotTakenForRepeat` is what does hold: while every message id of a node comes
from one lifetime of it, and no lifetime gives out more ids than the counter
has, no two ids are equal and only a repeat is taken for one.
-/

namespace HorsieActor.Ports.Net

open HorsieActor.Verified

/-! ## The property -/

/-- No two message ids are equal, and wherever a command in flight will be
dropped as a repeat, a command of the same call has been let through, and of no
other call. -/
def NewNotTakenForRepeat (w : World) : Prop :=
  (w.minted.map Mint.id).Nodup ∧
    ∀ n p packet, w.procs n = some p → packet ∈ w.net → packet.dest = n →
      packet.messageId ∈ p.seen.seen →
        (packet.messageId, packet.call) ∈ p.accepted ∧
          ∀ call, (packet.messageId, call) ∈ p.accepted → call = packet.call

/-- A message id is minted only by a process none of whose predecessors under
the same node id has minted one, and that has not been through its counter. -/
def OneLifetime (w : World) : Label → Prop
  | .nextMessageId n _ => ∀ p ∈ w.procs n,
      p.messageIds < 2 ^ 64 ∧ ∀ m ∈ w.minted, m.node = n → m.lifetime = p.lifetime
  | _ => True

instance (w : World) : ∀ a : Label, Decidable (OneLifetime w a)
  | .nextMessageId n _ => inferInstanceAs (Decidable (∀ p ∈ w.procs n,
      p.messageIds < 2 ^ 64 ∧ ∀ m ∈ w.minted, m.node = n → m.lifetime = p.lifetime))
  | .start _ | .stop _ | .setServing _ _ | .setLive _ _ | .call _ _ _ | .mint _ _ | .insert _ _
  | .forward _ _ _ | .attempt _ _ | .finish _ _ | .arrive _ _ | .lose _ | .respond _ _ _
  | .deliver _ | .loseReply _ | .forget _ _ | .abandonWaiting _ => isTrue trivial

/-! ## The invariant -/

/-- The id was minted for that call. -/
def MintedFor (w : World) (call id : Nat) : Prop := ∃ m ∈ w.minted, m.call = call ∧ m.id = id

/-- What a process knows of message ids was minted, its own in order. -/
structure Sound (w : World) (n : NodeId) (p : Process) : Prop where
  localId : p.node.localId = n
  counter : p.node.counter = UInt64.ofNat p.messageIds
  young : p.lifetime < w.lifetimes
  own : ∀ m ∈ w.minted, m.node = n → m.lifetime = p.lifetime →
    ∃ i < p.messageIds, m.id = pack n (UInt64.ofNat i)
  calls : ∀ call ∈ p.calls, ∀ id, call.messageId = some id → MintedFor w call.id id
  accepted : ∀ entry ∈ p.accepted, MintedFor w entry.2 entry.1
  seen : ∀ id ∈ p.seen.seen, ∃ call, (id, call) ∈ p.accepted

structure Inv (w : World) : Prop where
  procs : ∀ n p, w.procs n = some p → Sound w n p
  packets : ∀ packet ∈ w.net, MintedFor w packet.call packet.messageId
  minted : ∀ m ∈ w.minted, m.lifetime < w.lifetimes ∧ ∃ count, m.id = pack m.node count
  unique : (w.minted.map Mint.id).Nodup

/-- From `p` to `p'` nothing happens to message ids. -/
structure Calm (p p' : Process) : Prop where
  localId : p'.node.localId = p.node.localId
  counter : p'.node.counter = p.node.counter
  lifetime : p'.lifetime = p.lifetime
  messageIds : p'.messageIds = p.messageIds
  seen : p'.seen = p.seen
  accepted : p'.accepted = p.accepted
  calls : ∀ call' ∈ p'.calls, ∀ id, call'.messageId = some id →
    ∃ call ∈ p.calls, call.messageId = some id ∧ call.id = call'.id

section Preservation

variable {w w' : World} {n : NodeId} {p p' : Process}

theorem Sound.calm (h : Sound w n p) (hcalm : Calm p p') : Sound w n p' where
  localId := hcalm.localId.trans h.localId
  counter := by rw [hcalm.counter, hcalm.messageIds]; exact h.counter
  young := by rw [hcalm.lifetime]; exact h.young
  own := by rw [hcalm.lifetime, hcalm.messageIds]; exact h.own
  calls := by
    intro call' hmem id hid
    obtain ⟨call, hcall, hid', heq⟩ := hcalm.calls call' hmem id hid
    rw [← heq]
    exact h.calls call hcall id hid'
  accepted := by rw [hcalm.accepted]; exact h.accepted
  seen := by rw [hcalm.accepted, hcalm.seen]; exact h.seen

/-- Ids minted stay minted, and a later start only adds lifetimes. -/
theorem Sound.later (h : Sound w n p) (hlife : w.lifetimes ≤ w'.lifetimes)
    (hsub : ∀ m ∈ w.minted, m ∈ w'.minted)
    (hown : ∀ m ∈ w'.minted, m.node = n → m.lifetime = p.lifetime → m ∈ w.minted) :
    Sound w' n p where
  localId := h.localId
  counter := h.counter
  young := Nat.lt_of_lt_of_le h.young hlife
  own := fun m hm hn hl => h.own m (hown m hm hn hl) hn hl
  calls := by
    intro call hmem id hid
    obtain ⟨m, hm, hcall⟩ := h.calls call hmem id hid
    exact ⟨m, hsub m hm, hcall⟩
  accepted := by
    intro entry hmem
    obtain ⟨m, hm, hentry⟩ := h.accepted entry hmem
    exact ⟨m, hsub m hm, hentry⟩
  seen := h.seen

/-- A step that mints nothing, starts nothing and sends nothing new, and leaves
`n` with a process that is sound. -/
theorem Inv.put (h : Inv w) (hprocs : w'.procs = (w.put n p').procs)
    (hminted : w'.minted = w.minted) (hlife : w'.lifetimes = w.lifetimes) (hp' : Sound w n p')
    (hnet : ∀ packet ∈ w'.net, MintedFor w packet.call packet.messageId) : Inv w' where
  procs := by
    intro m q hq
    rw [hprocs] at hq
    have hsound : Sound w m q := by
      rcases put_procs.mp hq with ⟨rfl, rfl⟩ | ⟨-, hq⟩
      · exact hp'
      · exact h.procs m q hq
    exact hsound.later (Nat.le_of_eq hlife.symm) (by rw [hminted]; exact fun _ => id)
      (by rw [hminted]; exact fun _ h _ _ => h)
  packets := by
    intro packet hmem
    obtain ⟨m, hm, heq⟩ := hnet packet hmem
    exact ⟨m, hminted ▸ hm, heq⟩
  minted := by rw [hminted, hlife]; exact h.minted
  unique := by rw [hminted]; exact h.unique

theorem Inv.calm (h : Inv w) (hp : w.procs n = some p)
    (hprocs : w'.procs = (w.put n p').procs) (hminted : w'.minted = w.minted)
    (hlife : w'.lifetimes = w.lifetimes) (hnet : w'.net = w.net) (hcalm : Calm p p') : Inv w' :=
  h.put hprocs hminted hlife ((h.procs n p hp).calm hcalm) (hnet ▸ h.packets)

/-- Messages may be lost and processes may go. -/
theorem Inv.fewer (h : Inv w) (hprocs : ∀ n p, w'.procs n = some p → w.procs n = some p)
    (hminted : w'.minted = w.minted) (hlife : w'.lifetimes = w.lifetimes)
    (hnet : ∀ packet ∈ w'.net, packet ∈ w.net) : Inv w' where
  procs := fun n p hp => (h.procs n p (hprocs n p hp)).later (Nat.le_of_eq hlife.symm)
    (by rw [hminted]; exact fun _ => id) (by rw [hminted]; exact fun _ h _ _ => h)
  packets := by
    intro packet hmem
    obtain ⟨m, hm, heq⟩ := h.packets packet (hnet packet hmem)
    exact ⟨m, hminted ▸ hm, heq⟩
  minted := by rw [hminted, hlife]; exact h.minted
  unique := by rw [hminted]; exact h.unique

/-- Changing a call without giving it a message id. -/
theorem calm_set {k : Nat} {call call' : Call} {node : ClusterNode} {held : List Handle}
    (hk : p.calls[k]? = some call) (hid : call'.messageId = call.messageId)
    (hcall : call'.id = call.id) (hlocal : node.localId = p.node.localId)
    (hcount : node.counter = p.node.counter) :
    Calm p { p with node := node, held := held, calls := p.calls.set k call' } where
  localId := hlocal
  counter := hcount
  lifetime := rfl
  messageIds := rfl
  seen := rfl
  accepted := rfl
  calls := by
    intro c hc id hcid
    rcases List.mem_or_eq_of_mem_set hc with hold | rfl
    · exact ⟨c, hold, hcid, rfl⟩
    · exact ⟨call, List.mem_of_getElem? hk, hid ▸ hcid, hcall.symm⟩

/-- Changing the node and the handles without minting. -/
theorem calm_node {node : ClusterNode} {held : List Handle}
    (hlocal : node.localId = p.node.localId) (hcount : node.counter = p.node.counter) :
    Calm p { p with node := node, held := held } where
  localId := hlocal
  counter := hcount
  lifetime := rfl
  messageIds := rfl
  seen := rfl
  accepted := rfl
  calls := fun call hcall _ hid => ⟨call, hcall, hid, rfl⟩

end Preservation

/-! ## Steps and runs -/

theorem inv_init : Inv World.init where
  procs := nofun
  packets := nofun
  minted := nofun
  unique := List.nodup_nil

/-- The id a process is about to mint is a new one. -/
theorem nextMessageId_new {w : World} {n : NodeId} {p : Process} (h : Inv w)
    (hp : w.procs n = some p) (hcount : p.messageIds < 2 ^ 64)
    (hlife : ∀ m ∈ w.minted, m.node = n → m.lifetime = p.lifetime) :
    p.node.nextMessageId.1 ∉ w.minted.map Mint.id := by
  have hsound := h.procs n p hp
  have hid : p.node.nextMessageId.1 = pack n (UInt64.ofNat p.messageIds) := by
    rw [← hsound.localId, ← hsound.counter]
    rfl
  intro hmem
  obtain ⟨m, hm, heq⟩ := List.mem_map.mp hmem
  rw [hid] at heq
  -- the high half says whose id it was, the low half which one
  obtain ⟨-, count, hm'⟩ := h.minted m hm
  have hnode : m.node = n := (pack_inj.mp (hm'.symm.trans heq)).1
  obtain ⟨i, hi, hown⟩ := hsound.own m hm hnode (hlife m hm hnode)
  have hcounts := (pack_inj.mp (hown.symm.trans heq)).2
  have hnat := congrArg UInt64.toNat hcounts
  rw [UInt64.toNat_ofNat', UInt64.toNat_ofNat', Nat.mod_eq_of_lt (by omega),
    Nat.mod_eq_of_lt hcount] at hnat
  omega

theorem inv_nextMessageId {w : World} {n : NodeId} {k : Nat} {p : Process} {call : Call}
    (h : Inv w) (hp : w.procs n = some p) (hcount : p.messageIds < 2 ^ 64)
    (hlife : ∀ m ∈ w.minted, m.node = n → m.lifetime = p.lifetime) :
    Inv { w.put n { p with
            node := p.node.nextMessageId.2
            calls := p.calls.set k { call with messageId := some p.node.nextMessageId.1 }
            messageIds := p.messageIds + 1 }
          with minted := w.minted ++ [⟨n, p.lifetime, call.id, p.node.nextMessageId.1⟩] } := by
  have hsound := h.procs n p hp
  have hid : p.node.nextMessageId.1 = pack n (UInt64.ofNat p.messageIds) := by
    rw [← hsound.localId, ← hsound.counter]
    rfl
  have hkeep : ∀ {c id : Nat}, MintedFor w c id → ∃ m ∈ w.minted ++
      [(⟨n, p.lifetime, call.id, p.node.nextMessageId.1⟩ : Mint)], m.call = c ∧ m.id = id := by
    rintro c id ⟨m, hm, heq⟩
    exact ⟨m, List.mem_append_left _ hm, heq⟩
  refine ⟨?_, ?_, ?_, ?_⟩
  · intro m q hq
    rcases put_procs.mp hq with ⟨rfl, rfl⟩ | ⟨hne, hq⟩
    · refine ⟨hsound.localId, ?_, hsound.young, ?_, ?_, ?_, hsound.seen⟩
      · show p.node.counter + 1 = _
        rw [hsound.counter]
        simp
      · intro mint hmint hnode hl
        rcases List.mem_append.mp hmint with hold | hnew
        · obtain ⟨i, hi, heq⟩ := hsound.own mint hold hnode hl
          exact ⟨i, Nat.lt_succ_of_lt hi, heq⟩
        · cases List.mem_singleton.mp hnew
          exact ⟨p.messageIds, Nat.lt_succ_self _, hid⟩
      · intro c hc id hcid
        rcases List.mem_or_eq_of_mem_set hc with hold | rfl
        · exact hkeep (hsound.calls c hold id hcid)
        · cases hcid
          exact ⟨_, List.mem_append_right _ (List.mem_singleton_self _), rfl, rfl⟩
      · exact fun entry hentry => hkeep (hsound.accepted entry hentry)
    · refine (h.procs m q hq).later (Nat.le_refl _) (fun _ => List.mem_append_left _) ?_
      intro mint hmint hnode _
      rcases List.mem_append.mp hmint with hold | hnew
      · exact hold
      · cases List.mem_singleton.mp hnew
        exact absurd hnode (Ne.symm hne)
  · exact fun packet hmem => hkeep (h.packets packet hmem)
  · intro m hm
    rcases List.mem_append.mp hm with hold | hnew
    · exact h.minted m hold
    · cases List.mem_singleton.mp hnew
      exact ⟨hsound.young, _, hid⟩
  · rw [List.map_append, List.map_singleton, List.nodup_append]
    refine ⟨h.unique, List.nodup_singleton _, ?_⟩
    rintro a ha b hb rfl
    cases List.mem_singleton.mp hb
    exact nextMessageId_new h hp hcount hlife ha

/-- Starting a process: no id has been minted in its lifetime. -/
theorem inv_start {w : World} {n : NodeId} (h : Inv w) :
    Inv { w.put n (Process.start n w.lifetimes) with lifetimes := w.lifetimes + 1 } where
  procs := by
    intro m q hq
    rcases put_procs.mp hq with ⟨rfl, rfl⟩ | ⟨-, hq⟩
    · refine ⟨rfl, rfl, Nat.lt_succ_self _, ?_, nofun, nofun, fun id hid => ?_⟩
      · intro mint hmint _ hl
        exact absurd hl (Nat.ne_of_lt (h.minted mint hmint).1)
      · exact absurd hid (Finset.notMem_empty id)
    · exact (h.procs m q hq).later (Nat.le_succ _) (fun _ => id) (fun _ h _ _ => h)
  packets := h.packets
  minted := fun m hm => ⟨Nat.lt_succ_of_lt (h.minted m hm).1, (h.minted m hm).2⟩
  unique := h.unique

/-- Letting an envelope through: the window learns its id and the log its call. -/
theorem sound_accept {w : World} {n : NodeId} {p : Process} {packet : Packet}
    {taken : List Handle} (h : Sound w n p)
    (hpacket : MintedFor w packet.call packet.messageId) :
    Sound w n { p with
      seen := (p.seen.acceptId packet.messageId).2
      held := p.held ++ taken
      accepted := p.accepted ++ [(packet.messageId, packet.call)] } where
  localId := h.localId
  counter := h.counter
  young := h.young
  own := h.own
  calls := h.calls
  accepted := by
    intro entry hmem
    rcases List.mem_append.mp hmem with hold | hnew
    · exact h.accepted entry hold
    · cases List.mem_singleton.mp hnew
      exact hpacket
  seen := by
    intro id hid
    rcases Dedup.mem_seen_acceptId hid with rfl | hold
    · exact ⟨packet.call, List.mem_append_right _ (List.mem_singleton_self _)⟩
    · obtain ⟨call, hcall⟩ := h.seen id hold
      exact ⟨call, List.mem_append_left _ hcall⟩

theorem inv_step (w : World) (a : Label) (w' : World) (h : Inv w) (hlife : OneLifetime w a)
    (hstep : step w a = some w') : Inv w' := by
  have herase : ∀ {α : Type} {l : List α} {j : Nat}, ∀ x ∈ l.eraseIdx j, x ∈ l :=
    fun _ hx => List.mem_of_mem_eraseIdx hx
  cases step_moves hstep with
  | start hn => exact inv_start h
  | stop =>
      refine h.fewer (fun m q hq => ?_) rfl rfl (fun _ => id)
      simp only [Function.update_apply] at hq
      split at hq
      · cases hq
      · exact hq
  | setServing hp | setLive hp | forget hp | abandonWaiting hp =>
      exact h.calm hp rfl rfl rfl rfl (calm_node rfl rfl)
  | call hp =>
      refine h.calm hp rfl rfl rfl rfl ⟨rfl, rfl, rfl, rfl, rfl, rfl, fun c hc id hid => ?_⟩
      rcases List.mem_append.mp hc with hold | hnew
      · exact ⟨c, hold, hid, rfl⟩
      · cases List.mem_singleton.mp hnew
        cases hid
  | mint hp hk hnew => exact h.calm hp rfl rfl rfl rfl (calm_set hk rfl rfl rfl rfl)
  | insert hp hk hpend => exact h.calm hp rfl rfl rfl rfl (calm_set hk rfl rfl rfl rfl)
  | forward hp hk hi hnew => exact h.calm hp rfl rfl rfl rfl (calm_set hk rfl rfl rfl rfl)
  | nextMessageId hp hk hnew => exact inv_nextMessageId h hp (hlife _ hp).1 (hlife _ hp).2
  | @attempt n k p call id owner hp hk hid =>
      refine h.put rfl rfl rfl ((h.procs _ _ hp).calm (calm_set hk rfl rfl rfl rfl)) ?_
      intro packet hmem
      rcases List.mem_append.mp hmem with hold | hnew
      · exact h.packets packet hold
      · cases List.mem_singleton.mp hnew
        exact (h.procs _ _ hp).calls call (List.mem_of_getElem? hk) id hid
  | finish hp hk hpend =>
      exact h.calm hp rfl rfl rfl rfl ⟨rfl, rfl, rfl, rfl, rfl, rfl, fun c hc id hid =>
        ⟨c, List.mem_of_mem_eraseIdx hc, hid, rfl⟩⟩
  | refuse | lose => exact h.fewer (fun _ _ hq => hq) rfl rfl herase
  | accept hj hp hnew htaken =>
      exact h.put rfl rfl rfl
        (sound_accept (h.procs _ _ hp) (h.packets _ (List.mem_of_getElem? hj)))
        (fun packet hmem => h.packets packet (herase packet hmem))
  | respondHere hp hi hhere | respondThere hp hi hthere =>
      have hid := routeReply_localId
      exact h.calm hp rfl rfl rfl rfl (calm_node (hid _ _ _).1 (hid _ _ _).2)
  | deliver hj hp =>
      have hid := deliverReply_localId
      exact h.calm hp rfl rfl rfl rfl (calm_node (hid _ _).1 (hid _ _).2)
  | loseReply => exact h.fewer (fun _ _ hq => hq) rfl rfl (fun _ => id)

theorem Inv.newNotTakenForRepeat {w : World} (h : Inv w) : NewNotTakenForRepeat w := by
  refine ⟨h.unique, ?_⟩
  intro n p packet hp hmem hdest hseen
  have hsound := h.procs n p hp
  -- one id, one mint, one call
  have hcall : ∀ call, (packet.messageId, call) ∈ p.accepted → call = packet.call := by
    intro call hcall
    obtain ⟨m, hm, rfl, hid⟩ := hsound.accepted _ hcall
    obtain ⟨m', hm', hcall', hid'⟩ := h.packets packet hmem
    rw [← hcall', List.inj_on_of_nodup_map h.unique hm hm' (hid.trans hid'.symm)]
  obtain ⟨call, hacc⟩ := hsound.seen _ hseen
  exact ⟨hcall call hacc ▸ hacc, hcall⟩

/-- **A new command is not taken for a repeat**, in every run in which each
node's message ids come from one lifetime of it. -/
theorem newNotTakenForRepeat_of_oneLifetime (l : List Label) (w : World)
    (hrun : Schedule.run step World.init l = some w)
    (hlife : Schedule.Along step OneLifetime World.init l) : NewNotTakenForRepeat w :=
  (Schedule.run_invariant inv_step l inv_init hlife hrun).newNotTakenForRepeat

/-- Node 1 forwards a command to node 2, which lets it through. -/
def delivered : List Label :=
  [.start ⟨1⟩, .setLive ⟨1⟩ [⟨2⟩], .start ⟨2⟩, .setServing ⟨2⟩ true,
    .call ⟨1⟩ "counter" "c1", .nextMessageId ⟨1⟩ 0, .attempt ⟨1⟩ 0, .arrive 0 []]

/-- A second attempt of the same call is under way, and is a repeat. -/
theorem newNotTakenForRepeat_retry :
    ∃ w, Schedule.run step World.init (delivered ++ [.attempt ⟨1⟩ 0]) = some w ∧
      NewNotTakenForRepeat w :=
  ⟨_, rfl, newNotTakenForRepeat_of_oneLifetime (delivered ++ [.attempt ⟨1⟩ 0]) _ rfl (by decide)⟩

/-- Node 1 is started again and forwards another command, under the id of the
first. -/
def restarted : List Label :=
  delivered ++ [.stop ⟨1⟩, .start ⟨1⟩, .setLive ⟨1⟩ [⟨2⟩],
    .call ⟨1⟩ "counter" "c1", .nextMessageId ⟨1⟩ 0, .attempt ⟨1⟩ 0]

/-- The command of the restarted node is dropped for one it is not. -/
theorem restart_takes_new_for_repeat :
    ¬ ∀ (l : List Label) (w : World), Schedule.run step World.init l = some w →
      NewNotTakenForRepeat w := by
  intro h
  have hrepeat := (h restarted _ rfl).2 ⟨2⟩ _ _ rfl (List.mem_singleton_self _) rfl (by decide)
  exact absurd hrepeat.1 (by decide)

end HorsieActor.Ports.Net
