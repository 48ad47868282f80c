import HorsieActor.Ports.Net

/-!
# Correlations and the callers behind them

A correlation is the only link between an answer and the caller waiting for it.
Like message ids, correlations are the node and a counter that starts at zero
with the process, but handles and replies that name them outlive the process: an
answer to a request of an earlier process reaches whichever caller the next one
has registered under the same number.

`answersReachAsker_of_unused` is what does hold.  As long as no correlation is
given out while something in the cluster still carries it, every answer handed
to a callback comes from a handle descended from the encode that registered the
callback.
-/

namespace HorsieActor.Ports.Net

open HorsieActor.Verified

/-! ## The property -/

/-- Every answer handed to a callback was produced by a handle descended from
the encode that registered the callback. -/
def AnswersReachAsker (w : World) : Prop := ∀ entry ∈ w.handed, entry.callback = entry.born

/-- The handles a process has: those it holds, and those its calls have
encoded. -/
def Process.handles (p : Process) : List Handle := p.held ++ p.calls.flatMap Call.handles

/-- The correlations a process has minted and not inserted yet. -/
def Process.pending (p : Process) : List (Nat × Caller) := p.calls.filterMap Call.pending

/-- Somewhere in the cluster there is this handle, or a reply made from it. -/
inductive Carries (w : World) (handle : Handle) : Prop
  | process {n p} (hp : w.procs n = some p) (hmem : handle ∈ p.handles)
  | packet {packet} (hpacket : packet ∈ w.net) (hmem : handle ∈ packet.handles)
  | reply {r} (hr : r ∈ w.replies) (heq : handle = ⟨⟨r.dest, r.reply.correlation⟩, r.born⟩)

/-- A correlation is minted only while nothing in the cluster carries the
number the counter stands at. -/
def CorrelationUnused (w : World) : Label → Prop
  | .mint n _ => ∀ p ∈ w.procs n,
      pack n p.node.correlations ∉ p.pending.map Prod.fst ∧
        ∀ born, ¬ Carries w ⟨⟨n, pack n p.node.correlations⟩, born⟩
  | _ => True

/-! ## The invariant -/

/-- The callers waiting at `n`. -/
def rowsAt (w : World) (n : NodeId) : List (Nat × Caller) :=
  match w.procs n with
  | some p => p.node.waiting.rows
  | none => []

/-- The correlations minted and not inserted at `n`. -/
def pendingAt (w : World) (n : NodeId) : List (Nat × Caller) :=
  match w.procs n with
  | some p => p.pending
  | none => []

/-- Whoever waits under a correlation is whom its handles are for, and nothing
carries a correlation before it is inserted. -/
structure Agree (w : World) : Prop where
  localId : ∀ n p, w.procs n = some p → p.node.localId = n
  rows : ∀ n row, row ∈ rowsAt w n → ∀ born, Carries w ⟨⟨n, row.1⟩, born⟩ → row.2 = born
  pending : ∀ n row, row ∈ pendingAt w n → ∀ born, ¬ Carries w ⟨⟨n, row.1⟩, born⟩
  distinct : ∀ n, ((pendingAt w n).map Prod.fst).Nodup
  handed : AnswersReachAsker w

/-- From `w` to `w'` nothing is registered and no handle is made. -/
structure Quiet (w w' : World) : Prop where
  localId : ∀ n p', w'.procs n = some p' → p'.node.localId = n
  carries : ∀ handle, Carries w' handle → Carries w handle
  rows : ∀ n, ∀ row ∈ rowsAt w' n, row ∈ rowsAt w n
  pending : ∀ n, (pendingAt w' n).Sublist (pendingAt w n)

section Preservation

variable {w w' : World} {n : NodeId} {p p' : Process}

theorem Agree.quiet (h : Agree w) (hq : Quiet w w') (hhanded : AnswersReachAsker w') :
    Agree w' where
  localId := hq.localId
  rows := fun n row hrow born hc => h.rows n row (hq.rows n row hrow) born (hq.carries _ hc)
  pending := fun n row hrow born hc =>
    h.pending n row ((hq.pending n).subset hrow) born (hq.carries _ hc)
  distinct := fun n => (h.distinct n).sublist ((hq.pending n).map Prod.fst)
  handed := hhanded

theorem rowsAt_put (hprocs : w'.procs = (w.put n p').procs) (m : NodeId) :
    rowsAt w' m = if m = n then p'.node.waiting.rows else rowsAt w m := by
  unfold rowsAt
  rw [hprocs]
  by_cases h : m = n
  · subst h
    simp [World.put]
  · simp [World.put, h]

theorem pendingAt_put (hprocs : w'.procs = (w.put n p').procs) (m : NodeId) :
    pendingAt w' m = if m = n then p'.pending else pendingAt w m := by
  unfold pendingAt
  rw [hprocs]
  by_cases h : m = n
  · subst h
    simp [World.put]
  · simp [World.put, h]

theorem localId_put (h : Agree w) (hp : w.procs n = some p)
    (hprocs : w'.procs = (w.put n p').procs) (hlocal : p'.node.localId = p.node.localId) :
    ∀ m q, w'.procs m = some q → q.node.localId = m := by
  intro m q hq
  rw [hprocs] at hq
  rcases put_procs.mp hq with ⟨rfl, rfl⟩ | ⟨-, hq⟩
  · exact hlocal.trans (h.localId m p hp)
  · exact h.localId m q hq

theorem rowsAt_of_some (hp : w.procs n = some p) : rowsAt w n = p.node.waiting.rows := by
  simp [rowsAt, hp]

theorem pendingAt_of_some (hp : w.procs n = some p) : pendingAt w n = p.pending := by
  simp [pendingAt, hp]

/-- From `p` to `p'` nothing is registered, and every handle is an old one. -/
structure Settled (w : World) (p p' : Process) : Prop where
  localId : p'.node.localId = p.node.localId
  handles : ∀ handle ∈ p'.handles, Carries w handle
  rows : ∀ row ∈ p'.node.waiting.rows, row ∈ p.node.waiting.rows
  pending : p'.pending.Sublist p.pending

/-- A step at one process that registers nothing, with messages that carry
nothing new. -/
theorem Quiet.put (h : Agree w) (hp : w.procs n = some p)
    (hprocs : w'.procs = (w.put n p').procs) (hs : Settled w p p')
    (hnet : ∀ packet ∈ w'.net, ∀ handle ∈ packet.handles, Carries w handle)
    (hreplies : ∀ r ∈ w'.replies, Carries w ⟨⟨r.dest, r.reply.correlation⟩, r.born⟩) :
    Quiet w w' where
  localId := localId_put h hp hprocs hs.localId
  carries := by
    intro handle hc
    cases hc with
    | process hq hmem =>
        rw [hprocs] at hq
        rcases put_procs.mp hq with ⟨rfl, rfl⟩ | ⟨-, hq⟩
        · exact hs.handles handle hmem
        · exact .process hq hmem
    | packet hpacket hmem => exact hnet _ hpacket handle hmem
    | reply hr heq => exact heq ▸ hreplies _ hr
  rows := by
    intro m row hrow
    rw [rowsAt_put hprocs] at hrow
    split at hrow
    · rename_i hm
      subst hm
      rw [rowsAt_of_some hp]
      exact hs.rows row hrow
    · exact hrow
  pending := by
    intro m
    rw [pendingAt_put hprocs]
    split
    · rename_i hm
      subst hm
      rw [pendingAt_of_some hp]
      exact hs.pending
    · exact List.Sublist.refl _

/-- Messages may be lost. -/
theorem Quiet.fewer (h : Agree w) (hprocs : w'.procs = w.procs)
    (hnet : ∀ packet ∈ w'.net, packet ∈ w.net) (hreplies : ∀ r ∈ w'.replies, r ∈ w.replies) :
    Quiet w w' where
  localId := hprocs ▸ h.localId
  carries := by
    intro handle hc
    cases hc with
    | process hp hmem => exact .process (hprocs ▸ hp) hmem
    | packet hpacket hmem => exact .packet (hnet _ hpacket) hmem
    | reply hr heq => exact .reply (hreplies _ hr) heq
  rows := by unfold rowsAt; rw [hprocs]; exact fun _ _ => id
  pending := by unfold pendingAt; rw [hprocs]; exact fun _ => List.Sublist.refl _

theorem Quiet.stop (h : Agree w) (n : NodeId) :
    Quiet w { w with procs := Function.update w.procs n none } := by
  have hprocs : ∀ m q, Function.update w.procs n none m = some q → w.procs m = some q := by
    intro m q hq
    rw [Function.update_apply] at hq
    split at hq
    · cases hq
    · exact hq
  refine ⟨fun m q hq => h.localId m q (hprocs m q hq), ?_, ?_, ?_⟩
  · intro handle hc
    cases hc with
    | process hp hmem => exact .process (hprocs _ _ hp) hmem
    | packet hpacket hmem => exact .packet hpacket hmem
    | reply hr heq => exact .reply hr heq
  · intro m row hrow
    by_cases hm : m = n
    · subst hm
      simp [rowsAt] at hrow
    · simpa [rowsAt, hm] using hrow
  · intro m
    by_cases hm : m = n
    · subst hm
      simp [pendingAt]
    · simp [pendingAt, hm]

end Preservation

/-! ## Replacing one call -/

/-- Replacing an element replaces what is read off it, in place. -/
theorem filterMap_set {α β : Type} (f : α → Option β) {l : List α} {k : Nat} {x : α}
    (hk : l[k]? = some x) (y : α) :
    ∃ l₁ l₂, l.filterMap f = l₁ ++ ((f x).toList ++ l₂) ∧
      (l.set k y).filterMap f = l₁ ++ ((f y).toList ++ l₂) := by
  obtain ⟨hlt, hget⟩ := List.getElem?_eq_some_iff.mp hk
  have hcons : ∀ z rest, (z :: rest).filterMap f = (f z).toList ++ rest.filterMap f := by
    intro z rest
    rw [List.filterMap_cons]
    cases f z <;> rfl
  refine ⟨(l.take k).filterMap f, (l.drop (k + 1)).filterMap f, ?_, ?_⟩
  · rw [← hcons, ← List.filterMap_append, ← hget, List.getElem_cons_drop, List.take_append_drop]
  · rw [← hcons, ← List.filterMap_append, List.set_eq_take_append_cons_drop, if_pos hlt]

section Calls

variable {w : World} {n : NodeId} {p p' : Process} {call call' : Call} {k : Nat}

theorem carries_held (hp : w.procs n = some p) {handle : Handle} (h : handle ∈ p.held) :
    Carries w handle :=
  .process hp (List.mem_append_left _ h)

theorem carries_call (hp : w.procs n = some p) (hcall : call ∈ p.calls) {handle : Handle}
    (h : handle ∈ call.handles) : Carries w handle :=
  .process hp (List.mem_append_right _ (List.mem_flatMap.mpr ⟨call, hcall, h⟩))

/-- The handles of a process after a call was replaced. -/
theorem handles_set {P : Handle → Prop} (hcalls : p'.calls = p.calls.set k call')
    (hheld : ∀ handle ∈ p'.held, P handle)
    (hold : ∀ call ∈ p.calls, ∀ handle ∈ call.handles, P handle)
    (hcall : ∀ handle ∈ call'.handles, P handle) : ∀ handle ∈ p'.handles, P handle := by
  intro handle hmem
  rcases List.mem_append.mp hmem with hh | hc
  · exact hheld handle hh
  · rw [hcalls] at hc
    obtain ⟨c, hset, hin⟩ := List.mem_flatMap.mp hc
    rcases List.mem_or_eq_of_mem_set hset with hc | rfl
    · exact hold c hc handle hin
    · exact hcall handle hin

/-- A call that changes neither its pending mint nor makes a handle. -/
theorem settled_set (hp : w.procs n = some p) (hk : p.calls[k]? = some call)
    (hcalls : p'.calls = p.calls.set k call') (hlocal : p'.node.localId = p.node.localId)
    (hrows : p'.node.waiting = p.node.waiting) (hheld : ∀ handle ∈ p'.held, handle ∈ p.held)
    (hpend : call'.pending = call.pending) (hcall : ∀ handle ∈ call'.handles, Carries w handle) :
    Settled w p p' where
  localId := hlocal
  handles := handles_set hcalls (fun handle h => carries_held hp (hheld handle h))
    (fun _ hc _ => carries_call hp hc) hcall
  rows := by rw [hrows]; exact fun _ => id
  pending := by
    obtain ⟨l₁, l₂, hold, hnew⟩ := filterMap_set Call.pending hk call'
    show (p'.calls.filterMap Call.pending).Sublist (p.calls.filterMap Call.pending)
    rw [hcalls, hold, hnew, hpend]

/-- A process whose calls go on as they were. -/
theorem settled_node (hp : w.procs n = some p) (hcalls : p'.calls = p.calls)
    (hlocal : p'.node.localId = p.node.localId)
    (hrows : ∀ row ∈ p'.node.waiting.rows, row ∈ p.node.waiting.rows)
    (hheld : ∀ handle ∈ p'.held, Carries w handle) : Settled w p p' where
  localId := hlocal
  handles := by
    intro handle hmem
    rcases List.mem_append.mp hmem with hh | hc
    · exact hheld handle hh
    · exact .process hp (List.mem_append_right _ (hcalls ▸ hc))
  rows := hrows
  pending := by unfold Process.pending; rw [hcalls]

end Calls

/-! ## Minting and inserting -/

section Register

variable {w w' : World} {n : NodeId} {p p' : Process} {call : Call} {k : Nat}
  {correlation : Nat} {encode : Caller}

/-- When one process changes, a handle is one of its own or an old one. -/
theorem carries_put (hprocs : w'.procs = (w.put n p').procs) (hnet : w'.net = w.net)
    (hreplies : w'.replies = w.replies) {handle : Handle} (hc : Carries w' handle) :
    handle ∈ p'.handles ∨ Carries w handle := by
  cases hc with
  | process hq hmem =>
      rw [hprocs] at hq
      rcases put_procs.mp hq with ⟨rfl, rfl⟩ | ⟨-, hq⟩
      · exact Or.inl hmem
      · exact Or.inr (.process hq hmem)
  | packet hpacket hmem => exact Or.inr (.packet (hnet ▸ hpacket) hmem)
  | reply hr heq => exact Or.inr (.reply (hreplies ▸ hr) heq)

/-- Minting a correlation nothing carries. -/
theorem agree_mint (h : Agree w) (hp : w.procs n = some p) (hprocs : w'.procs = (w.put n p').procs)
    (hnet : w'.net = w.net) (hreplies : w'.replies = w.replies) (hhanded : AnswersReachAsker w')
    (hlocal : p'.node.localId = p.node.localId)
    (hrows : p'.node.waiting.rows = p.node.waiting.rows)
    (hhandles : ∀ handle ∈ p'.handles, Carries w handle) {l₁ l₂ : List (Nat × Caller)}
    (hold : p.pending = l₁ ++ l₂) (hpend : p'.pending = l₁ ++ ((correlation, encode) :: l₂))
    (hnew : correlation ∉ p.pending.map Prod.fst)
    (hunused : ∀ born, ¬ Carries w ⟨⟨n, correlation⟩, born⟩) : Agree w' := by
  have hcarries : ∀ handle, Carries w' handle → Carries w handle := by
    intro handle hc
    rcases carries_put hprocs hnet hreplies hc with hmem | hold
    · exact hhandles handle hmem
    · exact hold
  refine ⟨localId_put h hp hprocs hlocal, ?_, ?_, ?_, hhanded⟩
  · intro m row hrow born hc
    refine h.rows m row ?_ born (hcarries _ hc)
    rw [rowsAt_put hprocs] at hrow
    split at hrow
    · rename_i hm
      subst hm
      rw [rowsAt_of_some hp, ← hrows]
      exact hrow
    · exact hrow
  · intro m row hrow born hc
    rw [pendingAt_put hprocs] at hrow
    split at hrow
    · rename_i hm
      subst hm
      rw [hpend] at hrow
      rcases List.mem_append.mp hrow with h₁ | h₂
      · refine h.pending m row ?_ born (hcarries _ hc)
        rw [pendingAt_of_some hp, hold]
        exact List.mem_append_left _ h₁
      · rcases List.mem_cons.mp h₂ with rfl | h₂
        · exact hunused born (hcarries _ hc)
        · refine h.pending m row ?_ born (hcarries _ hc)
          rw [pendingAt_of_some hp, hold]
          exact List.mem_append_right _ h₂
    · exact h.pending m row hrow born (hcarries _ hc)
  · intro m
    rw [pendingAt_put hprocs]
    split
    · rename_i hm
      subst hm
      have hnodup := h.distinct m
      rw [pendingAt_of_some hp, hold] at hnodup
      rw [hold] at hnew
      rw [hpend, List.map_append, List.map_cons, List.nodup_middle, ← List.map_append]
      exact List.nodup_cons.mpr ⟨hnew, hnodup⟩
    · exact h.distinct m

/-- Inserting a callback under a correlation minted for it: from here on there
is a handle that carries it. -/
theorem agree_insert (h : Agree w) (hp : w.procs n = some p)
    (hprocs : w'.procs = (w.put n p').procs) (hnet : w'.net = w.net)
    (hreplies : w'.replies = w.replies) (hhanded : AnswersReachAsker w')
    (hlocal : p'.node.localId = p.node.localId)
    (hrows : ∀ row ∈ p'.node.waiting.rows,
      row = (correlation, encode) ∨ row.1 ≠ correlation ∧ row ∈ p.node.waiting.rows)
    (hhandles : ∀ handle ∈ p'.handles, handle = ⟨⟨n, correlation⟩, encode⟩ ∨ Carries w handle)
    {l₁ l₂ : List (Nat × Caller)} (hold : p.pending = l₁ ++ ((correlation, encode) :: l₂))
    (hpend : p'.pending = l₁ ++ l₂) : Agree w' := by
  have hcarries : ∀ handle, Carries w' handle →
      handle = ⟨⟨n, correlation⟩, encode⟩ ∨ Carries w handle := by
    intro handle hc
    rcases carries_put hprocs hnet hreplies hc with hmem | hold
    · exact hhandles handle hmem
    · exact Or.inr hold
  have hunused : ∀ born, ¬ Carries w ⟨⟨n, correlation⟩, born⟩ := by
    refine h.pending n (correlation, encode) ?_
    rw [pendingAt_of_some hp, hold]
    exact List.mem_append_right _ (List.mem_cons_self ..)
  have hnodup := h.distinct n
  rw [pendingAt_of_some hp, hold, List.map_append, List.map_cons, List.nodup_middle,
    ← List.map_append] at hnodup
  obtain ⟨hfresh, hnodup⟩ := List.nodup_cons.mp hnodup
  refine ⟨localId_put h hp hprocs hlocal, ?_, ?_, ?_, hhanded⟩
  · intro m row hrow born hc
    rw [rowsAt_put hprocs] at hrow
    split at hrow
    · rename_i hm
      subst hm
      rcases hrows row hrow with rfl | ⟨hne, hrow⟩
      · rcases hcarries _ hc with heq | hc
        · cases heq
          rfl
        · exact absurd hc (hunused born)
      · rcases hcarries _ hc with heq | hc
        · cases heq
          exact absurd rfl hne
        · exact h.rows m row (rowsAt_of_some hp ▸ hrow) born hc
    · rename_i hm
      rcases hcarries _ hc with heq | hc
      · cases heq
        exact absurd rfl hm
      · exact h.rows m row hrow born hc
  · intro m row hrow born hc
    rw [pendingAt_put hprocs] at hrow
    split at hrow
    · rename_i hm
      subst hm
      rw [hpend] at hrow
      rcases hcarries _ hc with heq | hc
      · cases heq
        exact hfresh (List.mem_map.mpr ⟨row, hrow, rfl⟩)
      · refine h.pending m row ?_ born hc
        rw [pendingAt_of_some hp, hold]
        exact List.Sublist.subset (List.Sublist.append_left (List.sublist_cons_self ..) _) hrow
    · rename_i hm
      rcases hcarries _ hc with heq | hc
      · cases heq
        exact absurd rfl hm
      · exact h.pending m row hrow born hc
  · intro m
    rw [pendingAt_put hprocs]
    split
    · rw [hpend]
      exact hnodup
    · exact h.distinct m

end Register

/-! ## Delivering -/

/-- A callback that is run waited under the reply's correlation. -/
theorem deliverReply_ran {node : ClusterNode} {reply : Reply} {caller : Caller} {payload : Octets}
    (h : (node.deliverReply reply).2 = some (caller, payload)) :
    (reply.correlation, caller) ∈ node.waiting.rows := by
  unfold ClusterNode.deliverReply at h
  cases hget : node.waiting.get? reply.correlation with
  | none => rw [hget] at h; cases h
  | some deliver =>
      rw [hget] at h
      obtain ⟨_, -, heq⟩ := Option.map_eq_some_iff.mp h
      cases heq
      exact OrdMap.get?_eq_some_iff.mp hget

theorem rows_routeReply {node : ClusterNode} {origin : NodeId} {reply : Reply} :
    ∀ row ∈ (node.routeReply origin reply).1.waiting.rows, row ∈ node.waiting.rows := by
  intro row hrow
  unfold ClusterNode.routeReply at hrow
  dsimp only at hrow
  split at hrow
  · exact (ClusterNode.mem_deliverReply.mp hrow).2
  · exact hrow

theorem routeReply_here {node : ClusterNode} {origin : NodeId} {reply : Reply}
    (h : origin = node.localId) :
    (node.routeReply origin reply).2 =
      ({ node with routed := node.routed ++ [(origin, reply)] }.deliverReply reply).2 := by
  unfold ClusterNode.routeReply
  rw [if_pos h]

/-- Running a callback whose row agrees with the handle that answered. -/
theorem handed_append {w : World} {born : Nat} {ran : Option (Caller × Octets)}
    (h : AnswersReachAsker w) (hran : ∀ caller payload, ran = some (caller, payload) →
      caller = born) :
    ∀ entry ∈ w.handed ++ handedBy ran born, entry.callback = entry.born := by
  intro entry hmem
  rcases List.mem_append.mp hmem with hold | hnew
  · exact h entry hold
  · cases ran with
    | none => cases hnew
    | some r =>
        cases List.mem_singleton.mp hnew
        exact hran r.1 r.2 rfl

/-! ## Steps and runs -/

theorem agree_init : Agree World.init where
  localId := nofun
  rows := nofun
  pending := nofun
  distinct := fun _ => List.nodup_nil
  handed := nofun

theorem quiet_start {w w' : World} {n : NodeId} {lifetime : Nat} (h : Agree w)
    (hprocs : w'.procs = (w.put n (Process.start n lifetime)).procs) (hnet : w'.net = w.net)
    (hreplies : w'.replies = w.replies) : Quiet w w' where
  localId := by
    intro m q hq
    rw [hprocs] at hq
    rcases put_procs.mp hq with ⟨rfl, rfl⟩ | ⟨-, hq⟩
    · rfl
    · exact h.localId m q hq
  carries := by
    intro handle hc
    rcases carries_put hprocs hnet hreplies hc with hmem | hold
    · cases hmem
    · exact hold
  rows := by
    intro m row hrow
    rw [rowsAt_put hprocs] at hrow
    split at hrow
    · cases hrow
    · exact hrow
  pending := by
    intro m
    rw [pendingAt_put hprocs]
    split
    · exact List.nil_sublist _
    · exact List.Sublist.refl _

theorem agree_step (w : World) (a : Label) (w' : World) (h : Agree w)
    (hunused : CorrelationUnused w a) (hstep : step w a = some w') : Agree w' := by
  have hnet : ∀ packet ∈ w.net, ∀ handle ∈ packet.handles, Carries w handle :=
    fun _ hpacket _ hmem => .packet hpacket hmem
  have hreplies : ∀ r ∈ w.replies, Carries w ⟨⟨r.dest, r.reply.correlation⟩, r.born⟩ :=
    fun _ hr => .reply hr rfl
  cases step_moves hstep with
  | start hn => exact h.quiet (quiet_start h rfl rfl rfl) h.handed
  | stop => exact h.quiet (Quiet.stop h _) h.handed
  | setServing hp | setLive hp =>
      exact h.quiet (Quiet.put h hp rfl
        (settled_node hp rfl rfl (fun _ => id) (fun _ => carries_held hp)) hnet hreplies) h.handed
  | forget hp =>
      exact h.quiet (Quiet.put h hp rfl (settled_node hp rfl rfl
        (fun _ hrow => (ClusterNode.mem_forget.mp hrow).2) (fun _ => carries_held hp)) hnet
        hreplies) h.handed
  | abandonWaiting hp =>
      exact h.quiet (Quiet.put h hp rfl
        (settled_node hp rfl rfl nofun (fun _ => carries_held hp)) hnet hreplies) h.handed
  | call hp =>
      refine h.quiet (Quiet.put h hp rfl ⟨rfl, ?_, fun _ => id, ?_⟩ hnet hreplies) h.handed
      · intro handle hmem
        refine .process hp ?_
        simpa [Process.handles, Call.start] using hmem
      · simp [Process.pending, Call.start]
  | @mint n k p call hp hk hnew =>
      obtain ⟨hpending, hcarried⟩ := hunused p hp
      have hnumber : pack n p.node.correlations = p.node.mintCorrelation.1 := by
        rw [← h.localId n p hp]
        rfl
      rw [hnumber] at hpending hcarried
      obtain ⟨l₁, l₂, hold, hset⟩ := filterMap_set Call.pending hk
        { call with pending := some (p.node.mintCorrelation.1, w.encodes) }
      rw [hnew.1] at hold
      refine agree_mint h hp rfl rfl rfl h.handed rfl rfl ?_ hold hset hpending hcarried
      exact handles_set rfl (fun _ => carries_held hp) (fun _ hc _ => carries_call hp hc)
        (fun _ => carries_call hp (List.mem_of_getElem? hk))
  | @insert n k p call correlation encode hp hk hpend =>
      obtain ⟨l₁, l₂, hold, hset⟩ := filterMap_set Call.pending hk
        { call with
          pending := none
          handles := call.handles ++ [⟨⟨p.node.localId, correlation⟩, encode⟩] }
      rw [hpend] at hold
      refine agree_insert h hp rfl rfl rfl h.handed rfl ?_ ?_ hold hset
      · intro row hrow
        exact OrdMap.mem_insert.mp (OrdMap.mem_of_mem_trim hrow)
      · refine handles_set rfl (fun _ hmem => Or.inr (carries_held hp hmem))
          (fun _ hc _ hmem => Or.inr (carries_call hp hc hmem)) ?_
        intro handle hmem
        rcases List.mem_append.mp hmem with hold | hnew
        · exact Or.inr (carries_call hp (List.mem_of_getElem? hk) hold)
        · left
          rw [List.mem_singleton.mp hnew, h.localId n p hp]
  | forward hp hk hi hnew =>
      refine h.quiet (Quiet.put h hp rfl (settled_set hp hk rfl rfl rfl
        (fun _ => List.mem_of_mem_eraseIdx) rfl ?_) hnet hreplies) h.handed
      intro handle hmem
      rcases List.mem_append.mp hmem with hold | hnew
      · exact carries_call hp (List.mem_of_getElem? hk) hold
      · rw [List.mem_singleton.mp hnew]
        exact carries_held hp (List.mem_of_getElem? hi)
  | nextMessageId hp hk hnew =>
      exact h.quiet (Quiet.put h hp rfl (settled_set hp hk rfl rfl rfl (fun _ => id) rfl
        (fun _ => carries_call hp (List.mem_of_getElem? hk))) hnet hreplies) h.handed
  | attempt hp hk hid =>
      refine h.quiet (Quiet.put h hp rfl (settled_set hp hk rfl rfl rfl (fun _ => id) rfl
        (fun _ => carries_call hp (List.mem_of_getElem? hk))) ?_ hreplies) h.handed
      intro packet hpacket
      rcases List.mem_append.mp hpacket with hold | hnew
      · exact hnet packet hold
      · rw [List.mem_singleton.mp hnew]
        exact fun _ => carries_call hp (List.mem_of_getElem? hk)
  | finish hp hk hpend =>
      refine h.quiet (Quiet.put h hp rfl ⟨rfl, ?_, fun _ => id, ?_⟩ hnet hreplies) h.handed
      · intro handle hmem
        rcases List.mem_append.mp hmem with hheld | hcall
        · exact carries_held hp hheld
        · obtain ⟨c, hc, hin⟩ := List.mem_flatMap.mp hcall
          exact carries_call hp (List.mem_of_mem_eraseIdx hc) hin
      · exact (List.eraseIdx_sublist ..).filterMap _
  | refuse | lose =>
      exact h.quiet (Quiet.fewer h rfl (fun _ => List.mem_of_mem_eraseIdx) (fun _ => id)) h.handed
  | loseReply =>
      exact h.quiet (Quiet.fewer h rfl (fun _ => id) (fun _ => List.mem_of_mem_eraseIdx)) h.handed
  | accept hj hp hnew htaken =>
      refine h.quiet (Quiet.put h hp rfl (settled_node hp rfl rfl (fun _ => id) ?_)
        (fun packet hmem => hnet packet (List.mem_of_mem_eraseIdx hmem)) hreplies) h.handed
      intro handle hmem
      rcases List.mem_append.mp hmem with hold | hnew
      · exact carries_held hp hold
      · exact hnet _ (List.mem_of_getElem? hj) handle (htaken.subset hnew)
  | @respondHere n i payload p handle hp hi hhere =>
      have hcarried := carries_held hp (List.mem_of_getElem? hi)
      have horigin := hhere.trans (h.localId n p hp)
      refine h.quiet (Quiet.put h hp rfl (settled_node hp rfl (routeReply_localId _ _ _).1
        rows_routeReply (fun _ hmem => carries_held hp (List.mem_of_mem_eraseIdx hmem))) hnet
        hreplies) (handed_append h.handed ?_)
      intro caller bytes hran
      rw [routeReply_here hhere] at hran
      have hrow := deliverReply_ran hran
      refine h.rows n (handle.wire.correlation, caller) (rowsAt_of_some hp ▸ hrow) handle.born ?_
      rw [← horigin]
      exact hcarried
  | @respondThere n i payload p handle hp hi hthere =>
      refine h.quiet (Quiet.put h hp rfl (settled_node hp rfl (routeReply_localId _ _ _).1
        rows_routeReply (fun _ hmem => carries_held hp (List.mem_of_mem_eraseIdx hmem))) hnet ?_)
        h.handed
      intro r hr
      rcases List.mem_append.mp hr with hold | hnew
      · exact hreplies r hold
      · rw [List.mem_singleton.mp hnew]
        exact carries_held hp (List.mem_of_getElem? hi)
  | @deliver j r p hj hp =>
      refine h.quiet (Quiet.put h hp rfl (settled_node hp rfl (deliverReply_localId _ _).1
        (fun _ hrow => (ClusterNode.mem_deliverReply.mp hrow).2) (fun _ => carries_held hp)) hnet
        (fun r hmem => hreplies r (List.mem_of_mem_eraseIdx hmem))) (handed_append h.handed ?_)
      intro caller bytes hran
      have hrow := deliverReply_ran hran
      exact h.rows r.dest (r.reply.correlation, caller) (rowsAt_of_some hp ▸ hrow) r.born
        (hreplies r (List.mem_of_getElem? hj))

/-- **An answer reaches only the caller that asked for it**, in every run in
which no correlation is minted while something still carries it. -/
theorem answersReachAsker_of_unused (l : List Label) (w : World)
    (hrun : Schedule.run step World.init l = some w)
    (hunused : Schedule.Along step CorrelationUnused World.init l) : AnswersReachAsker w :=
  (Schedule.run_invariant agree_step l agree_init hunused hrun).handed

/-- Node 1 asks, through a shard of node 2. -/
def asked : List Label :=
  [.start ⟨1⟩, .setLive ⟨1⟩ [⟨2⟩], .call ⟨1⟩ "counter" "c1", .mint ⟨1⟩ 0, .insert ⟨1⟩ 0,
    .nextMessageId ⟨1⟩ 0, .attempt ⟨1⟩ 0]

/-- Node 2 takes the handle and answers. -/
def answered : List Label :=
  [.start ⟨2⟩, .setServing ⟨2⟩ true, .arrive 0 [⟨⟨⟨1⟩, pack ⟨1⟩ 0⟩, 0⟩], .respond ⟨2⟩ 0 (some [7])]

theorem answersReachAsker_roundTrip :
    ∃ w, Schedule.run step World.init (asked ++ answered ++ [.deliver 0]) = some w ∧
      AnswersReachAsker w := by
  refine ⟨_, rfl, answersReachAsker_of_unused (asked ++ answered ++ [.deliver 0]) _ rfl ?_⟩
  -- at the one mint of the run there is one process, and it has no handle yet
  refine ⟨trivial, trivial, trivial, ?_, trivial, trivial, trivial, trivial, trivial, trivial,
    trivial, trivial, trivial⟩
  rintro p ⟨⟩
  refine ⟨List.not_mem_nil, fun born hc => ?_⟩
  cases hc with
  | process hq hmem =>
      rcases put_procs.mp hq with ⟨-, rfl⟩ | ⟨hne, hq⟩
      · cases hmem
      · simp [World.put, World.init, hne] at hq
  | packet hpacket hmem => cases hpacket
  | reply hr heq => cases hr

/-- The answer of node 2 is still on its way when node 1 is started again and
asks under the same correlation. -/
def askedAgain : List Label :=
  asked ++ answered ++
    [.stop ⟨1⟩, .start ⟨1⟩, .call ⟨1⟩ "counter" "c1", .mint ⟨1⟩ 0, .insert ⟨1⟩ 0, .deliver 0]

/-- The second caller gets the answer to the first caller's request. -/
theorem restart_misdirects_answer :
    ¬ ∀ (l : List Label) (w : World), Schedule.run step World.init l = some w →
      AnswersReachAsker w := by
  intro h
  have hanswer := h askedAgain _ rfl ⟨1, 0⟩ (List.mem_singleton_self _)
  cases hanswer

end HorsieActor.Ports.Net
