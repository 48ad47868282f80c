import HorsieActor.Ports.System
import HorsieActor.Verified.Schedule
import HorsieActor.Verified.Slots

/-!
# What a repeat is told

`dispatch` answers a repeat with success, because the command has been applied
already.  But a message id goes into the window before the envelope is looked at:
a shard type that is not registered, a payload that does not decode, an actor that
cannot be built or a mailbox that is closed leaves the id there with nothing
delivered, and the retry is told that all is well (`retry_of_failed_is_repeat`).
So is a retry that arrives while the first is still waiting for room in a mailbox.

While every dispatch that is let through finds all it needs (`Deliverable`), or has
left the window when it does not, and no envelope comes a second time while the
first is under way, a repeat is told the truth
(`repeatsDelivered_of_endsDelivered`).

A dispatch is three steps here: the quorum check, the window, and all that
follows; `run_dispatch` says that together they are `System.dispatch`.  Between
them the schedule puts other dispatches, registrations and any change to the
node.
-/

namespace HorsieActor.Ports.Dispatch

open HorsieActor.Verified

/-! ## The machine -/

/-- Where a dispatch of a command stands. -/
inductive Pc where
  /-- `require_serving` has passed. -/
  | checked
  /-- The window has let it through. -/
  | accepted
  /-- `Ok`: the window has seen the id. -/
  | repeated
  /-- `Ok`: the command is in an actor's mailbox. -/
  | enqueued
  | failed (e : DispatchError)
  /-- Cancelled while it waited for room in a mailbox. -/
  | dropped
  deriving DecidableEq

structure Call where
  env : Envelope
  pc : Pc
  deriving DecidableEq

structure World where
  sys : System
  calls : List Call

/-- A node that has seen nothing yet. -/
def World.start (sys : System) : World :=
  { sys := { sys with seen := .withCapacity dedupWindow }, calls := [] }

def World.setPc (w : World) (k : Nat) (env : Envelope) (pc : Pc) : World :=
  { w with calls := w.calls.set k ⟨env, pc⟩ }

/-- `dispatch` behind the window. -/
def deliver (sys : System) (env : Envelope) (meanwhile : Meanwhile) :
    Except DispatchError Unit × System :=
  match sys.shards.lookup env.typeName with
  | none => (.error (.unknownShardType env.typeName), sys)
  | some shard => sys.receive shard env.messageId env.payload meanwhile

def outcome : Except DispatchError Unit → Pc
  | .ok () => .enqueued
  | .error e => .failed e

inductive Label where
  | arrive (env : Envelope)
  | accept (k : Nat)
  | deliver (k : Nat) (meanwhile : Meanwhile)
  | drop (k : Nat)
  | reply (reply : Reply)
  | register (shard : Shard) (reader : Reader)
  /-- Whatever else happens on the node. -/
  | elsewhere (cluster : Option ClusterNode) (host : Host)

def step (w : World) : Label → Option World
  | .arrive env =>
      let pc := if w.sys.mayServe then .checked else .failed (.resolve .notServing)
      some { w with calls := w.calls ++ [⟨env, pc⟩] }
  | .accept k =>
      match w.calls[k]? with
      | some ⟨env, .checked⟩ =>
          match w.sys.seen.accept env with
          | (false, _) => some (w.setPc k env .repeated)
          | (true, seen) =>
              some (({ w with sys := { w.sys with seen := seen } } : World).setPc k env .accepted)
      | _ => none
  | .deliver k meanwhile =>
      match w.calls[k]? with
      | some ⟨env, .accepted⟩ =>
          let (result, sys) := deliver w.sys env meanwhile
          some (({ w with sys := sys } : World).setPc k env (outcome result))
      | _ => none
  | .drop k =>
      match w.calls[k]? with
      | some ⟨env, .accepted⟩ => some (w.setPc k env .dropped)
      | _ => none
  | .reply reply => some { w with sys := (w.sys.dispatch (.reply reply) fun _ host => host).2 }
  | .register shard reader => some { w with sys := (w.sys.register shard reader).2 }
  | .elsewhere cluster host =>
      some { w with sys := { w.sys with cluster := cluster, host := host } }

/-! ## The machine is `dispatch` -/

/-- A node that may not serve refuses. -/
theorem run_dispatch_refused {sys : System} {env : Envelope} (meanwhile : Meanwhile)
    (h : sys.mayServe = false) :
    Schedule.run step ⟨sys, []⟩ [.arrive env] =
        some ⟨sys, [⟨env, .failed (.resolve .notServing)⟩]⟩ ∧
      sys.dispatch (.command env) meanwhile = (.error (.resolve .notServing), sys) := by
  constructor
  · simp [Schedule.run, step, h]
  · simp [System.dispatch, h]

theorem run_dispatch_repeated {sys : System} {env : Envelope} (meanwhile : Meanwhile)
    (h : sys.mayServe = true) (hseen : env.messageId ∈ sys.seen.seen) :
    Schedule.run step ⟨sys, []⟩ [.arrive env, .accept 0] = some ⟨sys, [⟨env, .repeated⟩]⟩ ∧
      sys.dispatch (.command env) meanwhile = (.ok (), sys) := by
  have haccept : sys.seen.accept env = (false, sys.seen) := Dedup.acceptId_of_mem hseen
  constructor
  · simp [Schedule.run, step, h, haccept, World.setPc]
  · simp [System.dispatch, h, haccept]

/-- **The three steps of a dispatch are `System.dispatch`.** -/
theorem run_dispatch {sys : System} {env : Envelope} (meanwhile : Meanwhile)
    (h : sys.mayServe = true) (hnew : env.messageId ∉ sys.seen.seen) :
    Schedule.run step ⟨sys, []⟩ [.arrive env, .accept 0, .deliver 0 meanwhile] =
      some ⟨(sys.dispatch (.command env) meanwhile).2,
        [⟨env, outcome (sys.dispatch (.command env) meanwhile).1⟩]⟩ := by
  have hfst : (sys.seen.accept env).1 = true := by
    rw [Dedup.accept, Dedup.acceptId_fst, decide_eq_true hnew]
  obtain ⟨seen, haccept⟩ : ∃ seen, sys.seen.accept env = (true, seen) := ⟨_, Prod.ext hfst rfl⟩
  have hdispatch : sys.dispatch (.command env) meanwhile =
      deliver { sys with seen := seen } env meanwhile := by
    cases hshard : sys.shards.lookup env.typeName with
    | none => simp only [System.dispatch, h, haccept, deliver, hshard, if_true]
    | some shard => simp only [System.dispatch, h, haccept, deliver, hshard, if_true]
  rw [hdispatch]
  simp [Schedule.run, step, h, haccept, World.setPc]

/-! ## The property -/

/-- A dispatch with this message id stands there. -/
def Has (w : World) (id : Nat) (pc : Pc) : Prop :=
  ∃ (k : Nat) (env : Envelope), w.calls[k]? = some ⟨env, pc⟩ ∧ env.messageId = id

/-- Where a dispatch was told of a repeat, one with the same message id has
enqueued its command. -/
def RepeatsDelivered (w : World) : Prop := ∀ id, Has w id .repeated → Has w id .enqueued

/-- Where the command of an envelope is for. -/
abbrev addressee (shard : Shard) (cmd : Command) : ActorPath := addressOf (contextOf shard cmd)

/-- All that a dispatch behind the window needs: its shard type and wire format are
registered, the payload decodes, the actor answers or can be built on what the first
gap leaves, and in the other two nobody takes it away or closes its mailbox. -/
structure Deliverable (sys : System) (env : Envelope) (meanwhile : Meanwhile) (shard : Shard)
    (reader : Reader) (cmd : Command) : Prop where
  registered : sys.shards.lookup env.typeName = some shard
  format : sys.wires.lookup shard.command = some reader
  decodes : (decodeFields reader sys.cluster env.payload).1 = some cmd
  reachable : (∃ inst, sys.host.resolve shard.command (addressee shard cmd) = some inst) ∨
    sys.mayServe = true ∧
      (meanwhile 0 sys.host).Buildable shard.command (addressee shard cmd)
  stays : ∀ gap host inst, host.resolve shard.command (addressee shard cmd) = some inst →
    (meanwhile gap host).resolve shard.command (addressee shard cmd) = some inst

/-- A dispatch the window has let through finds all it needs, unless its id is out
of the window again; and no envelope gets to the window while a dispatch with its
id is under way. -/
def EndsDelivered (w : World) : Label → Prop
  | .accept k => ∀ env, w.calls[k]? = some ⟨env, .checked⟩ → ¬ Has w env.messageId .accepted
  | .deliver k meanwhile => ∀ env, w.calls[k]? = some ⟨env, .accepted⟩ →
      (∃ shard reader cmd, Deliverable w.sys env meanwhile shard reader cmd) ∨
        env.messageId ∉ w.sys.seen.seen
  | .drop k => ∀ env, w.calls[k]? = some ⟨env, .accepted⟩ → env.messageId ∉ w.sys.seen.seen
  | _ => True

/-! ## What is deliverable is delivered -/

section Delivered

variable {sys : System} {env : Envelope} {meanwhile : Meanwhile} {shard : Shard} {reader : Reader}
  {cmd : Command}

/-- A decode that goes through leaves the node as it was. -/
theorem decodeFields_eq_of_some {router : Option ClusterNode} {payload : Payload}
    (h : (decodeFields reader router payload).1 = some cmd) :
    decodeFields reader router payload = (some cmd, router) := by
  unfold decodeFields at h ⊢
  dsimp only at h ⊢
  split at h
  · rename_i hok
    cases h
    rw [if_pos hok]
  · cases h

theorem Deliverable.ensureActor (h : Deliverable sys env meanwhile shard reader cmd) :
    ∃ host inst, sys.ensureActor shard (addressee shard cmd) meanwhile = .ok host ∧
      host.resolve shard.command (addressee shard cmd) = some inst := by
  unfold System.ensureActor
  cases hfound : sys.host.resolve shard.command (addressee shard cmd) with
  | some inst => exact ⟨sys.host, inst, rfl, hfound⟩
  | none =>
      rcases h.reachable with ⟨inst, hinst⟩ | ⟨hserve, hbuildable⟩
      · rw [hfound] at hinst
        cases hinst
      · exact System.build_of_buildable hserve hbuildable

theorem Deliverable.receive (h : Deliverable sys env meanwhile shard reader cmd) :
    (sys.receive shard env.messageId env.payload meanwhile).1 = .ok () := by
  obtain ⟨host, inst, hensure, hinst⟩ := h.ensureActor
  have hsecond := h.stays 1 host inst hinst
  have hopen := Host.alive_of_resolve (h.stays 2 (meanwhile 1 host) inst hsecond)
  unfold System.receive
  simp only [h.format, decodeFields_eq_of_some h.decodes, hensure, hsecond, hopen, if_true]

theorem Deliverable.deliver (h : Deliverable sys env meanwhile shard reader cmd) :
    (deliver sys env meanwhile).1 = .ok () := by
  unfold Dispatch.deliver
  rw [h.registered]
  exact h.receive

end Delivered

/-! ## The invariant -/

/-- Nothing behind the window touches it. -/
theorem seen_receive (sys : System) (shard : Shard) (messageId : Nat) (payload : Payload)
    (meanwhile : Meanwhile) :
    (sys.receive shard messageId payload meanwhile).2.seen = sys.seen := by
  unfold System.receive
  cases sys.wires.lookup shard.command with
  | none => rfl
  | some reader =>
      dsimp only
      cases hdecoded : decodeFields reader sys.cluster payload with
      | mk cmd cluster =>
          cases cmd with
          | none => rfl
          | some cmd =>
              dsimp only
              split
              · rfl
              · split
                · rfl
                · split
                  · rfl
                  · rfl

theorem seen_deliver (sys : System) (env : Envelope) (meanwhile : Meanwhile) :
    (deliver sys env meanwhile).2.seen = sys.seen := by
  unfold deliver
  cases sys.shards.lookup env.typeName with
  | none => rfl
  | some shard => exact seen_receive sys shard env.messageId env.payload meanwhile

theorem seen_register (sys : System) (shard : Shard) (reader : Reader) :
    (sys.register shard reader).2.seen = sys.seen := by
  unfold System.register
  dsimp only
  split
  · rfl
  · rfl

structure Inv (w : World) : Prop where
  /-- Behind every id in the window there is a dispatch that is under way or has
  delivered. -/
  seen : ∀ id ∈ w.sys.seen.seen, Has w id .accepted ∨ Has w id .enqueued
  repeats : RepeatsDelivered w

theorem inv_start (sys : System) : Inv (World.start sys) := by
  constructor
  · intro id hid
    exact absurd hid (Finset.notMem_empty id)
  · intro id h
    obtain ⟨k, env, hk, -⟩ := h
    cases hk

theorem Inv.of_seen {w : World} (h : Inv w) {sys : System} (hseen : sys.seen = w.sys.seen) :
    Inv { w with sys := sys } := by
  refine ⟨?_, h.repeats⟩
  rw [hseen]
  exact h.seen

theorem outcome_ne_repeated (result : Except DispatchError Unit) : outcome result ≠ .repeated := by
  cases result with
  | ok u => exact nofun
  | error e => exact nofun

section Steps

variable {w : World} {k id : Nat} {env : Envelope} {pc pc' q : Pc}

theorem getElem?_setPc {j : Nat} {call : Call} (hk : w.calls[k]? = some ⟨env, pc⟩) :
    (w.setPc k env pc').calls[j]? = some call ↔
      (j = k ∧ call = ⟨env, pc'⟩) ∨ (j ≠ k ∧ w.calls[j]? = some call) :=
  Slots.getElem?_set_iff hk

theorem has_setPc_self (hk : w.calls[k]? = some ⟨env, pc⟩) :
    Has (w.setPc k env pc') env.messageId pc' :=
  ⟨k, env, (getElem?_setPc hk).mpr (Or.inl ⟨rfl, rfl⟩), rfl⟩

/-- Only the one that moves is no longer where it was. -/
theorem has_setPc (hk : w.calls[k]? = some ⟨env, pc⟩) (hq : q ≠ pc) (h : Has w id q) :
    Has (w.setPc k env pc') id q := by
  obtain ⟨j, env', hj, hid⟩ := h
  refine ⟨j, env', (getElem?_setPc hk).mpr (Or.inr ⟨?_, hj⟩), hid⟩
  intro heq
  subst heq
  cases hk.symm.trans hj
  exact hq rfl

/-- Only the one that moves is where none was. -/
theorem has_of_setPc (hk : w.calls[k]? = some ⟨env, pc⟩) (h : Has (w.setPc k env pc') id q) :
    (q = pc' ∧ env.messageId = id) ∨ Has w id q := by
  obtain ⟨j, env', hj, hid⟩ := h
  rcases (getElem?_setPc hk).mp hj with ⟨-, heq⟩ | ⟨-, hj⟩
  · cases heq
    exact Or.inl ⟨rfl, hid⟩
  · exact Or.inr ⟨j, env', hj, hid⟩

theorem has_arrive_iff (hq : q ≠ pc) :
    Has { w with calls := w.calls ++ [⟨env, pc⟩] } id q ↔ Has w id q := by
  constructor
  · intro h
    obtain ⟨j, env', hj, hid⟩ := h
    rcases Slots.getElem?_snoc_iff.mp hj with ⟨-, heq⟩ | hj
    · cases heq
      exact absurd rfl hq
    · exact ⟨j, env', hj, hid⟩
  · intro h
    obtain ⟨j, env', hj, hid⟩ := h
    exact ⟨j, env', Slots.getElem?_snoc_iff.mpr (Or.inr hj), hid⟩

/-- Those told of a repeat are answered for, if the one that moves is not told
so. -/
theorem repeats_setPc (h : RepeatsDelivered w) (hk : w.calls[k]? = some ⟨env, pc⟩)
    (hpc : pc ≠ .enqueued) (hpc' : pc' ≠ .repeated) : RepeatsDelivered (w.setPc k env pc') := by
  intro id hrepeated
  rcases has_of_setPc hk hrepeated with ⟨heq, -⟩ | hrepeated
  · exact absurd heq.symm hpc'
  · exact has_setPc hk (Ne.symm hpc) (h id hrepeated)

end Steps

theorem inv_arrive {w : World} (h : Inv w) (env : Envelope) {pc : Pc} (hpc : pc ≠ .repeated)
    (hpc' : pc ≠ .accepted) (hpc'' : pc ≠ .enqueued) :
    Inv { w with calls := w.calls ++ [⟨env, pc⟩] } := by
  constructor
  · intro id hid
    exact (h.seen id hid).imp (has_arrive_iff (Ne.symm hpc')).mpr
      (has_arrive_iff (Ne.symm hpc'')).mpr
  · intro id hrepeated
    exact (has_arrive_iff (Ne.symm hpc'')).mpr
      (h.repeats id ((has_arrive_iff (Ne.symm hpc)).mp hrepeated))

/-- The window has the id, and no dispatch with it is under way: one has
delivered. -/
theorem inv_repeated {w : World} {k : Nat} {env : Envelope} (h : Inv w)
    (hk : w.calls[k]? = some ⟨env, .checked⟩) (hseen : env.messageId ∈ w.sys.seen.seen)
    (hidle : ¬ Has w env.messageId .accepted) : Inv (w.setPc k env .repeated) := by
  constructor
  · intro id hid
    exact (h.seen id hid).imp (has_setPc hk nofun) (has_setPc hk nofun)
  · intro id hrepeated
    refine has_setPc hk nofun ?_
    rcases has_of_setPc hk hrepeated with ⟨-, hid⟩ | hrepeated
    · rw [← hid]
      exact (h.seen env.messageId hseen).resolve_left hidle
    · exact h.repeats id hrepeated

theorem inv_accepted {w : World} {k : Nat} {env : Envelope} (h : Inv w)
    (hk : w.calls[k]? = some ⟨env, .checked⟩) :
    Inv (({ w with sys := { w.sys with seen := (w.sys.seen.accept env).2 } } : World).setPc k env
      .accepted) := by
  refine ⟨?_, repeats_setPc h.repeats hk nofun nofun⟩
  intro id hid
  rcases Dedup.mem_seen_acceptId hid with rfl | hid
  · exact Or.inl (has_setPc_self hk)
  · exact (h.seen id hid).imp (has_setPc hk nofun) (has_setPc hk nofun)

/-- A dispatch ends: it has delivered, or the window has forgotten its id. -/
theorem inv_end {w : World} {k : Nat} {env : Envelope} {pc : Pc} (h : Inv w)
    (hk : w.calls[k]? = some ⟨env, .accepted⟩) (hpc : pc ≠ .repeated)
    (hend : pc = .enqueued ∨ env.messageId ∉ w.sys.seen.seen) : Inv (w.setPc k env pc) := by
  refine ⟨?_, repeats_setPc h.repeats hk nofun hpc⟩
  intro id hid
  by_cases heq : id = env.messageId
  · subst heq
    have hpc := hend.resolve_right (not_not.mpr hid)
    subst hpc
    exact Or.inr (has_setPc_self hk)
  · rcases h.seen id hid with haccepted | henqueued
    · obtain ⟨j, env', hj, hid'⟩ := haccepted
      refine Or.inl ⟨j, env', (getElem?_setPc hk).mpr (Or.inr ⟨?_, hj⟩), hid'⟩
      intro hjk
      subst hjk
      cases hk.symm.trans hj
      exact heq hid'.symm
    · exact Or.inr (has_setPc hk nofun henqueued)

theorem inv_step {w w' : World} {a : Label} (h : Inv w) (hC : EndsDelivered w a)
    (hs : step w a = some w') : Inv w' := by
  cases a with
  | arrive env =>
      cases hs
      split
      · exact inv_arrive h env nofun nofun nofun
      · exact inv_arrive h env nofun nofun nofun
  | accept k =>
      simp only [step] at hs
      split at hs
      · rename_i env hk
        split at hs
        · rename_i hrepeat
          cases hs
          refine inv_repeated h hk ?_ (hC env hk)
          have hfst : (w.sys.seen.accept env).1 = false := by rw [hrepeat]
          rw [Dedup.accept, Dedup.acceptId_fst, decide_eq_false_iff_not, not_not] at hfst
          exact hfst
        · rename_i seen hnew
          cases hs
          have hinv := inv_accepted h hk
          rw [hnew] at hinv
          exact hinv
      · cases hs
  | deliver k meanwhile =>
      simp only [step] at hs
      split at hs
      · rename_i env hk
        cases hs
        have hseen := seen_deliver w.sys env meanwhile
        refine inv_end (h.of_seen hseen) hk (outcome_ne_repeated _) ?_
        rcases hC env hk with ⟨shard, reader, cmd, hdeliverable⟩ | hout
        · exact Or.inl (congrArg outcome hdeliverable.deliver)
        · exact Or.inr (fun hid => hout (hseen ▸ hid))
      · cases hs
  | drop k =>
      simp only [step] at hs
      split at hs
      · rename_i env hk
        cases hs
        exact inv_end h hk nofun (Or.inr (hC env hk))
      · cases hs
  | reply reply =>
      cases hs
      exact h.of_seen rfl
  | register shard reader =>
      cases hs
      exact h.of_seen (seen_register w.sys shard reader)
  | elsewhere cluster host =>
      cases hs
      exact h.of_seen rfl

/-! ## The result -/

/-- **A repeat is told the truth**, on any schedule on which every dispatch let
through finds all it needs, and ends before its envelope comes again. -/
theorem repeatsDelivered_of_endsDelivered (sys : System) (l : List Label) (w : World)
    (hC : Schedule.Along step EndsDelivered (World.start sys) l)
    (hrun : Schedule.run step (World.start sys) l = some w) : RepeatsDelivered w :=
  (Schedule.run_invariant (fun _ _ _ => inv_step) l (inv_start sys) hC hrun).repeats

/-! ## Runs of it -/

/-- A node on its own that has no shard type registered yet. -/
def unregistered : System where
  cluster := none
  shards := ∅
  wires := ∅
  seen := .withCapacity dedupWindow
  host := ⟨∅, 0, ∅⟩

def tally : Shard := ⟨"tally", 6, 7, fun _ => "t1", fun _ => "t1"⟩

def takesAll : Reader := { read := fun _ _ => .take, complete := fun _ => true }

def increment : Envelope := ⟨"tally", 1, [.data [1]]⟩

/-- Registered first, then the command and a repeat of it. -/
def deliveredOnce : List Label :=
  [.register tally takesAll, .arrive increment, .accept 0, .deliver 0 fun _ host => host,
    .arrive increment, .accept 1]

theorem along_deliveredOnce :
    Schedule.Along step EndsDelivered (World.start unregistered) deliveredOnce := by
  have hidle : ∀ w : World, (∀ call ∈ w.calls, call.pc ≠ .accepted) → ∀ id,
      ¬ Has w id .accepted := by
    intro w hw id h
    obtain ⟨k, env, hk, -⟩ := h
    exact hw _ (List.mem_of_getElem? hk) rfl
  refine .cons trivial rfl (.cons trivial rfl (.cons ?_ rfl (.cons ?_ rfl (.cons trivial rfl
    (.cons ?_ rfl trivial)))))
  · intro env _
    exact hidle _ (by decide) _
  · intro env hk
    cases hk
    refine Or.inl ⟨tally, takesAll, [.data (.ok [1])], rfl, rfl, rfl, Or.inr ⟨rfl, ?_⟩, ?_⟩
    · exact ⟨⟨"t1", rfl, by decide⟩, fun _ hrow => (by cases hrow), by decide⟩
    · exact fun _ _ _ h => h
  · intro env _
    exact hidle _ (by decide) _

theorem repeatsDelivered_deliveredOnce :
    ∃ w, Schedule.run step (World.start unregistered) deliveredOnce = some w ∧
      w.calls.map Call.pc = [.enqueued, .repeated] ∧ RepeatsDelivered w :=
  ⟨_, rfl, rfl, repeatsDelivered_of_endsDelivered _ _ _ along_deliveredOnce rfl⟩

/-- The same with the registration late: the first is refused, and its repeat is
told that all is well. -/
def refusedOnce : List Label :=
  [.arrive increment, .accept 0, .deliver 0 fun _ host => host, .register tally takesAll,
    .arrive increment, .accept 1]

theorem retry_of_failed_is_repeat :
    ¬ ∀ (sys : System) (l : List Label) (w : World),
      Schedule.run step (World.start sys) l = some w → RepeatsDelivered w := by
  intro hall
  obtain ⟨k, env, hk, -⟩ := hall unregistered refusedOnce _ rfl 1 ⟨1, increment, rfl, rfl⟩
  have hnone : ∀ call ∈ [⟨increment, .failed (.unknownShardType "tally")⟩,
      (⟨increment, .repeated⟩ : Call)], call.pc ≠ .enqueued := by decide
  exact hnone _ (List.mem_of_getElem? hk) rfl

end HorsieActor.Ports.Dispatch
