import HorsieActor.Ports.FailedForward

/-!
# Who is told when an arrival is refused

The duty to answer a command that arrives from another node is a handle in its
payload.  Until the payload is decoded there is nobody to drop that handle:
`dispatch` that refuses before (`not serving`, an unknown shard type, no wire
format, no router context) or a decode that fails before it reaches the handle
says nothing to the node that is waiting.

`refusedFailsCaller_iff` says exactly when a refusal reaches the caller: the
envelope is a repeat, or the payload is read far enough for the handle to be
taken.  `refusal_told_once_read` puts it by what is refused: a node without
quorum refuses before it reads anything, on purpose, and every command a serving
node has decoded is refused to its caller too.
-/

namespace HorsieActor.Ports

open HorsieActor.Verified

/-! ## The property -/

/-- On the node that asked, whatever it is doing, the arrival of a reply ends
the wait it names. -/
def EndsWait (reply : Reply) : Prop :=
  ∀ (asker : System) (meanwhile : Meanwhile),
    ∀ node ∈ (asker.dispatch (.reply reply) meanwhile).2.cluster,
      ∀ row ∈ node.waiting.rows, row.1 ≠ reply.correlation

/-- A command that is refused fails the caller behind `wire`: an abandon for
its correlation is routed to its origin, where its arrival ends the wait. -/
def RefusedFailsCaller (sys : System) (env : Envelope) (meanwhile : Meanwhile) (wire : Wire) :
    Prop :=
  (sys.dispatch (.command env) meanwhile).1 ≠ .ok () →
    (wire.origin, ⟨wire.correlation, none⟩) ∈
        routedSince sys (sys.dispatch (.command env) meanwhile).2 ∧
      EndsWait ⟨wire.correlation, none⟩

/-! ## The condition -/

/-- The values from position `k` on are read far enough to take the handle. -/
def TakenFrom (reader : Reader) (k : Nat) (payload : Payload) (wire : Wire) : Prop :=
  ∃ i, payload[i]? = some (.handle wire) ∧ reader.read (k + i) (.handle wire) = .take ∧
    ∀ j < i, ∀ value, payload[j]? = some value → reader.read (k + j) value ≠ .refuse

/-- The node takes the handle out of the envelope: it serves, and the envelope
is a repeat or is for a shard type this node knows, in a wire format it knows,
with a router to take handles in, and no value before the handle is refused. -/
def TakesHandle (sys : System) (env : Envelope) (wire : Wire) : Prop :=
  sys.mayServe = true ∧
    (env.messageId ∈ sys.seen.seen ∨
      sys.cluster ≠ none ∧ ∃ shard reader, sys.shards.lookup env.typeName = some shard ∧
        sys.wires.lookup shard.command = some reader ∧ TakenFrom reader 0 env.payload wire)

/-- The reasons `dispatch` has to refuse a command it has decoded.  A node that
is not serving gives the first of them too, before it decodes anything. -/
def DispatchError.decoded : DispatchError → Bool
  | .resolve _ | .noActor _ | .mailboxClosed => true
  | .unknownShardType _ | .decode _ _ => false

/-- The envelope was encoded from a command that held the handle, and whoever
reads that command type here takes its handles or refuses the payload. -/
structure Arrival (sys : System) (env : Envelope) (wire : Wire) : Prop where
  encoded : ∃ (sender : ClusterNode) (cmd : Command),
    (encodeFields sender cmd).1 = .ok env.payload
  held : wire ∈ env.payload.wires
  reads : ∀ shard reader, sys.shards.lookup env.typeName = some shard →
    sys.wires.lookup shard.command = some reader →
    ∀ i wire, env.payload[i]? = some (.handle wire) → reader.read i (.handle wire) ≠ .skip

/-! ## Reading -/

theorem wiresOf_cons (field : Field) (rest : List Field) :
    wiresOf (field :: rest) = field.wire?.toList ++ wiresOf rest := by
  unfold wiresOf
  rw [List.filterMap_cons]
  cases field.wire? <;> rfl

theorem takenFrom_cons {reader : Reader} {k : Nat} {value : WireValue} {rest : Payload}
    {wire : Wire} :
    TakenFrom reader k (value :: rest) wire ↔
      value = .handle wire ∧ reader.read k value = .take ∨
        reader.read k value ≠ .refuse ∧ TakenFrom reader (k + 1) rest wire := by
  constructor
  · rintro ⟨i, hi, htake, hbefore⟩
    cases i with
    | zero =>
        cases hi
        exact Or.inl ⟨rfl, htake⟩
    | succ i =>
        refine Or.inr ⟨hbefore 0 (Nat.succ_pos i) value rfl, i, hi, ?_, ?_⟩
        · rw [Nat.add_right_comm]
          exact htake
        · intro j hj v hv
          rw [Nat.add_right_comm]
          exact hbefore (j + 1) (Nat.succ_lt_succ hj) v hv
  · rintro (⟨rfl, htake⟩ | ⟨hread, i, hi, htake, hbefore⟩)
    · exact ⟨0, rfl, htake, fun j hj => absurd hj (Nat.not_lt_zero j)⟩
    · refine ⟨i + 1, hi, ?_, ?_⟩
      · rw [Nat.add_right_comm] at htake
        exact htake
      · intro j hj v hv
        cases j with
        | zero =>
            cases hv
            exact hread
        | succ j =>
            have := hbefore j (Nat.lt_of_succ_lt_succ hj) v hv
            rw [Nat.add_right_comm] at this
            exact this

/-- The armed handles a read leaves are those it took. -/
theorem mem_wiresOf_readValues {reader : Reader} {wire : Wire} {payload : Payload} :
    ∀ {k : Nat}, wire ∈ wiresOf (readValues reader true k payload).1 ↔
      TakenFrom reader k payload wire := by
  induction payload with
  | nil =>
      intro k
      refine ⟨fun h => (nomatch h), ?_⟩
      rintro ⟨i, hi, -⟩
      cases hi
  | cons value rest ih =>
      intro k
      rw [takenFrom_cons, ← ih, readValues]
      cases hread : reader.read k value with
      | refuse => simp [wiresOf]
      | skip => simp
      | take =>
          cases value with
          | data bytes => simp [takeValue, wiresOf_cons, Field.wire?]
          | handle w => simp [takeValue, wiresOf_cons, Field.wire?, ReplyTo.fromWire, eq_comm]

/-- A read that goes through refused nothing, and took every value it did not
skip. -/
theorem read_of_ok {reader : Reader} {inContext : Bool} {payload : Payload} :
    ∀ {k : Nat}, (readValues reader inContext k payload).2 = true →
      ∀ i value, payload[i]? = some value →
        reader.read (k + i) value = .skip ∨
          reader.read (k + i) value = .take ∧ (takeValue inContext value).isSome = true := by
  induction payload with
  | nil =>
      intro k _ i value hi
      cases hi
  | cons first rest ih =>
      intro k hok
      have hfirst : (reader.read k first = .skip ∨
          reader.read k first = .take ∧ (takeValue inContext first).isSome = true) ∧
          (readValues reader inContext (k + 1) rest).2 = true := by
        rw [readValues] at hok
        cases hread : reader.read k first with
        | refuse => rw [hread] at hok; cases hok
        | skip => rw [hread] at hok; exact ⟨Or.inl rfl, hok⟩
        | take =>
            rw [hread] at hok
            cases hv : takeValue inContext first with
            | none => rw [hv] at hok; cases hok
            | some field => rw [hv] at hok; exact ⟨Or.inr ⟨rfl, rfl⟩, hok⟩
      intro i value hi
      cases i with
      | zero =>
          cases hi
          exact hfirst.1
      | succ i =>
          rw [show k + (i + 1) = k + 1 + i by omega]
          exact ih hfirst.2 i value hi

/-! ## Refusals -/

section Refusal

variable {sys : System} {env : Envelope} {meanwhile : Meanwhile} {wire : Wire} {shard : Shard}
  {reader : Reader}

theorem mem_wires {payload : Payload} (h : wire ∈ payload.wires) :
    ∃ i : Nat, payload[i]? = some (WireValue.handle wire) := by
  obtain ⟨value, hvalue, heq⟩ := List.mem_filterMap.mp h
  obtain ⟨i, hi⟩ := List.mem_iff_getElem?.mp hvalue
  cases value with
  | data bytes => cases heq
  | handle w =>
      cases heq
      exact ⟨i, hi⟩

/-- Replies end the wait they name whatever else is going on. -/
theorem endsWait (reply : Reply) : EndsWait reply := by
  intro asker meanwhile node hnode row hrow
  obtain ⟨before, -, rfl⟩ := Option.map_eq_some_iff.mp hnode
  exact (ClusterNode.mem_deliverReply.mp hrow).1

/-- A payload read in a node: a refusal drops what was read, and only that. -/
theorem receive_refused {id : Nat} {payload : Payload} {node : ClusterNode}
    (hreader : sys.wires.lookup shard.command = some reader) (hnode : sys.cluster = some node)
    (herr : (sys.receive shard id payload meanwhile).1 ≠ .ok ()) :
    (sys.receive shard id payload meanwhile).2.cluster =
      some (dropFields node (readValues reader true 0 payload).1) := by
  unfold System.receive at herr ⊢
  simp only [hreader, decodeFields, hnode, Option.isSome_some] at herr ⊢
  by_cases hok : ((readValues reader true 0 payload).2 && reader.complete payload) = true
  · simp only [hok, if_true] at herr ⊢
    generalize ({ sys with cluster := some node } : System).ensureActor shard _ meanwhile = built
      at herr ⊢
    cases built with
    | error e => rfl
    | ok host =>
        dsimp only at herr ⊢
        generalize (meanwhile 1 host).resolve shard.command _ = found at herr ⊢
        cases found with
        | none => rfl
        | some inst =>
            dsimp only at herr ⊢
            split
            · rename_i halive
              rw [if_pos halive] at herr
              exact absurd rfl herr
            · rfl
  · rw [if_neg hok]
    rfl

/-- A payload whose handles are not skipped is refused unless they are taken. -/
theorem receive_refuses (meanwhile : Meanwhile) (id : Nat) {payload : Payload}
    (hreader : sys.wires.lookup shard.command = some reader)
    (hread : (readValues reader sys.cluster.isSome 0 payload).2 = false) :
    (sys.receive shard id payload meanwhile).1 ≠ .ok () ∧
      (sys.receive shard id payload meanwhile).2.cluster =
        sys.cluster.map fun node =>
          dropFields node (readValues reader sys.cluster.isSome 0 payload).1 := by
  unfold System.receive
  simp only [hreader, decodeFields, hread, Bool.false_and, Bool.false_eq_true, if_false]
  exact ⟨nofun, trivial⟩

theorem mem_routedSince {after : System} {node : ClusterNode} {fields : List Field}
    (hnode : sys.cluster = some node) (hafter : after.cluster = some (dropFields node fields)) :
    (wire.origin, ⟨wire.correlation, none⟩) ∈ routedSince sys after ↔ wire ∈ wiresOf fields := by
  simp only [routedSince, hnode, hafter, dropFields_routed, List.drop_left, List.mem_map,
    Prod.mk.injEq, Reply.mk.injEq, and_true]
  constructor
  · rintro ⟨w, hw, ho, hc⟩
    have : w = wire := by
      obtain ⟨o, c⟩ := w
      cases ho
      cases hc
      rfl
    exact this ▸ hw
  · exact fun h => ⟨wire, h, rfl, rfl⟩

/-- A refusal that leaves the node as it was tells nobody. -/
theorem not_mem_routedSince {after : System} (h : after.cluster = sys.cluster)
    (entry : NodeId × Reply) : entry ∉ routedSince sys after := by
  unfold routedSince
  rw [h]
  cases sys.cluster with
  | none => exact List.not_mem_nil
  | some node => simp

/-- Reading a payload through takes every handle that is not skipped, and takes
it inside a router context. -/
theorem taken_of_read {payload : Payload} (hheld : wire ∈ payload.wires)
    (hskip : ∀ (i : Nat) wire, payload[i]? = some (WireValue.handle wire) →
      reader.read i (.handle wire) ≠ .skip)
    (hok : (readValues reader sys.cluster.isSome 0 payload).2 = true) :
    sys.cluster ≠ none ∧ TakenFrom reader 0 payload wire := by
  obtain ⟨i, hi⟩ := mem_wires hheld
  have hread := read_of_ok hok
  simp only [Nat.zero_add] at hread
  obtain ⟨htake, hcontext⟩ := (hread i _ hi).resolve_left (hskip i wire hi)
  refine ⟨fun hnone => ?_, i, hi, ?_, ?_⟩
  · rw [hnone] at hcontext
    cases hcontext
  · rw [Nat.zero_add]
    exact htake
  · intro j _ value hj hrefuse
    rw [Nat.zero_add] at hrefuse
    rcases hread j value hj with h | ⟨h, -⟩
    · rw [hrefuse] at h; cases h
    · rw [hrefuse] at h; cases h

/-- A receiver that refuses a decoded command had read its payload through. -/
theorem receive_decoded {id : Nat} {payload : Payload} {e : DispatchError}
    (herr : (sys.receive shard id payload meanwhile).1 = .error e) (hdec : e.decoded = true) :
    ∃ reader, sys.wires.lookup shard.command = some reader ∧
      (readValues reader sys.cluster.isSome 0 payload).2 = true := by
  unfold System.receive at herr
  cases hreader : sys.wires.lookup shard.command with
  | none =>
      simp only [hreader] at herr
      cases herr
      cases hdec
  | some reader =>
      refine ⟨reader, rfl, ?_⟩
      by_contra hread
      simp only [hreader, decodeFields, Bool.not_eq_true _ ▸ hread, Bool.false_and,
        Bool.false_eq_true, if_false] at herr
      cases herr
      cases hdec

/-- A refusing receiver tells the caller behind a handle exactly when there is
a node to take the handle in and reading gets that far. -/
theorem receive_tells_iff (sys : System) (meanwhile : Meanwhile) (id : Nat) {payload : Payload}
    (hreader : sys.wires.lookup shard.command = some reader) (hheld : wire ∈ payload.wires)
    (hskip : ∀ (i : Nat) wire, payload[i]? = some (WireValue.handle wire) →
      reader.read i (.handle wire) ≠ .skip) :
    ((sys.receive shard id payload meanwhile).1 ≠ .ok () →
        (wire.origin, ⟨wire.correlation, none⟩) ∈
          routedSince sys (sys.receive shard id payload meanwhile).2) ↔
      sys.cluster ≠ none ∧ TakenFrom reader 0 payload wire := by
  constructor
  · intro htells
    by_cases hok : (readValues reader sys.cluster.isSome 0 payload).2 = true
    · exact taken_of_read hheld hskip hok
    · obtain ⟨herr, hcluster⟩ := receive_refuses meanwhile id hreader
        (Bool.not_eq_true _ ▸ hok)
      have hmem := htells herr
      cases hnode : sys.cluster with
      | none =>
          rw [hnode] at hcluster
          exact absurd hmem (not_mem_routedSince (hcluster.trans hnode.symm) _)
      | some node =>
          rw [hnode] at hcluster
          exact ⟨nofun, mem_wiresOf_readValues.mp ((mem_routedSince hnode hcluster).mp hmem)⟩
  · rintro ⟨hne, htaken⟩ herr
    obtain ⟨node, hnode⟩ := Option.ne_none_iff_exists'.mp hne
    exact (mem_routedSince hnode (receive_refused hreader hnode herr)).mpr
      (mem_wiresOf_readValues.mpr htaken)

theorem dispatch_notServing (h : sys.mayServe = false) :
    sys.dispatch (.command env) meanwhile = (.error (.resolve .notServing), sys) := by
  simp [System.dispatch, h]

theorem dispatch_repeat (h : sys.mayServe = true) (hseen : env.messageId ∈ sys.seen.seen) :
    sys.dispatch (.command env) meanwhile = (.ok (), sys) := by
  simp [System.dispatch, h, Dedup.accept, Dedup.acceptId_of_mem hseen]

/-- A new envelope goes to the receiver of its shard type. -/
theorem dispatch_new (meanwhile : Meanwhile) (h : sys.mayServe = true)
    (hseen : env.messageId ∉ sys.seen.seen) :
    sys.dispatch (.command env) meanwhile =
      let sys := { sys with seen := (sys.seen.acceptId env.messageId).2 }
      match sys.shards.lookup env.typeName with
      | none => (.error (.unknownShardType env.typeName), sys)
      | some shard => sys.receive shard env.messageId env.payload meanwhile := by
  have hnew := Dedup.acceptId_fst sys.seen env.messageId
  simp only [System.dispatch, h, if_true, Dedup.accept]
  generalize sys.seen.acceptId env.messageId = out at hnew ⊢
  obtain ⟨fresh, seen⟩ := out
  have hfresh : fresh = true := by simpa [hseen] using hnew
  subst hfresh
  rfl

theorem takesHandle_new (hserve : sys.mayServe = true) (hseen : env.messageId ∉ sys.seen.seen) :
    TakesHandle sys env wire ↔
      sys.cluster ≠ none ∧ ∃ shard reader, sys.shards.lookup env.typeName = some shard ∧
        sys.wires.lookup shard.command = some reader ∧ TakenFrom reader 0 env.payload wire := by
  simp [TakesHandle, hserve, hseen]

end Refusal

/-! ## The result -/

/-- **When a refusal reaches the caller.**  Exactly when the node takes the
handle out of the envelope before it refuses, or does not refuse a repeat. -/
theorem refusedFailsCaller_iff (sys : System) (env : Envelope) (meanwhile : Meanwhile)
    (wire : Wire) (harr : Arrival sys env wire) :
    RefusedFailsCaller sys env meanwhile wire ↔ TakesHandle sys env wire := by
  unfold RefusedFailsCaller
  cases hserve : sys.mayServe with
  | false =>
      rw [dispatch_notServing hserve]
      refine ⟨fun h => absurd (h nofun).1 (not_mem_routedSince rfl _), fun h => ?_⟩
      rw [h.1] at hserve
      cases hserve
  | true =>
      by_cases hseen : env.messageId ∈ sys.seen.seen
      · rw [dispatch_repeat hserve hseen]
        exact ⟨fun _ => ⟨hserve, Or.inl hseen⟩, fun _ h => absurd rfl h⟩
      · rw [dispatch_new meanwhile hserve hseen, takesHandle_new hserve hseen]
        generalize (sys.seen.acceptId env.messageId).2 = seen
        dsimp only
        cases hshard : sys.shards.lookup env.typeName with
        | none =>
            refine ⟨fun h => absurd (h nofun).1 (not_mem_routedSince rfl _), ?_⟩
            rintro ⟨-, shard, reader, hs, -⟩
            cases hs
        | some shard =>
            dsimp only
            cases hreader : sys.wires.lookup shard.command with
            | none =>
                have hrec : { sys with seen := seen }.receive shard env.messageId env.payload
                    meanwhile = (.error (.decode shard.typeName env.messageId),
                      { sys with seen := seen }) := by
                  simp [System.receive, hreader]
                rw [hrec]
                refine ⟨fun h => absurd (h nofun).1 (not_mem_routedSince rfl _), ?_⟩
                rintro ⟨-, shard', reader, hs, hr, -⟩
                cases hs
                rw [hreader] at hr
                cases hr
            | some reader =>
                have htells := receive_tells_iff { sys with seen := seen } meanwhile env.messageId
                  hreader harr.held (harr.reads shard reader hshard hreader)
                constructor
                · intro h
                  obtain ⟨hne, htaken⟩ := htells.mp fun herr => (h herr).1
                  exact ⟨hne, shard, reader, rfl, hreader, htaken⟩
                · rintro ⟨hne, shard', reader', hs, hr, htaken⟩ herr
                  cases hs
                  rw [hreader] at hr
                  cases hr
                  exact ⟨htells.mpr ⟨hne, htaken⟩ herr, endsWait _⟩

/-- A serving node that refuses a command it has decoded took the handle. -/
theorem takesHandle_of_decoded {sys : System} {env : Envelope} {meanwhile : Meanwhile}
    {wire : Wire} (harr : Arrival sys env wire) (hserve : sys.mayServe = true)
    {e : DispatchError} (herr : (sys.dispatch (.command env) meanwhile).1 = .error e)
    (hdec : e.decoded = true) : TakesHandle sys env wire := by
  by_cases hseen : env.messageId ∈ sys.seen.seen
  · exact ⟨hserve, Or.inl hseen⟩
  · rw [dispatch_new meanwhile hserve hseen] at herr
    cases hshard : sys.shards.lookup env.typeName with
    | none =>
        simp only [hshard] at herr
        cases herr
        cases hdec
    | some shard =>
        simp only [hshard] at herr
        obtain ⟨reader, hreader, hread⟩ := receive_decoded herr hdec
        obtain ⟨hne, htaken⟩ := taken_of_read harr.held
          (harr.reads shard reader hshard hreader) hread
        exact ⟨hserve, Or.inr ⟨hne, shard, reader, hshard, hreader, htaken⟩⟩

/-- **What a refusal owes the caller.**  A node that is not serving refuses ahead
of the window and the decode, and is left as it was.  A serving node that
refuses a command it has decoded, or whose decode fails past the handle, fails
the caller behind it. -/
theorem refusal_told_once_read (sys : System) (env : Envelope) (meanwhile : Meanwhile)
    (wire : Wire) (harr : Arrival sys env wire) :
    (sys.mayServe = false →
        sys.dispatch (.command env) meanwhile = (.error (.resolve .notServing), sys)) ∧
      (sys.mayServe = true →
        ∀ e, (sys.dispatch (.command env) meanwhile).1 = .error e →
          e.decoded = true ∨ TakesHandle sys env wire →
          (wire.origin, ⟨wire.correlation, none⟩) ∈
              routedSince sys (sys.dispatch (.command env) meanwhile).2 ∧
            EndsWait ⟨wire.correlation, none⟩) := by
  refine ⟨fun hserve => dispatch_notServing hserve, fun hserve e herr hread => ?_⟩
  have htakes : TakesHandle sys env wire := by
    rcases hread with hdec | htakes
    · exact takesHandle_of_decoded harr hserve herr hdec
    · exact htakes
  refine (refusedFailsCaller_iff sys env meanwhile wire harr).mpr htakes ?_
  rw [herr]
  exact nofun

/-! ## Runs of it -/

/-- A member that knows one shard type, whose command is a handle and a number. -/
def memberNode (serving : Bool) : System where
  cluster := some { ClusterNode.start ⟨2⟩ with serving := serving }
  shards := AList.singleton "counter" counterShard
  wires := AList.singleton 7
    { read := fun i _ => if i < 2 then .take else .refuse, complete := fun _ => true }
  seen := Dedup.withCapacity dedupWindow
  host := ⟨∅, 0, ∅⟩

/-- A command of a later version of that type: it has a field too many. -/
def newerCommand : Envelope where
  typeName := "counter"
  messageId := pack ⟨1⟩ 0
  payload := [.handle ⟨⟨1⟩, pack ⟨1⟩ 0⟩, .data [1], .data [2]]

theorem arrival_newerCommand (serving : Bool) :
    Arrival (memberNode serving) newerCommand ⟨⟨1⟩, pack ⟨1⟩ 0⟩ where
  encoded := ⟨ClusterNode.start ⟨1⟩,
    [.reply (ReplyTo.fromSender 0), .data (.ok [1]), .data (.ok [2])], rfl⟩
  held := List.mem_cons_self ..
  reads := by
    rintro _ _ ⟨⟩ ⟨⟩ i wire -
    by_cases hi : i < 2 <;> simp [hi]

/-- A payload refused after its handle was read fails the caller. -/
theorem refusal_told_lateRefusal :
    (memberNode true).dispatch (.command newerCommand) (fun _ host => host) =
        (.error (.decode "counter" (pack ⟨1⟩ 0)),
          ((memberNode true).dispatch (.command newerCommand) (fun _ host => host)).2) ∧
      (⟨1⟩, ⟨pack ⟨1⟩ 0, none⟩) ∈ routedSince (memberNode true)
        ((memberNode true).dispatch (.command newerCommand) (fun _ host => host)).2 :=
  ⟨rfl, ((refusal_told_once_read _ _ _ _ (arrival_newerCommand true)).2 rfl _ rfl
    (Or.inr ⟨rfl, Or.inr ⟨nofun, _, _, rfl, rfl, 0, rfl, rfl,
      fun j hj => absurd hj (Nat.not_lt_zero j)⟩⟩)).1⟩

/-- A node that is not serving refuses before there is a handle to drop. -/
theorem refusal_unread_strands_caller :
    ¬ ∀ (sys : System) (env : Envelope) (meanwhile : Meanwhile) (wire : Wire),
      Arrival sys env wire → RefusedFailsCaller sys env meanwhile wire := by
  intro h
  have htold := h (memberNode false) newerCommand (fun _ host => host) ⟨⟨1⟩, pack ⟨1⟩ 0⟩
    (arrival_newerCommand false)
  unfold RefusedFailsCaller at htold
  rw [dispatch_notServing rfl] at htold
  exact not_mem_routedSince rfl _ (htold nofun).1

end HorsieActor.Ports
