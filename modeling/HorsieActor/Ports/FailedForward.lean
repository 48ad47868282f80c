import HorsieActor.Ports.System

/-!
# Who is told when a forward fails

A command that has to leave its node is encoded first and sent after.  Encoding
moves the duty to answer off the command: a local handle's sender goes into the
waiting table, a remote handle is disarmed.  When the forward then fails — a
later field does not encode, no member is live, every attempt is refused — the
command is dropped, but dropping it no longer tells the callers whose handles
the encode had reached.

`noCallerStranded_iff` says exactly when every caller is told all the same: no
handle was reached, or each one reached was saved by something else.  The call's
own `ask` cleans up after itself; a row may have been evicted by the rows that
followed it.  Nothing saves a remote handle.
-/

namespace HorsieActor.Ports

open HorsieActor.Verified

/-! ## The property -/

/-- `deliver_to_shard` as its caller sees it.  When the call is an `ask`,
`asking` is the field holding its own handle, and a failure ends the `ask`. -/
def System.tellShard (sys : System) (shard : Shard) (cmd : Command) (meanwhile : Meanwhile)
    (route : ClusterNode.Route) (asking : Option Nat) : Except TellError Unit × System :=
  match sys.deliverToShard shard cmd meanwhile route with
  | (.ok (), _, sys) => (.ok (), sys)
  | (.error e, cmd, sys) =>
      (.error e, match asking with
        | some i => sys.cancel cmd i
        | none => sys)

/-- The replies a node has been asked to route since. -/
def routedSince (before after : System) : List (NodeId × Reply) :=
  match before.cluster, after.cluster with
  | some b, some a => a.routed.drop b.routed.length
  | _, _ => []

/-- The caller behind a handle has been failed: no sender of its channel is
left in the node's waiting table, or its origin is told that no answer is
coming. -/
def CallerFailed (before after : System) (handle : ReplyTo) : Prop :=
  match handle.inner with
  | .localTx tx => ∀ node ∈ after.cluster, ∀ row ∈ node.waiting.rows, some row.2 ≠ tx
  | .remote wire _ => (wire.origin, ⟨wire.correlation, none⟩) ∈ routedSince before after

/-- A failed send fails the caller behind every handle of the command. -/
def NoCallerStranded (sys : System) (shard : Shard) (cmd : Command) (meanwhile : Meanwhile)
    (route : ClusterNode.Route) (asking : Option Nat) : Prop :=
  (sys.tellShard shard cmd meanwhile route asking).1 ≠ .ok () →
    ∀ (i : Nat) (handle : ReplyTo), cmd[i]? = some (Field.reply handle) →
      CallerFailed sys (sys.tellShard shard cmd meanwhile route asking).2 handle

/-! ## The condition -/

/-- The command is encoded for another node. -/
def Forwarded (sys : System) (shard : Shard) (cmd : Command) : Prop :=
  sys.ours shard cmd = false ∧ (sys.wires.lookup shard.command).isSome = true

/-- One of the attempts is accepted, and those before it found an owner. -/
def Accepted (route : ClusterNode.Route) (typeName shardId : String) : Prop :=
  ∃ n < sendAttempts,
    (∃ owner, (route.table n).ownerOf typeName shardId = some owner ∧
      route.transport n owner = .ok ()) ∧
    ∀ m < n, ((route.table m).ownerOf typeName shardId).isSome = true

/-- The handle in field `i` is local, and it is the asking call's own or as
many local handles as the waiting table holds are encoded after it. -/
def Saved (cmd : Command) (asking : Option Nat) (i : Nat) : Prop :=
  ∃ tx, cmd[i]? = some (Field.reply (ReplyTo.fromSender tx)) ∧
    (asking = some i ∨ waitingCapacity ≤ (callersOf ((exposed cmd).drop (i + 1))).length)

/-- What can be said of any command on its way out: its handles are fresh, no
two of them are for one caller or one request, a remote one was decoded in a
cluster, their callers are not in the table yet, and the table holds no more
than it may, all of it minted by this process — which also minted whatever names
it as origin. -/
structure Sendable (sys : System) (cmd : Command) : Prop where
  fresh : FreshFields cmd
  callers : (callersOf cmd).Nodup
  requests : (wiresOf cmd).Nodup
  routable : ∀ wire ∈ wiresOf cmd, sys.cluster ≠ none
  idle : ∀ node ∈ sys.cluster, ∀ row ∈ node.waiting.rows, row.2 ∉ callersOf cmd
  fits : ∀ node ∈ sys.cluster, node.waiting.size ≤ waitingCapacity
  minted : ∀ node ∈ sys.cluster, Minted node
  known : ∀ node ∈ sys.cluster, ∀ wire ∈ wiresOf cmd, wire.origin = node.localId →
    wire.correlation < pack node.localId node.correlations
  room : ∀ node ∈ sys.cluster, node.correlations.toNat + (callersOf cmd).length < 2 ^ 64

/-! ## Sending -/

theorem sendLoop_ok_iff (route : ClusterNode.Route) (typeName shardId : String) (left : Nat) :
    ∀ (attempt : Nat) (last : Option TransportError),
      ClusterNode.sendLoop route typeName shardId left attempt last = .ok () ↔
        ∃ n < left,
          (∃ owner, (route.table (attempt + n)).ownerOf typeName shardId = some owner ∧
            route.transport (attempt + n) owner = .ok ()) ∧
          ∀ m < n, ((route.table (attempt + m)).ownerOf typeName shardId).isSome = true := by
  induction left with
  | zero =>
      intro attempt last
      simp [ClusterNode.sendLoop]
  | succ left ih =>
      intro attempt last
      simp only [ClusterNode.sendLoop]
      cases hown : (route.table attempt).ownerOf typeName shardId with
      | none =>
          refine ⟨fun h => (nomatch h), ?_⟩
          rintro ⟨n, -, ⟨owner, ho, -⟩, hbefore⟩
          cases n with
          | zero => rw [Nat.add_zero, hown] at ho; cases ho
          | succ n =>
              have := hbefore 0 (Nat.succ_pos n)
              rw [Nat.add_zero, hown] at this
              cases this
      | some owner =>
          dsimp only
          cases htr : route.transport attempt owner with
          | ok u =>
              refine ⟨fun _ => ⟨0, Nat.succ_pos left, ⟨owner, hown, htr⟩, ?_⟩, fun _ => rfl⟩
              intro m hm
              exact absurd hm (Nat.not_lt_zero m)
          | error e =>
              dsimp only
              rw [ih]
              constructor
              · rintro ⟨n, hn, hok, hbefore⟩
                refine ⟨n + 1, Nat.succ_lt_succ hn, ?_, ?_⟩
                · rw [show attempt + (n + 1) = attempt + 1 + n by omega]
                  exact hok
                · intro m hm
                  cases m with
                  | zero => rw [Nat.add_zero, hown]; rfl
                  | succ m =>
                      rw [show attempt + (m + 1) = attempt + 1 + m by omega]
                      exact hbefore m (Nat.lt_of_succ_lt_succ hm)
              · rintro ⟨n, hn, hok, hbefore⟩
                cases n with
                | zero =>
                    obtain ⟨owner', ho, hsent⟩ := hok
                    rw [Nat.add_zero] at ho hsent
                    rw [hown] at ho
                    cases ho
                    rw [htr] at hsent
                    cases hsent
                | succ n =>
                    refine ⟨n, Nat.lt_of_succ_lt_succ hn, ?_, ?_⟩
                    · rw [show attempt + 1 + n = attempt + (n + 1) by omega]
                      exact hok
                    · intro m hm
                      rw [show attempt + 1 + m = attempt + (m + 1) by omega]
                      exact hbefore (m + 1) (Nat.succ_lt_succ hm)

theorem send_ok_iff (route : ClusterNode.Route) (typeName shardId : String) :
    ClusterNode.send route typeName shardId = .ok () ↔ Accepted route typeName shardId := by
  rw [ClusterNode.send, sendLoop_ok_iff]
  simp only [Nat.zero_add]
  rfl

/-! ## What the call leaves behind -/

section Outcome

variable {sys : System} {shard : Shard} {cmd : Command} {meanwhile : Meanwhile}
  {route : ClusterNode.Route} {asking : Option Nat} {node : ClusterNode}

@[simp] theorem registerAll_localId (callers : List Caller) :
    ∀ node : ClusterNode, (registerAll node callers).localId = node.localId := by
  induction callers with
  | nil => intro node; rfl
  | cons caller rest ih => intro node; exact ih (node.register caller).2

@[simp] theorem registerAll_routed (callers : List Caller) :
    ∀ node : ClusterNode, (registerAll node callers).routed = node.routed := by
  induction callers with
  | nil => intro node; rfl
  | cons caller rest ih => intro node; exact ih (node.register caller).2

/-- Spent handles are not armed, so dropping them says nothing. -/
theorem wiresOf_spend (localId : NodeId) (fields : List Field) :
    ∀ n : UInt64, wiresOf (spend localId n fields) = [] := by
  induction fields with
  | nil => intro n; rfl
  | cons field rest ih =>
      intro n
      cases field with
      | data encoded => exact ih n
      | reply handle =>
          obtain ⟨inner, deregister⟩ := handle
          cases inner with
          | localTx tx =>
              cases tx with
              | none => exact ih n
              | some tx => exact ih (n + 1)
          | remote wire armed => exact ih n

/-- The correlation the `ask` forgets when it ends, given the command as the
call left it. -/
def cancelKey (cmd : Command) (asking : Option Nat) : Option Nat :=
  asking.bind fun i =>
    match cmd[i]? with
    | some (.reply handle) => handle.deregister
    | _ => none

theorem cancel_cluster (sys : System) (cmd : Command) (i : Nat) :
    (sys.cancel cmd i).cluster =
      match cancelKey cmd (some i) with
      | some key => sys.cluster.map fun node => node.forget key
      | none => sys.cluster := by
  simp only [System.cancel, cancelKey, Option.bind_some]
  cases cmd[i]? with
  | none => rfl
  | some field =>
      cases field with
      | data encoded => rfl
      | reply handle =>
          obtain ⟨inner, deregister⟩ := handle
          cases deregister <;> rfl

/-- A handle that was never encoded has nothing to forget. -/
theorem cancelKey_fresh (h : FreshFields cmd) (asking : Option Nat) :
    cancelKey cmd asking = none := by
  cases asking with
  | none => rfl
  | some i =>
      simp only [cancelKey, Option.bind_some]
      cases hi : cmd[i]? with
      | none => rfl
      | some field =>
          cases field with
          | data encoded => rfl
          | reply handle =>
              rcases h handle (List.mem_of_getElem? hi) with ⟨tx, rfl⟩ | ⟨wire, rfl⟩ <;> rfl

/-- What a failed call leaves in the node, `ask` and all. -/
theorem tellShard_failed
    (h : (sys.tellShard shard cmd meanwhile route asking).1 ≠ .ok ()) :
    (sys.deliverToShard shard cmd meanwhile route).1 ≠ .ok () ∧
      (sys.tellShard shard cmd meanwhile route asking).2.cluster =
        match cancelKey (sys.deliverToShard shard cmd meanwhile route).2.1 asking with
        | some key =>
            (sys.deliverToShard shard cmd meanwhile route).2.2.cluster.map fun node =>
              node.forget key
        | none => (sys.deliverToShard shard cmd meanwhile route).2.2.cluster := by
  unfold System.tellShard at h ⊢
  generalize sys.deliverToShard shard cmd meanwhile route = out at h ⊢
  obtain ⟨result, cmd', sys'⟩ := out
  cases result with
  | ok u => exact absurd rfl h
  | error e =>
      refine ⟨fun h => (nomatch h), ?_⟩
      cases asking with
      | none => rfl
      | some i => exact cancel_cluster sys' cmd' i

theorem tellShard_ok_iff :
    (sys.tellShard shard cmd meanwhile route asking).1 = .ok () ↔
      (sys.deliverToShard shard cmd meanwhile route).1 = .ok () := by
  unfold System.tellShard
  obtain ⟨result, cmd', sys'⟩ := sys.deliverToShard shard cmd meanwhile route
  cases result with
  | ok u => exact ⟨fun _ => rfl, fun _ => rfl⟩
  | error e => exact ⟨fun h => (nomatch h), fun h => (nomatch h)⟩

/-- A command that is not forwarded is dropped as it came. -/
theorem deliver_kept (hkept : ¬ Forwarded sys shard cmd)
    (herr : (sys.deliverToShard shard cmd meanwhile route).1 ≠ .ok ()) :
    (sys.deliverToShard shard cmd meanwhile route).2.1 = cmd ∧
      (sys.deliverToShard shard cmd meanwhile route).2.2.cluster =
        sys.cluster.map fun node => dropFields node cmd := by
  unfold System.deliverToShard at herr ⊢
  dsimp only at herr ⊢
  cases hours : sys.ours shard cmd with
  | true =>
      simp only [hours, if_true] at herr ⊢
      generalize sys.startShardActor shard (contextOf shard cmd) meanwhile = out at herr ⊢
      obtain ⟨result, host⟩ := out
      cases result with
      | error e => exact ⟨rfl, rfl⟩
      | ok inst =>
          dsimp only at herr ⊢
          split
          · rename_i halive
            rw [if_pos halive] at herr
            exact absurd rfl herr
          · exact ⟨rfl, rfl⟩
  | false =>
      have hwire : sys.wires.lookup shard.command = none := by
        by_contra hne
        exact hkept ⟨hours, Option.isSome_iff_ne_none.mpr hne⟩
      cases hc : sys.cluster with
      | none => simp [System.dropCommand, hc]
      | some node => simp [System.dropCommand, hc, hwire]

theorem callersOf_append (a b : List Field) : callersOf (a ++ b) = callersOf a ++ callersOf b :=
  List.filterMap_append

theorem wiresOf_append (a b : List Field) : wiresOf (a ++ b) = wiresOf a ++ wiresOf b :=
  List.filterMap_append

/-- Dropping what an encode leaves of a command drops what it did not reach. -/
theorem dropFields_spend (node : ClusterNode) (localId : NodeId) (n : UInt64)
    (reached rest : List Field) :
    dropFields node (spend localId n reached ++ rest) = dropFields node rest := by
  rw [dropFields_eq, dropFields_eq, wiresOf_append, wiresOf_spend, List.nil_append]

/-- A command that is forwarded: whether the call fails, and what is left of
the command and of the node.  The encode has registered the callers it reached;
if it went through, the node is one message id further, and otherwise the
handles it did not reach are dropped. -/
theorem deliver_left (meanwhile : Meanwhile) (route : ClusterNode.Route)
    (hfwd : Forwarded sys shard cmd) (hnode : sys.cluster = some node)
    (hfresh : FreshFields cmd) :
    ((sys.deliverToShard shard cmd meanwhile route).1 = .ok () ↔
        untouched cmd = [] ∧
          Accepted route shard.typeName (contextOf shard cmd).shardId) ∧
      (sys.deliverToShard shard cmd meanwhile route).2.1 =
        spend node.localId node.correlations (exposed cmd) ++ untouched cmd ∧
      (sys.deliverToShard shard cmd meanwhile route).2.2.seen = sys.seen ∧
      (sys.deliverToShard shard cmd meanwhile route).2.2.cluster = some
        (if untouched cmd = [] then
          (registerAll node (callersOf (exposed cmd))).nextMessageId.2
        else dropFields (registerAll node (callersOf (exposed cmd))) (untouched cmd)) := by
  obtain ⟨hours, hwire⟩ := hfwd
  obtain ⟨reader, hreader⟩ := Option.isSome_iff_exists.mp hwire
  have henc := encodeFields_eq node hfresh
  have hok := encodeFields_isOk node hfresh
  unfold System.deliverToShard
  simp only [hours, hnode, hreader, Bool.false_eq_true, if_false]
  generalize encodeFields node cmd = out at henc hok ⊢
  obtain ⟨result, cmd', n₁⟩ := out
  obtain ⟨rfl, rfl⟩ := Prod.mk.inj henc
  cases result with
  | error e =>
      have hbad : untouched cmd ≠ [] := fun h => nomatch hok.mpr h
      rw [if_neg hbad]
      exact ⟨⟨fun h => (nomatch h), fun h => absurd h.1 hbad⟩, rfl, rfl,
        congrArg some (dropFields_spend _ _ _ _ _)⟩
  | ok payload =>
      have hgood : untouched cmd = [] := hok.mp rfl
      -- nothing is left to drop
      have hdrop : ∀ n₂ : ClusterNode, dropFields n₂
          (spend node.localId node.correlations (exposed cmd) ++ untouched cmd) = n₂ := by
        intro n₂
        rw [dropFields_spend, hgood]
        rfl
      rw [← send_ok_iff, if_pos hgood]
      cases hsend : ClusterNode.send route shard.typeName (contextOf shard cmd).shardId with
      | ok u => exact ⟨⟨fun _ => ⟨hgood, rfl⟩, fun _ => rfl⟩, rfl, rfl, congrArg some (hdrop _)⟩
      | error e =>
          exact ⟨⟨fun h => (nomatch h), fun h => (nomatch h.2)⟩, rfl, rfl,
            congrArg some (hdrop _)⟩

/-- What the node routed and who still waits there after a forward. -/
theorem deliver_forwarded (meanwhile : Meanwhile) (route : ClusterNode.Route)
    (hfwd : Forwarded sys shard cmd) (hnode : sys.cluster = some node)
    (hfresh : FreshFields cmd) :
    ∃ node', (sys.deliverToShard shard cmd meanwhile route).2.2.cluster = some node' ∧
      node'.routed = node.routed ++ (wiresOf (untouched cmd)).map
        (fun wire => (wire.origin, ⟨wire.correlation, none⟩)) ∧
      ∀ row, row ∈ node'.waiting.rows ↔
        (∀ wire ∈ wiresOf (untouched cmd),
          ¬ (wire.origin = node.localId ∧ wire.correlation = row.1)) ∧
        row ∈ (registerAll node (callersOf (exposed cmd))).waiting.rows := by
  obtain ⟨-, -, -, hcluster⟩ := deliver_left meanwhile route hfwd hnode hfresh
  refine ⟨_, hcluster, ?_⟩
  by_cases hnil : untouched cmd = []
  · rw [if_pos hnil, hnil]
    refine ⟨?_, fun row => ⟨fun hrow => ⟨fun wire hm => (nomatch hm), hrow⟩, And.right⟩⟩
    exact (registerAll_routed _ _).trans (List.append_nil _).symm
  · rw [if_neg hnil]
    refine ⟨?_, fun row => ?_⟩
    · rw [dropFields_routed, registerAll_routed]
    · rw [mem_dropFields, registerAll_localId]

/-! ## Turns -/

/-- How many local handles come before field `i`: the turn at which its caller
is registered. -/
def turn (fields : List Field) (i : Nat) : Nat := (callersOf (fields.take i)).length

/-- The callers before, at and after a local handle. -/
theorem callersOf_split {fields : List Field} {i : Nat} {tx : Caller}
    (h : fields[i]? = some (.reply (ReplyTo.fromSender tx))) :
    callersOf fields =
      callersOf (fields.take i) ++ tx :: callersOf (fields.drop (i + 1)) := by
  obtain ⟨hlt, hi⟩ := List.getElem?_eq_some_iff.mp h
  have hsplit : fields = fields.take i ++ fields[i] :: fields.drop (i + 1) := by
    rw [← List.drop_eq_getElem_cons hlt, List.take_append_drop]
  rw [hi] at hsplit
  conv_lhs => rw [hsplit]
  rw [callersOf_append]
  rfl

theorem callersOf_turn {fields : List Field} {i : Nat} {tx : Caller}
    (h : fields[i]? = some (.reply (ReplyTo.fromSender tx))) :
    (callersOf fields)[turn fields i]? = some tx := by
  rw [callersOf_split h, turn, List.getElem?_append_right (Nat.le_refl _), Nat.sub_self]
  rfl

/-- Two local handles with one turn are one handle. -/
theorem turn_inj {fields : List Field} {i j : Nat} {tx ty : Caller}
    (hi : fields[i]? = some (.reply (ReplyTo.fromSender tx)))
    (hj : fields[j]? = some (.reply (ReplyTo.fromSender ty)))
    (h : turn fields i = turn fields j) : i = j := by
  have hlt : ∀ {a b : Nat} {tz : Caller}, fields[a]? = some (.reply (ReplyTo.fromSender tz)) →
      a < b → turn fields a < turn fields b := by
    intro a b tz ha hab
    have hmem : (fields.take b)[a]? = some (.reply (ReplyTo.fromSender tz)) := by
      rw [List.getElem?_take_of_lt hab]
      exact ha
    have hsplit := congrArg List.length (callersOf_split hmem)
    rw [List.take_take, Nat.min_eq_left (Nat.le_of_lt hab), List.length_append,
      List.length_cons] at hsplit
    unfold turn
    omega
  rcases Nat.lt_trichotomy i j with hij | rfl | hji
  · have := hlt hi hij
    omega
  · rfl
  · have := hlt hj hji
    omega

theorem turn_succ (tx : Caller) (deregister : Option Nat) (rest : List Field) (i : Nat) :
    turn (.reply ⟨.localTx (some tx), deregister⟩ :: rest) (i + 1) = turn rest i + 1 := rfl

/-- The slot a spent local handle shares with its `ask` holds the correlation
of its turn. -/
theorem getElem?_spend {fields : List Field} (localId : NodeId) {tx : Caller} :
    ∀ {n : UInt64} {i : Nat}, fields[i]? = some (.reply (ReplyTo.fromSender tx)) →
      (spend localId n fields)[i]? =
        some (.reply ⟨.localTx none,
          some (pack localId (n + UInt64.ofNat (turn fields i)))⟩) := by
  induction fields with
  | nil => intro n i h; simp at h
  | cons field rest ih =>
      intro n i h
      cases i with
      | zero =>
          rw [List.getElem?_cons_zero, Option.some.injEq] at h
          subst h
          simp [spend, ReplyTo.fromSender, turn, callersOf]
      | succ i =>
          rw [List.getElem?_cons_succ] at h
          have hsucc : n + 1 + UInt64.ofNat (turn rest i) =
              n + UInt64.ofNat (turn rest i + 1) := by
            rw [UInt64.ofNat_add, UInt64.add_assoc, UInt64.add_comm 1]
            rfl
          cases field with
          | data encoded => exact ih h
          | reply handle =>
              obtain ⟨inner, deregister⟩ := handle
              cases inner with
              | localTx tx' =>
                  cases tx' with
                  | none => exact ih h
                  | some tx' =>
                      rw [turn_succ, ← hsucc]
                      exact ih h
              | remote wire armed => exact ih h

theorem length_spend (localId : NodeId) (fields : List Field) :
    ∀ n : UInt64, (spend localId n fields).length = fields.length := by
  induction fields with
  | nil => intro n; rfl
  | cons field rest ih =>
      intro n
      cases field with
      | data encoded => exact congrArg Nat.succ (ih n)
      | reply handle =>
          obtain ⟨inner, deregister⟩ := handle
          cases inner with
          | localTx tx =>
              cases tx with
              | none => exact congrArg Nat.succ (ih n)
              | some tx => exact congrArg Nat.succ (ih (n + 1))
          | remote wire armed => exact congrArg Nat.succ (ih n)

/-- Only spent local handles have something to forget. -/
theorem spend_deregister {fields : List Field} (localId : NodeId) {handle : ReplyTo} {key : Nat} :
    ∀ {n : UInt64} {i : Nat}, FreshFields fields →
      (spend localId n fields)[i]? = some (.reply handle) → handle.deregister = some key →
      ∃ tx, fields[i]? = some (.reply (ReplyTo.fromSender tx)) := by
  induction fields with
  | nil => intro n i _ h; simp [spend] at h
  | cons field rest ih =>
      intro n i hfresh h hkey
      cases field with
      | data encoded =>
          cases i with
          | zero => cases h
          | succ i => exact ih hfresh.tail h hkey
      | reply head =>
          rcases hfresh head (List.mem_cons_self ..) with ⟨tx, rfl⟩ | ⟨wire, rfl⟩
          · cases i with
            | zero => exact ⟨tx, rfl⟩
            | succ i => exact ih hfresh.tail h hkey
          · cases i with
            | zero => cases h; cases hkey
            | succ i => exact ih hfresh.tail h hkey

/-- Which correlation a failed `ask` forgets: the one its own handle was
encoded under, if the encode got that far. -/
theorem cancelKey_eq_some_iff (hfresh : FreshFields cmd) (asking : Option Nat)
    (localId : NodeId) (n : UInt64) {key : Nat} :
    cancelKey (spend localId n (exposed cmd) ++ untouched cmd) asking = some key ↔
      ∃ i tx, asking = some i ∧
        (exposed cmd)[i]? = some (.reply (ReplyTo.fromSender tx)) ∧
        key = pack localId (n + UInt64.ofNat (turn (exposed cmd) i)) := by
  have hparts : FreshFields (exposed cmd) ∧ FreshFields (untouched cmd) := by
    rw [← exposed_append_untouched cmd] at hfresh
    exact ⟨fun h hm => hfresh h (List.mem_append_left _ hm),
      fun h hm => hfresh h (List.mem_append_right _ hm)⟩
  constructor
  · intro h
    cases asking with
    | none => cases h
    | some i =>
        simp only [cancelKey, Option.bind_some] at h
        split at h
        · rename_i handle hi
          rw [List.getElem?_append] at hi
          split at hi
          · obtain ⟨tx, htx⟩ := spend_deregister localId hparts.1 hi h
            rw [getElem?_spend localId htx] at hi
            cases hi
            cases h
            exact ⟨i, tx, rfl, htx, rfl⟩
          · rcases hparts.2 handle (List.mem_of_getElem? hi) with ⟨tx, rfl⟩ | ⟨wire, rfl⟩
            · cases h
            · cases h
        · cases h
  · rintro ⟨i, tx, rfl, htx, rfl⟩
    have hlt : i < (spend localId n (exposed cmd)).length := by
      rw [length_spend]
      exact (List.getElem?_eq_some_iff.mp htx).1
    simp only [cancelKey, Option.bind_some, List.getElem?_append_left hlt,
      getElem?_spend localId htx]

/-! ## Each handle -/

/-- The rows a failed forward leaves behind, once the `ask` has cleaned up. -/
theorem mem_failed_forward (hfwd : Forwarded sys shard cmd) (hnode : sys.cluster = some node)
    (hfresh : FreshFields cmd)
    (herr : (sys.tellShard shard cmd meanwhile route asking).1 ≠ .ok ()) :
    ∃ node', (sys.tellShard shard cmd meanwhile route asking).2.cluster = some node' ∧
      node'.routed = node.routed ++ (wiresOf (untouched cmd)).map
        (fun wire => (wire.origin, ⟨wire.correlation, none⟩)) ∧
      ∀ row, row ∈ node'.waiting.rows ↔
        (∀ i tx, asking = some i → (exposed cmd)[i]? = some (.reply (ReplyTo.fromSender tx)) →
          row.1 ≠ pack node.localId (node.correlations +
            UInt64.ofNat (turn (exposed cmd) i))) ∧
        (∀ wire ∈ wiresOf (untouched cmd),
          ¬ (wire.origin = node.localId ∧ wire.correlation = row.1)) ∧
        row ∈ (registerAll node (callersOf (exposed cmd))).waiting.rows := by
  obtain ⟨-, hcluster⟩ := tellShard_failed herr
  obtain ⟨-, hcmd, -, -⟩ := deliver_left meanwhile route hfwd hnode hfresh
  obtain ⟨node₁, hnode₁, hrouted, hrows⟩ := deliver_forwarded meanwhile route hfwd hnode hfresh
  rw [hcmd, hnode₁] at hcluster
  cases hkey : cancelKey (spend node.localId node.correlations (exposed cmd) ++ untouched cmd)
      asking with
  | none =>
      rw [hkey] at hcluster
      refine ⟨node₁, hcluster, hrouted, fun row => ?_⟩
      rw [hrows row]
      refine ⟨fun h => ⟨fun i tx hi htx hrow => ?_, h⟩, And.right⟩
      have hsome := (cancelKey_eq_some_iff hfresh asking node.localId
        node.correlations).mpr ⟨i, tx, hi, htx, rfl⟩
      rw [hkey] at hsome
      cases hsome
  | some key =>
      rw [hkey] at hcluster
      obtain ⟨i, tx, hi, htx, rfl⟩ := (cancelKey_eq_some_iff hfresh _ _ _).mp hkey
      refine ⟨node₁.forget _, hcluster, hrouted, fun row => ?_⟩
      rw [ClusterNode.mem_forget, hrows row]
      refine and_congr_left fun _ => ⟨fun hne j ty hj hty => ?_, fun h => h i tx hi htx⟩
      rw [hi] at hj
      cases hj
      exact hne

/-- The fate of a handle the encode did not reach. -/
theorem untouched_failed (hsend : Sendable sys cmd) (hfwd : Forwarded sys shard cmd)
    (hnode : sys.cluster = some node)
    (herr : (sys.tellShard shard cmd meanwhile route asking).1 ≠ .ok ()) {handle : ReplyTo}
    (hmem : .reply handle ∈ untouched cmd) :
    CallerFailed sys (sys.tellShard shard cmd meanwhile route asking).2 handle := by
  obtain ⟨node', hnode', hrouted, hrows⟩ := mem_failed_forward hfwd hnode hsend.fresh herr
  have hcmd : .reply handle ∈ cmd := by
    rw [← exposed_append_untouched cmd]
    exact List.mem_append_right _ hmem
  rcases hsend.fresh handle hcmd with ⟨tx, rfl⟩ | ⟨wire, rfl⟩
  · -- its caller was not registered, and was not waiting before
    have htx : tx ∈ callersOf (untouched cmd) := List.mem_filterMap.mpr ⟨_, hmem, rfl⟩
    have hidle : ∀ row ∈ node.waiting.rows, row.2 ≠ tx := by
      intro row hrow heq
      refine hsend.idle node hnode row hrow ?_
      rw [heq]
      exact List.mem_filterMap.mpr ⟨_, hcmd, rfl⟩
    have hnodup := hsend.callers
    rw [← exposed_append_untouched cmd, callersOf_append] at hnodup
    intro n hn row hrow heq
    rw [hnode'] at hn
    cases hn
    obtain ⟨key, caller⟩ := row
    cases heq
    have hroom := hsend.room node hnode
    rw [← exposed_append_untouched cmd, callersOf_append, List.length_append] at hroom
    obtain ⟨j, hj, -, -⟩ := (mem_registerAll (hsend.minted node hnode) (hsend.fits node hnode)
      (by omega) hidle).mp ((hrows _).mp hrow).2.2
    exact List.disjoint_of_nodup_append hnodup (List.mem_of_getElem? hj) htx
  · have hwire : wire ∈ wiresOf (untouched cmd) := List.mem_filterMap.mpr ⟨_, hmem, rfl⟩
    show (wire.origin, _) ∈ routedSince _ _
    simp only [routedSince, hnode, hnode', hrouted, List.drop_left]
    exact List.mem_map.mpr ⟨wire, hwire, rfl⟩

/-- The fate of a remote handle the encode reached: nobody is told. -/
theorem exposed_remote_not_failed (hsend : Sendable sys cmd) (hfwd : Forwarded sys shard cmd)
    (hnode : sys.cluster = some node)
    (herr : (sys.tellShard shard cmd meanwhile route asking).1 ≠ .ok ()) {wire : Wire}
    (hmem : .reply (ReplyTo.fromWire wire) ∈ exposed cmd) :
    ¬ CallerFailed sys (sys.tellShard shard cmd meanwhile route asking).2
      (ReplyTo.fromWire wire) := by
  obtain ⟨node', hnode', hrouted, -⟩ := mem_failed_forward hfwd hnode hsend.fresh herr
  intro hfailed
  have hin : (wire.origin, (⟨wire.correlation, none⟩ : Reply)) ∈ routedSince _ _ := hfailed
  simp only [routedSince, hnode, hnode', hrouted, List.drop_left] at hin
  obtain ⟨wire', hwire', heq⟩ := List.mem_map.mp hin
  obtain ⟨ho, hc⟩ := Prod.mk.inj heq
  have hsame : wire' = wire := by
    obtain ⟨o, c⟩ := wire
    obtain ⟨o', c'⟩ := wire'
    cases ho
    cases hc
    rfl
  subst hsame
  have hnodup := hsend.requests
  rw [← exposed_append_untouched cmd, wiresOf_append] at hnodup
  exact List.disjoint_of_nodup_append hnodup (List.mem_filterMap.mpr ⟨_, hmem, rfl⟩) hwire'

/-- The fate of a local handle the encode reached: its caller is failed exactly
when something else saves it. -/
theorem exposed_local_failed_iff (hsend : Sendable sys cmd) (hfwd : Forwarded sys shard cmd)
    (hnode : sys.cluster = some node)
    (herr : (sys.tellShard shard cmd meanwhile route asking).1 ≠ .ok ()) {i : Nat} {tx : Caller}
    (hi : (exposed cmd)[i]? = some (.reply (ReplyTo.fromSender tx))) :
    CallerFailed sys (sys.tellShard shard cmd meanwhile route asking).2
        (ReplyTo.fromSender tx) ↔
      asking = some i ∨ waitingCapacity ≤ (callersOf ((exposed cmd).drop (i + 1))).length := by
  obtain ⟨node', hnode', -, hrows⟩ := mem_failed_forward hfwd hnode hsend.fresh herr
  have hsplit := callersOf_split hi
  have hmemAll : tx ∈ callersOf cmd := by
    rw [← exposed_append_untouched cmd, callersOf_append, hsplit]
    simp
  have hidle : ∀ row ∈ node.waiting.rows, row.2 ≠ tx := by
    intro row hrow heq
    exact hsend.idle node hnode row hrow (heq ▸ hmemAll)
  have hnodup : (callersOf (exposed cmd)).Nodup := by
    have := hsend.callers
    rw [← exposed_append_untouched cmd, callersOf_append] at this
    exact this.of_append_left
  have hroom : node.correlations.toNat + (callersOf (exposed cmd)).length < 2 ^ 64 := by
    have := hsend.room node hnode
    rw [← exposed_append_untouched cmd, callersOf_append, List.length_append] at this
    omega
  have hlen : (callersOf (exposed cmd)).length =
      turn (exposed cmd) i + 1 + (callersOf ((exposed cmd).drop (i + 1))).length := by
    rw [hsplit, List.length_append, List.length_cons, turn]
    omega
  -- the row of its turn is the only one its caller can be in
  have hkey : ∀ row ∈ (registerAll node (callersOf (exposed cmd))).waiting.rows, row.2 = tx →
      row = (pack node.localId (node.correlations + UInt64.ofNat (turn (exposed cmd) i)), tx) ∧
        (callersOf (exposed cmd)).length ≤ turn (exposed cmd) i + waitingCapacity := by
    rintro ⟨key, caller⟩ hrow rfl
    obtain ⟨j, hj, rfl, hle⟩ := (mem_registerAll (hsend.minted node hnode)
      (hsend.fits node hnode) hroom hidle).mp hrow
    have hjt : j = turn (exposed cmd) i :=
      (List.getElem?_inj (List.getElem?_eq_some_iff.mp hj).1 hnodup).mp
        (hj.trans (callersOf_turn hi).symm)
    subst hjt
    exact ⟨rfl, hle⟩
  constructor
  · intro hfailed
    by_contra hnone
    obtain ⟨hask, hlater⟩ := not_or.mp hnone
    have hrow : (pack node.localId
        (node.correlations + UInt64.ofNat (turn (exposed cmd) i)), tx) ∈
        node'.waiting.rows := by
      refine (hrows _).mpr ⟨?_, ?_, ?_⟩
      · intro j ty hj hty heq
        obtain ⟨-, hcount⟩ := pack_inj.mp heq
        have hturn := congrArg UInt64.toNat hcount
        have hlenj := congrArg List.length (callersOf_split hty)
        rw [List.length_append, List.length_cons] at hlenj
        unfold turn at hturn hlen
        rw [toNat_add_ofNat (by omega), toNat_add_ofNat (by omega)] at hturn
        have hij : i = j := turn_inj hi hty (by unfold turn; omega)
        exact hask (hij ▸ hj)
      · rintro wire hwire ⟨horigin, hcorr⟩
        have hknown := hsend.known node hnode wire (by
          rw [← exposed_append_untouched cmd, wiresOf_append]
          exact List.mem_append_right _ hwire) horigin
        dsimp only at hcorr
        rw [hcorr, pack_lt_pack, toNat_add_ofNat (by omega)] at hknown
        omega
      · exact (mem_registerAll (hsend.minted node hnode) (hsend.fits node hnode) hroom
          hidle).mpr ⟨_, callersOf_turn hi, rfl, by omega⟩
    exact hfailed node' hnode' _ hrow rfl
  · intro hsaved n hn row hrow heq
    rw [hnode'] at hn
    cases hn
    cases heq
    obtain ⟨hask, -, hreg⟩ := (hrows row).mp hrow
    obtain ⟨hrowEq, hle⟩ := hkey row hreg rfl
    rcases hsaved with hown | hevicted
    · exact hask i row.2 hown hi (congrArg Prod.fst hrowEq)
    · omega

/-- A command that is not forwarded takes all its handles down with it. -/
theorem kept_failed (hsend : Sendable sys cmd) (hkept : ¬ Forwarded sys shard cmd)
    (herr : (sys.tellShard shard cmd meanwhile route asking).1 ≠ .ok ()) {handle : ReplyTo}
    (hmem : .reply handle ∈ cmd) :
    CallerFailed sys (sys.tellShard shard cmd meanwhile route asking).2 handle := by
  obtain ⟨hdeliver, hcluster⟩ := tellShard_failed herr
  obtain ⟨hcmd, hdropped⟩ := deliver_kept hkept hdeliver
  rw [hcmd, cancelKey_fresh hsend.fresh, hdropped] at hcluster
  rcases hsend.fresh handle hmem with ⟨tx, rfl⟩ | ⟨wire, rfl⟩
  · intro n hn row hrow heq
    rw [hcluster] at hn
    obtain ⟨node, hnode, rfl⟩ := Option.map_eq_some_iff.mp hn
    cases heq
    have hold := (mem_dropFields.mp hrow).2
    exact hsend.idle node hnode row hold (List.mem_filterMap.mpr ⟨_, hmem, rfl⟩)
  · show (wire.origin, _) ∈ routedSince _ _
    have hwire : wire ∈ wiresOf cmd := List.mem_filterMap.mpr ⟨_, hmem, rfl⟩
    cases hnode : sys.cluster with
    | none => exact absurd hnode (hsend.routable wire hwire)
    | some node =>
        rw [hnode] at hcluster
        have hafter : (sys.tellShard shard cmd meanwhile route asking).2.cluster =
            some (dropFields node cmd) := hcluster
        simp only [routedSince, hnode, hafter, dropFields_routed, List.drop_left]
        exact List.mem_map.mpr ⟨wire, hwire, rfl⟩

end Outcome

/-! ## The result -/

/-- **When a failed forward strands nobody.**  Every caller is told exactly
when the command was not encoded for another node, or it was accepted by one,
or every handle the encode reached is saved by something else. -/
theorem noCallerStranded_iff (sys : System) (shard : Shard) (cmd : Command)
    (meanwhile : Meanwhile) (route : ClusterNode.Route) (asking : Option Nat)
    (hsend : Sendable sys cmd) :
    NoCallerStranded sys shard cmd meanwhile route asking ↔
      (Forwarded sys shard cmd →
        (untouched cmd = [] ∧ Accepted route shard.typeName (contextOf shard cmd).shardId) ∨
          ∀ (i : Nat) (handle : ReplyTo), (exposed cmd)[i]? = some (Field.reply handle) →
            Saved cmd asking i) := by
  by_cases hfwd : Forwarded sys shard cmd
  · obtain ⟨node, hnode⟩ : ∃ node, sys.cluster = some node := by
      cases hc : sys.cluster with
      | none =>
          have := hfwd.1
          simp [System.ours, hc] at this
      | some node => exact ⟨node, rfl⟩
    have hlt : ∀ {i : Nat} {field : Field}, (exposed cmd)[i]? = some field →
        cmd[i]? = some field := by
      intro i field hi
      rw [← exposed_append_untouched cmd,
        List.getElem?_append_left (List.getElem?_eq_some_iff.mp hi).1]
      exact hi
    have hok := (deliver_left meanwhile route hfwd hnode hsend.fresh).1
    by_cases hacc : untouched cmd = [] ∧
        Accepted route shard.typeName (contextOf shard cmd).shardId
    · refine ⟨fun _ _ => Or.inl hacc, fun _ herr => absurd ?_ herr⟩
      exact tellShard_ok_iff.mpr (hok.mpr hacc)
    · have herr : (sys.tellShard shard cmd meanwhile route asking).1 ≠ .ok () :=
        fun h => hacc (hok.mp (tellShard_ok_iff.mp h))
      constructor
      · intro hall _
        refine Or.inr fun i handle hi => ?_
        have hcmd := hlt hi
        have hfailed := hall herr i handle hcmd
        rcases hsend.fresh handle (List.mem_of_getElem? hcmd) with ⟨tx, rfl⟩ | ⟨wire, rfl⟩
        · exact ⟨tx, hcmd, (exposed_local_failed_iff hsend hfwd hnode herr hi).mp hfailed⟩
        · exact absurd hfailed (exposed_remote_not_failed hsend hfwd hnode herr
            (List.mem_of_getElem? hi))
      · intro hsaved _ i handle hi
        have hall := (hsaved hfwd).resolve_left hacc
        rw [← exposed_append_untouched cmd, List.getElem?_append] at hi
        split at hi
        · obtain ⟨tx, htx, hwhy⟩ := hall i handle hi
          rw [hlt hi] at htx
          cases htx
          exact (exposed_local_failed_iff hsend hfwd hnode herr hi).mpr hwhy
        · exact untouched_failed hsend hfwd hnode herr (List.mem_of_getElem? hi)
  · refine ⟨fun _ h => absurd h hfwd, fun _ herr i handle hi => ?_⟩
    exact kept_failed hsend hfwd herr (List.mem_of_getElem? hi)

/-! ## Runs of it -/

/-- A node whose only live member is another one. -/
def forwardingNode : System where
  cluster := some { ClusterNode.start ⟨1⟩ with
    serving := true
    table := PlacementTable.new.setMembers [⟨2⟩] }
  shards := ∅
  wires := AList.singleton 7 { read := fun _ _ => .take, complete := fun _ => true }
  seen := Dedup.withCapacity dedupWindow
  host := ⟨∅, 0, ∅⟩

def counterShard : Shard := ⟨"counter", 6, 7, fun _ => "c1", fun _ => "c1"⟩

/-- The other member is there for placement and unreachable for the transport. -/
def deadRoute : ClusterNode.Route where
  table _ := PlacementTable.new.setMembers [⟨2⟩]
  transport _ node := .error (.unreachable node)

/-- `ask`'s own handle, a request forwarded for node 3, and a field that will
not encode. -/
def threeFields : Command :=
  [.reply (ReplyTo.fromSender 0), .reply (ReplyTo.fromWire ⟨⟨3⟩, 5⟩),
    .data (.error "key must be a string")]

theorem sendable_forwardingNode {cmd : Command} (hfresh : FreshFields cmd)
    (hcallers : (callersOf cmd).Nodup) (hwires : (wiresOf cmd).Nodup)
    (horigin : ∀ wire ∈ wiresOf cmd, wire.origin ≠ ⟨1⟩)
    (hroom : (callersOf cmd).length < 2 ^ 64) : Sendable forwardingNode cmd where
  fresh := hfresh
  callers := hcallers
  requests := hwires
  routable _ _ := nofun
  idle := by rintro _ ⟨⟩ row hrow; cases hrow
  fits := by rintro _ ⟨⟩; exact Nat.zero_le _
  minted := by rintro _ ⟨⟩ row hrow; cases hrow
  known := by rintro _ ⟨⟩ wire hwire heq; exact absurd heq (horigin wire hwire)
  room := by rintro _ ⟨⟩; simpa [ClusterNode.start] using hroom

theorem sendable_threeFields : Sendable forwardingNode threeFields := by
  refine sendable_forwardingNode ?_ (by decide) (by decide) (by decide) (by decide)
  intro handle hmem
  simp only [threeFields, List.mem_cons, Field.reply.injEq, reduceCtorEq, List.not_mem_nil,
    or_false] at hmem
  rcases hmem with rfl | rfl
  · exact Or.inl ⟨0, rfl⟩
  · exact Or.inr ⟨_, rfl⟩

/-- An `ask` that carries nothing but its own handle strands nobody, however the
send fails. -/
theorem noCallerStranded_ask :
    NoCallerStranded forwardingNode counterShard [.reply (ReplyTo.fromSender 0)]
      (fun _ host => host) deadRoute (some 0) := by
  refine (noCallerStranded_iff _ _ _ _ _ _ ?_).mpr fun _ => Or.inr ?_
  · refine sendable_forwardingNode ?_ (by decide) (by decide) (by decide) (by decide)
    intro handle hmem
    cases List.mem_singleton.mp hmem
    exact Or.inl ⟨0, rfl⟩
  · intro i handle hi
    cases i with
    | zero => exact ⟨0, rfl, Or.inl rfl⟩
    | succ i => cases hi

/-- The forwarded request is disarmed by an encode that then fails, and nobody
tells node 3. -/
theorem failed_encode_strands_caller :
    ¬ ∀ (sys : System) (shard : Shard) (cmd : Command) (meanwhile : Meanwhile)
      (route : ClusterNode.Route) (asking : Option Nat), Sendable sys cmd →
        NoCallerStranded sys shard cmd meanwhile route asking := by
  intro h
  have hall := h forwardingNode counterShard threeFields (fun _ host => host) deadRoute (some 0)
    sendable_threeFields
  have hfwd : Forwarded forwardingNode counterShard threeFields := ⟨rfl, rfl⟩
  have herr : (forwardingNode.tellShard counterShard threeFields (fun _ host => host) deadRoute
      (some 0)).1 ≠ .ok () := nofun
  have hreached : .reply (ReplyTo.fromWire ⟨⟨3⟩, 5⟩) ∈ exposed threeFields :=
    List.mem_cons_of_mem _ (List.mem_cons_self ..)
  exact exposed_remote_not_failed sendable_threeFields hfwd rfl herr hreached
    (hall herr 1 _ rfl)

end HorsieActor.Ports
