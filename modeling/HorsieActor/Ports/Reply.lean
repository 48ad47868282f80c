import HorsieActor.Ports.ClusterNode

/-!
# Reply handles and the commands that carry them

Port of `src/reply.rs`: what encoding, decoding and dropping a `ReplyTo` do to
the handle and to the node whose router context they run in.

A command is the list of its fields in encoding order.  A field is plain data,
which encodes or does not, or a reply handle.  `encodeFields` is
`serde_json::to_vec` over that list: it stops at the first field that fails,
and what it has already done to the handles before that field stays done.
`decodeFields` is `serde_json::from_slice`: a type's deserializer takes, skips
or refuses each value in turn, and a refusal drops the fields read so far.

## Main results

* `encodeFields_eq` — encoding a command of fresh handles in closed form: the
  handles up to the first field that fails are spent, one caller registered for
  each local one, and the rest are untouched.
* `dropFields_routed`, `mem_dropFields` — dropping a command abandons exactly
  its armed handles.
-/

namespace HorsieActor.Ports

open HorsieActor.Verified

/-! ## Handles -/

/-- The caller is in this process and its sender has not been taken yet, or it
is on another node and this handle can still answer or abandon it. -/
inductive Inner where
  | localTx (tx : Option Caller)
  | remote (wire : Wire) (armed : Bool)
  deriving DecidableEq, Repr

/-- Where an actor sends the answer to a request.  `deregister` is the shared
slot: once the handle is encoded, the correlation a cancelled `ask` forgets. -/
structure ReplyTo where
  inner : Inner
  deregister : Option Nat
  deriving DecidableEq, Repr

namespace ReplyTo

/-- Build one over an existing one-shot sender. -/
def fromSender (tx : Caller) : ReplyTo := ⟨.localTx (some tx), none⟩

/-- What decoding a handle inside a router context makes of it. -/
def fromWire (wire : Wire) : ReplyTo := ⟨.remote wire true, none⟩

/-- Encoding a handle inside a router context: a local one moves its caller
into the node's waiting table, a remote one is disarmed. -/
def serialize (node : ClusterNode) (handle : ReplyTo) :
    Except String Wire × ReplyTo × ClusterNode :=
  match handle.inner with
  | .localTx none =>
      (.error "this reply handle has already been encoded or answered", handle, node)
  | .localTx (some tx) =>
      let (correlation, node') := node.register tx
      (.ok ⟨node.localId, correlation⟩, ⟨.localTx none, some correlation⟩, node')
  | .remote wire _ => (.ok wire, { handle with inner := .remote wire false }, node)

/-- `Drop`: an armed remote handle tells its origin that no answer is coming.
Dropping a local one drops the sender, which is nothing to the node. -/
def drop (node : ClusterNode) (handle : ReplyTo) : ClusterNode :=
  match handle.inner with
  | .remote wire true => node.abandon wire.origin wire.correlation
  | _ => node

/-- The handle can still do what it is for. -/
def Fresh (handle : ReplyTo) : Prop :=
  (∃ tx, handle = fromSender tx) ∨ ∃ wire, handle = fromWire wire

end ReplyTo

/-! ## Commands -/

inductive Field where
  | data (encoded : Except String Octets)
  | reply (handle : ReplyTo)

abbrev Command : Type := List Field

/-- `serde_json::to_vec` inside a router context. -/
def encodeFields (node : ClusterNode) :
    List Field → Except String Payload × List Field × ClusterNode
  | [] => (.ok [], [], node)
  | .data (.error e) :: rest => (.error e, .data (.error e) :: rest, node)
  | .data (.ok bytes) :: rest =>
      let (result, rest', node') := encodeFields node rest
      (result.map (.data bytes :: ·), .data (.ok bytes) :: rest', node')
  | .reply handle :: rest =>
      match handle.serialize node with
      | (.error e, handle', node') => (.error e, .reply handle' :: rest, node')
      | (.ok wire, handle', node') =>
          let (result, rest', node'') := encodeFields node' rest
          (result.map (.handle wire :: ·), .reply handle' :: rest', node'')

/-- Dropping one field drops the handle in it. -/
def Field.drop (node : ClusterNode) : Field → ClusterNode
  | .data _ => node
  | .reply handle => handle.drop node

/-- Dropping a command drops its fields in order. -/
def dropFields (node : ClusterNode) (fields : List Field) : ClusterNode :=
  fields.foldl Field.drop node

/-- What a deserializer makes of one value. -/
inductive Reading where
  | take
  | skip
  | refuse
  deriving DecidableEq, Repr

/-- How one command type reads a payload: what it makes of each value, and
whether it found all it requires. -/
structure Reader where
  read : Nat → WireValue → Reading
  complete : Payload → Bool

/-- One value taken: a handle needs a router context to be taken in. -/
def takeValue (inContext : Bool) : WireValue → Option Field
  | .data bytes => some (.data (.ok bytes))
  | .handle wire => if inContext then some (.reply (ReplyTo.fromWire wire)) else none

/-- Read the values from position `i` on, in front of the fields already read.
Returns the fields and whether reading went through; on a refusal the caller
drops what was read. -/
def readValues (reader : Reader) (inContext : Bool) : Nat → Payload → List Field × Bool
  | _, [] => ([], true)
  | i, value :: rest =>
      match reader.read i value with
      | .refuse => ([], false)
      | .skip => readValues reader inContext (i + 1) rest
      | .take =>
          match takeValue inContext value with
          | none => ([], false)
          | some field =>
              let (fields, ok) := readValues reader inContext (i + 1) rest
              (field :: fields, ok)

/-- `serde_json::from_slice`, inside the router context of `node` if there is
one. -/
def decodeFields (reader : Reader) (router : Option ClusterNode) (payload : Payload) :
    Option Command × Option ClusterNode :=
  let (fields, ok) := readValues reader router.isSome 0 payload
  if ok && reader.complete payload then (some fields, router)
  else (none, router.map fun node => dropFields node fields)

/-! ## Encoding in closed form -/

/-- The caller behind a field, if it holds a fresh local handle. -/
def Field.caller? : Field → Option Caller
  | .reply ⟨.localTx tx, _⟩ => tx
  | _ => none

/-- The request behind a field, if it holds an armed remote handle. -/
def Field.wire? : Field → Option Wire
  | .reply ⟨.remote wire true, _⟩ => some wire
  | _ => none

/-- The callers behind a command's local handles, in order. -/
def callersOf (fields : List Field) : List Caller := fields.filterMap Field.caller?

/-- The requests behind a command's armed remote handles, in order. -/
def wiresOf (fields : List Field) : List Wire := fields.filterMap Field.wire?

/-- The field is not one whose encoding fails. -/
def Field.encodable : Field → Bool
  | .data (.error _) => false
  | _ => true

/-- The fields an encode gets through before the first that fails. -/
def exposed (fields : List Field) : List Field := fields.takeWhile Field.encodable

/-- The fields from the first that fails on. -/
def untouched (fields : List Field) : List Field := fields.dropWhile Field.encodable

/-- Every handle of the command can still do what it is for. -/
def FreshFields (fields : List Field) : Prop :=
  ∀ handle, Field.reply handle ∈ fields → handle.Fresh

/-- Register callers one after another. -/
def registerAll (node : ClusterNode) (callers : List Caller) : ClusterNode :=
  callers.foldl (fun node caller => (node.register caller).2) node

/-- What encoding makes of fields it gets through, correlations from `n` on. -/
def spend (localId : NodeId) : UInt64 → List Field → List Field
  | _, [] => []
  | n, .reply ⟨.localTx (some _), _⟩ :: rest =>
      .reply ⟨.localTx none, some (pack localId n)⟩ :: spend localId (n + 1) rest
  | n, .reply ⟨.remote wire _, deregister⟩ :: rest =>
      .reply ⟨.remote wire false, deregister⟩ :: spend localId n rest
  | n, field :: rest => field :: spend localId n rest

@[simp] theorem register_correlations (node : ClusterNode) (caller : Caller) :
    (node.register caller).2.correlations = node.correlations + 1 := rfl

theorem register_waiting (node : ClusterNode) (caller : Caller) :
    (node.register caller).2.waiting =
      (node.waiting.insert (pack node.localId node.correlations) caller).trim waitingCapacity :=
  rfl

theorem exposed_cons {field : Field} (h : field.encodable = true) (rest : List Field) :
    exposed (field :: rest) = field :: exposed rest := by
  simp [exposed, h]

theorem untouched_cons {field : Field} (h : field.encodable = true) (rest : List Field) :
    untouched (field :: rest) = untouched rest := by
  simp [untouched, h]

theorem exposed_append_untouched (fields : List Field) :
    exposed fields ++ untouched fields = fields := List.takeWhile_append_dropWhile

theorem FreshFields.tail {field : Field} {rest : List Field} (h : FreshFields (field :: rest)) :
    FreshFields rest :=
  fun handle hm => h handle (List.mem_cons_of_mem _ hm)

/-- Encoding a command of fresh handles: what stands before the first field
that fails is spent, the rest is untouched, and each local handle spent has
registered its caller. -/
theorem encodeFields_eq {fields : List Field} :
    ∀ node : ClusterNode, FreshFields fields →
      (encodeFields node fields).2 =
        (spend node.localId node.correlations (exposed fields) ++ untouched fields,
          registerAll node (callersOf (exposed fields))) := by
  induction fields with
  | nil => intro node _; rfl
  | cons field rest ih =>
      intro node hfresh
      cases field with
      | data encoded =>
          cases encoded with
          | error e => rfl
          | ok bytes =>
              rw [exposed_cons rfl, untouched_cons rfl]
              show (_ :: (encodeFields node rest).2.1, (encodeFields node rest).2.2) = _
              rw [ih _ hfresh.tail]
              rfl
      | reply handle =>
          rcases hfresh handle (List.mem_cons_self ..) with ⟨tx, rfl⟩ | ⟨wire, rfl⟩
          · rw [exposed_cons rfl, untouched_cons rfl]
            show (_ :: (encodeFields (node.register tx).2 rest).2.1,
              (encodeFields (node.register tx).2 rest).2.2) = _
            rw [ih _ hfresh.tail]
            rfl
          · rw [exposed_cons rfl, untouched_cons rfl]
            show (_ :: (encodeFields node rest).2.1, (encodeFields node rest).2.2) = _
            rw [ih _ hfresh.tail]
            rfl

theorem isOk_map {α β : Type} (f : α → β) (x : Except String α) : (x.map f).isOk = x.isOk := by
  cases x <;> rfl

/-- An encode of fresh handles goes through exactly when no field fails. -/
theorem encodeFields_isOk {fields : List Field} :
    ∀ node : ClusterNode, FreshFields fields →
      ((encodeFields node fields).1.isOk = true ↔ untouched fields = []) := by
  induction fields with
  | nil => intro node _; exact ⟨fun _ => rfl, fun _ => rfl⟩
  | cons field rest ih =>
      intro node hfresh
      cases field with
      | data encoded =>
          cases encoded with
          | error e => exact ⟨fun h => (nomatch h), fun h => (nomatch h)⟩
          | ok bytes =>
              rw [untouched_cons rfl, ← ih node hfresh.tail]
              exact (congrArg (· = true) (isOk_map _ _)).to_iff
      | reply handle =>
          rcases hfresh handle (List.mem_cons_self ..) with ⟨tx, rfl⟩ | ⟨wire, rfl⟩
          · rw [untouched_cons rfl, ← ih (node.register tx).2 hfresh.tail]
            exact (congrArg (· = true) (isOk_map _ _)).to_iff
          · rw [untouched_cons rfl, ← ih node hfresh.tail]
            exact (congrArg (· = true) (isOk_map _ _)).to_iff

/-! ## Dropping in closed form -/

@[simp] theorem abandon_routed (node : ClusterNode) (origin : NodeId) (correlation : Nat) :
    (node.abandon origin correlation).routed = node.routed ++ [(origin, ⟨correlation, none⟩)] :=
  ClusterNode.routeReply_routed _ _ _

@[simp] theorem abandon_localId (node : ClusterNode) (origin : NodeId) (correlation : Nat) :
    (node.abandon origin correlation).localId = node.localId := by
  unfold ClusterNode.abandon ClusterNode.routeReply ClusterNode.deliverReply
  dsimp only
  split
  · cases node.waiting.get? correlation <;> rfl
  · rfl

/-- Dropping a handle abandons its request if it is armed, and does nothing
otherwise. -/
theorem drop_eq (node : ClusterNode) (field : Field) :
    field.drop node =
      match field.wire? with
      | some wire => node.abandon wire.origin wire.correlation
      | none => node := by
  cases field with
  | data encoded => rfl
  | reply handle =>
      obtain ⟨inner, deregister⟩ := handle
      cases inner with
      | localTx tx => rfl
      | remote wire armed => cases armed <;> rfl

/-- Dropping a command abandons exactly its armed handles, in order. -/
theorem dropFields_eq (fields : List Field) :
    ∀ node : ClusterNode, dropFields node fields =
      (wiresOf fields).foldl (fun node wire => node.abandon wire.origin wire.correlation)
        node := by
  induction fields with
  | nil => intro node; rfl
  | cons field rest ih =>
      intro node
      show dropFields (field.drop node) rest = _
      rw [ih, drop_eq]
      cases hw : field.wire? with
      | none => simp [wiresOf, hw]
      | some wire => simp [wiresOf, hw]

theorem foldl_abandon_routed (wires : List Wire) :
    ∀ node : ClusterNode,
      (wires.foldl (fun node wire => node.abandon wire.origin wire.correlation) node).routed =
        node.routed ++ wires.map fun wire => (wire.origin, ⟨wire.correlation, none⟩) := by
  induction wires with
  | nil => intro node; simp
  | cons wire rest ih =>
      intro node
      rw [List.foldl_cons, ih, abandon_routed, List.append_assoc]
      rfl

/-- The abandons dropping a command routes. -/
theorem dropFields_routed (node : ClusterNode) (fields : List Field) :
    (dropFields node fields).routed =
      node.routed ++ (wiresOf fields).map fun wire => (wire.origin, ⟨wire.correlation, none⟩) := by
  rw [dropFields_eq, foldl_abandon_routed]

theorem mem_abandon {node : ClusterNode} {origin : NodeId} {correlation : Nat}
    {row : Nat × Caller} :
    row ∈ (node.abandon origin correlation).waiting.rows ↔
      ¬ (origin = node.localId ∧ correlation = row.1) ∧ row ∈ node.waiting.rows := by
  unfold ClusterNode.abandon ClusterNode.routeReply
  dsimp only
  split
  · rename_i heq
    rw [ClusterNode.mem_deliverReply]
    simp [heq, eq_comm]
  · rename_i hne
    simp [hne]

/-- Dropping a command ends the waits on this node that its armed handles
name, and no others. -/
theorem mem_dropFields {node : ClusterNode} {fields : List Field} {row : Nat × Caller} :
    row ∈ (dropFields node fields).waiting.rows ↔
      (∀ wire ∈ wiresOf fields, ¬ (wire.origin = node.localId ∧ wire.correlation = row.1)) ∧
        row ∈ node.waiting.rows := by
  rw [dropFields_eq]
  induction wiresOf fields generalizing node with
  | nil => simp
  | cons wire rest ih =>
      rw [List.foldl_cons, ih, mem_abandon, abandon_localId]
      simp only [List.forall_mem_cons]
      tauto

/-! ## Registering in closed form -/

/-- The rows that registering callers adds, correlations from `n` on. -/
def newRows (localId : NodeId) : UInt64 → List Caller → List (Nat × Caller)
  | _, [] => []
  | n, caller :: rest => (pack localId n, caller) :: newRows localId (n + 1) rest

/-- The table only knows correlations this process has minted. -/
def Minted (node : ClusterNode) : Prop :=
  ∀ row ∈ node.waiting.rows, row.1 < pack node.localId node.correlations

/-- A new correlation is above every other, so its row goes to the end. -/
theorem rows_register {node : ClusterNode} (h : Minted node) (caller : Caller) :
    (node.register caller).2.waiting.rows =
      OrdMap.keepLast waitingCapacity
        (node.waiting.rows ++ [(pack node.localId node.correlations, caller)]) := by
  have hinsert := OrdMap.rows_insert_of_lt (v := caller) h
  rw [register_waiting, OrdMap.rows_trim, hinsert]

theorem Minted.register {node : ClusterNode} (h : Minted node)
    (hroom : node.correlations.toNat + 1 < 2 ^ 64) (caller : Caller) :
    Minted (node.register caller).2 := by
  have hnext : pack node.localId node.correlations <
      pack node.localId (node.correlations + 1) := by
    rw [pack_lt_pack]
    have := toNat_add_ofNat hroom
    rw [UInt64.toNat_add, UInt64.toNat_one, Nat.mod_eq_of_lt hroom]
    exact Nat.lt_succ_self _
  intro row hrow
  rw [rows_register h] at hrow
  show row.1 < pack node.localId (node.correlations + 1)
  rcases List.mem_append.mp (List.mem_of_mem_drop hrow) with hold | hnew
  · exact Nat.lt_trans (h row hold) hnext
  · cases List.mem_singleton.mp hnew
    exact hnext

/-- Registering callers in a row appends their rows and keeps the last ones. -/
theorem rows_registerAll (callers : List Caller) :
    ∀ {node : ClusterNode}, Minted node → node.waiting.size ≤ waitingCapacity →
      node.correlations.toNat + callers.length < 2 ^ 64 →
      (registerAll node callers).waiting.rows =
        OrdMap.keepLast waitingCapacity
          (node.waiting.rows ++ newRows node.localId node.correlations callers) := by
  induction callers with
  | nil =>
      intro node _ hfits _
      show node.waiting.rows = OrdMap.keepLast waitingCapacity (node.waiting.rows ++ [])
      rw [List.append_nil, OrdMap.keepLast_of_le hfits]
  | cons caller rest ih =>
      intro node hminted hfits hroom
      rw [List.length_cons] at hroom
      have hone : node.correlations.toNat + 1 < 2 ^ 64 := by omega
      have hnext : (node.correlations + 1).toNat = node.correlations.toNat + 1 := by
        rw [UInt64.toNat_add, UInt64.toNat_one, Nat.mod_eq_of_lt hone]
      have hrows := rows_register hminted caller
      have hfits' : (node.register caller).2.waiting.size ≤ waitingCapacity := by
        rw [OrdMap.size, hrows]
        exact OrdMap.length_keepLast_le _ _
      show (registerAll (node.register caller).2 rest).waiting.rows = _
      rw [ih (hminted.register hone caller) hfits' (by rw [register_correlations, hnext]; omega),
        hrows, OrdMap.keepLast_append, List.append_assoc]
      rfl

theorem getElem?_newRows (localId : NodeId) (callers : List Caller) :
    ∀ (n : UInt64) (j : Nat), (newRows localId n callers)[j]? =
      (callers[j]?).map fun caller => (pack localId (n + UInt64.ofNat j), caller) := by
  induction callers with
  | nil => intro n j; simp [newRows]
  | cons caller rest ih =>
      intro n j
      cases j with
      | zero => simp [newRows]
      | succ j =>
          have hj : n + 1 + UInt64.ofNat j = n + UInt64.ofNat (j + 1) := by
            rw [UInt64.ofNat_add, UInt64.add_assoc, UInt64.add_comm 1]
            rfl
          simp only [newRows, List.getElem?_cons_succ, ih, hj]

theorem length_newRows (localId : NodeId) (callers : List Caller) :
    ∀ n : UInt64, (newRows localId n callers).length = callers.length := by
  induction callers with
  | nil => intro n; rfl
  | cons caller rest ih => intro n; simp [newRows, ih]

/-- Where a caller that was not waiting before waits after the registrations:
under the correlation of its turn, unless as many callers as the table holds
came after it. -/
theorem mem_registerAll {node : ClusterNode} {callers : List Caller} (hminted : Minted node)
    (hfits : node.waiting.size ≤ waitingCapacity)
    (hroom : node.correlations.toNat + callers.length < 2 ^ 64) {k : Nat} {caller : Caller}
    (hidle : ∀ row ∈ node.waiting.rows, row.2 ≠ caller) :
    (k, caller) ∈ (registerAll node callers).waiting.rows ↔
      ∃ j, callers[j]? = some caller ∧
        k = pack node.localId (node.correlations + UInt64.ofNat j) ∧
        callers.length ≤ j + waitingCapacity := by
  rw [rows_registerAll callers hminted hfits hroom, OrdMap.mem_keepLast, List.length_append,
    length_newRows]
  constructor
  · rintro ⟨p, hp, hx⟩
    rw [List.getElem?_append] at hx
    split at hx
    · exact absurd rfl (hidle _ (List.mem_of_getElem? hx))
    · rename_i hge
      rw [getElem?_newRows] at hx
      obtain ⟨c, hc, heq⟩ := Option.map_eq_some_iff.mp hx
      cases heq
      refine ⟨_, hc, rfl, ?_⟩
      omega
  · rintro ⟨j, hj, rfl, hle⟩
    refine ⟨node.waiting.rows.length + j, by omega, ?_⟩
    rw [List.getElem?_append_right (Nat.le_add_right _ _), Nat.add_sub_cancel_left,
      getElem?_newRows, hj]
    rfl

end HorsieActor.Ports
