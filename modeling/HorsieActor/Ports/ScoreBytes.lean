import HorsieActor.Ports.Placement
import HorsieActor.Verified.Delimited

/-!
# What is hashed

`score` of `src/cluster/placement.rs` hashes a type name, a shard id and a member.
The two texts are each ended by a byte that no UTF-8 text holds, and the member is
eight bytes long whatever they are, so two different keys are never the same bytes
(`hashesKey`); a member may well hold the separator, but only behind both texts.

The hash is FNV-1a, stated here over the natural numbers (`fnv1a`).
-/

namespace HorsieActor.Ports

open HorsieActor.Verified

/-! ## The hash -/

/-- 64-bit FNV-1a as it is defined: from the offset basis on, each byte is xored in
and the result multiplied by the prime, modulo `2 ^ 64`. -/
def fnv1a (bytes : List UInt8) : Nat :=
  bytes.foldl (fun hash byte => (hash ^^^ byte.toNat) * 1099511628211 % 2 ^ 64) 14695981039346656037

/-- `score` loop by loop, over one running hash. -/
def scoreLoops (typeName shardId : String) (node : NodeId) : UInt64 := Id.run do
  let mut hash : UInt64 := 0xcbf29ce484222325
  for byte in typeName.toUTF8.data.toList do
    hash := eat hash byte
  hash := eat hash separator
  for byte in shardId.toUTF8.data.toList do
    hash := eat hash byte
  hash := eat hash separator
  for byte in toBeBytes node.idx do
    hash := eat hash byte
  return hash

/-- The loops go over `scoreBytes`. -/
theorem scoreLoops_eq (typeName shardId : String) (node : NodeId) :
    scoreLoops typeName shardId node = score typeName shardId node := by
  simp [scoreLoops, score, scoreBytes, List.foldl_append]

theorem toNat_eat (hash : UInt64) (byte : UInt8) :
    (eat hash byte).toNat = (hash.toNat ^^^ byte.toNat) * 1099511628211 % 2 ^ 64 := by
  rw [eat, UInt64.toNat_mul, UInt64.toNat_xor, UInt8.toNat_toUInt64]
  rfl

theorem toNat_foldl_eat (bytes : List UInt8) : ∀ hash : UInt64,
    (bytes.foldl eat hash).toNat =
      bytes.foldl (fun hash byte => (hash ^^^ byte.toNat) * 1099511628211 % 2 ^ 64) hash.toNat := by
  induction bytes with
  | nil => exact fun _ => rfl
  | cons byte bytes ih =>
      intro hash
      rw [List.foldl_cons, List.foldl_cons, ih, toNat_eat]

theorem toNat_score (typeName shardId : String) (node : NodeId) :
    (score typeName shardId node).toNat = fnv1a (scoreBytes typeName shardId node) :=
  toNat_foldl_eat _ _

/-! ## The bytes -/

/-- The first byte of a character has a zero among its five high bits, and the others
start with a one and a zero. -/
theorem separator_not_mem_utf8EncodeChar (c : Char) : separator ∉ String.utf8EncodeChar c := by
  have hsmall : ∀ n, n < 255 → separator ≠ UInt8.ofNat n := by
    intro n hn heq
    have hnat : 255 = n % 256 := congrArg UInt8.toNat heq
    omega
  have hmem : ∀ byte ∈ String.utf8EncodeChar c, ∃ n, n < 255 ∧ byte = UInt8.ofNat n := by
    intro byte hbyte
    unfold String.utf8EncodeChar at hbyte
    dsimp only at hbyte
    split at hbyte
    · simp only [List.mem_cons, List.not_mem_nil, or_false] at hbyte
      exact ⟨_, by omega, hbyte⟩
    · split at hbyte
      · simp only [List.mem_cons, List.not_mem_nil, or_false] at hbyte
        rcases hbyte with rfl | rfl
        · exact ⟨_, by omega, rfl⟩
        · exact ⟨_, by omega, rfl⟩
      · split at hbyte
        · simp only [List.mem_cons, List.not_mem_nil, or_false] at hbyte
          rcases hbyte with rfl | rfl | rfl
          · exact ⟨_, by omega, rfl⟩
          · exact ⟨_, by omega, rfl⟩
          · exact ⟨_, by omega, rfl⟩
        · simp only [List.mem_cons, List.not_mem_nil, or_false] at hbyte
          rcases hbyte with rfl | rfl | rfl | rfl
          · exact ⟨_, by omega, rfl⟩
          · exact ⟨_, by omega, rfl⟩
          · exact ⟨_, by omega, rfl⟩
          · exact ⟨_, by omega, rfl⟩
  intro h
  obtain ⟨n, hn, heq⟩ := hmem _ h
  exact hsmall n hn heq

theorem toUTF8_toList (text : String) :
    text.toUTF8.data.toList = text.toList.flatMap String.utf8EncodeChar := by
  rw [String.toUTF8_eq_toByteArray, ← String.utf8Encode_toList, List.utf8Encode,
    List.toList_data_toByteArray]

theorem separator_not_mem_toUTF8 (text : String) : separator ∉ text.toUTF8.data.toList := by
  rw [toUTF8_toList]
  intro h
  obtain ⟨c, -, hc⟩ := List.mem_flatMap.mp h
  exact separator_not_mem_utf8EncodeChar c hc

theorem toUTF8_toList_injective :
    Function.Injective fun text : String => text.toUTF8.data.toList := by
  intro a b h
  have hbytes : a.toByteArray = b.toByteArray := ByteArray.ext (Array.toList_inj.mp h)
  exact String.toByteArray_inj.mp hbytes

theorem scoreBytes_inj {typeName typeName' shardId shardId' : String} {node node' : NodeId}
    (h : scoreBytes typeName shardId node = scoreBytes typeName' shardId' node') :
    typeName = typeName' ∧ shardId = shardId' ∧ node = node' := by
  simp only [scoreBytes, List.append_assoc, List.singleton_append] at h
  obtain ⟨htype, hrest⟩ := Delimited.append_cons_inj (separator_not_mem_toUTF8 _)
    (separator_not_mem_toUTF8 _) h
  -- only now does what is left end in a member, which may hold the separator
  obtain ⟨hshard, hnode⟩ := Delimited.append_cons_inj (separator_not_mem_toUTF8 _)
    (separator_not_mem_toUTF8 _) hrest
  refine ⟨toUTF8_toList_injective htype, toUTF8_toList_injective hshard, ?_⟩
  obtain ⟨idx⟩ := node
  obtain ⟨idx'⟩ := node'
  exact congrArg NodeId.mk (toBeBytes_injective hnode)

/-! ## The result -/

/-- What the hash is of, for two keys. -/
structure HashesKey (typeName typeName' shardId shardId' : String) (node node' : NodeId) :
    Prop where
  injective : scoreBytes typeName shardId node = scoreBytes typeName' shardId' node' →
    typeName = typeName' ∧ shardId = shardId' ∧ node = node'
  /-- The bytes are those the loops feed to the hash. -/
  loops : scoreLoops typeName shardId node =
    (scoreBytes typeName shardId node).foldl eat 0xcbf29ce484222325
  hash : (scoreLoops typeName shardId node).toNat = fnv1a (scoreBytes typeName shardId node)

/-- **The bytes determine the key**, and the score is their FNV-1a hash. -/
theorem hashesKey (typeName typeName' shardId shardId' : String) (node node' : NodeId) :
    HashesKey typeName typeName' shardId shardId' node node' where
  injective := scoreBytes_inj
  loops := scoreLoops_eq typeName shardId node
  hash := by
    rw [scoreLoops_eq]
    exact toNat_score typeName shardId node

end HorsieActor.Ports
