import HorsieActor.Ports.FrameRoundTrip
import HorsieActor.Ports.ScoreBytes

/-!
# The handshake

`proof`, `handshake_out` and the first half of `serve` of `src/transport_tcp.rs`.  A
dialler announces its node id and a nonce, and proves that it knows the secret by a
digest of secret, id and nonce; the accepting side recomputes the digest and compares
every byte.  SHA-256 is a parameter: all that is used of it is that digests have 32
bytes.  Where a result needs that a digest was not forged, it says which two different
inputs would have the same one.

What is accepted are exactly the hellos a dialler with that secret sends, for any id and
nonce (`checkHello_eq_ok_iff`).  So the handshake of two nodes succeeds when they hold the
same secret, and when they do not, its success exhibits two inputs with one digest
(`handshake_proves_secret`).  The digest ties a hello to its id: a proof seen on the wire
gets nobody in under another id, again short of a collision, while the whole hello is good
for as long as the secret is (`proof_good_for_one_hello`).
-/

namespace HorsieActor.Ports.Tcp

open HorsieActor.Verified

/-- Protocol version, refused on mismatch. -/
def version : UInt8 := 1

/-- `Sha256`, as far as it matters here. -/
structure Digest where
  of : Octets → Octets
  length_of : ∀ bytes, (of bytes).length = 32

/-! ## Bytes -/

/-- Whether two digests differ, without stopping at the first byte that does. -/
def differs (expected given : Octets) : UInt8 :=
  (expected.zip given).foldl (fun diff (a, b) => diff ||| (a ^^^ b)) 0

theorem foldl_or_eq_zero_iff (expected : Octets) :
    ∀ (given : Octets) (diff : UInt8), expected.length = given.length →
      ((expected.zip given).foldl (fun diff (a, b) => diff ||| (a ^^^ b)) diff = 0 ↔
        diff = 0 ∧ expected = given) := by
  induction expected with
  | nil =>
      intro given diff hlen
      cases given with
      | nil => simp
      | cons b given => cases hlen
  | cons a expected ih =>
      intro given diff hlen
      cases given with
      | nil => cases hlen
      | cons b given =>
          rw [List.zip_cons_cons, List.foldl_cons, ih given _ (Nat.succ.inj hlen),
            UInt8.or_eq_zero_iff, UInt8.xor_eq_zero_iff, List.cons.injEq, and_assoc]

theorem differs_eq_zero_iff {expected given : Octets} (hlen : expected.length = given.length) :
    differs expected given = 0 ↔ expected = given := by
  rw [differs, foldl_or_eq_zero_iff expected given 0 hlen]
  exact and_iff_right rfl

/-! ## The two sides -/

/-- What is digested. -/
def digested (secret : Octets) (node : NodeId) (nonce : UInt64) : Octets :=
  secret ++ toBeBytes node.idx ++ toBeBytes nonce

/-- Proof of the shared secret, bound to the announced node id. -/
def proof (sha : Digest) (secret : Octets) (node : NodeId) (nonce : UInt64) : Octets :=
  sha.of (digested secret node nonce)

/-- What `handshake_out` announces. -/
def helloBytes (sha : Digest) (secret : Octets) (localId : NodeId) (nonce : UInt64) : Octets :=
  version :: (toBeBytes localId.idx ++ toBeBytes nonce ++ proof sha secret localId nonce)

def helloLength : Nat := 1 + 8 + 8 + 32

/-- How `serve` ends a connection it does not accept. -/
inductive ServeError where
  | io (e : IoError)
  | permissionDenied (message : String)
  deriving DecidableEq, Repr

/-- What `serve` makes of a hello. -/
def checkHello (sha : Digest) (secret hello : Octets) : Except ServeError NodeId :=
  if hello.length ≠ helloLength ∨ hello.head? ≠ some version then
    .error (.io (.invalidData "malformed or wrong-version hello"))
  else
    let node : NodeId := ⟨fromBeBytes ((hello.drop 1).take 8)⟩
    let nonce := fromBeBytes ((hello.drop 9).take 8)
    if differs (proof sha secret node nonce) (hello.drop 17) = 0 then .ok node
    else .error (.permissionDenied "peer failed to prove the shared secret")

/-- `serve` up to its loop: who is there, what it writes, and the stream behind the
hello. -/
def serveHello (sha : Digest) (secret stream : Octets) :
    Except ServeError (NodeId × Octets × Octets) :=
  match readFrameFrom stream with
  | .error e => .error (.io e)
  | .ok (hello, rest) =>
      match checkHello sha secret hello with
      | .error e => .error e
      | .ok node =>
          match writeFrame [version] with
          | .error e => .error (.io e)
          | .ok reply => .ok (node, reply, rest)

/-- The second half of `handshake_out`. -/
def readReply (stream : Octets) : Except IoError Unit :=
  match readFrameFrom stream with
  | .error e => .error e
  | .ok (reply, _) =>
      if reply.head? ≠ some version then .error (.invalidData "peer rejected the handshake")
      else .ok ()

/-- A dialler with one secret and an accepting side with another: whom the latter takes
the former for, and what it goes on to read. -/
def handshake (sha : Digest) (secret secret' : Octets) (localId : NodeId) (nonce : UInt64)
    (behind : Octets) : Except ServeError (NodeId × Octets) :=
  match writeFrame (helloBytes sha secret localId nonce) with
  | .error e => .error (.io e)
  | .ok out =>
      match serveHello sha secret' (out ++ behind) with
      | .error e => .error e
      | .ok (node, reply, rest) =>
          match readReply reply with
          | .error e => .error (.io e)
          | .ok _ => .ok (node, rest)

/-! ## What is accepted -/

section Hello

variable {sha : Digest} {secret secret' hello : Octets} {node : NodeId} {nonce : UInt64}

theorem digested_inj {node' : NodeId} {nonce' : UInt64}
    (h : digested secret node nonce = digested secret' node' nonce') :
    secret = secret' ∧ node = node' ∧ nonce = nonce' := by
  obtain ⟨hfront, hnonce⟩ := List.append_inj' h rfl
  obtain ⟨hsecret, hnode⟩ := List.append_inj' hfront rfl
  obtain ⟨idx⟩ := node
  obtain ⟨idx'⟩ := node'
  exact ⟨hsecret, congrArg NodeId.mk (toBeBytes_injective hnode), toBeBytes_injective hnonce⟩

theorem length_helloBytes (sha : Digest) (secret : Octets) (node : NodeId) (nonce : UInt64) :
    (helloBytes sha secret node nonce).length = helloLength := by
  simp only [helloBytes, List.length_cons, List.length_append, length_toBeBytes, proof,
    sha.length_of]
  rfl

/-- The parts of a hello. -/
theorem drop_helloBytes (sha : Digest) (secret : Octets) (node : NodeId) (nonce : UInt64) :
    ((helloBytes sha secret node nonce).drop 1).take 8 = toBeBytes node.idx ∧
      ((helloBytes sha secret node nonce).drop 9).take 8 = toBeBytes nonce ∧
      (helloBytes sha secret node nonce).drop 17 = proof sha secret node nonce :=
  ⟨rfl, rfl, rfl⟩

/-- A hello of the right length, put together from its parts. -/
theorem hello_parts (hlen : hello.length = helloLength) (hversion : hello.head? = some version) :
    hello = version :: ((hello.drop 1).take 8 ++ (hello.drop 9).take 8 ++ hello.drop 17) := by
  cases hello with
  | nil => cases hversion
  | cons v rest =>
      cases hversion
      have htail : (rest.drop 8).take 8 ++ rest.drop 16 = rest.drop 8 := by
        have := List.take_append_drop 8 (rest.drop 8)
        rwa [List.drop_drop] at this
      show version :: rest = version :: (rest.take 8 ++ (rest.drop 8).take 8 ++ rest.drop 16)
      rw [List.append_assoc, htail, List.take_append_drop]

/-- What is compared is a digest and 32 bytes. -/
theorem length_proof (hlen : hello.length = helloLength) :
    (proof sha secret node nonce).length = (hello.drop 17).length := by
  rw [proof, sha.length_of, List.length_drop, hlen]
  rfl

/-- **Accepted are the hellos of diallers that know the secret, and nothing else.** -/
theorem checkHello_eq_ok_iff :
    checkHello sha secret hello = .ok node ↔ ∃ nonce, hello = helloBytes sha secret node nonce := by
  constructor
  · intro h
    unfold checkHello at h
    split at h
    · cases h
    · rename_i hshape
      push Not at hshape
      obtain ⟨hlen, hversion⟩ := hshape
      simp only at h
      split at h
      · rename_i hsame
        cases h
        rw [differs_eq_zero_iff (length_proof hlen)] at hsame
        refine ⟨fromBeBytes ((hello.drop 9).take 8), ?_⟩
        have hnode : ((hello.drop 1).take 8).length = 8 := by
          rw [List.length_take, List.length_drop, hlen]
          rfl
        have hnonce : ((hello.drop 9).take 8).length = 8 := by
          rw [List.length_take, List.length_drop, hlen]
          rfl
        rw [helloBytes, hsame, toBeBytes_fromBeBytes hnode, toBeBytes_fromBeBytes hnonce]
        exact hello_parts hlen hversion
      · cases h
  · rintro ⟨nonce, rfl⟩
    obtain ⟨hnode, hnonce, hproof⟩ := drop_helloBytes sha secret node nonce
    have hlen := length_helloBytes sha secret node nonce
    have hversion : (helloBytes sha secret node nonce).head? = some version := rfl
    unfold checkHello
    rw [if_neg (by simp [hlen, hversion])]
    simp only [hnode, hnonce, hproof, fromBeBytes_toBeBytes]
    rw [if_pos ((differs_eq_zero_iff rfl).mpr rfl)]

/-- What comes of a hello in front of whatever is behind it. -/
theorem serveHello_frame (hlen : hello.length = helloLength) (behind : Octets) :
    serveHello sha secret (Framing.frame hello ++ behind) =
      match checkHello sha secret hello with
      | .error e => .error e
      | .ok node => .ok (node, Framing.frame [version], behind) := by
  have hshort : hello.length ≤ maxFrame := by
    rw [hlen]
    decide
  rw [serveHello, readFrameFrom_frame hshort]
  simp only
  cases checkHello sha secret hello with
  | error e => rfl
  | ok node => rfl

theorem readReply_version : readReply (Framing.frame [version]) = .ok () := by
  have hshort : [version].length ≤ maxFrame := by decide
  have hread := readFrameFrom_frame hshort []
  rw [List.append_nil] at hread
  rw [readReply, hread]
  rfl

/-- The handshake, once the hello is on the stream. -/
theorem handshake_of_written {out : Octets}
    (hout : writeFrame (helloBytes sha secret node nonce) = .ok out) (secret' behind : Octets) :
    handshake sha secret secret' node nonce behind =
      match serveHello sha secret' (out ++ behind) with
      | .error e => .error e
      | .ok (node, reply, rest) =>
          match readReply reply with
          | .error e => .error (.io e)
          | .ok _ => .ok (node, rest) := by
  rw [handshake, hout]

/-- The handshake succeeds when the accepting side takes the hello. -/
theorem handshake_eq (secret' behind : Octets) :
    handshake sha secret secret' node nonce behind =
      match checkHello sha secret' (helloBytes sha secret node nonce) with
      | .error e => .error e
      | .ok node' => .ok (node', behind) := by
  have hlen := length_helloBytes sha secret node nonce
  have hshort : (helloBytes sha secret node nonce).length < 2 ^ 32 := by
    rw [hlen]
    decide
  rw [handshake_of_written (if_pos hshort), serveHello_frame hlen]
  cases checkHello sha secret' (helloBytes sha secret node nonce) with
  | error e => rfl
  | ok node' => simp only [readReply_version]

end Hello

/-! ## The results -/

/-- Two different inputs with one digest. -/
def Collides (sha : Digest) (bytes bytes' : Octets) : Prop :=
  bytes ≠ bytes' ∧ sha.of bytes = sha.of bytes'

/-- **A handshake succeeds between nodes that hold the same secret**, for every id and
nonce, and loses nothing of what the dialler goes on to write.  Where it succeeds between
others, their secrets give two inputs with one digest. -/
theorem handshake_proves_secret (sha : Digest) (secret : Octets) (localId : NodeId)
    (nonce : UInt64) (behind : Octets) :
    handshake sha secret secret localId nonce behind = .ok (localId, behind) ∧
      ∀ secret' r, handshake sha secret secret' localId nonce behind = .ok r →
        r = (localId, behind) ∧ (secret' = secret ∨
          Collides sha (digested secret localId nonce) (digested secret' localId nonce)) := by
  refine ⟨?_, fun secret' r h => ?_⟩
  · rw [handshake_eq, checkHello_eq_ok_iff.mpr ⟨nonce, rfl⟩]
  · rw [handshake_eq] at h
    cases hcheck : checkHello sha secret' (helloBytes sha secret localId nonce) with
    | error e =>
        rw [hcheck] at h
        cases h
    | ok node =>
        rw [hcheck] at h
        cases h
        obtain ⟨nonce', heq⟩ := checkHello_eq_ok_iff.mp hcheck
        obtain ⟨hnode, hnonce, hproof⟩ := drop_helloBytes sha secret localId nonce
        obtain ⟨hnode', hnonce', hproof'⟩ := drop_helloBytes sha secret' node nonce'
        rw [heq] at hnode hnonce hproof
        have hsame : node = localId := by
          obtain ⟨idx⟩ := node
          obtain ⟨idx'⟩ := localId
          exact congrArg NodeId.mk (toBeBytes_injective (hnode'.symm.trans hnode))
        have hsame' : nonce' = nonce := toBeBytes_injective (hnonce'.symm.trans hnonce)
        subst hsame hsame'
        refine ⟨rfl, ?_⟩
        by_cases hsecret : secret' = secret
        · exact Or.inl hsecret
        · refine Or.inr ⟨fun hin => hsecret (digested_inj hin).1.symm, ?_⟩
          exact hproof.symm.trans hproof'

/-- **A proof is good for one hello.**  Whoever is let in with a proof that was made for
some secret, id and nonce has sent that very hello to a node with that secret, or has
found another input with the same digest. -/
theorem proof_good_for_one_hello (sha : Digest) (secret secret' hello : Octets)
    (node node' : NodeId) (nonce : UInt64)
    (haccepted : checkHello sha secret' hello = .ok node')
    (hproof : hello.drop 17 = proof sha secret node nonce) :
    (secret' = secret ∧ hello = helloBytes sha secret node nonce) ∨
      ∃ nonce', Collides sha (digested secret' node' nonce') (digested secret node nonce) := by
  obtain ⟨nonce', rfl⟩ := checkHello_eq_ok_iff.mp haccepted
  obtain ⟨-, -, hproof'⟩ := drop_helloBytes sha secret' node' nonce'
  have hdigest := hproof'.symm.trans hproof
  by_cases hsame : digested secret' node' nonce' = digested secret node nonce
  · obtain ⟨rfl, rfl, rfl⟩ := digested_inj hsame
    exact Or.inl ⟨rfl, rfl⟩
  · exact Or.inr ⟨nonce', hsame, hdigest⟩

/-- A digest that keeps short inputs apart when they are equally long: their last bytes,
with zeros before them. -/
def paddedDigest : Digest where
  of bytes := (List.replicate 32 0 ++ bytes).drop bytes.length
  length_of bytes := by
    rw [List.length_drop, List.length_append, List.length_replicate, Nat.add_sub_cancel]

/-- A hello as node 7 sends it. -/
def genuine : Octets :=
  [1, 0, 0, 0, 0, 0, 0, 0, 7, 0, 0, 0, 0, 0, 0, 0, 9] ++ List.replicate 14 0 ++
    [1, 2, 0, 0, 0, 0, 0, 0, 0, 7, 0, 0, 0, 0, 0, 0, 0, 9]

theorem not_collides_paddedDigest (nonce : UInt64) :
    ¬ Collides paddedDigest (digested [1, 2] ⟨7⟩ nonce) (digested [1, 2] ⟨7⟩ 9) := by
  rintro ⟨hne, hsame⟩
  -- both are eighteen bytes long, and the digests end with them
  have hpadded : List.replicate 14 0 ++ digested [1, 2] ⟨7⟩ nonce =
      List.replicate 14 0 ++ digested [1, 2] ⟨7⟩ 9 := hsame
  exact hne (List.append_cancel_left hpadded)

/-- A digest that sees nothing but the length. -/
def lengthDigest : Digest where
  of bytes := List.replicate 31 0 ++ [UInt8.ofNat bytes.length]
  length_of _ := by simp

/-- The proof of one node under the id of another. -/
def forged : Octets :=
  version :: (toBeBytes 8 ++ toBeBytes 9 ++ proof lengthDigest [1, 2] ⟨7⟩ 9)

/-- The genuine hello is let in as itself, the forged one as there is a collision. -/
theorem proof_good_for_one_hello_genuine_forged :
    (checkHello paddedDigest [1, 2] genuine = .ok ⟨7⟩ ∧
      genuine = helloBytes paddedDigest [1, 2] ⟨7⟩ 9) ∧
    checkHello lengthDigest [1, 2] forged = .ok ⟨8⟩ ∧
      ∃ nonce, Collides lengthDigest (digested [1, 2] ⟨8⟩ nonce) (digested [1, 2] ⟨7⟩ 9) := by
  have hgenuine : checkHello paddedDigest [1, 2] genuine = .ok ⟨7⟩ :=
    checkHello_eq_ok_iff.mpr ⟨9, rfl⟩
  have hforged : checkHello lengthDigest [1, 2] forged = .ok ⟨8⟩ :=
    checkHello_eq_ok_iff.mpr ⟨9, rfl⟩
  refine ⟨⟨hgenuine, ?_⟩, hforged, ?_⟩
  · refine ((proof_good_for_one_hello paddedDigest [1, 2] [1, 2] genuine ⟨7⟩ ⟨7⟩ 9 hgenuine
      rfl).resolve_right ?_).2
    rintro ⟨nonce, hcollides⟩
    exact not_collides_paddedDigest nonce hcollides
  · refine (proof_good_for_one_hello lengthDigest [1, 2] [1, 2] forged ⟨7⟩ ⟨8⟩ 9 hforged
      rfl).resolve_left ?_
    rintro ⟨-, hsame⟩
    exact absurd hsame (by decide)

end HorsieActor.Ports.Tcp
