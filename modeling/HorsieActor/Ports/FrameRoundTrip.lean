import HorsieActor.Ports.TcpPeer

/-!
# What is written and what is read

`write_frame` and `read_frame_from` of `src/transport_tcp.rs`, over a stream that
never fails.  The writer takes any byte string whose length fits four bytes; the
reader refuses a length above `MAX_FRAME`.  So there are frames that are written
and never read (`oversized_not_read`), and with one of them everything behind it
on the connection.

Up to `MAX_FRAME` bytes the two agree, and only up to there (`readsBack_iff`): a
sequence of such frames is read back whole, and a beginning of it gives the frames
it contains and then an error.
-/

namespace HorsieActor.Ports.Tcp

open HorsieActor.Verified

/-- `std::io::Error`. -/
inductive IoError where
  | invalidData (message : String)
  | unexpectedEof
  deriving DecidableEq, Repr

/-- What one `write_frame` puts on the stream. -/
def writeFrame (bytes : Octets) : Except IoError Octets :=
  if bytes.length < 2 ^ 32 then .ok (Framing.frame bytes)
  else .error (.invalidData "frame longer than u32")

def IoError.ofFrame : Framing.FrameError → IoError
  | .tooLong => .invalidData "frame exceeds the maximum"
  | .unexpectedEof => .unexpectedEof

/-- One frame, and the stream behind it. -/
def readFrameFrom (stream : Octets) : Except IoError (Octets × Octets) :=
  match Framing.readFrame maxFrame stream with
  | .ok r => .ok r
  | .error e => .error (.ofFrame e)

/-- What `write_frame` puts on the stream, called on each in turn. -/
def writeAll : List Octets → Except IoError Octets
  | [] => .ok []
  | bytes :: rest =>
      match writeFrame bytes, writeAll rest with
      | .ok out, .ok more => .ok (out ++ more)
      | .error e, _ => .error e
      | .ok _, .error e => .error e

/-- Calls of `read_frame_from` until one fails: what they returned, what the
failing one found on the stream, and how it failed. -/
structure Reading where
  frames : List Octets
  unread : Octets
  error : IoError
  deriving DecidableEq, Repr

theorem readFrameFrom_of_ok {stream : Octets} {r : Octets × Octets}
    (h : Framing.readFrame maxFrame stream = .ok r) : readFrameFrom stream = .ok r := by
  unfold readFrameFrom
  rw [h]

theorem readFrameFrom_of_error {stream : Octets} {e : Framing.FrameError}
    (h : Framing.readFrame maxFrame stream = .error e) :
    readFrameFrom stream = .error (.ofFrame e) := by
  unfold readFrameFrom
  rw [h]

theorem bounds_of_readFrameFrom {stream bytes rest : Octets}
    (h : readFrameFrom stream = .ok (bytes, rest)) :
    bytes.length ≤ maxFrame ∧ rest.length < stream.length := by
  unfold readFrameFrom at h
  split at h
  · rename_i hread
    cases h
    exact Framing.bounds_of_readFrame hread
  · cases h

def readAll (stream : Octets) : Reading :=
  match _h : readFrameFrom stream with
  | .error e => ⟨[], stream, e⟩
  | .ok (bytes, rest) =>
      let reading := readAll rest
      { reading with frames := bytes :: reading.frames }
termination_by stream.length
decreasing_by exact (bounds_of_readFrameFrom ‹_›).2

theorem readAll_of_error {stream : Octets} {e : IoError} (h : readFrameFrom stream = .error e) :
    readAll stream = ⟨[], stream, e⟩ := by
  rw [readAll]
  split
  · rename_i e' h'
    rw [h] at h'
    cases h'
    rfl
  · rename_i h'
    rw [h] at h'
    cases h'

theorem readAll_of_ok {stream bytes rest : Octets} (h : readFrameFrom stream = .ok (bytes, rest)) :
    readAll stream = { readAll rest with frames := bytes :: (readAll rest).frames } := by
  rw [readAll]
  split
  · rename_i e' h'
    rw [h] at h'
    cases h'
  · rename_i h'
    rw [h] at h'
    cases h'
    rfl

/-- The reader returns no frame above its limit, whatever is on the stream. -/
theorem length_le_of_mem_readAll (stream : Octets) :
    ∀ bytes ∈ (readAll stream).frames, bytes.length ≤ maxFrame := by
  fun_induction readAll stream with
  | case1 stream e h => exact nofun
  | case2 stream bytes rest h reading ih =>
      exact List.forall_mem_cons.mpr ⟨(bounds_of_readFrameFrom h).1, ih⟩

/-! ## Frames the reader takes -/

section Short

variable {bytes tail : Octets} {bodies : List Octets}

theorem readFrameFrom_frame (h : bytes.length ≤ maxFrame) (rest : Octets) :
    readFrameFrom (Framing.frame bytes ++ rest) = .ok (bytes, rest) :=
  readFrameFrom_of_ok (Framing.readFrame_frame h (Nat.lt_of_le_of_lt h maxFrame_lt) rest)

/-- Nothing comes of part of a frame. -/
theorem readFrameFrom_part (hlen : bytes.length < 2 ^ 32) (hpart : tail <+: Framing.frame bytes)
    (hne : tail ≠ Framing.frame bytes) : ∃ e, readFrameFrom tail = .error e := by
  obtain ⟨rest, hrest⟩ := hpart
  have hcut : Framing.Part tail :=
    ⟨bytes, rest, hlen, fun hnil => hne (by rw [← hrest, hnil, List.append_nil]), hrest.symm⟩
  obtain ⟨e, he⟩ : ∃ e, Framing.readFrame maxFrame tail = .error e :=
    Framing.readFrame_of_part hcut
  exact ⟨_, readFrameFrom_of_error he⟩

/-- Whole frames in front of a tail that cannot be read. -/
theorem readAll_flatMap {e : IoError} (htail : readFrameFrom tail = .error e) :
    ∀ bodies : List Octets, (∀ bytes ∈ bodies, bytes.length ≤ maxFrame) →
      readAll (bodies.flatMap Framing.frame ++ tail) = ⟨bodies, tail, e⟩ := by
  intro bodies
  induction bodies with
  | nil =>
      intro _
      exact readAll_of_error htail
  | cons bytes rest ih =>
      intro hshort
      have hrest := ih fun b hb => hshort b (List.mem_cons_of_mem _ hb)
      rw [List.flatMap_cons, List.append_assoc,
        readAll_of_ok (readFrameFrom_frame (hshort bytes (List.mem_cons_self ..)) _), hrest]

theorem writeAll_eq_ok {out : Octets} :
    ∀ bodies : List Octets, writeAll bodies = .ok out → out = bodies.flatMap Framing.frame ∧
      ∀ bytes ∈ bodies, bytes.length < 2 ^ 32 := by
  intro bodies
  induction bodies generalizing out with
  | nil =>
      intro h
      cases h
      exact ⟨rfl, nofun⟩
  | cons bytes rest ih =>
      intro h
      unfold writeAll writeFrame at h
      split at h
      · rename_i more hfirst hmore
        cases h
        split at hfirst
        · rename_i hlen
          cases hfirst
          obtain ⟨rfl, hrest⟩ := ih hmore
          exact ⟨rfl, List.forall_mem_cons.mpr ⟨hlen, hrest⟩⟩
        · cases hfirst
      · cases h
      · cases h

end Short

/-! ## The result -/

/-- What the reader makes of what the writer wrote. -/
structure ReadsBack (bodies : List Octets) (out : Octets) : Prop where
  /-- All of it is read, as what was written. -/
  whole : readAll out = ⟨bodies, [], .unexpectedEof⟩
  /-- A strict beginning of it ends after some of the frames, inside the next, and
  those are read. -/
  cut : ∀ p, p <+: out → p ≠ out →
    ∃ done bytes more tail e, bodies = done ++ bytes :: more ∧
      p = done.flatMap Framing.frame ++ tail ∧ tail.length < (Framing.frame bytes).length ∧
      readAll p = ⟨done, tail, e⟩

/-- Frames of at most `MAX_FRAME` bytes are read as they were written. -/
theorem readsBack_of_short {bodies : List Octets} {out : Octets}
    (hwritten : writeAll bodies = .ok out) (hshort : ∀ bytes ∈ bodies, bytes.length ≤ maxFrame) :
    ReadsBack bodies out := by
  obtain ⟨rfl, hlen⟩ := writeAll_eq_ok bodies hwritten
  constructor
  · have hread : readAll (bodies.flatMap Framing.frame ++ []) = ⟨bodies, [], .unexpectedEof⟩ :=
      readAll_flatMap rfl bodies hshort
    rw [List.append_nil] at hread
    exact hread
  · intro p hp hne
    obtain ⟨done, bytes, more, tail, rfl, rfl, hpart, hcut⟩ := Framing.exists_cut bodies p hp hne
    obtain ⟨e, he⟩ := readFrameFrom_part (hlen bytes (by simp)) hpart hcut
    refine ⟨done, bytes, more, tail, e, rfl, rfl, ?_, readAll_flatMap he done ?_⟩
    · exact Nat.lt_of_le_of_ne hpart.length_le fun heq => hcut (hpart.eq_of_length heq)
    · exact fun b hb => hshort b (List.mem_append_left _ hb)

/-- **Writer and reader agree exactly on lists of frames of at most `MAX_FRAME`
bytes.** -/
theorem readsBack_iff (bodies : List Octets) (out : Octets)
    (hwritten : writeAll bodies = .ok out) :
    ReadsBack bodies out ↔ ∀ bytes ∈ bodies, bytes.length ≤ maxFrame := by
  constructor
  · intro h
    have hframes := length_le_of_mem_readAll out
    rw [h.whole] at hframes
    exact hframes
  · exact readsBack_of_short hwritten

theorem readsBack_two : ReadsBack [[7], []] [0, 0, 0, 1, 7, 0, 0, 0, 0] :=
  (readsBack_iff [[7], []] _ rfl).mpr (by decide)

/-- A frame the writer accepts and the reader refuses. -/
theorem readAll_of_long {bytes : Octets} (hlong : maxFrame < bytes.length)
    (hlen : bytes.length < 2 ^ 32) :
    ∃ out, writeAll [bytes] = .ok out ∧ (readAll out).frames = [] := by
  have hwritten : writeFrame bytes = .ok (Framing.frame bytes) := if_pos hlen
  have hrefused := readFrameFrom_of_error (Framing.readFrame_frame_of_lt hlong hlen [])
  refine ⟨Framing.frame bytes ++ [], ?_, ?_⟩
  · unfold writeAll
    rw [hwritten]
    rfl
  · rw [readAll_of_error hrefused]

/-- One byte more than the reader takes. -/
theorem oversized_not_read :
    ¬ ∀ bodies out, writeAll bodies = .ok out → ReadsBack bodies out := by
  intro hall
  have hlength : (List.replicate (maxFrame + 1) (0 : UInt8)).length = maxFrame + 1 :=
    List.length_replicate
  have hfits : maxFrame + 1 < 2 ^ 32 := by decide
  obtain ⟨out, hwritten, hnone⟩ := readAll_of_long
    (by rw [hlength]; exact Nat.lt_succ_self maxFrame) (by rw [hlength]; exact hfits)
  rw [(hall _ out hwritten).whole] at hnone
  exact List.cons_ne_nil _ _ hnone

end HorsieActor.Ports.Tcp
