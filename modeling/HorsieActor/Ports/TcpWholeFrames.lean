import HorsieActor.Ports.TcpPeer

/-!
# Whole frames on a connection

The writer lock keeps frames from interleaving.  It does not keep them whole: a
frame is written in several awaits, and a call that is cancelled at one of them
gives the lock back with part of its frame on the wire and the peer still cached,
so the next frame lands behind the part (`cancelled_write_garbles`).  And what
`write_frame` will write the accepting side need not read: it refuses frames
above `maxFrame`, the writer only those whose length does not fit four bytes.

If no call is cancelled with part of its frame written, and no frame is longer
than `maxFrame`, then in every reachable state the bytes on the wire are the
completed frames, in lock order, and at most part of one more, and the accepting
side decodes exactly those (`wholeFrames_of_uncut`).
-/

namespace HorsieActor.Ports.Tcp

open HorsieActor.Verified
open HorsieActor.Verified.Schedule

/-! ## The accepting side -/

/-- Decode frame after frame; one that does not decode ends the connection. -/
def decodeAll (codec : Codec Frame) : List Octets → List Frame
  | [] => []
  | body :: rest =>
      match codec.decode body with
      | none => []
      | some frame => frame :: decodeAll codec rest

/-- What `serve` makes of the bytes it has been sent. -/
def accepted (codec : Codec Frame) (wire : Octets) : List Frame :=
  decodeAll codec (Framing.readFrames maxFrame (wire.length + 1) wire)

theorem decodeAll_encode (codec : Codec Frame) (frames : List Frame) :
    decodeAll codec (frames.map codec.encode) = frames := by
  induction frames with
  | nil => rfl
  | cons frame rest ih => simp only [List.map_cons, decodeAll, codec.decode_encode, ih]

/-! ## The property -/

/-- The bytes of a frame. -/
def frameBytes (codec : Codec Frame) (frame : Frame) : Octets :=
  Framing.frame (codec.encode frame)

/-- The wire holds complete frames followed by at most part of one, and the
accepting side decodes exactly the frames whose writes completed. -/
def WholeFrames (codec : Codec Frame) (w : World) : Prop :=
  (∃ tail, w.writer.wire = w.writer.completed.flatMap (frameBytes codec) ++ tail ∧
    Framing.Part tail) ∧ accepted codec w.writer.wire = w.writer.completed

/-- No call is cancelled with part of its frame on the wire. -/
def NoneCut (codec : Codec Frame) (w : World) : Label → Prop
  | .cancel i => ∀ frame rest, w.writer.holder = some (i, frame, rest) →
      rest = frameBytes codec frame
  | _ => True

/-- No call is cancelled with part of its frame on the wire, and no frame is too
long to be read. -/
def Uncut (codec : Codec Frame) (w : World) : Label → Prop
  | .cancel i => ∀ frame rest, w.writer.holder = some (i, frame, rest) →
      rest = frameBytes codec frame
  | .acquire i => ∀ call frame, w.calls[i]? = some call → call.pc = .queued frame →
      (codec.encode frame).length ≤ maxFrame
  | _ => True

/-! ## The invariant -/

/-- What is on the wire, in terms of who holds the lock; the frames are as long as
`write_frame` writes them. -/
structure Framed (codec : Codec Frame) (writer : Writer) : Prop where
  sized : ∀ frame ∈ writer.completed, (codec.encode frame).length < 2 ^ 32
  wire : ∃ tail, writer.wire = writer.completed.flatMap (frameBytes codec) ++ tail ∧
    Framing.Part tail ∧
    (writer.broken = false →
      match writer.holder with
      | none => tail = []
      | some (_, frame, rest) => tail ++ rest = frameBytes codec frame)
  holder : ∀ i frame rest, writer.holder = some (i, frame, rest) →
    (codec.encode frame).length < 2 ^ 32 ∧ rest ≠ []

/-- And they are as long as the accepting side reads them. -/
structure Whole (codec : Codec Frame) (writer : Writer) : Prop extends Framed codec writer where
  short : ∀ frame ∈ writer.completed, (codec.encode frame).length ≤ maxFrame
  held : ∀ i frame rest, writer.holder = some (i, frame, rest) →
    (codec.encode frame).length ≤ maxFrame

section Steps

variable {codec : Codec Frame} {w w' : World}

theorem framed_new : Framed codec .new where
  sized := nofun
  wire := ⟨[], rfl, Framing.part_nil, fun _ => rfl⟩
  holder := nofun

theorem whole_new : Whole codec .new := ⟨framed_new, nofun, nofun⟩

theorem flatMap_frameBytes (codec : Codec Frame) (frames : List Frame) :
    frames.flatMap (frameBytes codec) = (frames.map codec.encode).flatMap Framing.frame := by
  rw [List.flatMap_map]
  rfl

/-- The accepting side decodes the frames whose writes completed, up to the first
it refuses. -/
theorem Framed.accepted_prefix {writer : Writer} (h : Framed codec writer) :
    accepted codec writer.wire <+: writer.completed := by
  obtain ⟨tail, hwire, hpart, -⟩ := h.wire
  have hsized : ∀ body ∈ writer.completed.map codec.encode, body.length < 2 ^ 32 := by
    intro body hbody
    obtain ⟨frame, hframe, rfl⟩ := List.mem_map.mp hbody
    exact h.sized frame hframe
  have hread := Framing.readFrames_flatMap_prefix maxFrame hpart _ (writer.wire.length + 1) hsized
  rw [← flatMap_frameBytes, ← hwire, List.prefix_iff_eq_take, ← List.map_take] at hread
  rw [accepted, hread, decodeAll_encode]
  exact List.take_prefix ..

theorem Whole.wholeFrames (h : Whole codec w.writer) : WholeFrames codec w := by
  obtain ⟨tail, hwire, hpart, -⟩ := h.wire
  refine ⟨⟨tail, hwire, hpart⟩, ?_⟩
  have hbodies := flatMap_frameBytes codec w.writer.completed
  have hfuel : (w.writer.completed.map codec.encode).length < w.writer.wire.length + 1 := by
    have := Framing.length_le_length_flatMap (w.writer.completed.map codec.encode)
    rw [hwire, hbodies, List.length_append]
    omega
  have hshort : ∀ body ∈ w.writer.completed.map codec.encode,
      body.length ≤ maxFrame ∧ body.length < 2 ^ 32 := by
    intro body hbody
    obtain ⟨frame, hframe, rfl⟩ := List.mem_map.mp hbody
    have hle := h.short frame hframe
    exact ⟨hle, Nat.lt_of_le_of_lt hle maxFrame_lt⟩
  have htail : ∃ e, Framing.readFrame maxFrame tail = .error e := Framing.readFrame_of_part hpart
  have hread := Framing.readFrames_flatMap htail
    (w.writer.completed.map codec.encode) _ hshort hfuel
  rw [← hbodies, ← hwire] at hread
  rw [accepted, hread, decodeAll_encode]

/-- A frame is never empty, its length being part of it. -/
theorem frameBytes_ne_nil (codec : Codec Frame) (frame : Frame) : frameBytes codec frame ≠ [] := by
  intro hnil
  have hlen := Framing.length_frame (codec.encode frame)
  rw [frameBytes] at hnil
  rw [hnil, List.length_nil] at hlen
  omega

/-- The lock is granted between frames. -/
theorem Framed.acquire {writer : Writer} (h : Framed codec writer) (hfree : writer.holder = none)
    (i : Nat) {frame : Frame} (hlt : (codec.encode frame).length < 2 ^ 32) :
    Framed codec { writer with holder := some (i, frame, frameBytes codec frame) } := by
  obtain ⟨tail, hwire, hpart, hclean⟩ := h.wire
  refine ⟨h.sized, ⟨tail, hwire, hpart, fun hbroken => ?_⟩, ?_⟩
  · have htail := hclean hbroken
    rw [hfree] at htail
    show tail ++ frameBytes codec frame = frameBytes codec frame
    rw [htail, List.nil_append]
  · rintro j frame' rest hholder
    cases hholder
    exact ⟨hlt, frameBytes_ne_nil codec frame⟩

/-- The last bytes of a frame. -/
theorem Framed.complete {writer : Writer} (h : Framed codec writer) {i : Nat} {frame : Frame}
    {rest : Octets} (hholder : writer.holder = some (i, frame, rest))
    (hbroken : writer.broken = false) :
    Framed codec { writer with
      wire := writer.wire ++ rest, holder := none, completed := writer.completed ++ [frame] } := by
  obtain ⟨tail, hwire, -, hclean⟩ := h.wire
  have htail := hclean hbroken
  rw [hholder] at htail
  refine ⟨?_, ⟨[], ?_, Framing.part_nil, fun _ => rfl⟩, nofun⟩
  · intro f hf
    rcases List.mem_append.mp hf with hf | hf
    · exact h.sized f hf
    · rw [List.mem_singleton.mp hf]
      exact (h.holder i frame rest hholder).1
  · show writer.wire ++ rest = (writer.completed ++ [frame]).flatMap (frameBytes codec) ++ []
    rw [hwire, List.append_assoc, htail, List.flatMap_append, List.append_nil,
      List.flatMap_singleton]

/-- Some bytes of a frame, and not the last. -/
theorem Framed.advance {writer : Writer} (h : Framed codec writer) {i n : Nat} {frame : Frame}
    {rest : Octets} (hholder : writer.holder = some (i, frame, rest))
    (hbroken : writer.broken = false) (hmore : n < rest.length) :
    Framed codec { writer with
      wire := writer.wire ++ rest.take n, holder := some (i, frame, rest.drop n) } := by
  obtain ⟨tail, hwire, -, hclean⟩ := h.wire
  have htail := hclean hbroken
  rw [hholder] at htail
  have hne : rest.drop n ≠ [] := by
    intro hnil
    have hlen := List.length_drop (i := n) (l := rest)
    rw [hnil, List.length_nil] at hlen
    omega
  have hcut : (tail ++ rest.take n) ++ rest.drop n = frameBytes codec frame := by
    rw [List.append_assoc, List.take_append_drop, htail]
  have hlt := (h.holder i frame rest hholder).1
  refine ⟨h.sized, ⟨tail ++ rest.take n, ?_, ?_, fun _ => hcut⟩, ?_⟩
  · show writer.wire ++ rest.take n = _
    rw [hwire, List.append_assoc]
  · exact ⟨_, _, hlt, hne, hcut.symm⟩
  · rintro j frame' rest' hholder'
    cases hholder'
    exact ⟨hlt, hne⟩

/-- A write that fails leaves what is there, and nothing follows. -/
theorem Framed.fail {writer : Writer} (h : Framed codec writer) :
    Framed codec { writer with broken := true, holder := none } := by
  obtain ⟨tail, hwire, hpart, -⟩ := h.wire
  exact ⟨h.sized, ⟨tail, hwire, hpart, nofun⟩, nofun⟩

/-- A guard dropped before its frame was begun. -/
theorem Framed.release {writer : Writer} (h : Framed codec writer) {i : Nat}
    (huncut : ∀ frame rest, writer.holder = some (i, frame, rest) →
      rest = frameBytes codec frame) : Framed codec (writer.release i) := by
  by_cases hheld : ∃ frame rest, writer.holder = some (i, frame, rest)
  · obtain ⟨frame, rest, hholder⟩ := hheld
    have hnone : (writer.release i).holder = none := by simp [Writer.release, hholder]
    obtain ⟨tail, hwire, hpart, hclean⟩ := h.wire
    refine ⟨h.sized, ⟨tail, hwire, hpart, fun hbroken => ?_⟩, ?_⟩
    · rw [hnone]
      have htail := hclean hbroken
      rw [hholder, huncut frame rest hholder] at htail
      exact List.append_left_eq_self.mp htail
    · rw [hnone]
      exact nofun
  · have hsame : writer.holder.filter (fun held => held.1 != i) = writer.holder := by
      cases hholder : writer.holder with
      | none => rfl
      | some held =>
          have hne : held.1 ≠ i := by
            rintro rfl
            exact hheld ⟨_, _, hholder⟩
          simp [hne]
    unfold Writer.release
    rw [hsame]
    exact h

/-- Without cuts a step keeps the wire framed, and only the frames that are granted
the lock get onto it. -/
theorem framed_step (w : World) (label : Label) (w' : World) (h : Framed codec w.writer)
    (hcut : NoneCut codec w label) (hs : step codec w label = some w') :
    Framed codec w'.writer := by
  by_cases hlabel : label.writes = false
  · rw [writer_eq_of_step hlabel hs]
    exact h
  cases step_moves hs with
  | acquire hi hfree hlength => exact h.acquire hfree _ hlength
  | refuse => exact h
  | finish hi hheld hsound hlast =>
      dsimp only
      rw [List.take_of_length_le hlast]
      exact h.complete hheld hsound
  | advance hheld hsound hmore => exact h.advance hheld hsound hmore
  | fail => exact h.fail
  | release => exact h.release hcut
  | cancel => exact h
  | _ => exact absurd rfl hlabel

/-- The frame that holds the lock after a step held it before, or was granted it;
and what is completed was held. -/
theorem short_step {label : Label} (h : Whole codec w.writer) (huncut : Uncut codec w label)
    (hs : step codec w label = some w') :
    (∀ frame ∈ w'.writer.completed, (codec.encode frame).length ≤ maxFrame) ∧
      ∀ i frame rest, w'.writer.holder = some (i, frame, rest) →
        (codec.encode frame).length ≤ maxFrame := by
  by_cases hlabel : label.writes = false
  · rw [writer_eq_of_step hlabel hs]
    exact ⟨h.short, h.held⟩
  cases step_moves hs with
  | acquire hi =>
      refine ⟨h.short, fun _ _ _ hheld => ?_⟩
      cases hheld
      exact huncut _ _ hi rfl
  | finish hi hheld =>
      refine ⟨fun frame hframe => ?_, fun _ _ _ hnone => by cases hnone⟩
      rcases List.mem_append.mp hframe with hframe | hframe
      · exact h.short frame hframe
      · rw [List.mem_singleton.mp hframe]
        exact h.held _ _ _ hheld
  | advance hheld =>
      refine ⟨h.short, fun _ _ _ hheld' => ?_⟩
      cases hheld'
      exact h.held _ _ _ hheld
  | fail => exact ⟨h.short, fun _ _ _ hnone => by cases hnone⟩
  | release =>
      exact ⟨h.short, fun i frame rest hheld =>
        h.held i frame rest (Option.filter_eq_some_iff.mp hheld).1⟩
  | refuse | cancel => exact ⟨h.short, h.held⟩
  | _ => exact absurd rfl hlabel

theorem Uncut.noneCut {label : Label} (h : Uncut codec w label) : NoneCut codec w label := by
  cases label with
  | cancel i => exact h
  | _ => trivial

theorem whole_step (w : World) (label : Label) (w' : World) (h : Whole codec w.writer)
    (huncut : Uncut codec w label) (hs : step codec w label = some w') : Whole codec w'.writer := by
  obtain ⟨hshort, hheld⟩ := short_step h huncut hs
  exact ⟨framed_step w label w' h.toFramed huncut.noneCut hs, hshort, hheld⟩

end Steps

/-! ## The results -/

/-- **The wire holds whole frames**, in every run in which no call is cancelled
with part of its frame written and no frame exceeds what the accepting side will
read. -/
theorem wholeFrames_of_uncut (codec : Codec Frame) (l : List Label) (w : World)
    (hrun : run (step codec) World.dialled l = some w)
    (huncut : Along (step codec) (Uncut codec) World.dialled l) : WholeFrames codec w :=
  (run_invariant (I := fun w => Whole codec w.writer) whole_step l whole_new huncut
    hrun).wholeFrames

/-- A `send` gives up while it queues behind an `rpc`. -/
def gaveUpInTheQueue : List Label :=
  [.call (.rpc [7]), .call (.send hello), .obtain 0, .obtain 1, .mint 0, .insert 0, .acquire 0,
    .write 0 1, .cancel 1, .write 0 5]

theorem wholeFrames_gaveUpInTheQueue :
    ∃ w, run (step demoCodec) World.dialled gaveUpInTheQueue = some w ∧
      w.writer.completed = [.request 0 [7]] ∧ WholeFrames demoCodec w := by
  refine ⟨_, rfl, rfl, wholeFrames_of_uncut demoCodec gaveUpInTheQueue _ rfl ?_⟩
  refine ⟨trivial, trivial, trivial, trivial, trivial, trivial, ?_, trivial, ?_, trivial, trivial⟩
  · intro call frame hi hpc
    cases hi
    cases hpc
    show ([2] : Octets).length ≤ maxFrame
    decide
  · intro frame rest hholder
    cases hholder

/-- A `send` is cancelled with half its length on the wire, and an `rpc` follows. -/
def cancelledInside : List Label :=
  [.call (.send hello), .call (.rpc [7]), .obtain 0, .obtain 1, .mint 1, .insert 1, .acquire 0,
    .write 0 1, .cancel 0, .acquire 1, .write 1 9]

theorem cancelled_write_garbles :
    ¬ ∀ (codec : Codec Frame) (l : List Label) (w : World),
      run (step codec) World.dialled l = some w → WholeFrames codec w := by
  intro h
  have hwhole := h demoCodec cancelledInside _ rfl
  have haccepted : ([] : List Frame) = [.request 0 [7]] := hwhole.2
  cases haccepted

end HorsieActor.Ports.Tcp
