import Mathlib.Algebra.Group.Nat.Defs
import Mathlib.Tactic.Common

/-!
# Length-prefixed frames

A frame is its length in four bytes, most significant first, and then its body.
A reader takes the length, refuses one above its limit, and takes that many bytes.

Frames need no separators because no frame is a proper beginning of another: what
a reader makes of a concatenation of frames and a tail is those frames and what
it makes of the tail (`readFrames_flatMap`), and of a tail that is part of a frame
it makes nothing (`readFrame_of_part`).

This module names no particular protocol.
-/

namespace HorsieActor.Verified.Framing

/-! ## Writing -/

/-- `u32::to_be_bytes`. -/
def beLength (n : Nat) : List UInt8 :=
  [UInt8.ofNat (n / 2 ^ 24), UInt8.ofNat (n / 2 ^ 16), UInt8.ofNat (n / 2 ^ 8), UInt8.ofNat n]

/-- `u32::from_be_bytes`. -/
def ofBeLength (a b c d : UInt8) : Nat :=
  a.toNat * 2 ^ 24 + b.toNat * 2 ^ 16 + c.toNat * 2 ^ 8 + d.toNat

theorem ofBeLength_beLength {n : Nat} (h : n < 2 ^ 32) :
    ofBeLength (UInt8.ofNat (n / 2 ^ 24)) (UInt8.ofNat (n / 2 ^ 16)) (UInt8.ofNat (n / 2 ^ 8))
      (UInt8.ofNat n) = n := by
  simp only [ofBeLength, UInt8.toNat_ofNat']
  omega

def frame (body : List UInt8) : List UInt8 := beLength body.length ++ body

theorem length_frame (body : List UInt8) : (frame body).length = 4 + body.length := by
  simp only [frame, beLength, List.length_append, List.length_cons, List.length_nil]

/-! ## Reading -/

inductive FrameError where
  | tooLong
  | unexpectedEof
  deriving DecidableEq, Repr

/-- One frame off the front of the stream. -/
def readFrame (max : Nat) : List UInt8 → Except FrameError (List UInt8 × List UInt8)
  | a :: b :: c :: d :: rest =>
      if max < ofBeLength a b c d then .error .tooLong
      else if rest.length < ofBeLength a b c d then .error .unexpectedEof
      else .ok (rest.take (ofBeLength a b c d), rest.drop (ofBeLength a b c d))
  | _ => .error .unexpectedEof

/-- Frames until one cannot be read. -/
def readFrames (max : Nat) : Nat → List UInt8 → List (List UInt8)
  | 0, _ => []
  | fuel + 1, bytes =>
      match readFrame max bytes with
      | .error _ => []
      | .ok (body, rest) => body :: readFrames max fuel rest

theorem readFrame_frame {max : Nat} {body : List UInt8} (hmax : body.length ≤ max)
    (hlen : body.length < 2 ^ 32) (rest : List UInt8) :
    readFrame max (frame body ++ rest) = .ok (body, rest) := by
  have hread := ofBeLength_beLength hlen
  show readFrame max (UInt8.ofNat (body.length / 2 ^ 24) :: UInt8.ofNat (body.length / 2 ^ 16) ::
    UInt8.ofNat (body.length / 2 ^ 8) :: UInt8.ofNat body.length :: (body ++ rest)) = _
  rw [readFrame, hread, if_neg (by omega), if_neg (by rw [List.length_append]; omega),
    List.take_left, List.drop_left]

/-- A reader refuses by the length, whatever comes after it. -/
theorem readFrame_frame_of_lt {max : Nat} {body : List UInt8} (hmax : max < body.length)
    (hlen : body.length < 2 ^ 32) (rest : List UInt8) :
    readFrame max (frame body ++ rest) = .error .tooLong := by
  have hread := ofBeLength_beLength hlen
  show readFrame max (UInt8.ofNat (body.length / 2 ^ 24) :: UInt8.ofNat (body.length / 2 ^ 16) ::
    UInt8.ofNat (body.length / 2 ^ 8) :: UInt8.ofNat body.length :: (body ++ rest)) = _
  rw [readFrame, hread, if_pos hmax]

/-- A frame that is read is within the limit, and takes its four bytes of length
off the stream at least. -/
theorem bounds_of_readFrame {max : Nat} {bytes body rest : List UInt8}
    (h : readFrame max bytes = .ok (body, rest)) :
    body.length ≤ max ∧ rest.length < bytes.length := by
  unfold readFrame at h
  split at h
  · split at h
    · cases h
    · rename_i hmax
      split at h
      · cases h
      · cases h
        constructor
        · exact Nat.le_trans (List.length_take_le ..) (Nat.not_lt.mp hmax)
        · simp only [List.length_drop, List.length_cons]
          omega
  · cases h

/-- The tail is a beginning of a frame, and not all of it. -/
def Part (tail : List UInt8) : Prop :=
  ∃ body rest, body.length < 2 ^ 32 ∧ rest ≠ [] ∧ frame body = tail ++ rest

theorem part_nil : Part [] := ⟨[], frame [], by decide, by decide, rfl⟩

/-- Nothing can be read off a part of a frame. -/
theorem readFrame_of_part {max : Nat} {tail : List UInt8} (h : Part tail) :
    ∃ e, readFrame max tail = .error e := by
  obtain ⟨body, rest, hlen, hrest, hframe⟩ := h
  have htail : tail.length < 4 + body.length := by
    have hsum := congrArg List.length hframe
    rw [length_frame, List.length_append] at hsum
    have := List.length_pos_iff.mpr hrest
    omega
  match tail with
  | [] | [_] | [_, _] | [_, _, _] => exact ⟨_, rfl⟩
  | a :: b :: c :: d :: tail' =>
      -- the length has arrived, and is that of the frame
      have hread : ofBeLength a b c d = body.length := by
        have hfour : frame body = UInt8.ofNat (body.length / 2 ^ 24) ::
          UInt8.ofNat (body.length / 2 ^ 16) :: UInt8.ofNat (body.length / 2 ^ 8) ::
          UInt8.ofNat body.length :: body := rfl
        rw [hfour] at hframe
        simp only [List.cons_append, List.cons.injEq] at hframe
        obtain ⟨rfl, rfl, rfl, rfl, -⟩ := hframe
        exact ofBeLength_beLength hlen
      rw [readFrame, hread]
      by_cases hmax : max < body.length
      · exact ⟨_, if_pos hmax⟩
      · simp only [List.length_cons] at htail
        rw [if_neg hmax, if_pos (by omega)]
        exact ⟨_, rfl⟩

/-- Where a beginning of a sequence of frames ends: after some of them, inside the
next. -/
theorem exists_cut (bodies : List (List UInt8)) :
    ∀ p : List UInt8, p <+: bodies.flatMap frame → p ≠ bodies.flatMap frame →
      ∃ done body more tail, bodies = done ++ body :: more ∧ p = done.flatMap frame ++ tail ∧
        tail <+: frame body ∧ tail ≠ frame body := by
  induction bodies with
  | nil =>
      intro p hp hne
      exact absurd (List.prefix_nil.mp hp) hne
  | cons body bodies ih =>
      intro p hp hne
      rw [List.flatMap_cons] at hp hne
      by_cases hlen : (frame body).length ≤ p.length
      · obtain ⟨p', rfl⟩ :=
          List.prefix_of_prefix_length_le (List.prefix_append _ _) hp hlen
        obtain ⟨done, next, more, tail, rfl, rfl, htail⟩ :=
          ih p' ((List.prefix_append_right_inj _).mp hp) fun heq => hne (congrArg _ heq)
        exact ⟨body :: done, next, more, tail, rfl, (List.append_assoc ..).symm, htail⟩
      · have hin : p <+: frame body :=
          List.prefix_of_prefix_length_le hp (List.prefix_append _ _) (Nat.le_of_not_le hlen)
        exact ⟨[], body, bodies, p, rfl, rfl, hin, fun heq => hlen (heq ▸ Nat.le_refl _)⟩

/-- **Whole frames are read back, and a tail that cannot be read ends it.** -/
theorem readFrames_flatMap {max : Nat} {tail : List UInt8}
    (htail : ∃ e, readFrame max tail = .error e) (bodies : List (List UInt8)) :
    ∀ fuel, (∀ body ∈ bodies, body.length ≤ max ∧ body.length < 2 ^ 32) → bodies.length < fuel →
      readFrames max fuel (bodies.flatMap frame ++ tail) = bodies := by
  induction bodies with
  | nil =>
      intro fuel _ hfuel
      obtain ⟨e, he⟩ := htail
      cases fuel with
      | zero => rfl
      | succ fuel => simp only [List.flatMap_nil, List.nil_append, readFrames, he]
  | cons body rest ih =>
      intro fuel hbodies hfuel
      obtain ⟨hmax, hlen⟩ := hbodies body (List.mem_cons_self ..)
      cases fuel with
      | zero => exact absurd hfuel (Nat.not_lt_zero _)
      | succ fuel =>
          have hrest := ih fuel (fun b hb => hbodies b (List.mem_cons_of_mem _ hb))
            (Nat.lt_of_succ_lt_succ hfuel)
          rw [List.flatMap_cons, List.append_assoc, readFrames, readFrame_frame hmax hlen]
          exact congrArg (body :: ·) hrest

/-- Of whole frames and part of one more a reader takes those frames, in order, up to
the first it refuses. -/
theorem readFrames_flatMap_prefix (max : Nat) {tail : List UInt8} (hpart : Part tail)
    (bodies : List (List UInt8)) :
    ∀ fuel, (∀ body ∈ bodies, body.length < 2 ^ 32) →
      readFrames max fuel (bodies.flatMap frame ++ tail) <+: bodies := by
  induction bodies with
  | nil =>
      intro fuel _
      obtain ⟨e, he⟩ : ∃ e, readFrame max tail = .error e := readFrame_of_part hpart
      cases fuel with
      | zero => exact List.nil_prefix
      | succ fuel =>
          have hnone : readFrames max (fuel + 1) tail = [] := by
            rw [readFrames, he]
          exact ⟨[], congrArg (· ++ []) hnone⟩
  | cons body rest ih =>
      intro fuel hbodies
      have hlen := hbodies body (List.mem_cons_self ..)
      cases fuel with
      | zero => exact List.nil_prefix
      | succ fuel =>
          rw [List.flatMap_cons, List.append_assoc, readFrames]
          rcases Nat.lt_or_ge max body.length with hlong | hshort
          · rw [readFrame_frame_of_lt hlong hlen]
            exact List.nil_prefix
          · rw [readFrame_frame hshort hlen]
            exact List.cons_prefix_cons.mpr
              ⟨rfl, ih fuel fun b hb => hbodies b (List.mem_cons_of_mem _ hb)⟩

/-- A frame is four bytes or more, so as many rounds as there are bytes will do. -/
theorem length_le_length_flatMap (bodies : List (List UInt8)) :
    bodies.length ≤ (bodies.flatMap frame).length := by
  induction bodies with
  | nil => exact Nat.le_refl 0
  | cons body rest ih =>
      rw [List.flatMap_cons, List.length_append, length_frame, List.length_cons]
      omega

/-! ## What is read was a frame -/

theorem beLength_ofBeLength (a b c d : UInt8) : beLength (ofBeLength a b c d) = [a, b, c, d] := by
  have ha := a.toNat_lt
  have hb := b.toNat_lt
  have hc := c.toNat_lt
  have hd := d.toNat_lt
  simp only [beLength, ofBeLength, List.cons.injEq, ← UInt8.toNat_inj, UInt8.toNat_ofNat',
    and_true]
  omega

/-- A reader takes a frame off the stream that is no longer than it allows, and nothing
else. -/
theorem readFrame_eq_ok_iff {max : Nat} (hmax : max < 2 ^ 32) {bytes body rest : List UInt8} :
    readFrame max bytes = .ok (body, rest) ↔ bytes = frame body ++ rest ∧ body.length ≤ max := by
  constructor
  · intro h
    match bytes with
    | a :: b :: c :: d :: tail =>
        rw [readFrame] at h
        split at h
        · cases h
        · split at h
          · cases h
          · rename_i hle hlen
            cases h
            have htake : (tail.take (ofBeLength a b c d)).length = ofBeLength a b c d := by
              rw [List.length_take]
              omega
            refine ⟨?_, by omega⟩
            rw [frame, htake, beLength_ofBeLength, List.append_assoc, List.take_append_drop]
            rfl
    | [] | [_] | [_, _] | [_, _, _] => cases h
  · rintro ⟨rfl, hle⟩
    exact readFrame_frame hle (by omega) rest

/-- What a reader makes of a stream it goes on making when more of it arrives. -/
theorem readFrames_prefix {max : Nat} (hmax : max < 2 ^ 32) (fuel : Nat) :
    ∀ (p q : List UInt8) (fuel' : Nat), (p ++ q).length < fuel' →
      readFrames max fuel p <+: readFrames max fuel' (p ++ q) := by
  induction fuel with
  | zero =>
      intro p q fuel' _
      exact List.nil_prefix
  | succ fuel ih =>
      intro p q fuel' hlen
      rw [readFrames]
      cases hread : readFrame max p with
      | error e => exact List.nil_prefix
      | ok r =>
          obtain ⟨body, rest⟩ := r
          obtain ⟨rfl, hle⟩ := (readFrame_eq_ok_iff hmax).mp hread
          cases fuel' with
          | zero => exact absurd hlen (Nat.not_lt_zero _)
          | succ fuel' =>
              rw [List.append_assoc, readFrames, readFrame_frame hle (by omega)]
              refine List.cons_prefix_cons.mpr ⟨rfl, ih rest q fuel' ?_⟩
              rw [List.append_assoc, List.length_append, length_frame] at hlen
              omega

/-- Rounds beyond the length of the stream change nothing. -/
theorem readFrames_fuel {max : Nat} (hmax : max < 2 ^ 32) {bytes : List UInt8} {fuel fuel' : Nat}
    (h : bytes.length < fuel) (h' : bytes.length < fuel') :
    readFrames max fuel bytes = readFrames max fuel' bytes := by
  have hto := readFrames_prefix hmax fuel bytes [] fuel' (by rwa [List.append_nil])
  have hback := readFrames_prefix hmax fuel' bytes [] fuel (by rwa [List.append_nil])
  rw [List.append_nil] at hto hback
  exact hto.eq_of_length (Nat.le_antisymm hto.length_le hback.length_le)

theorem readFrames_frame_append {max : Nat} (hmax : max < 2 ^ 32) {body : List UInt8}
    (hle : body.length ≤ max) (rest : List UInt8) :
    readFrames max ((frame body ++ rest).length + 1) (frame body ++ rest) =
      body :: readFrames max (rest.length + 1) rest := by
  rw [readFrames, readFrame_frame hle (by omega)]
  refine congrArg (body :: ·) (readFrames_fuel hmax ?_ (Nat.lt_succ_self _))
  rw [List.length_append, length_frame]
  omega

end HorsieActor.Verified.Framing
