import HorsieActor.Ports.TcpPeer
import HorsieActor.Verified.Slots
import Mathlib.Algebra.Group.Nat.Defs

/-!
# Whose request has which id

A dialled connection together with its history: which call got which request id,
and who wrote each frame.  `next_request` counts up from zero, so the ids are the
positions in that history, and an id names one call as long as the counter has not
come round (`Got.unique`).

The invariant follows a call from the minting of its id to its answer: wherever
the code has an id and a call together, in the table, in a frame that waits for the
lock, in one that is being written or has been, the call is the one that got the
id; and a call that waits without an answer has its row.  All of it survives that
calls are dropped at any await.
-/

namespace HorsieActor.Ports.Tcp

open HorsieActor.Verified

structure Dialler where
  peer : World
  /-- History: which call got which id. -/
  minted : List Nat
  /-- History: who wrote each of the completed frames. -/
  writers : List Nat
  deriving DecidableEq, Repr

namespace Dialler

def new : Dialler := ⟨.dialled, [], []⟩

def step (codec : Codec Frame) (d : Dialler) (label : Label) : Option Dialler :=
  (Tcp.step codec d.peer label).map fun peer =>
    { peer := peer
      minted :=
        match label with
        | .mint i => d.minted ++ [i]
        | _ => d.minted
      writers :=
        match label with
        | .write i _ =>
            if peer.writer.completed.length = d.peer.writer.completed.length then d.writers
            else d.writers ++ [i]
        | _ => d.writers }

/-- The call got the id. -/
def Got (d : Dialler) (i : Nat) (id : UInt64) : Prop :=
  ∃ n, d.minted[n]? = some i ∧ id = UInt64.ofNat n

/-- The call got the id, and has its row if it has no answer. -/
def Listed (d : Dialler) (i : Nat) (call : Call) (id : UInt64) : Prop :=
  d.Got i id ∧ (call.answer = .empty → (id, i) ∈ d.peer.pending)

/-- The frame is one that the call may be about to write. -/
def Carries (d : Dialler) (i : Nat) (call : Call) : Frame → Prop
  | .message _ => True
  | .request id _ => d.Listed i call id
  | .response _ _ => False

/-- What is known of a call by where it is. -/
def Fits (d : Dialler) (i : Nat) (call : Call) : Prop :=
  match call.pc with
  | .calling | .obtained => i ∉ d.writers
  | .minted id => d.Got i id ∧ i ∉ d.writers
  | .queued frame => d.Carries i call frame ∧ i ∉ d.writers
  | .writing => i ∉ d.writers ∧
      ∃ frame rest, d.peer.writer.holder = some (i, frame, rest) ∧ d.Carries i call frame
  | .awaiting id => d.Listed i call id
  | .failed _ | .dropping | .returned | .cancelled => True

/-- A call that has written its request waits, or has been told, or has been
dropped. -/
def Waits (call : Call) (id : UInt64) : Prop :=
  call.pc = .awaiting id ∨ call.pc = .returned ∧ call.answer ≠ .empty ∨ call.pc = .cancelled

structure Inv (d : Dialler) : Prop where
  next : d.peer.nextRequest = UInt64.ofNat d.minted.length
  range : d.minted.length ≤ 2 ^ 64
  calls : ∀ (i : Nat) (call : Call), d.peer.calls[i]? = some call → d.Fits i call
  rows : ∀ row ∈ d.peer.pending, d.Got row.2 row.1
  holder : ∀ i frame rest, d.peer.writer.holder = some (i, frame, rest) →
    ∃ call : Call, d.peer.calls[i]? = some call ∧ call.pc = .writing
  lengths : d.writers.length = d.peer.writer.completed.length
  once : d.writers.Nodup
  known : ∀ i ∈ d.writers, i < d.peer.calls.length
  written : ∀ (f i : Nat) (id : UInt64) (payload : Octets), d.writers[f]? = some i →
    d.peer.writer.completed[f]? = some (.request id payload) →
    d.Got i id ∧ ∃ call, d.peer.calls[i]? = some call ∧ Waits call id

theorem inv_new : new.Inv where
  next := rfl
  range := Nat.zero_le _
  calls := nofun
  rows := nofun
  holder := nofun
  lengths := rfl
  once := List.nodup_nil
  known := nofun
  written := nofun

section Parts

variable {d d' : Dialler} {i j : Nat} {call : Call} {id : UInt64}

/-- An id names one call. -/
theorem Got.unique (hrange : d.minted.length ≤ 2 ^ 64) (h : d.Got i id) (h' : d.Got j id) :
    i = j := by
  obtain ⟨n, hn, rfl⟩ := h
  obtain ⟨m, hm, heq⟩ := h'
  have hnlt := Nat.lt_of_lt_of_le (List.getElem?_eq_some_iff.mp hn).1 hrange
  have hmlt := Nat.lt_of_lt_of_le (List.getElem?_eq_some_iff.mp hm).1 hrange
  have hnm := congrArg UInt64.toNat heq
  rw [UInt64.toNat_ofNat_of_lt' hnlt, UInt64.toNat_ofNat_of_lt' hmlt] at hnm
  subst hnm
  exact Option.some.inj (hn.symm.trans hm)

theorem Carries.mono {frame : Frame} (hgot : ∀ id, d.Got i id → d'.Got i id)
    (hrows : ∀ row ∈ d.peer.pending, row ∈ d'.peer.pending) (h : d.Carries i call frame) :
    d'.Carries i call frame := by
  cases frame with
  | message => trivial
  | request => exact ⟨hgot _ h.1, fun hempty => hrows _ (h.2 hempty)⟩
  | response => exact h

/-- What others do leaves a call where it is: ids and rows are added, and the lock
stays with whoever has it. -/
theorem Fits.mono (hgot : ∀ id, d.Got i id → d'.Got i id)
    (hrows : ∀ row ∈ d.peer.pending, row ∈ d'.peer.pending)
    (hwriters : i ∈ d'.writers → i ∈ d.writers)
    (hholder : ∀ frame rest, d.peer.writer.holder = some (i, frame, rest) →
      ∃ rest', d'.peer.writer.holder = some (i, frame, rest'))
    (h : d.Fits i call) : d'.Fits i call := by
  unfold Fits at h ⊢
  split at h
  · exact fun hi => h (hwriters hi)
  · exact fun hi => h (hwriters hi)
  · exact ⟨hgot _ h.1, fun hi => h.2 (hwriters hi)⟩
  · exact ⟨h.1.mono hgot hrows, fun hi => h.2 (hwriters hi)⟩
  · obtain ⟨hi, frame, rest, hheld, hcarries⟩ := h
    obtain ⟨rest', hheld'⟩ := hholder frame rest hheld
    exact ⟨fun hi' => hi (hwriters hi'), frame, rest', hheld', hcarries.mono hgot hrows⟩
  · exact ⟨hgot _ h.1, fun hempty => hrows _ (h.2 hempty)⟩
  · trivial
  · trivial
  · trivial
  · trivial

end Parts

/-! ## Steps -/

section Answer

variable {w : World} {gone : UInt64 × Nat → Bool} {a : Oneshot} {i : Nat} {call call' : Call}

/-- A caller is told if a row of its is used up. -/
theorem getElem?_answer (h : w.calls[i]? = some call) :
    (w.answer gone a).calls[i]? =
      some (if w.pending.any fun row => gone row && row.2 == i then { call with answer := a }
        else call) := by
  show (w.calls.mapIdx _)[i]? = _
  rw [List.getElem?_mapIdx, h]
  rfl

theorem of_getElem?_answer (h : (w.answer gone a).calls[i]? = some call') :
    ∃ call, w.calls[i]? = some call ∧ call' =
      if w.pending.any fun row => gone row && row.2 == i then { call with answer := a }
      else call := by
  cases hi : w.calls[i]? with
  | none =>
      have hnone : (w.calls.mapIdx _)[i]? = some call' := h
      rw [List.getElem?_mapIdx, hi] at hnone
      cases hnone
  | some call =>
      rw [getElem?_answer hi] at h
      exact ⟨call, rfl, (Option.some.inj h).symm⟩

theorem Waits.told {id : UInt64} {told : Bool} (ha : a ≠ .empty) (h : Waits call id) :
    Waits (if told then { call with answer := a } else call) id := by
  cases told with
  | false => exact h
  | true => exact h.imp_right fun h => h.imp_left fun hreturned => ⟨hreturned.1, ha⟩

end Answer

section Steps

variable {d : Dialler} {i : Nat} {call : Call}

/-- A caller keeps its row, or is told. -/
theorem Listed.answer {gone : UInt64 × Nat → Bool} {a : Oneshot} {id : UInt64} (ha : a ≠ .empty)
    (h : d.Listed i call id) :
    Listed { d with peer := d.peer.answer gone a } i
      (if d.peer.pending.any fun row => gone row && row.2 == i then { call with answer := a }
        else call) id := by
  refine ⟨h.1, fun hempty => ?_⟩
  split at hempty
  · exact absurd hempty ha
  · rename_i hany
    have hrow := h.2 hempty
    refine List.mem_filter.mpr ⟨hrow, ?_⟩
    cases hgone : gone (id, i) with
    | false => rfl
    | true => exact absurd (List.any_eq_true.mpr ⟨(id, i), hrow, by simp [hgone]⟩) hany

theorem Fits.answer {gone : UInt64 × Nat → Bool} {a : Oneshot} (ha : a ≠ .empty)
    (h : d.Fits i call) :
    Fits { d with peer := d.peer.answer gone a } i
      (if d.peer.pending.any fun row => gone row && row.2 == i then { call with answer := a }
        else call) := by
  have hcarries : ∀ frame, d.Carries i call frame →
      Carries { d with peer := d.peer.answer gone a } i
        (if d.peer.pending.any fun row => gone row && row.2 == i then { call with answer := a }
          else call) frame := by
    intro frame hframe
    cases frame with
    | message => trivial
    | request => exact Listed.answer ha hframe
    | response => exact hframe
  have hpc : ∀ told : Bool, (if told then { call with answer := a } else call : Call).pc =
      call.pc := by
    intro told
    cases told <;> rfl
  unfold Fits at h ⊢
  rw [hpc]
  split at h
  · exact h
  · exact h
  · exact h
  · exact ⟨hcarries _ h.1, h.2⟩
  · obtain ⟨hi, frame, rest, hheld, hframe⟩ := h
    exact ⟨hi, frame, rest, hheld, hcarries _ hframe⟩
  · exact Listed.answer ha h
  · trivial
  · trivial
  · trivial
  · trivial

theorem Inv.answer (h : d.Inv) (gone : UInt64 × Nat → Bool) {a : Oneshot} (ha : a ≠ .empty) :
    Inv { d with peer := d.peer.answer gone a } := by
  have hpc : ∀ {j : Nat} {c : Call}, d.peer.calls[j]? = some c → ∃ c',
      (d.peer.answer gone a).calls[j]? = some c' ∧ c'.pc = c.pc := by
    intro j c hj
    refine ⟨_, getElem?_answer hj, ?_⟩
    split <;> rfl
  refine ⟨h.next, h.range, ?_, ?_, ?_, h.lengths, h.once, ?_, ?_⟩
  · intro j c' hj
    obtain ⟨c, hc, rfl⟩ := of_getElem?_answer hj
    exact (h.calls j c hc).answer ha
  · intro row hrow
    exact h.rows row (List.mem_filter.mp hrow).1
  · intro j frame rest hheld
    obtain ⟨c, hc, hwriting⟩ := h.holder j frame rest hheld
    obtain ⟨c', hc', hsame⟩ := hpc hc
    exact ⟨c', hc', hsame.trans hwriting⟩
  · intro j hj
    have hlen : (d.peer.answer gone a).calls.length = d.peer.calls.length := List.length_mapIdx
    show j < (d.peer.answer gone a).calls.length
    rw [hlen]
    exact h.known j hj
  · intro f j id payload hj hframe
    obtain ⟨hgot, c, hc, hwaits⟩ := h.written f j id payload hj hframe
    exact ⟨hgot, _, getElem?_answer hc, hwaits.told ha⟩

/-- A call moves on, and nothing else. -/
theorem Inv.setPc (h : d.Inv) (hi : d.peer.calls[i]? = some call) {pc : Pc}
    (hfits : d.Fits i { call with pc := pc }) (hwriting : call.pc ≠ .writing)
    (hwaits : ∀ id, Waits call id → Waits { call with pc := pc } id) :
    Inv { d with peer := d.peer.setPc i call pc } := by
  refine ⟨h.next, h.range, ?_, h.rows, ?_, h.lengths, h.once, ?_, ?_⟩
  · intro j c hj
    rcases (Slots.getElem?_set_iff hi).mp hj with ⟨rfl, rfl⟩ | ⟨-, hj⟩
    · exact hfits
    · exact h.calls j c hj
  · intro j frame rest hheld
    obtain ⟨c, hc, hpc⟩ := h.holder j frame rest hheld
    refine ⟨c, (Slots.getElem?_set_iff hi).mpr (Or.inr ⟨?_, hc⟩), hpc⟩
    rintro rfl
    cases hi.symm.trans hc
    exact hwriting hpc
  · intro j hj
    show j < (d.peer.calls.set i _).length
    rw [List.length_set]
    exact h.known j hj
  · intro f j id payload hj hframe
    obtain ⟨hgot, c, hc, hc'⟩ := h.written f j id payload hj hframe
    refine ⟨hgot, ?_⟩
    exact Slots.exists_getElem?_set hi hc hc' fun _ => hwaits id

theorem not_waits {id : UInt64} (hawaiting : ∀ id, call.pc ≠ .awaiting id)
    (hreturned : call.pc ≠ .returned) (hcancelled : call.pc ≠ .cancelled) : ¬ Waits call id := by
  rintro (hpc | ⟨hpc, -⟩ | hpc)
  · exact hawaiting id hpc
  · exact hreturned hpc
  · exact hcancelled hpc

/-- A call goes on that neither writes nor waits. -/
theorem Inv.goOn (h : d.Inv) (hi : d.peer.calls[i]? = some call) {pc : Pc}
    (hfits : d.Fits i { call with pc := pc }) (hwriting : call.pc ≠ .writing)
    (hawaiting : ∀ id, call.pc ≠ .awaiting id) (hreturned : call.pc ≠ .returned)
    (hcancelled : call.pc ≠ .cancelled) : Inv { d with peer := d.peer.setPc i call pc } :=
  h.setPc hi hfits hwriting fun _ hwaits =>
    absurd hwaits (not_waits hawaiting hreturned hcancelled)

/-- A task makes a call. -/
theorem Inv.begin (h : d.Inv) (request : Request) :
    Inv { d with peer := { d.peer with
      calls := d.peer.calls ++ [⟨request, .calling, .empty⟩] } } := by
  have hkept : ∀ {j : Nat} {c : Call}, d.peer.calls[j]? = some c →
      (d.peer.calls ++ [⟨request, .calling, .empty⟩])[j]? = some c :=
    fun hj => Slots.getElem?_snoc_iff.mpr (Or.inr hj)
  refine ⟨h.next, h.range, ?_, h.rows, ?_, h.lengths, h.once, ?_, ?_⟩
  · intro j c hj
    rcases Slots.getElem?_snoc_iff.mp hj with ⟨rfl, rfl⟩ | hj
    · exact fun hmem => Nat.lt_irrefl _ (h.known _ hmem)
    · exact h.calls j c hj
  · intro j frame rest hheld
    obtain ⟨c, hc, hpc⟩ := h.holder j frame rest hheld
    exact ⟨c, hkept hc, hpc⟩
  · intro j hj
    show j < (d.peer.calls ++ [_]).length
    rw [List.length_append]
    exact Nat.lt_succ_of_lt (h.known j hj)
  · intro f j id payload hj hframe
    obtain ⟨hgot, c, hc, hwaits⟩ := h.written f j id payload hj hframe
    exact ⟨hgot, c, hkept hc, hwaits⟩

/-- The counter gives the next id out. -/
theorem Inv.mint (h : d.Inv) (i : Nat) (hrange : d.minted.length < 2 ^ 64) :
    Inv { d with
      peer := { d.peer with nextRequest := d.peer.nextRequest + 1 }
      minted := d.minted ++ [i] } := by
  have hgot : ∀ j id, d.Got j id → Got { d with
      peer := { d.peer with nextRequest := d.peer.nextRequest + 1 }
      minted := d.minted ++ [i] } j id := by
    rintro j id ⟨n, hn, hid⟩
    exact ⟨n, Slots.getElem?_snoc_iff.mpr (Or.inr hn), hid⟩
  refine ⟨?_, ?_, ?_, fun row hrow => hgot _ _ (h.rows row hrow), h.holder, h.lengths, h.once,
    h.known, ?_⟩
  · show d.peer.nextRequest + 1 = UInt64.ofNat (d.minted ++ [i]).length
    rw [h.next, List.length_append, List.length_singleton, UInt64.ofNat_add]
    rfl
  · show (d.minted ++ [i]).length ≤ 2 ^ 64
    rw [List.length_append]
    exact hrange
  · intro j c hj
    exact (h.calls j c hj).mono (hgot j) (fun _ => id) id fun frame rest hheld => ⟨rest, hheld⟩
  · intro f j id payload hj hframe
    obtain ⟨hj', hc⟩ := h.written f j id payload hj hframe
    exact ⟨hgot j id hj', hc⟩

/-- A row is entered. -/
theorem Inv.enter (h : d.Inv) {id : UInt64} (hgot : d.Got i id) :
    Inv { d with peer := { d.peer with pending := (id, i) :: d.peer.pending } } := by
  refine ⟨h.next, h.range, ?_, ?_, h.holder, h.lengths, h.once, h.known, h.written⟩
  · intro j c hj
    exact Fits.mono (d := d) (fun _ hj' => hj') (fun _ => List.mem_cons_of_mem _)
      (fun hj' => hj') (fun frame rest hheld => ⟨rest, hheld⟩) (h.calls j c hj)
  · intro row hrow
    rcases List.mem_cons.mp hrow with rfl | hrow
    · exact hgot
    · exact h.rows row hrow

/-- Setting one call to what fits it, when what is around it changes for the others
only as `Fits.mono` allows. -/
theorem fits_set {d' : Dialler} {call' : Call} (h : d.Inv) (hi : d.peer.calls[i]? = some call)
    (hminted : d'.minted = d.minted) (hpending : d'.peer.pending = d.peer.pending)
    (hcalls : d'.peer.calls = d.peer.calls.set i call')
    (hwriters : ∀ j ∈ d'.writers, j ∈ d.writers ∨ j = i)
    (hholder : ∀ j frame rest, d.peer.writer.holder = some (j, frame, rest) → j ≠ i →
      ∃ rest', d'.peer.writer.holder = some (j, frame, rest'))
    (hfits : d'.Fits i call') (j : Nat) (c : Call) (hj : d'.peer.calls[j]? = some c) :
    d'.Fits j c := by
  rw [hcalls] at hj
  rcases (Slots.getElem?_set_iff hi).mp hj with ⟨rfl, rfl⟩ | ⟨hne, hj⟩
  · exact hfits
  · refine (h.calls j c hj).mono ?_ (fun row hrow => hpending ▸ hrow)
      (fun hj' => (hwriters j hj').resolve_right hne) fun frame rest hheld =>
        hholder j frame rest hheld hne
    rintro id ⟨n, hn, hid⟩
    exact ⟨n, hminted ▸ hn, hid⟩

/-- The lock is granted. -/
theorem Inv.acquire {frame : Frame} {rest : Octets} (h : d.Inv)
    (hi : d.peer.calls[i]? = some call) (hpc : call.pc = .queued frame)
    (hfree : d.peer.writer.holder = none) :
    Inv { d with peer := { d.peer.setPc i call .writing with
      writer := { d.peer.writer with holder := some (i, frame, rest) } } } := by
  have hfits := h.calls i call hi
  rw [Fits, hpc] at hfits
  refine ⟨h.next, h.range, ?_, h.rows, ?_, h.lengths, h.once, ?_, ?_⟩
  · refine fits_set h hi rfl rfl rfl (fun j hj => Or.inl hj) ?_ ⟨hfits.2, frame, rest, rfl, hfits.1⟩
    intro j frame' rest' hheld
    rw [hfree] at hheld
    cases hheld
  · intro j frame' rest' hheld
    cases hheld
    exact ⟨_, (Slots.getElem?_set_iff hi).mpr (Or.inl ⟨rfl, rfl⟩), rfl⟩
  · intro j hj
    show j < (d.peer.calls.set i _).length
    rw [List.length_set]
    exact h.known j hj
  · intro f j id payload hj hframe
    obtain ⟨hgot, c, hc, hwaits⟩ := h.written f j id payload hj hframe
    refine ⟨hgot, c, (Slots.getElem?_set_iff hi).mpr (Or.inr ⟨?_, hc⟩), hwaits⟩
    rintro rfl
    cases hi.symm.trans hc
    exact not_waits (by simp [hpc]) (by simp [hpc]) (by simp [hpc]) hwaits

/-- What the holder of the lock is, and has. -/
theorem Inv.held {frame : Frame} {rest : Octets} (h : d.Inv)
    (hheld : d.peer.writer.holder = some (i, frame, rest)) (hi : d.peer.calls[i]? = some call) :
    call.pc = .writing ∧ i ∉ d.writers ∧ d.Carries i call frame := by
  obtain ⟨c, hc, hpc⟩ := h.holder i frame rest hheld
  cases hi.symm.trans hc
  have hfits := h.calls i call hi
  rw [Fits, hpc] at hfits
  obtain ⟨hnew, frame', rest', hheld', hcarries⟩ := hfits
  cases hheld.symm.trans hheld'
  exact ⟨hpc, hnew, hcarries⟩

/-- Part of a frame goes out. -/
theorem Inv.advance {frame : Frame} {rest rest' wire : Octets} (h : d.Inv)
    (hheld : d.peer.writer.holder = some (i, frame, rest)) :
    Inv { d with peer := { d.peer with
      writer := { d.peer.writer with wire := wire, holder := some (i, frame, rest') } } } := by
  refine ⟨h.next, h.range, ?_, h.rows, ?_, h.lengths, h.once, h.known, h.written⟩
  · intro j c hj
    refine Fits.mono (d := d) (fun _ hgot => hgot) (fun _ hrow => hrow) (fun hj' => hj') ?_
      (h.calls j c hj)
    intro frame' rest'' hj'
    cases hheld.symm.trans hj'
    exact ⟨rest', rfl⟩
  · intro j frame' rest'' hj
    cases hj
    exact h.holder i frame rest hheld

/-- The lock is given back: with the frame written, or with an error. -/
theorem Inv.giveBack {frame : Frame} {rest : Octets} {pc : Pc} (h : d.Inv) (wire : Octets)
    (broken : Bool)
    (hheld : d.peer.writer.holder = some (i, frame, rest)) (hi : d.peer.calls[i]? = some call)
    {frames : List Frame} {names : List Nat}
    (hdone : (frames = [] ∧ names = [] ∧ pc = .failed frame) ∨
      (frames = [frame] ∧ names = [i] ∧ pc = afterWritten frame)) :
    Inv { d with
      peer := { d.peer.setPc i call pc with
        writer := { wire, broken, holder := none, completed := d.peer.writer.completed ++ frames } }
      writers := d.writers ++ names } := by
  obtain ⟨hpc, hnew, hcarries⟩ := h.held hheld hi
  have hold : ∀ (f j : Nat) (id : UInt64) (payload : Octets), d.writers[f]? = some j →
      d.peer.writer.completed[f]? = some (.request id payload) →
      d.Got j id ∧ ∃ c, (d.peer.calls.set i { call with pc := pc })[j]? = some c ∧ Waits c id := by
    intro f j id payload hj hframe
    obtain ⟨hgot, c, hc, hwaits⟩ := h.written f j id payload hj hframe
    refine ⟨hgot, c, (Slots.getElem?_set_iff hi).mpr (Or.inr ⟨?_, hc⟩), hwaits⟩
    rintro rfl
    exact hnew (List.mem_of_getElem? hj)
  have hknown : ∀ j ∈ d.writers, j < (d.peer.calls.set i { call with pc := pc }).length := by
    intro j hj
    rw [List.length_set]
    exact h.known j hj
  have hothers : ∀ j frame' rest', d.peer.writer.holder = some (j, frame', rest') → j ≠ i →
      ∃ rest'', (none : Option (Nat × Frame × Octets)) = some (j, frame', rest'') := by
    intro j frame' rest' hj hne
    cases hheld.symm.trans hj
    exact absurd rfl hne
  rcases hdone with ⟨rfl, rfl, rfl⟩ | ⟨rfl, rfl, rfl⟩
  · simp only [List.append_nil]
    refine ⟨h.next, h.range, ?_, h.rows, nofun, h.lengths, h.once, hknown, hold⟩
    exact fits_set h hi rfl rfl rfl (fun j hj => Or.inl hj) hothers trivial
  · refine ⟨h.next, h.range, ?_, h.rows, nofun, ?_, ?_, ?_, ?_⟩
    · refine fits_set h hi rfl rfl rfl ?_ hothers ?_
      · intro j hj
        exact (List.mem_append.mp hj).imp_right List.mem_singleton.mp
      · cases frame with
        | message => trivial
        | request => exact hcarries
        | response => exact hcarries.elim
    · show (d.writers ++ [i]).length = (d.peer.writer.completed ++ [frame]).length
      rw [List.length_append, List.length_append, h.lengths]
      rfl
    · exact List.nodup_append.mpr ⟨h.once, List.nodup_singleton i, fun j hj k hk hjk => by
        rw [hjk, List.mem_singleton.mp hk] at hj
        exact hnew hj⟩
    · intro j hj
      rcases List.mem_append.mp hj with hj | hj
      · exact hknown j hj
      · cases List.mem_singleton.mp hj
        show i < (d.peer.calls.set i _).length
        rw [List.length_set]
        exact (List.getElem?_eq_some_iff.mp hi).1
    · intro f j id payload hj hframe
      rcases Slots.getElem?_snoc_iff.mp hj with ⟨hf, rfl⟩ | hj'
      · rcases Slots.getElem?_snoc_iff.mp hframe with ⟨-, rfl⟩ | hframe'
        · exact ⟨hcarries.1, _, (Slots.getElem?_set_iff hi).mpr (Or.inl ⟨rfl, rfl⟩), Or.inl rfl⟩
        · have hlt := (List.getElem?_eq_some_iff.mp hframe').1
          rw [hf, h.lengths] at hlt
          exact absurd hlt (Nat.lt_irrefl _)
      · rcases Slots.getElem?_snoc_iff.mp hframe with ⟨hf, rfl⟩ | hframe'
        · have hlt := (List.getElem?_eq_some_iff.mp hj').1
          rw [hf, h.lengths] at hlt
          exact absurd hlt (Nat.lt_irrefl _)
        · exact hold f j id payload hj' hframe'

/-- A call is dropped that holds the lock. -/
theorem Inv.drop {frame : Frame} {rest : Octets} (h : d.Inv)
    (hheld : d.peer.writer.holder = some (i, frame, rest)) (hi : d.peer.calls[i]? = some call)
    (hnew : i ∉ d.writers) :
    Inv { d with peer := { d.peer.setPc i call .cancelled with
      writer := d.peer.writer.release i } } := by
  have hnone : (d.peer.writer.release i).holder = none := by simp [Writer.release, hheld]
  refine ⟨h.next, h.range, ?_, h.rows, ?_, h.lengths, h.once, ?_, ?_⟩
  · refine fits_set h hi rfl rfl rfl (fun j hj => Or.inl hj) ?_ trivial
    intro j frame' rest' hj hne
    cases hheld.symm.trans hj
    exact absurd rfl hne
  · intro j frame' rest' hj
    rw [show ({ d.peer.setPc i call .cancelled with writer := d.peer.writer.release i } :
      World).writer.holder = none from hnone] at hj
    cases hj
  · intro j hj
    show j < (d.peer.calls.set i _).length
    rw [List.length_set]
    exact h.known j hj
  · intro f j id payload hj hframe
    obtain ⟨hgot, c, hc, hwaits⟩ := h.written f j id payload hj hframe
    refine ⟨hgot, c, (Slots.getElem?_set_iff hi).mpr (Or.inr ⟨?_, hc⟩), hwaits⟩
    rintro rfl
    exact hnew (List.mem_of_getElem? hj)

/-- It does not matter whether a call moves on before or after the others are told. -/
theorem insert_setPc {w : World} {pc : Pc} {id : UInt64} :
    (w.setPc i call pc).insert id i =
      ({ w.answer (fun row => row.1 == id) .closed with
        pending := (id, i) :: (w.answer (fun row => row.1 == id) .closed).pending } : World).setPc i
        (if w.pending.any fun row => row.1 == id && row.2 == i then { call with answer := .closed }
          else call) pc := by
  have htold : ∀ told : Bool,
      (if told then { call with pc := pc, answer := .closed } else { call with pc := pc } : Call) =
        { (if told then { call with answer := .closed } else call : Call) with pc := pc } := by
    intro told
    cases told <;> rfl
  simp only [World.insert, World.answer, World.setPc, List.mapIdx_set]
  congr 2
  exact htold _

theorem inv_insert {payload : Octets} {id : UInt64} {answer : Oneshot} (h : d.Inv)
    (hi : d.peer.calls[i]? = some ⟨.rpc payload, .minted id, answer⟩) :
    Inv { d with peer := (d.peer.setPc i ⟨.rpc payload, .minted id, answer⟩
      (.queued (.request id payload))).insert id i } := by
  have hfits := h.calls i _ hi
  have htold := (h.answer (fun row => row.1 == id) (a := .closed) (by simp)).enter hfits.1
  rw [insert_setPc]
  refine htold.setPc (getElem?_answer hi) ⟨⟨hfits.1, fun _ => List.mem_cons_self ..⟩, hfits.2⟩ ?_ ?_
  · split <;> nofun
  · intro id' hwaits
    refine absurd hwaits (not_waits ?_ ?_ ?_) <;> split <;> nofun

theorem inv_step {codec : Codec Frame} {d' : Dialler} {label : Label} (h : d.Inv)
    (hs : d.step codec label = some d')
    (hmint : ∀ i, label = .mint i → d.minted.length < 2 ^ 64) : d'.Inv := by
  obtain ⟨peer, hpeer, rfl⟩ := Option.map_eq_some_iff.mp hs
  cases step_moves hpeer with
  | call => exact h.begin _
  | obtainSend hi hpc =>
      have hfits := h.calls _ _ hi
      rw [Fits, hpc] at hfits
      exact h.goOn hi ⟨trivial, hfits⟩ (by simp [hpc]) (by simp [hpc]) (by simp [hpc])
        (by simp [hpc])
  | obtainRpc hi hpc =>
      have hfits := h.calls _ _ hi
      rw [Fits, hpc] at hfits
      exact h.goOn hi hfits (by simp [hpc]) (by simp [hpc]) (by simp [hpc]) (by simp [hpc])
  | mint hi hpc =>
      have hfits := h.calls _ _ hi
      rw [Fits, hpc] at hfits
      refine (h.mint _ (hmint _ rfl)).goOn hi ⟨⟨d.minted.length, ?_, h.next⟩, hfits⟩
        (by simp [hpc]) (by simp [hpc]) (by simp [hpc]) (by simp [hpc])
      exact List.getElem?_concat_length
  | insert hi => exact inv_insert h hi
  | acquire hi hfree => exact h.acquire hi rfl hfree
  | refuse hi => exact h.goOn hi trivial (by simp) (by simp) (by simp) (by simp)
  | @finish i n call frame rest hi hheld =>
      have hmore : ¬ (d.peer.writer.completed ++ [frame]).length =
          d.peer.writer.completed.length := by simp
      dsimp only
      rw [if_neg hmore]
      exact h.giveBack _ _ hheld hi (Or.inr ⟨rfl, rfl, rfl⟩)
  | advance hheld =>
      dsimp only
      rw [if_pos rfl]
      exact h.advance hheld
  | fail hi hheld =>
      have hback := h.giveBack d.peer.writer.wire true hheld hi (Or.inl ⟨rfl, rfl, rfl⟩)
      simp only [List.append_nil] at hback
      exact hback
  | @removeRow i call id payload hi hpc =>
      have hset : Inv { d with peer := d.peer.setPc i call .dropping } :=
        h.goOn hi trivial (by simp [hpc]) (by simp [hpc]) (by simp [hpc]) (by simp [hpc])
      exact hset.answer _ (by simp)
  | remove hi hpc =>
      exact h.goOn hi trivial (by simp [hpc]) (by simp [hpc]) (by simp [hpc]) (by simp [hpc])
  | @dropPeer i call hi hpc =>
      have hset : Inv { d with peer := d.peer.setPc i call .returned } :=
        h.goOn hi trivial (by simp [hpc]) (by simp [hpc]) (by simp [hpc]) (by simp [hpc])
      exact ⟨hset.next, hset.range, hset.calls, hset.rows, hset.holder, hset.lengths, hset.once,
        hset.known, hset.written⟩
  | @respond id payload =>
      refine h.answer _ ?_
      cases payload <;> simp
  | close =>
      exact ⟨h.next, h.range, h.calls, h.rows, h.holder, h.lengths, h.once, h.known, h.written⟩
  | clear =>
      have htold := h.answer (fun _ => true) (a := .closed) (by simp)
      exact ⟨htold.next, htold.range, htold.calls, htold.rows, htold.holder, htold.lengths,
        htold.once, htold.known, htold.written⟩
  | receive hi hpc hanswer =>
      exact h.setPc hi trivial (by simp [hpc]) fun _ _ => Or.inr (Or.inl ⟨rfl, hanswer⟩)
  | release hi hpc =>
      have hfits := h.calls _ _ hi
      rw [Fits, hpc] at hfits
      obtain ⟨hnew, frame, rest, hheld, -⟩ := hfits
      exact h.drop hheld hi hnew
  | cancel hi hpc => exact h.setPc hi trivial hpc fun _ _ => Or.inr (Or.inr rfl)

end Steps

end Dialler

/-- Only dropping a call drops it. -/
theorem present_step {codec : Codec Frame} {w w' : World} (label : Label)
    (hlabel : ∀ i, label ≠ .cancel i) (h : ∀ call ∈ w.calls, call.pc ≠ .cancelled)
    (hs : step codec w label = some w') : ∀ call ∈ w'.calls, call.pc ≠ .cancelled := by
  have hset : ∀ {i : Nat} {call : Call} {pc : Pc}, pc ≠ .cancelled →
      ∀ c ∈ (w.setPc i call pc).calls, c.pc ≠ .cancelled := by
    intro i call pc hpc c hc
    rcases List.mem_or_eq_of_mem_set hc with hc | rfl
    · exact h c hc
    · exact hpc
  have htold : ∀ {w : World} {gone : UInt64 × Nat → Bool} {a : Oneshot},
      (∀ call ∈ w.calls, call.pc ≠ .cancelled) →
      ∀ c ∈ (w.answer gone a).calls, c.pc ≠ .cancelled := by
    intro w gone a hw c hc
    obtain ⟨i, hi⟩ := List.mem_iff_getElem?.mp hc
    obtain ⟨call, hcall, rfl⟩ := Dialler.of_getElem?_answer hi
    have hpc := hw call (List.mem_of_getElem? hcall)
    split
    · exact hpc
    · exact hpc
  cases step_moves hs with
  | release | cancel => exact absurd rfl (hlabel _)
  | call =>
      intro c hc
      rcases List.mem_append.mp hc with hc | hc
      · exact h c hc
      · cases List.mem_singleton.mp hc
        intro heq
        cases heq
  | insert | removeRow => exact htold (hset fun heq => by cases heq)
  | @finish i n call frame =>
      refine hset fun heq => ?_
      cases frame <;> cases heq
  | respond | clear => exact htold h
  | advance | close => exact h
  | _ => exact hset fun heq => by cases heq

/-! ## What the dialling side adds -/

/-- Histories only grow, and of the answers none is taken back, and none sent. -/
structure Grows (d d' : Dialler) : Prop where
  completed : ∀ (f : Nat) (frame : Frame), d.peer.writer.completed[f]? = some frame →
    d'.peer.writer.completed[f]? = some frame
  writers : ∀ f i : Nat, d.writers[f]? = some i → d'.writers[f]? = some i
  sent : ∀ (i : Nat) (call' : Call) (bytes : Octets), d'.peer.calls[i]? = some call' →
    call'.answer = .sent bytes → ∃ call, d.peer.calls[i]? = some call ∧ call.answer = .sent bytes
  told : ∀ (i : Nat) (call' : Call), i < d.peer.calls.length → d'.peer.calls[i]? = some call' →
    call'.answer = .empty → ∃ call, d.peer.calls[i]? = some call ∧ call.answer = .empty
  reader : d'.peer.reader = .reading → d.peer.reader = .reading

section Grows

variable {codec : Codec Frame} {d d' d'' : Dialler} {i : Nat} {call : Call} {pc : Pc}

theorem Grows.refl (d : Dialler) : Grows d d :=
  ⟨fun _ _ h => h, fun _ _ h => h, fun _ c _ hc ha => ⟨c, hc, ha⟩, fun _ c _ hc ha => ⟨c, hc, ha⟩,
    fun h => h⟩

theorem Grows.trans (h : Grows d d') (h' : Grows d' d'')
    (hlen : d.peer.calls.length ≤ d'.peer.calls.length) : Grows d d'' := by
  refine ⟨fun f frame hf => h'.completed f frame (h.completed f frame hf),
    fun f i hf => h'.writers f i (h.writers f i hf), ?_, ?_, fun hr => h.reader (h'.reader hr)⟩
  · intro i call'' bytes hi ha
    obtain ⟨call', hi', ha'⟩ := h'.sent i call'' bytes hi ha
    exact h.sent i call' bytes hi' ha'
  · intro i call'' hlt hi ha
    obtain ⟨call', hi', ha'⟩ := h'.told i call'' (Nat.lt_of_lt_of_le hlt hlen) hi ha
    exact h.told i call' hlt hi' ha'

/-- A call moves on, with whatever becomes of the writer. -/
theorem grows_setPc (hi : d.peer.calls[i]? = some call)
    (hcalls : d'.peer.calls = d.peer.calls.set i { call with pc := pc })
    (hcompleted : ∃ frames, d'.peer.writer.completed = d.peer.writer.completed ++ frames)
    (hwriters : ∃ names, d'.writers = d.writers ++ names)
    (hreader : d'.peer.reader = d.peer.reader) : Grows d d' := by
  have hback : ∀ (j : Nat) (c' : Call), d'.peer.calls[j]? = some c' →
      ∃ c, d.peer.calls[j]? = some c ∧ c'.answer = c.answer := by
    intro j c' hj
    rw [hcalls] at hj
    rcases (Slots.getElem?_set_iff hi).mp hj with ⟨rfl, rfl⟩ | ⟨-, hj⟩
    · exact ⟨call, hi, rfl⟩
    · exact ⟨c', hj, rfl⟩
  obtain ⟨frames, hframes⟩ := hcompleted
  obtain ⟨names, hnames⟩ := hwriters
  refine ⟨?_, ?_, ?_, ?_, fun hr => hreader ▸ hr⟩
  · intro f frame hf
    rw [hframes, List.getElem?_append_left (List.getElem?_eq_some_iff.mp hf).1]
    exact hf
  · intro f j hf
    rw [hnames, List.getElem?_append_left (List.getElem?_eq_some_iff.mp hf).1]
    exact hf
  · intro j c' bytes hj ha
    obtain ⟨c, hc, heq⟩ := hback j c' hj
    exact ⟨c, hc, heq ▸ ha⟩
  · intro j c' _ hj ha
    obtain ⟨c, hc, heq⟩ := hback j c' hj
    exact ⟨c, hc, heq ▸ ha⟩

/-- Callers are told that there is no answer. -/
theorem grows_answer (d : Dialler) (gone : UInt64 × Nat → Bool) :
    Grows d { d with peer := d.peer.answer gone .closed } := by
  refine ⟨fun _ _ h => h, fun _ _ h => h, ?_, ?_, fun h => h⟩
  · intro j c' bytes hj ha
    obtain ⟨c, hc, rfl⟩ := Dialler.of_getElem?_answer hj
    split at ha
    · cases ha
    · exact ⟨c, hc, ha⟩
  · intro j c' _ hj ha
    obtain ⟨c, hc, rfl⟩ := Dialler.of_getElem?_answer hj
    split at ha
    · cases ha
    · exact ⟨c, hc, ha⟩

theorem grows_step {label : Label} (hs : d.step codec label = some d')
    (hlabel : ∀ id payload, label ≠ .respond id payload) : Grows d d' := by
  obtain ⟨peer, hpeer, rfl⟩ := Option.map_eq_some_iff.mp hs
  have hsame : ∃ frames, d.peer.writer.completed = d.peer.writer.completed ++ frames :=
    ⟨[], (List.append_nil _).symm⟩
  have hnobody : ∃ names, d.writers = d.writers ++ names := ⟨[], (List.append_nil _).symm⟩
  cases step_moves hpeer with
  | call =>
      refine ⟨fun _ _ h => h, fun _ _ h => h, ?_, ?_, fun h => h⟩
      · intro j c bytes hj ha
        rcases Slots.getElem?_snoc_iff.mp hj with ⟨-, rfl⟩ | hj
        · cases ha
        · exact ⟨c, hj, ha⟩
      · intro j c hlt hj ha
        rcases Slots.getElem?_snoc_iff.mp hj with ⟨rfl, -⟩ | hj
        · exact absurd hlt (Nat.lt_irrefl _)
        · exact ⟨c, hj, ha⟩
  | @insert i payload id answer hi =>
      have hset : Grows d { d with peer := d.peer.setPc i _ (.queued (.request id payload)) } :=
        grows_setPc hi rfl hsame hnobody rfl
      have htold := hset.trans (grows_answer _ fun row => row.1 == id)
        (Nat.le_of_eq (List.length_set ..).symm)
      exact ⟨htold.completed, htold.writers, htold.sent, htold.told, htold.reader⟩
  | @finish i n call frame rest hi =>
      refine grows_setPc hi rfl ⟨[frame], rfl⟩ ?_ rfl
      dsimp only
      split
      · exact hnobody
      · exact ⟨[i], rfl⟩
  | advance =>
      dsimp only
      rw [if_pos rfl]
      exact ⟨fun _ _ h => h, fun _ _ h => h, fun _ c _ hc ha => ⟨c, hc, ha⟩,
        fun _ c _ hc ha => ⟨c, hc, ha⟩, fun h => h⟩
  | @removeRow i call id payload hi =>
      have hset : Grows d { d with peer := d.peer.setPc i call .dropping } :=
        grows_setPc hi rfl hsame hnobody rfl
      exact hset.trans (grows_answer _ _) (Nat.le_of_eq (List.length_set ..).symm)
  | respond => exact absurd rfl (hlabel _ _)
  | close =>
      exact ⟨fun _ _ h => h, fun _ _ h => h, fun _ c _ hc ha => ⟨c, hc, ha⟩,
        fun _ c _ hc ha => ⟨c, hc, ha⟩, fun hreading => by cases hreading⟩
  | clear =>
      have htold := grows_answer d fun _ => true
      exact ⟨htold.completed, htold.writers, htold.sent, htold.told,
        fun hreading => by cases hreading⟩
  | obtainSend hi | obtainRpc hi | mint hi | acquire hi | refuse hi | fail hi | remove hi
  | dropPeer hi | receive hi | release hi | cancel hi =>
      exact grows_setPc hi rfl hsame hnobody rfl

end Grows

end HorsieActor.Ports.Tcp
