import HorsieActor.Ports.Delivery
import HorsieActor.Verified.OrdMap

/-!
# The dedup window slides

`Dedup` keeps a set of ids and a queue of them, and lets the oldest go when the
queue is over its capacity.  What it is meant to compute needs neither: an id is
a repeat when it is among the last so many that were accepted (`slide`).
`slidingWindow` is that the two agree on every sequence of ids, and what the set
and the queue hold all along.
-/

namespace HorsieActor.Ports.Dedup

open HorsieActor.Verified OrdMap

/-- What has been accepted once `id` has been asked about: a repeat changes
nothing, anything else joins at the end. -/
def slide (width : Nat) (accepted : List Nat) (id : Nat) : List Nat :=
  if id ∈ keepLast width accepted then accepted else accepted ++ [id]

/-- A window, and the ids it has answered `true` for, in order. -/
structure Asked where
  window : Dedup
  accepted : List Nat

def Asked.ask (a : Asked) (id : Nat) : Asked :=
  { window := (a.window.acceptId id).2
    accepted := if (a.window.acceptId id).1 then a.accepted ++ [id] else a.accepted }

/-- A new window asked about these ids, one after another. -/
def askAll (capacity : Nat) (ids : List Nat) : Asked :=
  ids.foldl Asked.ask ⟨withCapacity capacity, []⟩

/-! ## One id -/

/-- The set holds what the queue holds. -/
def InStep (d : Dedup) : Prop := ∀ x, x ∈ d.seen ↔ x ∈ d.order

section OneId

variable {d : Dedup} {id : Nat}

/-- Either there is room in the queue, or it loses its head. -/
theorem acceptId_of_not_mem (h : id ∉ d.seen) :
    (d.order.length < d.capacity ∧
        d.acceptId id = (true, { d with seen := insert id d.seen, order := d.order ++ [id] })) ∨
      ∃ evicted rest, d.capacity ≤ d.order.length ∧ d.order ++ [id] = evicted :: rest ∧
        d.acceptId id =
          (true, { d with seen := (insert id d.seen).erase evicted, order := rest }) := by
  unfold acceptId
  rw [if_neg h]
  dsimp only
  by_cases hfull : d.capacity < (d.order ++ [id]).length
  · rw [if_pos hfull]
    cases hqueue : d.order ++ [id] with
    | nil => exact absurd hqueue (List.append_ne_nil_of_right_ne_nil _ (List.cons_ne_nil _ _))
    | cons evicted rest =>
        rw [List.length_append] at hfull
        exact Or.inr ⟨evicted, rest, Nat.le_of_lt_succ hfull, rfl, rfl⟩
  · rw [if_neg hfull]
    rw [List.length_append] at hfull
    exact Or.inl ⟨Nat.lt_of_not_le fun hle => hfull (Nat.lt_succ_of_le hle), rfl⟩

theorem order_acceptId (h : id ∉ d.seen) (hlen : d.order.length ≤ d.capacity) :
    (d.acceptId id).2.order = keepLast d.capacity (d.order ++ [id]) := by
  rcases acceptId_of_not_mem h with ⟨hroom, heq⟩ | ⟨evicted, rest, hfull, hqueue, heq⟩
  · rw [heq, keepLast_of_le (by rw [List.length_append]; exact hroom)]
  · have hone : (evicted :: rest).length - d.capacity = 1 := by
      rw [← hqueue, List.length_append, List.length_singleton]
      omega
    rw [heq, keepLast, hqueue, hone]
    rfl

theorem nodup_queue (h : id ∉ d.seen) (hstep : InStep d) (hnodup : d.order.Nodup) :
    (d.order ++ [id]).Nodup :=
  List.nodup_append.mpr ⟨hnodup, List.nodup_singleton id, fun _ hx _ hy heq =>
    h ((hstep id).mpr (List.mem_singleton.mp hy ▸ heq ▸ hx))⟩

/-- The id that leaves the queue is not in it a second time, so it may leave the
set too. -/
theorem inStep_acceptId (hstep : InStep d) (hnodup : d.order.Nodup) (h : id ∉ d.seen) :
    InStep (d.acceptId id).2 := by
  intro x
  have hinsert : x ∈ insert id d.seen ↔ x ∈ d.order ++ [id] := by
    rw [Finset.mem_insert, hstep, List.mem_append, List.mem_singleton]
    exact Or.comm
  rcases acceptId_of_not_mem h with ⟨_, heq⟩ | ⟨evicted, rest, _, hqueue, heq⟩
  · rw [heq]
    exact hinsert
  · have hnd := nodup_queue h hstep hnodup
    rw [hqueue, List.nodup_cons] at hnd
    rw [heq]
    show x ∈ (insert id d.seen).erase evicted ↔ x ∈ rest
    rw [Finset.mem_erase, hinsert, hqueue, List.mem_cons]
    constructor
    · intro hx
      exact hx.2.resolve_left hx.1
    · intro hx
      exact ⟨fun heq => hnd.1 (heq ▸ hx), Or.inr hx⟩

theorem capacity_acceptId (d : Dedup) (id : Nat) : (d.acceptId id).2.capacity = d.capacity := by
  by_cases h : id ∈ d.seen
  · rw [acceptId_of_mem h]
  · rcases acceptId_of_not_mem h with ⟨_, heq⟩ | ⟨evicted, rest, _, _, heq⟩
    · rw [heq]
    · rw [heq]

end OneId

/-! ## Any number of ids -/

/-- The set and the queue hold the last `width` accepted ids. -/
structure Holds (width : Nat) (a : Asked) : Prop where
  capacity : a.window.capacity = width
  order : a.window.order = keepLast width a.accepted
  nodup : a.window.order.Nodup
  inStep : InStep a.window

section Run

variable {width : Nat} {a : Asked} {id : Nat}

theorem Holds.answer (h : Holds width a) :
    (a.window.acceptId id).1 = false ↔ id ∈ keepLast width a.accepted := by
  rw [acceptId_fst, decide_eq_false_iff_not, not_not, h.inStep, h.order]

theorem Holds.ask (h : Holds width a) (id : Nat) : Holds width (a.ask id) := by
  unfold Asked.ask
  by_cases hmem : id ∈ a.window.seen
  · rw [acceptId_of_mem hmem]
    exact h
  · have hanswer : (a.window.acceptId id).1 = true := by
      rw [acceptId_fst, decide_eq_true hmem]
    have hlen : a.window.order.length ≤ a.window.capacity := by
      rw [h.order, h.capacity]
      exact length_keepLast_le width a.accepted
    have horder := order_acceptId hmem hlen
    rw [hanswer, if_pos rfl]
    refine ⟨?_, ?_, ?_, inStep_acceptId h.inStep h.nodup hmem⟩
    · exact (capacity_acceptId a.window id).trans h.capacity
    · rw [horder, h.capacity, h.order]
      exact keepLast_append width a.accepted [id]
    · rw [horder]
      exact List.Nodup.sublist (List.drop_sublist _ _) (nodup_queue hmem h.inStep h.nodup)

/-- By its own answers the window accepts what `slide` accepts. -/
theorem Holds.accepted_ask (h : Holds width a) (id : Nat) :
    (a.ask id).accepted = slide width a.accepted id := by
  unfold Asked.ask slide
  by_cases hmem : id ∈ keepLast width a.accepted
  · rw [h.answer.mpr hmem, if_pos hmem]
    rfl
  · rw [if_neg hmem, if_pos (eq_true_of_ne_false fun hfalse => hmem (h.answer.mp hfalse))]

/-- Induction on the ids, from any window that holds what it has accepted. -/
theorem Holds.foldl (ids : List Nat) :
    ∀ a, Holds width a → Holds width (ids.foldl Asked.ask a) ∧
      (ids.foldl Asked.ask a).accepted = ids.foldl (slide width) a.accepted := by
  induction ids with
  | nil =>
      intro a h
      exact ⟨h, rfl⟩
  | cons id ids ih =>
      intro a h
      have hrest := ih (a.ask id) (h.ask id)
      rw [h.accepted_ask id] at hrest
      exact hrest

end Run

/-! ## The result -/

/-- `Dedup` after a sequence of ids, against the plain meaning of a window. -/
structure SlidingWindow (capacity : Nat) (ids : List Nat) : Prop where
  /-- An id is refused exactly when it is among the last accepted ones. -/
  answer : ∀ id, ((askAll capacity ids).window.acceptId id).1 = false ↔
    id ∈ keepLast (max capacity 1) (askAll capacity ids).accepted
  /-- What is accepted is what the plain window accepts. -/
  accepted : (askAll capacity ids).accepted = ids.foldl (slide (max capacity 1)) []
  seen : ∀ id, id ∈ (askAll capacity ids).window.seen ↔ id ∈ (askAll capacity ids).window.order
  nodup : (askAll capacity ids).window.order.Nodup
  bounded : (askAll capacity ids).window.order.length ≤ max capacity 1
  order : (askAll capacity ids).window.order =
    keepLast (max capacity 1) (askAll capacity ids).accepted
  /-- A refused id stays where it is. -/
  refused : ∀ id, ((askAll capacity ids).window.acceptId id).1 = false →
    ((askAll capacity ids).window.acceptId id).2 = (askAll capacity ids).window

/-- **`Dedup` is a sliding window**, for every capacity and every sequence of
ids. -/
theorem slidingWindow (capacity : Nat) (ids : List Nat) : SlidingWindow capacity ids := by
  have hnew : Holds (max capacity 1) ⟨withCapacity capacity, []⟩ :=
    ⟨rfl, List.drop_nil.symm, List.nodup_nil, fun x =>
      iff_of_false (Finset.notMem_empty x) List.not_mem_nil⟩
  obtain ⟨hholds, haccepted⟩ := Holds.foldl ids _ hnew
  refine ⟨fun id => hholds.answer, haccepted, hholds.inStep, hholds.nodup, ?_, hholds.order, ?_⟩
  · rw [show (askAll capacity ids).window.order = _ from hholds.order]
    exact length_keepLast_le _ _
  · intro id hfalse
    rw [acceptId_fst, decide_eq_false_iff_not, not_not] at hfalse
    rw [acceptId_of_mem hfalse]

end HorsieActor.Ports.Dedup
