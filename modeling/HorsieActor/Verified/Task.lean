/-!
# Asynchronous tasks over a shared store

An `async` function runs on its own until it awaits an operation on something
shared — a journal, a registry — and between two such operations any other task
may have moved the shared store.  A `Task` is exactly that view of it: either
the function has returned, or it is suspended at one call and knows how to go
on from each answer.  The local state (`&mut self`) is recorded at every
suspension, because what a writer *held* when it issued a write is what the
properties of a write fence are about.

`Async` is the monad such functions are written in, so a source function can be
transcribed statement by statement in `do` notation; its interleavings with
other tasks are then not a second definition but the runs of the same term.

## Reasoning

`Safe` is a rely–guarantee judgement by recursion on the task.  A `Contract`
fixes what a call may answer (`exec`), what the other tasks may do to the store
meanwhile (`rely`), what the task's own calls may do to it (`guarantee`), when a
schedule lets a call run (`enabled`), and what has to be true whenever a call is
about to be made (`before`).  Safety composes along
`bind` (`safe_bind`), survives interference (`safe_rely`), and a whole pool of
safe tasks stays safe when any one of them takes its next call
(`PoolSafe.call`).

With `rely` set to equality the same judgement is an ordinary Hoare triple for
a task that runs alone, and `Task.drive` is that run.

This module imports nothing and names no particular store.
-/

namespace HorsieActor.Verified

/-! ## Tasks and the monad that builds them -/

/-- A suspended asynchronous computation: it has returned `a` with local state
`s`, or it awaits the answer to one call. -/
inductive Task (σ Call : Type) (Resp : Call → Type) (α : Type) where
  | done (s : σ) (a : α)
  | await (s : σ) (c : Call) (k : Resp c → Task σ Call Resp α)

/-- An asynchronous function of the local state. -/
def Async (σ Call : Type) (Resp : Call → Type) (α : Type) : Type :=
  σ → Task σ Call Resp α

variable {σ Call : Type} {Resp : Call → Type} {α β : Type}

/-- Run `f` on what the task returns, from the local state it returns in. -/
def Task.bind : Task σ Call Resp α → (α → Async σ Call Resp β) → Task σ Call Resp β
  | done s a, f => f a s
  | await s c k, f => await s c fun r => (k r).bind f

@[simp] theorem Task.bind_done (s : σ) (a : α) (f : α → Async σ Call Resp β) :
    (Task.done s a : Task σ Call Resp α).bind f = f a s := rfl

@[simp] theorem Task.bind_await (s : σ) (c : Call) (k : Resp c → Task σ Call Resp α)
    (f : α → Async σ Call Resp β) :
    (Task.await s c k).bind f = .await s c fun r => (k r).bind f := rfl

/-- Run a task to its end with nothing else touching the store. -/
def Task.drive {ω : Type} (answer : (c : Call) → ω → Resp c × ω) :
    ω → Task σ Call Resp α → σ × α × ω
  | w, done s a => (s, a, w)
  | w, await _ c k => (k (answer c w).1).drive answer (answer c w).2

/-- Running two parts alone is running the one and then the other. -/
theorem Task.drive_bind {ω : Type} (answer : (c : Call) → ω → Resp c × ω)
    (f : α → Async σ Call Resp β) (t : Task σ Call Resp α) :
    ∀ w, (t.bind f).drive answer w =
      (f (t.drive answer w).2.1 (t.drive answer w).1).drive answer (t.drive answer w).2.2 := by
  induction t with
  | done s a => intro w; rfl
  | await s c k ih => intro w; exact ih _ _

namespace Async

instance : Monad (Async σ Call Resp) where
  pure a := fun s => .done s a
  bind m f := fun s => (m s).bind f

/-- Await the answer to one call. -/
def call (c : Call) : Async σ Call Resp (Resp c) :=
  fun s => .await s c fun r => .done s r

/-- Read the local state. -/
def get : Async σ Call Resp σ := fun s => .done s s

/-- Update the local state. -/
def modify (f : σ → σ) : Async σ Call Resp Unit := fun s => .done (f s) ()

@[simp] theorem pure_apply (a : α) (s : σ) :
    (pure a : Async σ Call Resp α) s = .done s a := rfl

@[simp] theorem bind_apply (m : Async σ Call Resp α) (f : α → Async σ Call Resp β) (s : σ) :
    (m >>= f) s = (m s).bind f := rfl

@[simp] theorem call_apply (c : Call) (s : σ) :
    (call c : Async σ Call Resp (Resp c)) s = .await s c fun r => .done s r := rfl

@[simp] theorem get_apply (s : σ) : (get : Async σ Call Resp σ) s = .done s s := rfl

end Async

/-! ## Contracts -/

/-- What a task may assume of the store it shares, and what it owes. -/
structure Contract (σ Call : Type) (Resp : Call → Type) (ω : Type) where
  /-- `exec c w r w'`: in store `w` the call `c` may be answered `r`, leaving `w'`. -/
  exec : (c : Call) → ω → Resp c → ω → Prop
  /-- What the rest of the system may do to the store between two calls. -/
  rely : ω → ω → Prop
  /-- What the task's own calls may do to the store. -/
  guarantee : ω → ω → Prop
  /-- When the schedule lets this call run. -/
  enabled : ω → σ → Call → Prop
  /-- What must hold whenever this call is about to be made. -/
  before : ω → σ → Call → Prop

/-- Interference can be taken in any number of steps, including none. -/
structure Contract.Lawful {ω : Type} (K : Contract σ Call Resp ω) : Prop where
  refl : ∀ w, K.rely w w
  trans : ∀ {a b c}, K.rely a b → K.rely b c → K.rely a c

section Safe

variable {ω : Type} (K : Contract σ Call Resp ω)

/-- From the store `w` on, every call the task makes meets the contract and the
task returns only in states satisfying `Q`.

The await case first lets the environment move the store, then asks for the
precondition of the call, and then follows every answer an enabled call can
get; the task must keep its guarantee as it goes. -/
def Safe (Q : ω → σ → α → Prop) : ω → Task σ Call Resp α → Prop
  | w, .done s a => ∀ w', K.rely w w' → Q w' s a
  | w, .await s c k => ∀ w', K.rely w w' →
      K.before w' s c ∧
        (K.enabled w' s c → ∀ r w'', K.exec c w' r w'' →
          K.guarantee w' w'' ∧ Safe Q w'' (k r))

variable {K} {Q : ω → σ → α → Prop} {w w' : ω}

/-- Safety survives interference. -/
theorem safe_rely (hK : K.Lawful) {t : Task σ Call Resp α} (h : Safe K Q w t)
    (hw : K.rely w w') : Safe K Q w' t := by
  cases t with
  | done s a => exact fun w'' hw' => h w'' (hK.trans hw hw')
  | await s c k => exact fun w'' hw' => h w'' (hK.trans hw hw')

/-- A safe task that has returned satisfies its postcondition. -/
theorem safe_done (hK : K.Lawful) {s : σ} {a : α}
    (h : Safe K Q w (.done s a)) : Q w s a :=
  h w (hK.refl w)

/-- The precondition of the call a safe task is suspended at. -/
theorem safe_before (hK : K.Lawful) {s : σ} {c : Call} {k : Resp c → Task σ Call Resp α}
    (h : Safe K Q w (.await s c k)) : K.before w s c :=
  (h w (hK.refl w)).1

/-- A safe task taking its next call keeps its guarantee and stays safe. -/
theorem safe_call (hK : K.Lawful) {s : σ} {c : Call} {k : Resp c → Task σ Call Resp α}
    (h : Safe K Q w (.await s c k)) (ha : K.enabled w s c) {r : Resp c}
    (hx : K.exec c w r w') : K.guarantee w w' ∧ Safe K Q w' (k r) :=
  (h w (hK.refl w)).2 ha r w' hx

theorem safe_mono {P : ω → σ → α → Prop} (hPQ : ∀ w s a, P w s a → Q w s a) :
    ∀ {w : ω} {t : Task σ Call Resp α}, Safe K P w t → Safe K Q w t
  | _, .done s a, h => fun w' hw => hPQ w' s a (h w' hw)
  | _, .await _ _ _, h => fun w' hw =>
      ⟨(h w' hw).1, fun ha r w'' hx =>
        ⟨((h w' hw).2 ha r w'' hx).1, safe_mono hPQ ((h w' hw).2 ha r w'' hx).2⟩⟩

/-- Safety composes: what the first part returns in is where the second part
has to be safe from. -/
theorem safe_bind {P : ω → σ → α → Prop} {R : ω → σ → β → Prop} (hK : K.Lawful)
    {f : α → Async σ Call Resp β} (hf : ∀ w s a, P w s a → Safe K R w (f a s))
    (t : Task σ Call Resp α) : ∀ w, Safe K P w t → Safe K R w (t.bind f) := by
  induction t with
  | done s a => intro w h; exact hf w s a (safe_done hK h)
  | await s c k ih =>
      intro w h w' hw
      obtain ⟨hb, hgo⟩ := h w' hw
      refine ⟨hb, fun ha r w'' hx => ?_⟩
      obtain ⟨hr, hk⟩ := hgo ha r w'' hx
      exact ⟨hr, ih r w'' hk⟩

end Safe

/-! ## Pools of tasks -/

section Pool

variable {ω : Type}
variable {K : Contract σ Call Resp ω} {Q : ω → σ → α → Prop} {w w' : ω}

/-- `P` holds of every task still in the pool.  A slot is emptied when its task
is dropped, and slots are never reused, so an index names one task for good. -/
def PoolAll (P : Task σ Call Resp α → Prop) (ts : List (Option (Task σ Call Resp α))) : Prop :=
  ∀ (i : Nat) (t : Task σ Call Resp α), ts[i]? = some (some t) → P t

namespace PoolAll

variable {P P' : Task σ Call Resp α → Prop} {ts : List (Option (Task σ Call Resp α))}

theorem nil : PoolAll P ([] : List (Option (Task σ Call Resp α))) := by
  intro i t h
  simp at h

theorem mono (h : PoolAll P ts) (hP : ∀ t, P t → P' t) : PoolAll P' ts :=
  fun i t ht => hP t (h i t ht)

/-- Replacing one task. -/
theorem set (h : PoolAll P ts) (i : Nat) {t : Task σ Call Resp α} (ht : P t) :
    PoolAll P (ts.set i (some t)) := by
  intro j u hu
  rw [List.getElem?_set] at hu
  split at hu
  · split at hu
    · cases hu; exact ht
    · cases hu
  · exact h j u hu

/-- Dropping one task. -/
theorem drop (h : PoolAll P ts) (i : Nat) : PoolAll P (ts.set i none) := by
  intro j u hu
  rw [List.getElem?_set] at hu
  split at hu
  · split at hu <;> cases hu
  · exact h j u hu

/-- Adding a task. -/
theorem snoc (h : PoolAll P ts) {t : Task σ Call Resp α} (ht : P t) :
    PoolAll P (ts ++ [some t]) := by
  intro j u hu
  rw [List.getElem?_append] at hu
  split at hu
  · exact h j u hu
  · rw [List.getElem?_singleton] at hu
    split at hu
    · cases hu; exact ht
    · cases hu

end PoolAll

/-- Every task still in the pool is safe. -/
def PoolSafe (K : Contract σ Call Resp ω) (Q : ω → σ → α → Prop) (w : ω)
    (ts : List (Option (Task σ Call Resp α))) : Prop :=
  ∀ (i : Nat) (t : Task σ Call Resp α), ts[i]? = some (some t) → Safe K Q w t

namespace PoolSafe

variable {ts : List (Option (Task σ Call Resp α))}

theorem nil : PoolSafe K Q w [] := PoolAll.nil

theorem rely (hK : K.Lawful) (h : PoolSafe K Q w ts) (hw : K.rely w w') :
    PoolSafe K Q w' ts :=
  PoolAll.mono h fun _ ht => safe_rely hK ht hw

theorem set (h : PoolSafe K Q w ts) (i : Nat) {t : Task σ Call Resp α}
    (ht : Safe K Q w t) : PoolSafe K Q w (ts.set i (some t)) :=
  PoolAll.set h i ht

theorem drop (h : PoolSafe K Q w ts) (i : Nat) : PoolSafe K Q w (ts.set i none) :=
  PoolAll.drop h i

theorem snoc (h : PoolSafe K Q w ts) {t : Task σ Call Resp α} (ht : Safe K Q w t) :
    PoolSafe K Q w (ts ++ [some t]) :=
  PoolAll.snoc h ht

/-- One task of the pool takes its next call.  The tasks are each other's
environment, so what they guarantee must be what they rely on. -/
theorem call (hK : K.Lawful) (hG : ∀ a b, K.guarantee a b → K.rely a b)
    (h : PoolSafe K Q w ts) {i : Nat} {s : σ} {c : Call}
    {k : Resp c → Task σ Call Resp α} (hi : ts[i]? = some (some (.await s c k)))
    (ha : K.enabled w s c) {r : Resp c} (hx : K.exec c w r w') :
    K.rely w w' ∧ PoolSafe K Q w' (ts.set i (some (k r))) := by
  obtain ⟨hg, hk⟩ := safe_call hK (h i _ hi) ha hx
  exact ⟨hG _ _ hg, (h.rely hK (hG _ _ hg)).set i hk⟩

end PoolSafe

end Pool

end HorsieActor.Verified
