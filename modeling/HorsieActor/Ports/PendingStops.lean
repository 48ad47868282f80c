import HorsieActor.Ports.QuietSubtree

/-!
# Rows that are as good as gone

A stop that has begun does not hold the registry: rows come and go under it
while it looks up, raises, waits and scans.  What can be said of a row is that
somebody will still come to it (`Doomed`): it is about to be halted itself, or
the rows above it are about to be scanned, or an instance above it that has not
scanned yet is about to be stopped, and will scan on its way out.

Two facts make that stable.  An instance that has not retired has its row or is
being waited for (`Tended`); and what an instance files while it is going down
is below it, so it is doomed as well.

## Main results

* `Moves.pending` — work is left until it is done, and doing it leaves the work
  that follows from it.
* `Moves.doomed` — a doomed row stays doomed until it is gone.
* `Doomed.child` — so is what an instance with a doomed row creates.
-/

namespace HorsieActor.Ports.Lifecycle

open HorsieActor.Verified

/-! ## Work that is left -/

/-- Some `stop_at`, or some task on its way out, still has this to do. -/
def Pending (w : World) (item : Work) : Prop :=
  (∃ (k : Nat) (call : StopCall), w.calls[k]? = some call ∧ item ∈ call.todo) ∨
    ∃ (i : Nat) (inst : Inst) (todo : List Work),
      w.insts[i]? = some inst ∧ inst.pc = .stopping todo ∧ item ∈ todo

/-- The step has done it, and what follows from it is left. -/
def Done (w w' : World) (item : Work) : Prop :=
  ∃ next w₁ taken, Performs w item next w₁ taken ∧ w'.live = w₁.live ∧
    ∀ it ∈ next, Pending w' it

section Pending

variable {w w' : World} {a : Label} {item : Work}

/-- Everything left stays left when the calls keep theirs and no stopping task
loses its own. -/
theorem Pending.kept (h : Pending w item)
    (hcalls : ∀ (k : Nat) (call : StopCall), w.calls[k]? = some call → w'.calls[k]? = some call)
    (hinsts : ∀ (i : Nat) (inst : Inst) (todo : List Work), w.insts[i]? = some inst →
      inst.pc = .stopping todo → item ∈ todo →
      ∃ inst', w'.insts[i]? = some inst' ∧ inst'.pc = .stopping todo) : Pending w' item := by
  rcases h with ⟨k, call, hk, hitem⟩ | ⟨i, inst, todo, hi, hpc, hitem⟩
  · exact Or.inl ⟨k, call, hcalls k call hk, hitem⟩
  · obtain ⟨inst', hi', hpc'⟩ := hinsts i inst todo hi hpc hitem
    exact Or.inr ⟨i, inst', todo, hi', hpc', hitem⟩

/-- Moving one task on leaves what the others have to do, and what it had to do
itself only if it had nothing. -/
theorem Pending.setPc {i : Nat} {inst : Inst} {pc : Pc} (h : Pending w item)
    (hi : w.insts[i]? = some inst) (hnone : ∀ todo, inst.pc = .stopping todo → item ∉ todo)
    (hcalls : w'.calls = w.calls) (hinsts : w'.insts = (w.setPc i pc).insts) :
    Pending w' item := by
  refine h.kept (fun k call hk => hcalls ▸ hk) fun j x todo hj hpc hitem => ?_
  by_cases hij : i = j
  · subst hij
    rw [hi] at hj
    cases hj
    exact absurd hitem (hnone todo hpc)
  · refine ⟨x, ?_, hpc⟩
    have hget := getElem?_setPc hj i pc
    rw [if_neg hij, ← hinsts] at hget
    exact hget

/-- Work done for one leaves what the others have to do. -/
theorem Performs.pending {it : Work} {next : List Work} {taken : Option Nat}
    (h : Performs w it next w' taken) (hp : Pending w item) : Pending w' item := by
  refine hp.kept (fun k call hk => h.frame.1 ▸ hk) fun j x todo hj hpc _ => ?_
  obtain ⟨x', hx', -, -, hpc'⟩ := h.inst hj
  exact ⟨x', hx', hpc'.trans hpc⟩

theorem Pending.spawn {line : List Nat} {path : ActorPath} {command : TypeId}
    (h : Pending w item) : Pending (w.spawn line path command) item :=
  h.kept (fun _ _ hk => hk) fun _ x _ hj hpc _ => ⟨x, getElem?_spawn_left hj, hpc⟩

/-- What a task goes on with. -/
theorem pending_setPc {i : Nat} {x : Inst} (hx : w.insts[i]? = some x) (todo : List Work)
    (halted : List (Nat × Nat)) :
    ∀ it ∈ todo, Pending { w.setPc i (.stopping todo) with halted := halted } it := by
  intro it hit
  have hget := getElem?_setPc hx i (.stopping todo)
  rw [if_pos rfl] at hget
  exact Or.inr ⟨i, _, todo, hget, rfl, hit⟩

/-- What a `stop_at` goes on with. -/
theorem pending_setCall {k : Nat} (call : StopCall) (hk : k < w.calls.length)
    (halted : List (Nat × Nat)) :
    ∀ it ∈ call.todo, Pending { w with calls := w.calls.set k call, halted := halted } it :=
  fun _ hit => Or.inl ⟨k, call, List.getElem?_set_self hk, hit⟩

theorem Moves.pending (h : Moves w a w') (hp : Pending w item) :
    Pending w' item ∨ Done w w' item := by
  cases h with
  | setServing | kept => exact Or.inl hp
  | spawn ha hfree => exact Or.inl hp.spawn
  | @goes a i inst pc hi hgo =>
      refine Or.inl (hp.setPc hi (fun todo hpc => ?_) rfl rfl)
      rw [hpc] at hgo
      cases hgo with
      | leave hactive => cases hactive
      | dropActor => exact List.not_mem_nil
  | @retire i inst hi hpc =>
      refine Or.inl (hp.setPc hi (fun todo hpc' => ?_) rfl rfl)
      rw [hpc] at hpc'
      cases hpc'
  | stop =>
      refine Or.inl (hp.kept (fun k call hk => ?_) fun j x todo hj hpc _ => ⟨x, hj, hpc⟩)
      rw [List.getElem?_append_left (List.getElem?_eq_some_iff.mp hk).1, hk]
  | @task i order inst it rest next w₁ taken hi hpc hdone =>
      obtain ⟨x, hx, -, -, hxpc⟩ := hdone.inst hi
      have hown := pending_setPc hx (next ++ rest)
        (w₁.halted ++ (taken.map fun x => (i, x)).toList)
      by_cases hitem : ∃ todo, x.pc = .stopping todo ∧ item ∈ todo
      · -- one of its own: the one just done, or one still to come
        obtain ⟨todo, htodo, hmem⟩ := hitem
        rw [hxpc, hpc] at htodo
        cases htodo
        rcases List.mem_cons.mp hmem with rfl | hmem
        · exact Or.inr ⟨next, w₁, taken, hdone, rfl,
            fun it' hit' => hown it' (List.mem_append_left _ hit')⟩
        · exact Or.inl (hown item (List.mem_append_right _ hmem))
      · have hnone : ∀ todo, x.pc = .stopping todo → item ∉ todo :=
          fun todo htodo hmem => hitem ⟨todo, htodo, hmem⟩
        exact Or.inl ((hdone.pending hp).setPc hx hnone rfl rfl)
  | @call k order call it rest next w₁ taken hk htodo hdone =>
      have hlt := (List.getElem?_eq_some_iff.mp hk).1
      rw [← hdone.frame.1] at hlt
      have hown := pending_setCall (call.after it (next ++ rest) taken) hlt
        (w₁.halted ++ call.accounts it taken)
      rcases hdone.pending hp with ⟨k', call', hk', hmem⟩ | hinst
      · by_cases hkk : k = k'
        · subst hkk
          rw [hdone.frame.1, hk] at hk'
          cases hk'
          rw [htodo] at hmem
          rcases List.mem_cons.mp hmem with rfl | hmem
          · exact Or.inr ⟨next, w₁, taken, hdone, rfl,
              fun it' hit' => hown it' (List.mem_append_left _ hit')⟩
          · exact Or.inl (hown item (List.mem_append_right _ hmem))
        · refine Or.inl (Or.inl ⟨k', call', ?_, hmem⟩)
          show (w₁.calls.set k _)[k']? = _
          rw [List.getElem?_set_ne hkk, hk']
      · exact Or.inl (Or.inr hinst)

end Pending

/-! ## What becomes of the rows -/

/-- What a step does to the registry. -/
inductive Refiles (w : World) (a : Label) (w' : World) : Prop
  | same (hlive : w'.live = w.live)
  | spawn (line : List Nat) (path : ActorPath) (command : TypeId)
      (ha : creates w a = some (line, path)) (hfree : Free w path)
      (hw : w' = w.spawn line path command)
  | retire (i : Nat) (inst : Inst) (hi : w.insts[i]? = some inst)
      (hlive : w'.live = w.live.retire inst.path i)
      (hi' : w'.insts[i]? = some { inst with pc := .stopping [.scan inst.path] })
  | halt (path : ActorPath) (entry : Entry) (hlook : w.live.lookup path = some entry)
      (hlive : w'.live = w.live.erase path) (hwait : Pending w' (.wait entry.inst))

section Rows

variable {w w' : World} {a : Label} {path : ActorPath}

/-- Work done changes the registry only by a `halt`, which leaves a wait. -/
theorem Performs.refiles {item : Work} {next : List Work} {w₁ : World} {taken : Option Nat}
    (h : Performs w item next w₁ taken) (hlive : w'.live = w₁.live)
    (hnext : ∀ it ∈ next, Pending w' it) : Refiles w a w' := by
  cases h with
  | missing | raise | wait | scan => exact .same hlive
  | @halt path entry hlook =>
      refine .halt path entry hlook hlive (hnext _ ?_)
      exact List.mem_cons_of_mem _ (List.mem_cons_self ..)

theorem Moves.refiles (h : Moves w a w') : Refiles w a w' := by
  cases h with
  | setServing | kept | goes | stop => exact .same rfl
  | spawn ha hfree => exact .spawn _ _ _ ha hfree rfl
  | @retire i inst hi hpc =>
      refine .retire i inst hi rfl ?_
      show (w.setPc i _).insts[i]? = _
      rw [getElem?_setPc hi, if_pos rfl]
  | @task i order inst item rest next w₁ taken hi hpc hdone =>
      obtain ⟨x, hx, -⟩ := hdone.inst hi
      exact hdone.refiles rfl fun it hit =>
        pending_setPc hx (next ++ rest) _ it (List.mem_append_left _ hit)
  | @call k order call item rest next w₁ taken hk htodo hdone =>
      have hlt := (List.getElem?_eq_some_iff.mp hk).1
      rw [← hdone.frame.1] at hlt
      exact hdone.refiles rfl fun it hit =>
        pending_setCall _ hlt _ it (List.mem_append_left _ hit)

/-- A row was there before, or the step has just filed it. -/
theorem Refiles.lookup (h : Refiles w a w') {entry : Entry}
    (hlook : w'.live.lookup path = some entry) :
    w.live.lookup path = some entry ∨
      ∃ line command, creates w a = some (line, path) ∧ Free w path ∧
        w' = w.spawn line path command := by
  cases h with
  | same hlive => exact Or.inl (hlive ▸ hlook)
  | spawn line q command ha hfree hw =>
      by_cases heq : path = q
      · exact Or.inr ⟨line, command, heq ▸ ha, heq ▸ hfree, heq ▸ hw⟩
      · subst hw
        have hlook' : (w.live.insert q ⟨command, w.insts.length⟩).lookup path = some entry := hlook
        rw [AList.lookup_insert_ne heq] at hlook'
        exact Or.inl hlook'
  | retire i inst hi hlive hi' =>
      rw [hlive] at hlook
      by_cases heq : path = inst.path
      · rw [heq, Live.lookup_retire_self] at hlook
        split at hlook
        · cases hlook
        · exact Or.inl (heq ▸ hlook)
      · rw [Live.lookup_retire_ne heq] at hlook
        exact Or.inl hlook
  | halt q e hq hlive hwait =>
      rw [hlive] at hlook
      by_cases heq : path = q
      · rw [heq, AList.lookup_erase] at hlook
        cases hlook
      · rw [AList.lookup_erase_ne heq] at hlook
        exact Or.inl hlook

/-- The row of an instance that has not retired stays, or somebody waits for the
instance. -/
theorem Refiles.registered (h : Refiles w a w') {i : Nat} {x x' : Inst}
    (hx : w.insts[i]? = some x) (hrank : x.pc.rank ≤ 2) (hx' : w'.insts[i]? = some x')
    (hpath : x'.path = x.path) (hrank' : x'.pc.rank ≤ 2) (hreg : Registered w i x) :
    Registered w' i x' ∨ Pending w' (.wait i) := by
  unfold Registered at hreg ⊢
  obtain ⟨entry, hlook, rfl⟩ := Option.map_eq_some_iff.mp hreg
  rw [hpath]
  cases h with
  | same hlive => exact Or.inl (by rw [hlive]; exact hreg)
  | spawn line q command ha hfree hw =>
      -- its mailbox is open, so its row is not replaced
      have hne : x.path ≠ q := by
        intro heq
        have hdead := hfree entry (heq ▸ hlook)
        have hgone : x.pc = .gone := by simpa [World.alive, World.pcAt, hx] using hdead
        rw [hgone] at hrank
        exact absurd hrank (by decide)
      refine Or.inl ?_
      rw [hw]
      show ((w.live.insert q _).lookup x.path).map Entry.inst = _
      rw [AList.lookup_insert_ne hne]
      exact hreg
  | retire j inst hj hlive hj' =>
      have hne : entry.inst ≠ j := by
        intro heq
        rw [heq, hj'] at hx'
        cases hx'
        exact absurd hrank' (Nat.not_succ_le_self 2)
      refine Or.inl ?_
      rw [hlive]
      by_cases heq : x.path = inst.path
      · rw [heq] at hlook
        rw [heq, Live.lookup_retire_self, hlook]
        simp [hne]
      · rw [Live.lookup_retire_ne heq]
        exact hreg
  | halt q e hq hlive hwait =>
      by_cases heq : x.path = q
      · rw [heq, hq] at hlook
        cases hlook
        exact Or.inr hwait
      · refine Or.inl ?_
        rw [hlive, AList.lookup_erase_ne heq]
        exact hreg

end Rows

/-! ## Nobody is forgotten -/

/-- An instance that has not retired has its row, or somebody waits for it. -/
def Tended (w : World) : Prop :=
  ∀ (i : Nat) (inst : Inst), w.insts[i]? = some inst → inst.pc.rank ≤ 2 →
    Registered w i inst ∨ Pending w (.wait i)

section Tended

variable {w w' : World} {a : Label} {i : Nat}

theorem tended_init : Tended World.init := by
  intro i inst hi
  cases hi

/-- Somebody who waits for an instance waits until it has ended. -/
theorem Moves.waits (h : Moves w a w') {x : Inst} (hx : w.insts[i]? = some x)
    (hrank : x.pc.rank ≤ 2) (hp : Pending w (.wait i)) : Pending w' (.wait i) := by
  rcases h.pending hp with hp' | ⟨next, w₁, taken, hdone, -, -⟩
  · exact hp'
  · cases hdone with
    | wait hended =>
        rw [World.endedAt, hx] at hended
        have hge : 5 ≤ x.pc.rank := of_decide_eq_true hended
        omega

theorem tended_step (h : Tended w) (hm : Moves w a w') : Tended w' := by
  intro i x' hx' hrank'
  rcases hm.older with hold | ⟨line, path, command, ha, hfree, rfl⟩
  · obtain ⟨x, hx, hpath, -, hrank⟩ := hold.back i x' hx'
    have hrank₀ : x.pc.rank ≤ 2 := Nat.le_trans hrank hrank'
    rcases h i x hx hrank₀ with hreg | hwait
    · exact hm.refiles.registered hx hrank₀ hx' hpath hrank' hreg
    · exact Or.inr (hm.waits hx hrank₀ hwait)
  · rcases getElem?_spawn hx' with hx | ⟨rfl, rfl⟩
    · rcases h i x' hx hrank' with hreg | hwait
      · exact hm.refiles.registered hx hrank' hx' rfl hrank' hreg
      · exact Or.inr (hm.waits hx hrank' hwait)
    · refine Or.inl ?_
      show ((w.live.insert path _).lookup path).map Entry.inst = _
      rw [AList.lookup_insert]
      rfl

end Tended

/-! ## Rows somebody will come to -/

/-- Somebody will still come to the row at `path`: it is to be halted, or the
rows above it are to be scanned, or an instance above it that has yet to scan is
to be stopped. -/
inductive Doomed (w : World) (path : ActorPath) : Prop
  | halted (h : Pending w (.halt path))
  | scanned (q : ActorPath) (h : Pending w (.scan q)) (hunder : path.under q = true)
  | below (j : Nat) (inst : Inst) (hj : w.insts[j]? = some inst) (hrank : inst.pc.rank ≤ 2)
      (hunder : path.under inst.path = true)
      (hgoing : Pending w (.wait j) ∨ Pending w (.halt inst.path))

section Doomed

variable {w w' : World} {a : Label} {path : ActorPath}

theorem Doomed.pending (h : Doomed w path) : ∃ item, Pending w item := by
  cases h with
  | halted h => exact ⟨_, h⟩
  | scanned q h _ => exact ⟨_, h⟩
  | below j inst hj hrank hunder hgoing =>
      rcases hgoing with h | h
      · exact ⟨_, h⟩
      · exact ⟨_, h⟩

/-- An instance that has not retired does not get past its scan in one step. -/
theorem Moves.retires (h : Moves w a w') {j : Nat} {x : Inst} (hx : w.insts[j]? = some x)
    (hrank : x.pc.rank ≤ 2) :
    ∃ x', w'.insts[j]? = some x' ∧ x'.path = x.path ∧
      (x'.pc.rank ≤ 2 ∨ Pending w' (.scan x.path)) := by
  cases h with
  | setServing | kept | stop => exact ⟨x, hx, rfl, Or.inl hrank⟩
  | spawn ha hfree => exact ⟨x, getElem?_spawn_left hx, rfl, Or.inl hrank⟩
  | @goes a i inst pc hi hgo =>
      refine ⟨_, getElem?_setPc hx i pc, ?_⟩
      by_cases hij : i = j
      · subst hij
        rw [hi] at hx
        cases hx
        rw [if_pos rfl]
        refine ⟨rfl, Or.inl ?_⟩
        show pc.rank ≤ 2
        generalize x.pc = old at hgo hrank
        cases hgo with
        | started | leave => decide
        | dropActor | dropEnded | closeMailbox => exact absurd hrank (by decide)
      · rw [if_neg hij]
        exact ⟨rfl, Or.inl hrank⟩
  | @retire i inst hi hpc =>
      have hget := getElem?_setPc hx i (.stopping [.scan inst.path])
      by_cases hij : i = j
      · subst hij
        rw [hi] at hx
        cases hx
        rw [if_pos rfl] at hget
        exact ⟨_, hget, rfl, Or.inr (Or.inr ⟨i, _, _, hget, rfl, List.mem_singleton_self _⟩)⟩
      · rw [if_neg hij] at hget
        exact ⟨x, hget, rfl, Or.inl hrank⟩
  | @task i order inst item rest next w₁ taken hi hpc hdone =>
      obtain ⟨x', hx', hpath, -, hpc'⟩ := hdone.inst hx
      have hget := getElem?_setPc hx' i (.stopping (next ++ rest))
      have hij : i ≠ j := by
        rintro rfl
        rw [hi] at hx
        cases hx
        rw [hpc] at hrank
        exact absurd hrank (Nat.not_succ_le_self 2)
      rw [if_neg hij] at hget
      exact ⟨x', hget, hpath, Or.inl (hpc' ▸ hrank)⟩
  | call hk htodo hdone =>
      obtain ⟨x', hx', hpath, -, hpc'⟩ := hdone.inst hx
      exact ⟨x', hx', hpath, Or.inl (hpc' ▸ hrank)⟩

/-- A doomed row stays doomed until it is gone. -/
theorem Moves.doomed (hm : Moves w a w') (htended : Tended w') {entry entry' : Entry}
    (hrow : w.live.lookup path = some entry) (hrow' : w'.live.lookup path = some entry')
    (h : Doomed w path) : Doomed w' path := by
  cases h with
  | halted hp =>
      rcases hm.pending hp with hp' | ⟨next, w₁, taken, hdone, hlive, -⟩
      · exact .halted hp'
      · cases hdone with
        | missing hnone =>
            rw [hnone] at hrow
            cases hrow
        | halt hlook =>
            rw [hlive, AList.lookup_erase] at hrow'
            cases hrow'
  | scanned q hp hunder =>
      rcases hm.pending hp with hp' | ⟨next, w₁, taken, hdone, -, hnext⟩
      · exact .scanned q hp' hunder
      · cases hdone with
        | scan hperm =>
            have hmem : path ∈ w.live.doomed q := Live.mem_doomed.mpr ⟨by rw [hrow]; rfl, hunder⟩
            exact .halted (hnext _ (List.mem_map_of_mem (hperm.symm.subset hmem)))
  | below j x hx hrank hunder hgoing =>
      obtain ⟨x', hx', hpath, hrank' | hscan⟩ := hm.retires hx hrank
      · -- still up: it is waited for, or its row is there and still to be halted
        rw [← hpath] at hunder hgoing
        refine .below j x' hx' hrank' hunder ?_
        rcases hgoing with hwait | hhalt
        · exact Or.inl (hm.waits hx hrank hwait)
        · rcases htended j x' hx' hrank' with hreg | hwait
          · rcases hm.pending hhalt with hp' | ⟨next, w₁, taken, hdone, hlive, hnext⟩
            · exact Or.inr hp'
            · rw [Registered, hlive] at hreg
              cases hdone with
              | missing hnone =>
                  rw [hnone] at hreg
                  cases hreg
              | halt hlook =>
                  rw [AList.lookup_erase] at hreg
                  cases hreg
          · exact Or.inl hwait
      · exact .scanned x.path hscan hunder

theorem under_child (path : ActorPath) (name : String) :
    (path.child name).under path = true := by
  rw [ActorPath.under_iff, ActorPath.startsWith_iff]
  refine ⟨⟨[name], rfl⟩, fun heq => ?_⟩
  have hlen := congrArg (fun p : ActorPath => p.segments.length) heq
  simp [ActorPath.child] at hlen

theorem under_trans {p q r : ActorPath} (h : p.under q = true) (h' : q.under r = true) :
    p.under r = true := by
  rw [ActorPath.under_iff, ActorPath.startsWith_iff] at h h' ⊢
  refine ⟨h'.1.trans h.1, fun heq => h'.2 ?_⟩
  subst heq
  have hseg := h'.1.eq_of_length_le h.1.length_le
  cases p
  cases q
  exact congrArg ActorPath.mk hseg.symm

/-- What an instance files whose own row is doomed, or that is waited for, is
doomed. -/
theorem Doomed.child {i : Nat} {inst : Inst} (hi : w.insts[i]? = some inst)
    (hrank : inst.pc.rank ≤ 2) (name : String)
    (h : Pending w (.wait i) ∨ Doomed w inst.path) : Doomed w (inst.path.child name) := by
  have hunder := under_child inst.path name
  rcases h with hwait | hdoomed
  · exact .below i inst hi hrank hunder (Or.inl hwait)
  · cases hdoomed with
    | halted hp => exact .below i inst hi hrank hunder (Or.inr hp)
    | scanned q hp hq => exact .scanned q hp (under_trans hunder hq)
    | below j x hx hrank' hx' hgoing => exact .below j x hx hrank' (under_trans hunder hx') hgoing

/-- Starting an instance saves nobody. -/
theorem Doomed.spawn {line : List Nat} {q : ActorPath} {command : TypeId} (h : Doomed w path) :
    Doomed (w.spawn line q command) path := by
  cases h with
  | halted hp => exact .halted hp.spawn
  | scanned r hp hunder => exact .scanned r hp.spawn hunder
  | below j x hx hrank hunder hgoing =>
      exact .below j x (getElem?_spawn_left hx) hrank hunder
        (hgoing.imp Pending.spawn Pending.spawn)

end Doomed

end HorsieActor.Ports.Lifecycle
