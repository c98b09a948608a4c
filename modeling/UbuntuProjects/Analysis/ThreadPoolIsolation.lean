import UbuntuProjects.Analysis.ThreadPoolCustody

/-!
# Wrappers of different pools

The inner queue that `assign_task` and `try_work` use is found through a thread-local member
of the class template, whatever pool they are called on. As long as a thread whose
`tl_p_inner_queue` belongs to another pool neither pushes to it nor pops from it, each wrapper
stays with the pool whose `assign_task` made it (`wrappers_isolated`). A push to an inner queue
of another pool ends that at once (`WithOwnPool.not_isolated_of_push`).
-/

set_option autoImplicit false

namespace UbuntuProjects.ThreadPool

open Concurrency

section Isolation

variable {Tid P : Type}

/-- The pool that a place belongs to. -/
def SharedPlace.pool : SharedPlace P → Option P
  | .global p => some p
  | .inner p _ => some p
  | .called => none
  | .destroyed => none

/-- A wrapper that a pool made and that has neither been taken nor destroyed is in one of the
queues of the pool, unless it has not been pushed yet, and a pool calls only wrappers that it
made. -/
def WrappersIsolated (c : Config Tid (Thread P) (Shared Tid P)) : Prop :=
  (∀ x p, c.sh.given[x]? = some p → (∀ t, x ∉ (c.pc t).inHands) →
    (∀ t, x ∉ (c.pc t).currentTasks) → x ∉ c.sh.tasks .called → x ∉ c.sh.tasks .destroyed →
    x ∈ c.sh.tasks (.global p) ∨ ∃ i, x ∈ c.sh.tasks (.inner p i)) ∧
  ∀ x p, (x, p) ∈ c.sh.called → c.sh.given[x]? = some p

/-- The condition on a step: `assign_task` pushes to an inner queue only if that belongs to
the pool it is called on, and `try_work` pops from the thread's inner queue only if that
belongs to the pool it is called on or is empty. -/
def UsesOwnPool (c : Config Tid (Thread P) (Shared Tid P)) (e : Tid × Lab P) : Prop :=
  (∀ p x rest q i, (c.pc e.1).frames = .assignTask p x .push :: rest →
    (c.pc e.1).tlPInnerQueue = some (q, i) → q = p) ∧
  ∀ p rest q i, (c.pc e.1).frames = .tryWork p .popOwn :: rest →
    (c.pc e.1).tlPInnerQueue = some (q, i) → c.sh.tasks (.inner q i) ≠ [] → q = p

/-- Every wrapper is with the pool that made it: in its queues, in the calls of its
`try_work` and `assign_task`, and in what they have called. -/
structure WithOwnPool (c : Config Tid (Thread P) (Shared Tid P)) : Prop where
  queued : ∀ k p x, k.pool = some p → x ∈ c.sh.tasks k → c.sh.given[x]? = some p
  assigned : ∀ t p x stage, .assignTask p x stage ∈ (c.pc t).frames → c.sh.given[x]? = some p
  taken : ∀ t p x stage, .tryWork p stage ∈ (c.pc t).frames → x ∈ stage.taken →
    c.sh.given[x]? = some p
  called : ∀ p x, (x, p) ∈ c.sh.called → c.sh.given[x]? = some p

end Isolation

/-! ## The ways of a task -/

section Ways

variable {Tid P : Type} {home : Tid → Option (P × ℕ)} {t : Tid} {own : Option (P × ℕ)}
  {index : ℤ} {p q : P} {s s' : Shared Tid P} {k : SharedPlace P} {x : ℕ}

/-- A step that pushes nothing puts nothing into a queue. -/
theorem Moves.tasks_subset {th th' : Thread P} (h : Moves th th' s s') (hk : k.pool = some q)
    (hh : th.inHands.length ≤ th'.inHands.length) : s'.tasks k ⊆ s.tasks k := by
  cases h with
  | stay _ _ hs _ => rw [hs]; exact List.Subset.refl _
  | given _ _ _ hs _ => rw [hs]; exact List.Subset.refl _
  | pushed _ _ hpush _ _ _ _ =>
    rw [hpush, List.length_cons] at hh
    omega
  | taken y j _ _ hj hother _ =>
    by_cases hkj : k = j
    · subst hkj
      intro x hx
      exact hj.mem_iff.mpr (List.mem_cons_of_mem _ hx)
    · rw [hother k hkj]
      exact List.Subset.refl _
  | called _ _ _ _ hother _ =>
    rw [hother k (by rintro rfl; cases hk)]
    exact List.Subset.refl _
  | dropped j _ _ _ hnil _ hother _ =>
    by_cases hkj : k = j
    · subst hkj
      rw [hnil]
      exact List.nil_subset _
    · rw [hother k hkj (by rintro rfl; cases hk)]
      exact List.Subset.refl _

/-- The pool to which a task was given does not change. -/
theorem Moves.given_mono {th th' : Thread P} (h : Moves th th' s s')
    (hx : s.given[x]? = some p) : s'.given[x]? = some p := by
  cases h with
  | given q _ _ _ hg =>
    rw [hg, List.getElem?_append_left (List.getElem?_eq_some_iff.mp hx).1]
    exact hx
  | stay _ _ _ hg => rw [hg]; exact hx
  | pushed _ _ _ _ _ _ hg => rw [hg]; exact hx
  | taken _ _ _ _ _ _ hg => rw [hg]; exact hx
  | called _ _ _ _ _ hg => rw [hg]; exact hx
  | dropped _ _ _ _ _ _ _ hg => rw [hg]; exact hx

variable [DecidableEq P]

/-- A task comes into a queue only when `assign_task` pushes it. -/
theorem AssignStep.enqueues {y : ℕ} {stage : AssignStage} {next : Option AssignStage}
    (hk : k.pool = some q) (h : AssignStep t own p y stage s next s') (hx : x ∈ s'.tasks k) :
    x ∈ s.tasks k ∨ (x = y ∧ stage = .pushGlobal ∧ p = q) ∨
      (x = y ∧ stage = .push ∧ ∃ i, own = some (q, i)) := by
  cases h with
  | startOwn _ => exact .inl hx
  | startGlobal _ => exact .inl hx
  | lockOwn _ hq hi _ => exact .inl (by rwa [tasks_setInner_mutex hq hi] at hx)
  | @push _ q' i _ _ hown hq hi =>
    by_cases hki : k = .inner q' i
    · subst hki
      cases hk
      rw [tasks_setInner_self hi] at hx
      rcases List.mem_append.mp hx with hx | hx
      · exact .inl (by rw [tasks_inner hq hi]; exact hx)
      · exact .inr (.inr ⟨List.mem_singleton.mp hx, rfl, i, hown⟩)
    · rw [tasks_setInner_other hq hki] at hx
      exact .inl hx
  | unlockOwn _ hq hi => exact .inl (by rwa [tasks_setInner_mutex hq hi] at hx)
  | pushGlobal hp =>
    by_cases hkp : k = .global p
    · subst hkp
      cases hk
      rw [tasks_setPool_global] at hx
      rcases List.mem_append.mp hx with hx | hx
      · exact .inl (by rw [tasks_global hp]; exact hx)
      · exact .inr (.inl ⟨List.mem_singleton.mp hx, rfl, rfl⟩)
    · rw [tasks_setQueue_other hp hkp] at hx
      exact .inl hx

theorem PoolStep.enqueues [DecidableEq Tid] {th th' : Thread P} {l : Lab P}
    (hk : k.pool = some q) (h : PoolStep home t th s l th' s') (hx : x ∈ s'.tasks k) :
    x ∈ s.tasks k ∨ ∃ p stage rest, th.frames = .assignTask p x stage :: rest ∧
      ((stage = .pushGlobal ∧ p = q) ∨ (stage = .push ∧ ∃ i, th.tlPInnerQueue = some (q, i))) := by
  have hsub := fun hh => h.moves.tasks_subset hk hh hx
  cases h with
  | assignTask h =>
    rcases h.enqueues hk hx with hx | ⟨rfl, hstage⟩ | ⟨rfl, hstage⟩
    · exact .inl hx
    · exact .inr ⟨_, _, _, rfl, .inl hstage⟩
    · exact .inr ⟨_, _, _, rfl, .inr hstage⟩
  | client h =>
    cases h with
    | assignTask _ _ => exact .inl (hsub (Nat.le_succ _))
    | _ => exact .inl (hsub (Nat.le_refl _))
  | @tryWork _ _ _ _ next _ _ _ h =>
    refine .inl (hsub ?_)
    cases next <;> exact Nat.le_refl _
  | @destroy _ _ _ _ next _ _ _ h =>
    refine .inl (hsub ?_)
    cases next <;> exact Nat.le_refl _
  | _ => exact .inl (hsub (Nat.le_refl _))

/-- A call of `try_work` takes a task from a queue of its pool or from the inner queue of the
thread. -/
theorem WorkStep.takes {stage stage' : WorkStage} {next : Option WorkStage}
    (h : WorkStep t own index p stage s next s') (hnext : next = some stage')
    (hx : x ∈ stage'.taken) :
    x ∈ stage.taken ∨ (∃ k, k.pool = some p ∧ x ∈ s.tasks k) ∨
      (stage = .popOwn ∧ ∃ q i, own = some (q, i) ∧ x ∈ s.tasks (.inner q i)) := by
  cases h with
  | @popOwn _ q i y rest D iq hown hq hi hy =>
    cases hnext
    refine .inr (.inr ⟨rfl, q, i, hown, ?_⟩)
    rw [tasks_inner hq hi, hy, List.mem_singleton.mp hx]
    exact List.mem_cons_self
  | @popGlobal _ _ y rest hp hy =>
    cases hnext
    refine .inr (.inl ⟨.global p, rfl, ?_⟩)
    rw [tasks_global hp, hy, List.mem_singleton.mp hx]
    exact List.mem_cons_self
  | @popSteal _ _ i j y rest iq hp _ hi hy =>
    cases hnext
    refine .inr (.inl ⟨.inner p j, rfl, ?_⟩)
    rw [tasks_inner hp hi, hy, List.mem_singleton.mp hx]
    exact List.mem_append_right _ (List.mem_singleton_self y)
  | @unlockOwn _ _ _ task _ _ _ _ _ =>
    cases hnext
    cases task with
    | none => cases hx
    | some y => exact .inl hx
  | @unlockSteal _ _ _ _ task _ _ _ _ =>
    cases hnext
    cases task with
    | none => cases hx
    | some y => exact .inl hx
  | _ =>
    cases hnext
    try cases hx

theorem PoolStep.takes [DecidableEq Tid] {th th' : Thread P} {l : Lab P} {stage' : WorkStage}
    (h : PoolStep home t th s l th' s') (hmem : .tryWork p stage' ∈ th'.frames)
    (hx : x ∈ stage'.taken) :
    (∃ stage, .tryWork p stage ∈ th.frames ∧ x ∈ stage.taken) ∨
      (∃ k, k.pool = some p ∧ x ∈ s.tasks k) ∨
      ∃ rest q i, th.frames = .tryWork p .popOwn :: rest ∧ th.tlPInnerQueue = some (q, i) ∧
        x ∈ s.tasks (.inner q i) := by
  cases h.arrives hmem with
  | old hold => exact .inl ⟨stage', hold, hx⟩
  | tryWork => cases hx
  | calling => cases hx
  | working hf hstep =>
    rcases hstep.takes rfl hx with hx | hq | ⟨rfl, q, i, hown, hx⟩
    · exact .inl ⟨_, hf ▸ List.mem_cons_self, hx⟩
    · exact .inr (.inl hq)
    · exact .inr (.inr ⟨_, q, i, hf, hown, hx⟩)

/-- A call of `assign_task` has the number of its task from its start. -/
theorem PoolStep.assigns [DecidableEq Tid] {th th' : Thread P} {l : Lab P}
    {stage' : AssignStage} (h : PoolStep home t th s l th' s')
    (hmem : .assignTask p x stage' ∈ th'.frames) :
    (∃ stage, .assignTask p x stage ∈ th.frames) ∨
      (x = s.given.length ∧ s'.given = s.given ++ [p]) := by
  cases h.arrives hmem with
  | old hold => exact .inl ⟨stage', hold⟩
  | assign hg => exact .inr ⟨rfl, hg⟩
  | assigning hf _ => exact .inl ⟨_, hf ▸ List.mem_cons_self⟩

/-- Only a call of `try_work` calls a task, the one it has taken. -/
theorem PoolStep.calls [DecidableEq Tid] {th th' : Thread P} {l : Lab P}
    (h : PoolStep home t th s l th' s') (hx : (x, p) ∈ s'.called) :
    (x, p) ∈ s.called ∨ .tryWork p (.call x) ∈ th.frames := by
  cases h with
  | client h => cases h <;> exact .inl hx
  | assignTask h => cases h <;> exact .inl hx
  | tryWork h => cases h <;> exact .inl hx
  | call =>
    rcases List.mem_append.mp hx with hx | hx
    · exact .inl hx
    · cases List.mem_singleton.mp hx
      exact .inr List.mem_cons_self
  | destroy h => cases h <;> exact .inl hx
  | _ => exact .inl hx

end Ways

/-! ## Isolation -/

section Runs

variable {Tid P : Type} {home : Tid → Option (P × ℕ)}
  {c : Config Tid (Thread P) (Shared Tid P)} {t : Tid} {l : Lab P} {th' : Thread P}
  {s' : Shared Tid P}

/-- A wrapper that is in one place, and with its own pool, is isolated. -/
theorem WithOwnPool.isolated (hI : WithOwnPool c)
    (hcust : Custody (content c) c.sh.given.length) : WrappersIsolated c := by
  refine ⟨fun x p hx hhands hcurrent hcalled hdestroyed => ?_, fun x p => hI.called p x⟩
  obtain ⟨k, hk⟩ := hcust.held x (List.getElem?_eq_some_iff.mp hx).1
  have hmem := hk.mem
  cases k with
  | hands u => exact absurd hmem (hhands u)
  | current u => exact absurd hmem (hcurrent u)
  | shared j =>
    cases j with
    | global q =>
      obtain rfl := Option.some.inj ((hI.queued (.global q) q x rfl hmem).symm.trans hx)
      exact .inl hmem
    | inner q i =>
      obtain rfl := Option.some.inj ((hI.queued (.inner q i) q x rfl hmem).symm.trans hx)
      exact .inr ⟨i, hmem⟩
    | called => exact absurd hmem hcalled
    | destroyed => exact absurd hmem hdestroyed

theorem withOwnPool_start : WithOwnPool (start home : Config Tid (Thread P) (Shared Tid P)) where
  queued k p x hk hx := by cases k <;> cases hx
  assigned u p x stage hmem := by
    rcases start_frames hmem with hf | ⟨_, _, hf⟩ <;> cases hf
  taken u p x stage hmem _ := by
    rcases start_frames hmem with hf | ⟨_, _, hf⟩ <;> cases hf
  called p x hx := by cases hx

variable [DecidableEq Tid]

theorem mem_frames_update {u : Tid} {f : Frame P}
    (hmem : f ∈ ((⟨Function.update c.pc t th', s'⟩ : Config Tid _ (Shared Tid P)).pc u).frames) :
    (u = t ∧ f ∈ th'.frames) ∨ f ∈ (c.pc u).frames := by
  by_cases hut : u = t
  · subst hut
    exact .inl ⟨rfl, by simpa using hmem⟩
  · exact .inr (by simpa [Function.update_of_ne hut] using hmem)

variable [DecidableEq P]

/-- The call on a pool, if the frame is one. -/
def Frame.callOn : Frame P → Option P
  | .assignTask p _ _ => some p
  | .tryWork p _ => some p
  | _ => none

omit [DecidableEq P] [DecidableEq Tid] in
/-- A thread without an inner queue meets the condition. -/
theorem usesOwnPool_of_none (hown : (c.pc t).tlPInnerQueue = none) : UsesOwnPool c (t, l) := by
  refine ⟨fun p x rest q i _ hq => ?_, fun p rest q i _ hq _ => ?_⟩
  · cases hown.symm.trans hq
  · cases hown.symm.trans hq

omit [DecidableEq P] [DecidableEq Tid] in
/-- A call on the pool that the inner queue of the thread belongs to meets the condition. -/
theorem usesOwnPool_of_callOn {f : Frame P} {rest : List (Frame P)} {q : P} {i : ℕ}
    (hf : (c.pc t).frames = f :: rest) (hown : (c.pc t).tlPInnerQueue = some (q, i))
    (hcall : f.callOn = none ∨ f.callOn = some q) : UsesOwnPool c (t, l) := by
  refine ⟨fun p x rest' q' i' hpush hq => ?_, fun p rest' q' i' hpop hq _ => ?_⟩
  · cases hf.symm.trans hpush
    cases hown.symm.trans hq
    exact (Option.some.inj (hcall.resolve_left (by simp [Frame.callOn]))).symm
  · cases hf.symm.trans hpop
    cases hown.symm.trans hq
    exact (Option.some.inj (hcall.resolve_left (by simp [Frame.callOn]))).symm

/-- A step that meets the condition keeps every wrapper with its pool. -/
theorem WithOwnPool.step (hI : WithOwnPool c) (hG : UsesOwnPool c (t, l))
    (h : PoolStep home t (c.pc t) c.sh l th' s') :
    WithOwnPool ⟨Function.update c.pc t th', s'⟩ where
  queued k p x hk hx := by
    refine h.moves.given_mono ?_
    rcases h.enqueues hk hx with hx | ⟨p', stage, rest, hf, ⟨_, rfl⟩ | ⟨rfl, i, hown⟩⟩
    · exact hI.queued k p x hk hx
    · exact hI.assigned t p' x stage (hf ▸ List.mem_cons_self)
    · obtain rfl := hG.1 p' x rest p i hf hown
      exact hI.assigned t p x _ (hf ▸ List.mem_cons_self)
  assigned u p x stage hmem := by
    rcases mem_frames_update hmem with ⟨rfl, hnew⟩ | hmem
    · rcases h.assigns hnew with ⟨stage', hold⟩ | ⟨rfl, hg⟩
      · exact h.moves.given_mono (hI.assigned u p x stage' hold)
      · simp [hg]
    · exact h.moves.given_mono (hI.assigned u p x stage hmem)
  taken u p x stage hmem hx := by
    refine h.moves.given_mono ?_
    rcases mem_frames_update hmem with ⟨rfl, hnew⟩ | hmem
    · rcases h.takes hnew hx with ⟨stage', hold, hx⟩ | ⟨k, hk, hx⟩ | ⟨rest, q, i, hf, hown, hx⟩
      · exact hI.taken u p x stage' hold hx
      · exact hI.queued k p x hk hx
      · obtain rfl := hG.2 p rest q i hf hown (List.ne_nil_of_mem hx)
        exact hI.queued (.inner q i) q x rfl hx
    · exact hI.taken u p x stage hmem hx
  called p x hx := by
    refine h.moves.given_mono ?_
    rcases h.calls hx with hx | hmem
    · exact hI.called p x hx
    · exact hI.taken t p x _ hmem (List.mem_singleton_self x)

/-- In every run of threads on any number of pools in which the inner queue of a thread is only
used for the pool it belongs to, every wrapper is with its own pool. -/
theorem wrappers_isolated {tr : List (Tid × Lab P)}
    (h : Run (PoolStep home) UsesOwnPool (start home) tr c) : WrappersIsolated c := by
  refine WithOwnPool.isolated ?_ (custody_run h)
  refine h.invariant WithOwnPool withOwnPool_start ?_
  rintro c ⟨t, l⟩ c' hI hG hstep
  obtain ⟨hP⟩ := hstep
  exact hI.step hG hP

/-! ### Where the condition fails -/

theorem PoolStep.pushes {th : Thread P} {s : Shared Tid P} {p q : P} {x i : ℕ}
    {rest : List (Frame P)} (h : PoolStep home t th s l th' s')
    (hf : th.frames = .assignTask p x .push :: rest) (hown : th.tlPInnerQueue = some (q, i)) :
    x ∈ s'.tasks (.inner q i) := by
  cases h with
  | assignTask h =>
    cases hf
    cases h with
    | push hown' hq hi =>
      cases hown'.symm.trans hown
      rw [tasks_setInner_self hi]
      exact List.mem_append_right _ (List.mem_singleton_self x)
  | client h =>
    cases hf
    cases h.runs
  | _ => cases hf

/-- A push to an inner queue of another pool ends isolation at once. -/
theorem WithOwnPool.not_isolated_of_push {p q : P} {x i : ℕ} {rest : List (Frame P)}
    (hI : WithOwnPool c) (hcust : Custody (content c) c.sh.given.length)
    (h : PoolStep home t (c.pc t) c.sh l th' s')
    (hf : (c.pc t).frames = .assignTask p x .push :: rest)
    (hown : (c.pc t).tlPInnerQueue = some (q, i)) (hne : q ≠ p) :
    ¬ WrappersIsolated ⟨Function.update c.pc t th', s'⟩ := by
  intro hiso
  have hcust' := custody_step hcust h.moves
  have hx := h.moves.given_mono (hI.assigned t p x _ (hf ▸ List.mem_cons_self))
  obtain ⟨k, hk⟩ := hcust'.held x (List.getElem?_eq_some_iff.mp hx).1
  have hkq : Place.shared (.inner q i) = k := hk.unique (h.pushes hf hown)
  subst hkq
  have hnot : ∀ k, k ≠ .shared (.inner q i) →
      x ∉ content ⟨Function.update c.pc t th', s'⟩ k := hk.2
  rcases hiso.1 x p hx (fun u => hnot (.hands u) (by simp)) (fun u => hnot (.current u) (by simp))
    (hnot (.shared .called) (by simp)) (hnot (.shared .destroyed) (by simp)) with hg | ⟨j, hj⟩
  · exact hnot (.shared (.global p)) (by simp) hg
  · exact hnot (.shared (.inner p j)) (by simp [Ne.symm hne]) hj

/-- A pop from an inner queue of another pool takes a task that was given to that pool, and
the next thing `try_work` does after unlocking is to call it. -/
theorem WithOwnPool.takes_foreign {p q : P} {i : ℕ} {rest : List (Frame P)} (hI : WithOwnPool c)
    (h : PoolStep home t (c.pc t) c.sh l th' s')
    (hf : (c.pc t).frames = .tryWork p .popOwn :: rest)
    (hown : (c.pc t).tlPInnerQueue = some (q, i)) (hne : c.sh.tasks (.inner q i) ≠ []) :
    ∃ x, s'.given[x]? = some q ∧ th'.frames = .tryWork p (.unlockOwn (some x)) :: rest := by
  generalize c.pc t = th at h hf hown
  cases h with
  | tryWork h =>
    cases hf
    cases h with
    | popOwnEmpty hown' hq hi hnil =>
      cases hown'.symm.trans hown
      exact absurd ((tasks_inner hq hi).trans hnil) hne
    | @popOwn _ _ _ x _ _ _ hown' hq hi hx =>
      cases hown'.symm.trans hown
      refine ⟨x, hI.queued (.inner q i) q x rfl ?_, rfl⟩
      rw [tasks_inner hq hi, hx]
      exact List.mem_cons_self
  | client h =>
    cases hf
    cases h.runs
  | _ => cases hf

end Runs

end UbuntuProjects.ThreadPool
