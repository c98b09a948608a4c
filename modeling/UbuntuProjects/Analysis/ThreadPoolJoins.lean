import UbuntuProjects.Analysis.ThreadPoolCalls

/-!
# The destructors join the workers

Once the calls have returned, the workers start and those of the stopped pools exit
(`Joining.park`). The destructors then join them and end (`Joining.destroy`), and what is left
is at rest, the looping workers apart (`Idle`).
-/

set_option autoImplicit false

namespace UbuntuProjects.ThreadPool

open Concurrency

/-! ## Workers that start and exit -/

section Joins

variable {Tid P : Type} [DecidableEq Tid] [DecidableEq P] {home : Tid → Option (P × ℕ)}
  {c : Config Tid (Thread P) (Shared Tid P)} {t u : Tid} {p : P} {f : Frame P}
  {rest : List (Frame P)} {th' : Thread P} {s' : Shared Tid P}

/-- What a thread rests at while the workers are joined. -/
inductive Parked (s : Shared Tid P) : List (Frame P) → Prop
  | client : Parked s [.client]
  | joining {p : P} : Parked s [.destroy p .joinThreads, .client]
  | unstarted {p : P} {i : ℕ} : (∀ n, s.workers p = some n → n ≤ i) →
      Parked s [.worker p i .initIndex]
  | looping {p : P} {i : ℕ} {D : Pool Tid} : s.pools p = some D → D.mStopped = false →
      Parked s [.worker p i .loop]
  | exited : Parked s [.exited]

omit [DecidableEq Tid] [DecidableEq P] in
theorem Parked.of_pools_eq {s : Shared Tid P} {frames : List (Frame P)} (h : Parked s frames)
    (hs : s'.pools = s.pools) : Parked s' frames := by
  cases h with
  | client => exact .client
  | joining => exact .joining
  | unstarted hn =>
    refine .unstarted fun n hn' => hn n ?_
    rwa [Shared.workers, hs] at hn'
  | looping hD hstop => exact .looping (hs ▸ hD) hstop
  | exited => exact .exited

/-- All calls have returned or wait for a join. -/
structure Joining (home : Tid → Option (P × ℕ)) (c : Config Tid (Thread P) (Shared Tid P)) :
    Prop where
  used : WellUsed home c
  returned : ∀ u, (c.pc u).Returned

/-- A worker that is not parked starts or exits. -/
theorem Joining.worker_step (h : Joining home c) {i : ℕ} {stage : WorkerStage}
    (hf : (c.pc t).frames = [.worker p i stage]) (hbusy : ¬ Parked c.sh (c.pc t).frames) :
    ∃ th' s', PoolStep home t (c.pc t) c.sh .step th' s' ∧ th'.Returned ∧
      s'.pools = c.sh.pools ∧ th'.rank s'.width < (c.pc t).rank c.sh.width := by
  obtain ⟨_, hhome⟩ := h.used.workerOf_loop hf
  rw [hf] at hbusy
  rw [thread_eq hf]
  cases stage with
  | initIndex =>
    obtain ⟨n, hn, hi⟩ : ∃ n, c.sh.workers p = some n ∧ i < n := by
      by_contra hno
      exact hbusy (.unstarted fun n hn => by_contra fun hi => hno ⟨n, hn, by omega⟩)
    obtain ⟨D, hD⟩ := alive_of_workers hn
    cases hn.symm.trans (workers_eq hD)
    exact ⟨_, _, .initIndex hD hi, returned_of_base rfl id, rfl, Nat.lt_succ_self 2⟩
  | initQueue => exact ⟨_, _, .initQueue, returned_of_base rfl id, rfl, Nat.lt_succ_self 1⟩
  | loop =>
    have hworking : (c.pc t).Working p i := by
      rw [Thread.Working, hf]
      simp
    obtain ⟨n, hn, _⟩ := h.used.lifetimes.working t p i hhome hworking
    obtain ⟨D, hD⟩ := alive_of_workers hn
    have hstop : D.mStopped = true := by
      by_contra hno
      exact hbusy (.looping hD (by simpa using hno))
    exact ⟨_, _, .exit hD hstop, returned_of_base rfl id, rfl, Nat.one_pos⟩

omit [DecidableEq Tid] [DecidableEq P] in
/-- A thread that has returned and is not parked is a worker. -/
theorem Joining.worker_of_busy (h : Joining home c) (hbusy : ¬ Parked c.sh (c.pc t).frames) :
    ∃ p i stage, (c.pc t).frames = [.worker p i stage] := by
  obtain ⟨f, rest, hf, hjoin⟩ := h.returned t
  by_cases hcall : f.isCall
  · have hjoins := hjoin hcall
    cases f with
    | destroy p stage =>
      have hframes := (h.used.destroys t p stage (hf ▸ List.mem_cons_self)).frames
      cases stage with
      | joinThreads =>
        rw [hframes] at hbusy
        exact absurd .joining hbusy
      | _ => cases hjoins
    | _ => cases hjoins
  · obtain ⟨rfl, _⟩ := (hf ▸ h.used.lifetimes.stacked t).base hcall
    cases f with
    | worker p i stage => exact ⟨p, i, stage, hf⟩
    | client =>
      rw [hf] at hbusy
      exact absurd .client hbusy
    | exited =>
      rw [hf] at hbusy
      exact absurd .exited hbusy
    | _ => exact absurd trivial hcall

theorem Joining.step (h : Joining home c) (hbusy : ¬ Parked c.sh (c.pc t).frames) :
    ∃ l c', Step (PoolStep home) c (t, l) c' ∧ Silent c (t, l) ∧ Joining home c' ∧
      rankOf c' t < rankOf c t ∧
      ∀ u, Parked c.sh (c.pc u).frames → Parked c'.sh (c'.pc u).frames := by
  obtain ⟨p, i, stage, hf⟩ := h.worker_of_busy hbusy
  obtain ⟨th', s', hstep, hret, hpools, hrank⟩ := h.worker_step hf hbusy
  refine ⟨.step, _, .mk hstep, rfl, ⟨h.used.silent_step hstep, fun u => ?_⟩,
    rankOf_update hrank, fun u hu => ?_⟩
  · show (Function.update c.pc t th' u).Returned
    by_cases hut : u = t
    · subst hut
      rw [Function.update_self]
      exact hret
    · rw [Function.update_of_ne hut]
      exact h.returned u
  · have hut : u ≠ t := by
      rintro rfl
      exact hbusy hu
    rw [frames_update_of_ne hut]
    exact hu.of_pools_eq hpools

/-- The workers of the pools start, and those of the stopped pools exit. -/
theorem Joining.park [Finite Tid] (h : Joining home c) : ∃ tr c',
    Run (PoolStep home) Silent c tr c' ∧ Joining home c' ∧
      ∀ u, Parked c'.sh (c'.pc u).frames :=
  exists_run_settled_of_rank (J := fun _ c => Joining home c) rankOf (fun _ _ => id)
    (fun _ _ h _ => h) (fun _ _ => Joining.step) h (Set.toFinite _)

/-! ## Destructors -/

/-- While `t` finishes its destructor the others stay where they are. -/
structure Destroying (home : Tid → Option (P × ℕ)) (t : Tid)
    (c : Config Tid (Thread P) (Shared Tid P)) : Prop where
  used : WellUsed home c
  others : ∀ u, u ≠ t → Parked c.sh (c.pc u).frames
  self : Parked c.sh (c.pc t).frames ∨ ∃ p, (c.pc t).frames = [.destroy p .queues, .client]

omit [DecidableEq Tid] [DecidableEq P] in
/-- A thread with a destructor is an outside thread. -/
theorem WellUsed.outside (hW : WellUsed home c) {stage : DestroyStage}
    (hf : (c.pc t).frames = [.destroy p stage, .client]) : home t = none := by
  have hst := hW.lifetimes.stacked t
  rw [hf] at hst
  generalize hh : home t = h at hst
  generalize hall : [Frame.destroy p stage, Frame.client] = all at hst
  cases hst with
  | outside calls _ => rfl
  | unstarted => cases hall
  | working calls _ hc =>
    have hlast := congrArg List.getLast? hall
    simp at hlast
  | exited => cases hall

omit [DecidableEq Tid] [DecidableEq P] in
/-- The pool of a destructor past its first stage has been stopped. -/
theorem WellUsed.stopped (hW : WellUsed home c) {stage : DestroyStage} {D : Pool Tid}
    (hmem : .destroy p stage ∈ (c.pc t).frames) (hstage : stage ≠ .stop)
    (hD : c.sh.pools p = some D) : D.mStopped = true := by
  rcases hW.lifetimes.stopping t p stage hmem hstage with hgone | ⟨D', hD', hstop⟩
  · cases (hW.gone p hgone).symm.trans hD
  · cases hD'.symm.trans hD
    exact hstop

omit [DecidableEq Tid] [DecidableEq P] in
/-- A worker that is parked was not started, is at its loop or has exited. -/
theorem WellUsed.parked_worker (hW : WellUsed home c) (hparked : Parked c.sh (c.pc u).frames)
    {i : ℕ} (hu : home u = some (p, i)) :
    ((c.pc u).frames = [.worker p i .initIndex] ∧ ∀ n, c.sh.workers p = some n → n ≤ i) ∨
      ((c.pc u).frames = [.worker p i .loop] ∧
        ∃ D, c.sh.pools p = some D ∧ D.mStopped = false) ∨
      (c.pc u).frames = [.exited] := by
  have hst := hW.lifetimes.stacked u
  generalize hframes : (c.pc u).frames = frames at hparked hst
  cases hparked with
  | client =>
    obtain ⟨_, hnone, _⟩ := hst.base id
    cases (hnone rfl).symm.trans hu
  | joining => cases (hW.outside hframes).symm.trans hu
  | unstarted hn =>
    cases (hW.workerOf_loop hframes).2.symm.trans hu
    exact .inl ⟨rfl, hn⟩
  | looping hD hrun =>
    cases (hW.workerOf_loop hframes).2.symm.trans hu
    exact .inr (.inl ⟨rfl, _, hD, hrun⟩)
  | exited => exact .inr (.inr rfl)

omit [DecidableEq Tid] [DecidableEq P] in
/-- The workers that a destructor joins have exited. -/
theorem WellUsed.joined (hW : WellUsed home c)
    (hf : (c.pc t).frames = [.destroy p .joinThreads, .client])
    (hothers : ∀ u, u ≠ t → Parked c.sh (c.pc u).frames) {D : Pool Tid}
    (hD : c.sh.pools p = some D) {i : ℕ} (hu : home u = some (p, i))
    (hi : i < D.mInnerQueues.length) : c.sh.finished u = true := by
  have hut : u ≠ t := by
    rintro rfl
    cases (hW.outside hf).symm.trans hu
  rcases hW.parked_worker (hothers u hut) hu with ⟨_, hn⟩ | ⟨_, D', hD', hrun⟩ | hexited
  · have hle := hn _ (workers_eq hD)
    omega
  · have hmem : .destroy p .joinThreads ∈ (c.pc t).frames := hf ▸ List.mem_cons_self
    cases hrun.symm.trans (hW.stopped hmem (by simp) hD')
  · exact hW.exited u (hexited ▸ List.mem_cons_self)

/-- A thread stays parked while the queues of a pool that has been joined are destroyed. -/
theorem WellUsed.parked_of_queues (hW : WellUsed home c)
    (hmem : .destroy p .queues ∈ (c.pc t).frames)
    (hstep : PoolStep home t (c.pc t) c.sh .step th' s')
    (hpools : ∀ q, q ≠ p → s'.pools q = c.sh.pools q) {frames : List (Frame P)}
    (h : Parked c.sh frames) : Parked s' frames := by
  cases h with
  | client => exact .client
  | joining => exact .joining
  | exited => exact .exited
  | @unstarted q i hn =>
    apply Parked.unstarted
    intro n' hn'
    by_cases hq : q = p
    · subst hq
      cases hstep.poolTurns (q := q) with
      | keeps hsame _ => exact hn n' (hsame ▸ hn')
      | made hnone _ =>
        obtain ⟨n, hn⟩ := workers_of_alive (hW.destroys t q _ hmem).alive
        cases hnone.symm.trans hn
      | unmade _ hle _ =>
        obtain ⟨n, hn₀, hle⟩ := hle n' hn'
        exact hle.trans (hn n hn₀)
    · rw [Shared.workers, hpools q hq] at hn'
      exact hn n' hn'
  | @looping q i D hD hrun =>
    have hq : q ≠ p := by
      rintro rfl
      cases hrun.symm.trans (hW.stopped hmem (by simp) hD)
    exact .looping ((hpools q hq).trans hD) hrun

/-- A destructor goes on. -/
theorem Destroying.step (h : Destroying home t c)
    (hbusy : ¬ ∀ p stage, .destroy p stage ∉ (c.pc t).frames) :
    ∃ l c', Step (PoolStep home) c (t, l) c' ∧ Silent c (t, l) ∧ Destroying home t c' ∧
      rankOf c' t < rankOf c t ∧ ∀ u, (∀ p stage, .destroy p stage ∉ (c.pc u).frames) →
        ∀ p stage, .destroy p stage ∉ (c'.pc u).frames := by
  have hkeep : ∀ {th' : Thread P} {s' : Shared Tid P} {u : Tid},
      (∀ p stage, .destroy p stage ∉ (c.pc u).frames) → ∀ p stage, .destroy p stage ∉
        ((⟨Function.update c.pc t th', s'⟩ : Config Tid _ (Shared Tid P)).pc u).frames := by
    intro th' s' u hu
    have hut : u ≠ t := by
      rintro rfl
      exact hbusy hu
    rw [frames_update_of_ne hut]
    exact hu
  obtain ⟨p, hf | hf⟩ : ∃ p, (c.pc t).frames = [.destroy p .joinThreads, .client] ∨
      (c.pc t).frames = [.destroy p .queues, .client] := by
    rcases h.self with hparked | ⟨p, hf⟩
    · generalize (c.pc t).frames = frames at hparked hbusy
      cases hparked with
      | joining => exact ⟨_, .inl rfl⟩
      | _ => exact absurd (by simp) hbusy
    · exact ⟨p, .inr hf⟩
  · obtain ⟨D, hD⟩ := (h.used.destroys t p _ (hf ▸ List.mem_cons_self)).alive
    have hstep : PoolStep home t (c.pc t) c.sh .step
        ⟨(c.pc t).tlPInnerQueue, (c.pc t).tlThreadIndex, [.destroy p .queues, .client]⟩ c.sh := by
      rw [thread_eq hf]
      exact .destroy (.joinThreads hD fun u i hu hi => h.used.joined hf h.others hD hu hi)
    refine ⟨.step, _, .mk hstep, rfl, ⟨h.used.silent_step hstep, fun u hut => ?_,
      .inr ⟨p, frames_update_self⟩⟩, ?_, fun u => hkeep⟩
    · rw [frames_update_of_ne hut]
      exact h.others u hut
    · apply rankOf_update
      rw [thread_eq hf]
      exact Nat.lt_succ_self _
  · obtain ⟨th', s', hstep, hrank, hframes, hpools⟩ := h.used.queues_step hf
    have hmem : .destroy p .queues ∈ (c.pc t).frames := hf ▸ List.mem_cons_self
    refine ⟨.step, _, .mk hstep, rfl, ⟨h.used.silent_step hstep, fun u hut => ?_, ?_⟩,
      rankOf_update hrank, fun u => hkeep⟩
    · rw [frames_update_of_ne hut]
      exact h.used.parked_of_queues hmem hstep hpools (h.others u hut)
    · rw [frames_update_self]
      rcases hframes with hframes | hframes
      · exact .inr ⟨p, hframes⟩
      · rw [hframes]
        exact .inl .client

/-- No call and no destructor is in progress. -/
structure Idle (home : Tid → Option (P × ℕ)) (c : Config Tid (Thread P) (Shared Tid P)) :
    Prop where
  used : WellUsed home c
  parked : ∀ u, Parked c.sh (c.pc u).frames
  undestroyed : ∀ u p stage, .destroy p stage ∉ (c.pc u).frames

omit [DecidableEq Tid] [DecidableEq P] in
theorem Destroying.parked (h : Destroying home t c)
    (hend : ∀ p stage, .destroy p stage ∉ (c.pc t).frames) (u : Tid) :
    Parked c.sh (c.pc u).frames := by
  by_cases hut : u = t
  · subst hut
    apply h.self.resolve_right
    rintro ⟨p, hf⟩
    exact hend p _ (hf ▸ List.mem_cons_self)
  · exact h.others u hut

/-- The destructors finish. -/
theorem Joining.destroy [Finite Tid] (h : Joining home c)
    (hparked : ∀ u, Parked c.sh (c.pc u).frames) : ∃ tr c',
    Run (PoolStep home) Silent c tr c' ∧ Idle home c' := by
  have hin : ∀ c t, (WellUsed home c ∧ ∀ u, Parked c.sh (c.pc u).frames) →
      Destroying home t c := fun c t h => ⟨h.1, fun u _ => h.2 u, .inl (h.2 t)⟩
  obtain ⟨tr, c', hr, ⟨hW, hparked'⟩, hend⟩ := exists_run_settled_of_rank rankOf hin
    (fun _ _ h hend => ⟨h.used, h.parked hend⟩) (fun _ _ => Destroying.step)
    ⟨h.used, hparked⟩ (Set.toFinite _)
  exact ⟨tr, c', hr, hW, hparked', hend⟩

end Joins

end UbuntuProjects.ThreadPool
