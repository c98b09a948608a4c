import UbuntuProjects.Analysis.ThreadPoolIsolation
import UbuntuProjects.Analysis.ThreadPoolLifetime
import UbuntuProjects.Analysis.ThreadPoolTake

/-!
# The frames after a step

What a step does to the thread-local members and to the base frame of its thread
(`PoolStep.equips`), on which pools the calls are that it leaves on the stack
(`PoolStep.calls_on`), where it leaves the destructors (`PoolStep.destroy_step`), and what a
constructor makes (`PoolStep.made`).
-/

set_option autoImplicit false

namespace UbuntuProjects.ThreadPool

open Concurrency

/-! ## The frames after a step -/

section Arriving

variable {Tid P : Type} [DecidableEq Tid] [DecidableEq P] {home : Tid → Option (P × ℕ)}
  {t : Tid} {th th' : Thread P} {s s' : Shared Tid P} {l : Lab P} {p : P}

omit [DecidableEq Tid] [DecidableEq P] in
/-- A frame of a stack whose top has made a step. -/
theorem mem_next {α : Type} {k : α → Frame P} {next : Option α} {rest : List (Frame P)}
    {g : Frame P} (hg : g ∈ (next.map k).toList ++ rest) : (∃ x, g = k x) ∨ g ∈ rest := by
  cases next with
  | none => exact .inr hg
  | some x => exact (List.mem_cons.mp hg).imp_left fun hg => ⟨x, hg⟩

/-- What a step does to the thread-local members and to the base frame. -/
inductive Equips (t : Tid) (th th' : Thread P) (s s' : Shared Tid P) : Prop
  | same : th'.tlPInnerQueue = th.tlPInnerQueue → th'.tlThreadIndex = th.tlThreadIndex →
      (∀ f ∈ th'.frames, f.isCall ∨ f ∈ th.frames) → s'.finished = s.finished →
      Equips t th th' s s'
  | index {p : P} {i : ℕ} {rest : List (Frame P)} : th.frames = .worker p i .initIndex :: rest →
      th' = ⟨th.tlPInnerQueue, i, .worker p i .initQueue :: rest⟩ → s'.finished = s.finished →
      Equips t th th' s s'
  | queue {p : P} {i : ℕ} {rest : List (Frame P)} : th.frames = .worker p i .initQueue :: rest →
      th' = ⟨some (p, i), th.tlThreadIndex, .worker p i .loop :: rest⟩ →
      s'.finished = s.finished → Equips t th th' s s'
  | exit {p : P} {i : ℕ} {rest : List (Frame P)} : th.frames = .worker p i .loop :: rest →
      th' = ⟨th.tlPInnerQueue, th.tlThreadIndex, .exited :: rest⟩ → s.Stopping p →
      s'.finished = Function.update s.finished t true → Equips t th th' s s'

omit [DecidableEq Tid] in
theorem ClientStep.equips {f : Frame P} {fs : List (Frame P)} (h : ClientStep f s l fs s') :
    (∀ g ∈ fs, g.isCall ∨ g = f) ∧ s'.finished = s.finished := by
  cases h <;> simp [Frame.isCall, Shared.setPool]

theorem PoolStep.equips (h : PoolStep home t th s l th' s') : Equips t th th' s s' := by
  cases h with
  | client h =>
    obtain ⟨hcalls, hfin⟩ := h.equips
    refine .same rfl rfl (fun g hg => ?_) hfin
    rcases List.mem_append.mp hg with hg | hg
    · rcases hcalls g hg with hg | rfl
      · exact .inl hg
      · exact .inr List.mem_cons_self
    · exact .inr (List.mem_cons_of_mem _ hg)
  | assignTask h | tryWork h =>
    refine .same rfl rfl (fun g hg => ?_) h.finished_eq
    rcases mem_next hg with ⟨_, rfl⟩ | hg
    · exact .inl trivial
    · exact .inr (List.mem_cons_of_mem _ hg)
  | @call _ _ p x rest _ =>
    refine .same rfl rfl (fun g hg => ?_) rfl
    rcases List.mem_cons.mp hg with rfl | hg
    · exact .inl trivial
    · rcases List.mem_cons.mp hg with rfl | hg
      · exact .inl trivial
      · exact .inr (List.mem_cons_of_mem _ hg)
  | destroy h =>
    refine .same rfl rfl (fun g hg => ?_) h.finished_eq
    rcases mem_next hg with ⟨_, rfl⟩ | hg
    · exact .inl trivial
    · exact .inr (List.mem_cons_of_mem _ hg)
  | initIndex _ _ => exact .index rfl rfl rfl
  | initQueue => exact .queue rfl rfl rfl
  | work _ _ =>
    refine .same rfl rfl (fun g hg => ?_) rfl
    rcases List.mem_cons.mp hg with rfl | hg
    · exact .inl trivial
    · exact .inr hg
  | exit hp hstop => exact .exit rfl rfl (.inr ⟨_, hp, hstop⟩) rfl

/-- A call on a pool after a step is one from before, or it is new and the pool is alive. -/
theorem PoolStep.calls_on {g : Frame P} (h : PoolStep home t th s l th' s')
    (hg : g ∈ th'.frames) (hon : g.callOn = some p) :
    (∃ f ∈ th.frames, f.callOn = some p) ∨
      ((∃ D, s.pools p = some D) ∧ s'.pools = s.pools ∧
        ((l = .assignTask p ∨ l = .tryWork p) ∨
          ∃ i rest, th.frames = .worker p i .loop :: rest)) := by
  cases h with
  | @client _ _ f fs rest _ _ _ h =>
    rcases List.mem_append.mp hg with hg | hg
    · cases h with
      | assignTask hf hp =>
        rcases List.mem_cons.mp hg with rfl | hg
        · cases hon
          exact .inr ⟨⟨_, hp⟩, rfl, .inl (.inl rfl)⟩
        · cases List.mem_singleton.mp hg
          exact .inl ⟨_, List.mem_cons_self, hon⟩
      | tryWork hf hp =>
        rcases List.mem_cons.mp hg with rfl | hg
        · cases hon
          exact .inr ⟨⟨_, hp⟩, rfl, .inl (.inr rfl)⟩
        · cases List.mem_singleton.mp hg
          exact .inl ⟨_, List.mem_cons_self, hon⟩
      | destroy hf hp =>
        rcases List.mem_cons.mp hg with rfl | hg
        · cases hon
        · cases List.mem_singleton.mp hg
          exact .inl ⟨_, List.mem_cons_self, hon⟩
      | taskDone => cases hg
      | _ =>
        cases List.mem_singleton.mp hg
        exact .inl ⟨_, List.mem_cons_self, hon⟩
    · exact .inl ⟨g, List.mem_cons_of_mem _ hg, hon⟩
  | assignTask _ | tryWork _ =>
    rcases mem_next hg with ⟨_, rfl⟩ | hg
    · exact .inl ⟨_, List.mem_cons_self, hon⟩
    · exact .inl ⟨g, List.mem_cons_of_mem _ hg, hon⟩
  | call =>
    rcases List.mem_cons.mp hg with rfl | hg
    · cases hon
    · rcases List.mem_cons.mp hg with rfl | hg
      · exact .inl ⟨_, List.mem_cons_self, hon⟩
      · exact .inl ⟨g, List.mem_cons_of_mem _ hg, hon⟩
  | destroy _ =>
    rcases mem_next hg with ⟨_, rfl⟩ | hg
    · cases hon
    · exact .inl ⟨g, List.mem_cons_of_mem _ hg, hon⟩
  | work hp _ =>
    rcases List.mem_cons.mp hg with rfl | hg
    · cases hon
      exact .inr ⟨⟨_, hp⟩, rfl, .inr ⟨_, _, rfl⟩⟩
    · exact .inl ⟨g, hg, hon⟩
  | _ =>
    -- the stages of a worker are not calls
    rcases List.mem_cons.mp hg with rfl | hg
    · cases hon
    · exact .inl ⟨g, List.mem_cons_of_mem _ hg, hon⟩

/-- A destructor that is in progress after a step made this step, or it has begun with it. -/
theorem PoolStep.destroy_step {stage' : DestroyStage} (h : PoolStep home t th s l th' s')
    (hsole : ∀ stage, .destroy p stage ∈ th.frames → th.frames = [.destroy p stage, .client])
    (hmem : .destroy p stage' ∈ th'.frames) :
    (∃ stage, th.frames = [.destroy p stage, .client] ∧
      th'.frames = [.destroy p stage', .client] ∧ ∃ D, s'.pools p = some D) ∨
    (l = .destroy p ∧ th'.frames = .destroy p .stop :: th.frames ∧ stage' = .stop ∧ s' = s ∧
      ∃ D, s.pools p = some D) := by
  have hrest : ∀ f rest, th.frames = f :: rest → ∀ stage, .destroy p stage ∉ rest := by
    intro f rest hf stage hmem
    have heq := hsole stage (hf ▸ List.mem_cons_of_mem _ hmem)
    cases hf.symm.trans heq
    cases List.mem_singleton.mp hmem
  cases h with
  | @client _ _ f fs rest _ _ _ h =>
    have hold : ∀ fs' : List (Frame P), fs' = [f] → .destroy p stage' ∉ fs' := by
      rintro _ rfl hmem
      cases List.mem_singleton.mp hmem
      exact h.runs
    rcases List.mem_append.mp hmem with hmem | hmem
    · cases h with
      | destroy hf hp =>
        rcases List.mem_cons.mp hmem with heq | hmem
        · cases heq
          exact .inr ⟨rfl, rfl, rfl, rfl, _, hp⟩
        · exact absurd hmem (hold _ rfl)
      | assignTask _ _ | tryWork _ _ =>
        rcases List.mem_cons.mp hmem with heq | hmem
        · cases heq
        · exact absurd hmem (hold _ rfl)
      | taskDone => cases hmem
      | _ => exact absurd hmem (hold _ rfl)
    · exact absurd hmem (hrest _ _ rfl _)
  | assignTask _ | tryWork _ =>
    rcases mem_next hmem with ⟨_, heq⟩ | hmem
    · cases heq
    · exact absurd hmem (hrest _ _ rfl _)
  | @destroy _ _ q stage next rest _ _ h =>
    cases next with
    | none => exact absurd hmem (hrest _ _ rfl _)
    | some next =>
      rcases List.mem_cons.mp hmem with heq | hmem
      · cases heq
        have hframes := hsole stage List.mem_cons_self
        cases hframes
        refine .inl ⟨stage, rfl, rfl, ?_⟩
        cases h with
        | stop hp => exact ⟨_, pools_setPool⟩
        | joinThreads hp _ => exact ⟨_, hp⟩
        | innerQueue hp _ => exact ⟨_, pools_setPool⟩
      · exact absurd hmem (hrest _ _ rfl _)
  | call | work _ _ =>
    rcases List.mem_cons.mp hmem with heq | hmem
    · cases heq
    · rcases List.mem_cons.mp hmem with heq | hmem
      · cases heq
      · exact absurd hmem (hrest _ _ rfl _)
  | _ =>
    rcases List.mem_cons.mp hmem with heq | hmem
    · cases heq
    · exact absurd hmem (hrest _ _ rfl _)

omit [DecidableEq Tid] in
theorem pools_none_setPool {q : P} {D D' : Pool Tid} (hq : s.pools q = some D)
    (hp : s.pools p = none) : (s.setPool q D').pools p = none := by
  rw [setPool_pools_other]
  · exact hp
  · rintro rfl
    cases hp.symm.trans hq

omit [DecidableEq Tid] in
/-- `assign_task` writes at most one pool, which is alive. -/
theorem AssignStep.writes {own : Option (P × ℕ)} {x : ℕ} {stage : AssignStage}
    {next : Option AssignStage} (h : AssignStep t own p x stage s next s') :
    s' = s ∨ ∃ q D D', s.pools q = some D ∧ s' = s.setPool q D' := by
  cases h with
  | startOwn _ => exact .inl rfl
  | startGlobal _ => exact .inl rfl
  | lockOwn _ hq _ _ => exact .inr ⟨_, _, _, hq, rfl⟩
  | push _ hq _ => exact .inr ⟨_, _, _, hq, rfl⟩
  | unlockOwn _ hq _ => exact .inr ⟨_, _, _, hq, rfl⟩
  | pushGlobal hq => exact .inr ⟨_, _, _, hq, rfl⟩

omit [DecidableEq Tid] in
/-- `try_work` writes at most one pool at a time, which is alive. -/
theorem WorkStep.writes {own : Option (P × ℕ)} {index : ℤ} {stage : WorkStage}
    {next : Option WorkStage} (h : WorkStep t own index p stage s next s') :
    s' = s ∨ ∃ q D D', s.pools q = some D ∧ s' = s.setPool q D' := by
  cases h with
  | lockOwn _ hq _ _ => exact .inr ⟨_, _, _, hq, rfl⟩
  | popOwn _ hq _ _ => exact .inr ⟨_, _, _, hq, rfl⟩
  | unlockOwn _ hq _ => exact .inr ⟨_, _, _, hq, rfl⟩
  | popGlobal hq _ => exact .inr ⟨_, _, _, hq, rfl⟩
  | lockSteal hq _ _ _ => exact .inr ⟨_, _, _, hq, rfl⟩
  | popSteal hq _ _ _ => exact .inr ⟨_, _, _, hq, rfl⟩
  | unlockSteal hq _ _ => exact .inr ⟨_, _, _, hq, rfl⟩
  | _ => exact .inl rfl

/-- A pool comes to life only by its constructor. -/
theorem PoolStep.pools_none (h : PoolStep home t th s l th' s') (hnone : s.pools p = none) :
    s'.pools p = none ∨ ∃ n, l = .construct p n ∧ 0 < n ∧ s'.workers p = some n ∧
      s.destroyed p = false := by
  cases h with
  | client h =>
    cases h with
    | @construct _ _ q n _ hq hnew hpos =>
      by_cases hpq : p = q
      · subst hpq
        refine .inr ⟨n, rfl, hpos, ?_, hnew⟩
        simp [Shared.workers, Shared.setPool]
      · exact .inl ((setPool_pools_other hpq).trans hnone)
    | stop _ hq => exact .inl (pools_none_setPool hq hnone)
    | _ => exact .inl hnone
  | assignTask h | tryWork h =>
    rcases h.writes with rfl | ⟨q, D, D', hq, rfl⟩
    · exact .inl hnone
    · exact .inl (pools_none_setPool hq hnone)
  | destroy h =>
    cases h with
    | stop hq => exact .inl (pools_none_setPool hq hnone)
    | joinThreads _ _ => exact .inl hnone
    | innerQueue hq _ => exact .inl (pools_none_setPool hq hnone)
    | queue hq _ =>
      refine .inl ((Function.update_of_ne ?_ ..).trans hnone)
      rintro rfl
      cases hnone.symm.trans hq
  | _ => exact .inl hnone

theorem PoolStep.made {n : ℕ} (h : PoolStep home t th s l th' s') (hnone : s.pools p = none)
    (hn : s'.workers p = some n) : l = .construct p n ∧ 0 < n := by
  rcases h.pools_none hnone with hnone' | ⟨m, hlab, hpos, hm, _⟩
  · rw [Shared.workers, hnone'] at hn
    cases hn
  · cases hm.symm.trans hn
    exact ⟨hlab, hpos⟩

/-- A pool that becomes destroyed is gone. -/
theorem PoolStep.destroyed (h : PoolStep home t th s l th' s') (hd : s'.destroyed p = true) :
    s.destroyed p = true ∨ s'.pools p = none := by
  cases h with
  | client h => exact .inl (by cases h <;> exact hd)
  | assignTask h | tryWork h =>
    rcases h.writes with rfl | ⟨q, D, D', hq, rfl⟩
    · exact .inl hd
    · exact .inl hd
  | @destroy _ _ q _ _ _ _ _ h =>
    cases h with
    | queue hq _ =>
      by_cases hpq : p = q
      · rw [hpq]
        exact .inr (Function.update_self ..)
      · exact .inl (by simpa [Function.update_of_ne hpq] using hd)
    | _ => exact .inl hd
  | _ => exact .inl hd

end Arriving

end UbuntuProjects.ThreadPool
