import UbuntuProjects.Analysis.ThreadPoolFrames
import UbuntuProjects.Analysis.ThreadPoolMutexes

/-!
# Pools that are used within their lifetimes

A pool may be destroyed by an outside thread in its own code while nobody but its workers is
in a call on it, and from then on nobody but its workers calls it (`Proper`). In every run of
this kind each call in progress is on a pool that is alive, and the mutex of an inner queue
is owned only by a thread that is about to unlock it (`WellUsed`).
-/

set_option autoImplicit false

namespace UbuntuProjects.ThreadPool

open Concurrency

/-! ## The condition on the client -/

section Rules

variable {Tid P : Type}

/-- The thread is one of the pool's own. -/
def WorkerOf (home : Tid → Option (P × ℕ)) (p : P) (u : Tid) : Prop :=
  ∃ i, home u = some (p, i)

/-- The condition on a step. `hardware_concurrency()` is an `unsigned`, and there is a thread
for the first worker of a pool. -/
structure Proper (home : Tid → Option (P × ℕ)) (c : Config Tid (Thread P) (Shared Tid P))
    (e : Tid × Lab P) : Prop where
  construct : ∀ p n, e.2 = .construct p n → n < 2 ^ 32 ∧ ∃ u, home u = some (p, 0)
  call : ∀ p, e.2 = .assignTask p ∨ e.2 = .tryWork p →
    WorkerOf home p e.1 ∨ ∀ u stage, .destroy p stage ∉ (c.pc u).frames
  destroy : ∀ p, e.2 = .destroy p → (c.pc e.1).frames = [.client] ∧
    (∀ u f, f ∈ (c.pc u).frames → f.callOn = some p → WorkerOf home p u) ∧
    ∀ u stage, .destroy p stage ∉ (c.pc u).frames

variable {home : Tid → Option (P × ℕ)} {c : Config Tid (Thread P) (Shared Tid P)} {t u : Tid}
  {p : P}

/-- A step of a call in progress or of a worker meets the condition. -/
theorem proper_step : Proper home c (t, .step) where
  construct _ _ h := by cases h
  call _ h := by rcases h with h | h <;> cases h
  destroy _ h := by cases h

end Rules

/-! ## The invariant -/

/-- The round of the loop of `try_steal_task` in which an inner queue is probed. -/
def WorkStage.round : WorkStage → Option ℕ
  | .lockSteal i => some i
  | .popSteal i => some i
  | .unlockSteal i _ => some i
  | _ => none

section Invariant

variable {Tid P : Type}

/-- The frame is in a part that uses `tl_p_inner_queue` after its test. -/
def Frame.usesOwn : Frame P → Prop
  | .assignTask _ _ .lockOwn => True
  | .assignTask _ _ .push => True
  | .assignTask _ _ .unlockOwn => True
  | .tryWork _ .lockOwn => True
  | .tryWork _ .popOwn => True
  | .tryWork _ (.unlockOwn _) => True
  | _ => False

/-- A destructor runs in an outside thread, and only workers of its pool are still in calls on
the pool. -/
structure Destroys (home : Tid → Option (P × ℕ)) (c : Config Tid (Thread P) (Shared Tid P))
    (u : Tid) (p : P) (stage : DestroyStage) : Prop where
  frames : (c.pc u).frames = [.destroy p stage, .client]
  alive : ∃ D, c.sh.pools p = some D
  workers : ∀ v f, f ∈ (c.pc v).frames → f.callOn = some p → WorkerOf home p v
  only : ∀ v stage', .destroy p stage' ∈ (c.pc v).frames → v = u

/-- The pools are used within their lifetimes, and the mutexes of the inner queues are owned
by threads that are going to unlock them. -/
structure WellUsed (home : Tid → Option (P × ℕ)) (c : Config Tid (Thread P) (Shared Tid P)) :
    Prop where
  lifetimes : Lifetimes home c
  own : ∀ u q i, (c.pc u).tlPInnerQueue = some (q, i) →
    home u = some (q, i) ∧ .worker q i .initIndex ∉ (c.pc u).frames
  index : ∀ u p (i : ℕ) stage, .worker p i stage ∈ (c.pc u).frames → stage ≠ .initIndex →
    (c.pc u).tlThreadIndex = i
  loop : ∀ u p i, .worker p i .loop ∈ (c.pc u).frames → (c.pc u).tlPInnerQueue = some (p, i)
  uses : ∀ u f, f ∈ (c.pc u).frames → f.usesOwn → (c.pc u).tlPInnerQueue ≠ none
  exited : ∀ u, .exited ∈ (c.pc u).frames → c.sh.finished u = true
  alive : ∀ u p f, f ∈ (c.pc u).frames → f.callOn = some p → ∃ D, c.sh.pools p = some D
  destroys : ∀ u p stage, .destroy p stage ∈ (c.pc u).frames → Destroys home c u p stage
  rounds : ∀ u p stage i n, .tryWork p stage ∈ (c.pc u).frames → stage.round = some i →
    c.sh.workers p = some n → i < n
  locks : ∀ p i u, c.sh.owner p i = some u → (c.pc u).locked c.sh.width = some (p, i)
  quit : ∀ u p i, home u = some (p, i) → .exited ∈ (c.pc u).frames → c.sh.Stopping p
  staffed : ∀ p n, c.sh.workers p = some n →
    n < 2 ^ 32 ∧ (∃ u, home u = some (p, 0)) ∧ (0 < n ∨ c.sh.Stopping p)
  gone : ∀ p, c.sh.destroyed p = true → c.sh.pools p = none

theorem workers_of_alive {s : Shared Tid P} {p : P} (h : ∃ D, s.pools p = some D) :
    ∃ n, s.workers p = some n := by
  obtain ⟨D, hD⟩ := h
  exact ⟨_, workers_eq hD⟩

theorem alive_of_workers {s : Shared Tid P} {p : P} {n : ℕ} (h : s.workers p = some n) :
    ∃ D, s.pools p = some D := by
  obtain ⟨D, hD, _⟩ := Option.map_eq_some_iff.mp h
  exact ⟨D, hD⟩

/-- What a thread has locked depends on the pools of its calls only. -/
theorem locked_congr {th : Thread P} {w w' : P → ℕ}
    (h : ∀ f ∈ th.frames, ∀ p, f.callOn = some p → w p = w' p) : th.locked w = th.locked w' := by
  unfold Thread.locked
  cases hf : th.frames with
  | nil => rfl
  | cons f rest =>
    have hw := h f (hf ▸ List.mem_cons_self)
    show f.locked _ _ w = f.locked _ _ w'
    cases f with
    | tryWork p stage => cases stage <;> simp [Frame.locked, hw p rfl]
    | assignTask p x stage => cases stage <;> rfl
    | _ => rfl

end Invariant

/-! ## The invariant over a step -/

section Steps

variable {Tid P : Type} [DecidableEq Tid] [DecidableEq P] {home : Tid → Option (P × ℕ)}
  {c : Config Tid (Thread P) (Shared Tid P)} {t u : Tid} {l : Lab P} {th' : Thread P}
  {s' : Shared Tid P} {p : P} {f : Frame P}

/-- A pool on which a call is in progress keeps its inner queues. -/
theorem WellUsed.workers_same (hW : WellUsed home c)
    (h : PoolStep home t (c.pc t) c.sh l th' s') (hf : f ∈ (c.pc u).frames)
    (hon : f.callOn = some p) : s'.workers p = c.sh.workers p := by
  cases h.poolTurns (q := p) with
  | keeps hsame _ => exact hsame
  | made hnone _ =>
    obtain ⟨n, hn⟩ := workers_of_alive (hW.alive u p f hf hon)
    cases hnone.symm.trans hn
  | unmade hmem _ _ =>
    -- at this stage of the destructor no worker is in a call
    obtain ⟨i, hu⟩ := (hW.destroys t p _ hmem).workers u f hf hon
    rcases hW.lifetimes.ended t p hmem u i hu with hx | ⟨hx, _⟩
    · rw [hx] at hf
      cases List.mem_singleton.mp hf
      cases hon
    · rw [hx] at hf
      cases List.mem_singleton.mp hf
      cases hon

omit [DecidableEq Tid] [DecidableEq P] in
/-- The thread that is a worker, by its base frame. -/
theorem WellUsed.workerOf_loop (hW : WellUsed home c) {i : ℕ} {stage : WorkerStage}
    {rest : List (Frame P)} (hf : (c.pc t).frames = .worker p i stage :: rest) :
    rest = [] ∧ home t = some (p, i) := by
  have hst := hW.lifetimes.stacked t
  rw [hf] at hst
  obtain ⟨hrest, _, hhome⟩ := hst.base id
  exact ⟨hrest, hhome p i stage rfl⟩

theorem WellUsed.alive_step (hW : WellUsed home c) (h : PoolStep home t (c.pc t) c.sh l th' s')
    (hf : f ∈ ((⟨Function.update c.pc t th', s'⟩ : Config Tid _ (Shared Tid P)).pc u).frames)
    (hon : f.callOn = some p) : ∃ D, s'.pools p = some D := by
  have hold : ∀ v g, g ∈ (c.pc v).frames → g.callOn = some p → ∃ D, s'.pools p = some D := by
    intro v g hg hgon
    obtain ⟨n, hn⟩ := workers_of_alive (hW.alive v p g hg hgon)
    rw [← hW.workers_same h hg hgon] at hn
    exact alive_of_workers hn
  rcases mem_frames_update hf with ⟨rfl, hnew⟩ | hmem
  · rcases h.calls_on hnew hon with ⟨g, hg, hgon⟩ | ⟨hD, hsame, _⟩
    · exact hold _ g hg hgon
    · rwa [hsame]
  · exact hold u f hmem hon

/-- While a pool is being destroyed only its workers begin calls on it. -/
theorem WellUsed.callers_step (hW : WellUsed home c) (hG : Proper home c (t, l))
    (h : PoolStep home t (c.pc t) c.sh l th' s') {v : Tid} {stage : DestroyStage}
    (hmem : .destroy p stage ∈ (c.pc v).frames)
    (hf : f ∈ ((⟨Function.update c.pc t th', s'⟩ : Config Tid _ (Shared Tid P)).pc u).frames)
    (hon : f.callOn = some p) : WorkerOf home p u := by
  have hold := (hW.destroys v p stage hmem).workers
  rcases mem_frames_update hf with ⟨rfl, hnew⟩ | hf
  · rcases h.calls_on hnew hon with ⟨g, hg, hgon⟩ | ⟨_, _, hlab | ⟨i, rest, hloop⟩⟩
    · exact hold _ g hg hgon
    · exact (hG.call p hlab).resolve_right fun hno => hno v stage hmem
    · exact ⟨i, (hW.workerOf_loop hloop).2⟩
  · exact hold u f hf hon

theorem WellUsed.destroys_step (hW : WellUsed home c) (hG : Proper home c (t, l))
    (h : PoolStep home t (c.pc t) c.sh l th' s') {stage : DestroyStage}
    (hmem : .destroy p stage ∈
      ((⟨Function.update c.pc t th', s'⟩ : Config Tid _ (Shared Tid P)).pc u).frames) :
    Destroys home ⟨Function.update c.pc t th', s'⟩ u p stage := by
  have hsole : ∀ v stage, .destroy p stage ∈ (c.pc v).frames →
      (c.pc v).frames = [.destroy p stage, .client] :=
    fun v stage hmem => (hW.destroys v p stage hmem).frames
  by_cases hut : u = t
  · subst hut
    rw [frames_update_self] at hmem
    rcases h.destroy_step (hsole u) hmem with ⟨stage₀, hold, hnew, hD⟩ |
      ⟨rfl, hnew, rfl, rfl, hD⟩
    · have hmem₀ : .destroy p stage₀ ∈ (c.pc u).frames := hold ▸ List.mem_cons_self
      refine ⟨frames_update_self.trans hnew, hD,
        fun v f hf hon => hW.callers_step hG h hmem₀ hf hon, fun v stage' hv => ?_⟩
      rcases mem_frames_update hv with ⟨rfl, _⟩ | hv
      · rfl
      · exact (hW.destroys u p stage₀ hmem₀).only v stage' hv
    · obtain ⟨hclient, hcalls, hnone⟩ := hG.destroy p rfl
      rw [hclient] at hnew
      refine ⟨frames_update_self.trans hnew, hD, fun v f hf hon => ?_, fun v stage' hv => ?_⟩
      · rcases mem_frames_update hf with ⟨rfl, hf'⟩ | hf'
        · rw [hnew] at hf'
          simp only [List.mem_cons, List.not_mem_nil, or_false] at hf'
          rcases hf' with rfl | rfl <;> cases hon
        · exact hcalls v f hf' hon
      · rcases mem_frames_update hv with ⟨rfl, _⟩ | hv
        · rfl
        · exact absurd hv (hnone v stage')
  · rw [frames_update_of_ne hut] at hmem
    have hD := hW.destroys u p stage hmem
    refine ⟨(frames_update_of_ne hut).trans hD.frames, ?_, fun v f hf hon =>
      hW.callers_step hG h hmem hf hon, fun v stage' hv => ?_⟩
    · obtain ⟨n, hn⟩ := workers_of_alive hD.alive
      cases h.poolTurns (q := p) with
      | keeps hsame _ => exact alive_of_workers (hsame.trans hn)
      | made hnone _ => cases hnone.symm.trans hn
      | unmade hdestroy _ _ => exact absurd (hD.only t _ hdestroy).symm hut
    · rcases mem_frames_update hv with ⟨rfl, hv'⟩ | hv'
      · rcases h.destroy_step (hsole v) hv' with ⟨stage₀, hold, _⟩ | ⟨rfl, _⟩
        · exact hD.only v stage₀ (hold ▸ List.mem_cons_self)
        · exact absurd hmem ((hG.destroy p rfl).2.2 u stage)
      · exact hD.only v stage' hv'

omit [DecidableEq Tid] in
/-- INTERNAL: the rounds of the loop are those below the number of inner queues. -/
theorem WorkStep.round_lt {own : Option (P × ℕ)} {index : ℤ} {stage next : WorkStage} {i n : ℕ}
    {s : Shared Tid P} (h : WorkStep t own index p stage s (some next) s')
    (hi : next.round = some i) (hn : s.workers p = some n) : stage.round = some i ∨ i < n := by
  generalize hnext : some next = o at h
  cases h with
  | @unlockOwn _ _ _ task _ _ _ _ _ =>
    cases hnext
    cases task <;> cases hi
  | @unlockSteal _ _ _ _ task _ _ _ _ =>
    cases hnext
    cases task <;> cases hi
  | steal hp hlt =>
    cases hnext
    cases hi
    cases hn.symm.trans (workers_eq hp)
    exact .inr hlt
  | lockSteal _ _ _ _ =>
    cases hnext
    exact .inl hi
  | popStealEmpty _ _ _ _ =>
    cases hnext
    exact .inl hi
  | popSteal _ _ _ _ =>
    cases hnext
    exact .inl hi
  | _ =>
    cases hnext
    try cases hi

theorem WellUsed.rounds_step (hW : WellUsed home c) (h : PoolStep home t (c.pc t) c.sh l th' s')
    {stage : WorkStage} {i n : ℕ}
    (hf : .tryWork p stage ∈
      ((⟨Function.update c.pc t th', s'⟩ : Config Tid _ (Shared Tid P)).pc u).frames)
    (hi : stage.round = some i) (hn : s'.workers p = some n) : i < n := by
  have hold : ∀ v, .tryWork p stage ∈ (c.pc v).frames → i < n := by
    intro v hv
    rw [hW.workers_same h hv rfl] at hn
    exact hW.rounds v p stage i n hv hi hn
  rcases mem_frames_update hf with ⟨rfl, hnew⟩ | hmem
  · cases h.arrives hnew with
    | old hmem => exact hold _ hmem
    | tryWork => cases hi
    | calling => cases hi
    | working htop hstep =>
      have hmem := List.mem_of_mem_head? (l := (c.pc u).frames) (by rw [htop]; exact rfl)
      rw [hW.workers_same h hmem rfl] at hn
      rcases hstep.round_lt hi hn with hround | hlt
      · exact hW.rounds u p _ i n hmem hround hn
      · exact hlt
  · exact hold u hmem

/-- What the other threads have locked stays. -/
theorem WellUsed.locked_other (hW : WellUsed home c) (h : PoolStep home t (c.pc t) c.sh l th' s')
    (hut : u ≠ t) :
    ((⟨Function.update c.pc t th', s'⟩ : Config Tid _ (Shared Tid P)).pc u).locked s'.width =
      (c.pc u).locked c.sh.width := by
  show (Function.update c.pc t th' u).locked s'.width = _
  rw [Function.update_of_ne hut]
  apply locked_congr
  intro f hf q hon
  rw [Shared.width, Shared.width, hW.workers_same h hf hon]

theorem WellUsed.locks_step (hW : WellUsed home c) (h : PoolStep home t (c.pc t) c.sh l th' s')
    {i : ℕ} (hown : s'.owner p i = some u) :
    ((⟨Function.update c.pc t th', s'⟩ : Config Tid _ (Shared Tid P)).pc u).locked s'.width =
      some (p, i) := by
  have hself : (Function.update c.pc t th' t) = th' := Function.update_self ..
  by_cases hut : u = t
  · subst hut
    show (Function.update c.pc u th' u).locked s'.width = _
    rw [hself]
    cases h.locking with
    | same hsub hlock =>
      have hlocked := hW.locks p i u (hsub p i u hown)
      rcases hlock with hnone | hsame
      · cases hnone.symm.trans hlocked
      · exact hsame.trans hlocked
    | lock hnew hsub hnone =>
      rcases hsub p i u hown with ⟨_, heq⟩ | hown
      · rw [hnew, heq]
      · cases hnone.symm.trans (hW.locks p i u hown)
    | unlock hlocked hfree hsub =>
      cases hlocked.symm.trans (hW.locks p i u (hsub p i u hown))
      cases hfree.symm.trans hown
  · rw [hW.locked_other h hut]
    apply hW.locks
    cases h.locking with
    | same hsub _ => exact hsub p i u hown
    | lock _ hsub _ => exact (hsub p i u hown).resolve_left fun hx => hut hx.1
    | unlock _ _ hsub => exact hsub p i u hown

theorem WellUsed.staffed_step (hW : WellUsed home c) (hG : Proper home c (t, l))
    (h : PoolStep home t (c.pc t) c.sh l th' s') {n : ℕ} (hn : s'.workers p = some n) :
    n < 2 ^ 32 ∧ (∃ u, home u = some (p, 0)) ∧ (0 < n ∨ s'.Stopping p) := by
  cases h.poolTurns (q := p) with
  | keeps hsame hmono =>
    rw [hsame] at hn
    obtain ⟨hlt, hworker, hpos⟩ := hW.staffed p n hn
    exact ⟨hlt, hworker, hpos.imp_right hmono⟩
  | made hnone _ =>
    obtain ⟨hlab, hpos⟩ := h.made (Option.map_eq_none_iff.mp hnone) hn
    obtain ⟨hlt, hworker⟩ := hG.construct p n hlab
    exact ⟨hlt, hworker, .inl hpos⟩
  | unmade hmem hle hmono =>
    obtain ⟨n₀, hn₀, hle⟩ := hle n hn
    obtain ⟨hlt, hworker, _⟩ := hW.staffed p n₀ hn₀
    exact ⟨by omega, hworker, .inr (hmono (hW.lifetimes.stopping t p _ hmem (by simp)))⟩

theorem WellUsed.own_step (hW : WellUsed home c) (h : PoolStep home t (c.pc t) c.sh l th' s')
    {q : P} {i : ℕ} (hown : th'.tlPInnerQueue = some (q, i)) :
    home t = some (q, i) ∧ .worker q i .initIndex ∉ th'.frames := by
  cases h.equips with
  | same hsame _ hframes _ =>
    rw [hsame] at hown
    obtain ⟨hhome, hstarted⟩ := hW.own t q i hown
    refine ⟨hhome, fun hmem => ?_⟩
    rcases hframes _ hmem with hcall | hmem
    · exact hcall
    · exact hstarted hmem
  | @index p j rest htop hth _ =>
    subst hth
    obtain ⟨hhome, hstarted⟩ := hW.own t q i hown
    cases (hW.workerOf_loop htop).2.symm.trans hhome
    exact absurd (htop ▸ List.mem_cons_self) hstarted
  | @queue p j rest htop hth _ =>
    subst hth
    cases hown
    obtain ⟨rfl, hhome⟩ := hW.workerOf_loop htop
    exact ⟨hhome, by simp⟩
  | @exit p j rest htop hth _ _ =>
    subst hth
    obtain ⟨rfl, _⟩ := hW.workerOf_loop htop
    exact ⟨(hW.own t q i hown).1, by simp⟩

theorem WellUsed.index_step (hW : WellUsed home c) (h : PoolStep home t (c.pc t) c.sh l th' s')
    {i : ℕ} {stage : WorkerStage} (hmem : .worker p i stage ∈ th'.frames)
    (hstage : stage ≠ .initIndex) : th'.tlThreadIndex = i := by
  cases h.equips with
  | same _ hsame hframes _ =>
    rw [hsame]
    rcases hframes _ hmem with hcall | hmem
    · exact hcall.elim
    · exact hW.index t p i stage hmem hstage
  | index htop hth _ =>
    subst hth
    obtain ⟨rfl, _⟩ := hW.workerOf_loop htop
    cases List.mem_singleton.mp hmem
    rfl
  | @queue q j rest htop hth _ =>
    subst hth
    obtain ⟨rfl, _⟩ := hW.workerOf_loop htop
    cases List.mem_singleton.mp hmem
    exact hW.index t p i .initQueue (htop ▸ List.mem_cons_self) nofun
  | exit htop hth _ _ =>
    subst hth
    obtain ⟨rfl, _⟩ := hW.workerOf_loop htop
    cases List.mem_singleton.mp hmem

theorem WellUsed.loop_step (hW : WellUsed home c) (h : PoolStep home t (c.pc t) c.sh l th' s')
    {i : ℕ} (hmem : .worker p i .loop ∈ th'.frames) : th'.tlPInnerQueue = some (p, i) := by
  cases h.equips with
  | same hsame _ hframes _ =>
    rw [hsame]
    rcases hframes _ hmem with hcall | hmem
    · exact hcall.elim
    · exact hW.loop t p i hmem
  | queue htop hth _ =>
    subst hth
    obtain ⟨rfl, _⟩ := hW.workerOf_loop htop
    cases List.mem_singleton.mp hmem
    rfl
  | index htop hth _ | exit htop hth _ _ =>
    subst hth
    obtain ⟨rfl, _⟩ := hW.workerOf_loop htop
    cases List.mem_singleton.mp hmem

omit [DecidableEq Tid] in
/-- INTERNAL: the own inner queue is used only when there is one. -/
theorem AssignStep.own_ne_none {own : Option (P × ℕ)} {x : ℕ} {stage next : AssignStage}
    {s : Shared Tid P} (h : AssignStep t own p x stage s (some next) s')
    (huse : (Frame.assignTask p x next : Frame P).usesOwn) : own ≠ none := by
  generalize hnext : some next = o at h
  cases h with
  | startOwn hown => simp [hown]
  | lockOwn hown _ _ _ => simp [hown]
  | push hown _ _ => simp [hown]
  | startGlobal _ =>
    cases hnext
    cases huse
  | _ => cases hnext

omit [DecidableEq Tid] in
/-- INTERNAL: the own inner queue is used only when there is one. -/
theorem WorkStep.own_ne_none {own : Option (P × ℕ)} {index : ℤ} {stage next : WorkStage}
    {s : Shared Tid P} (h : WorkStep t own index p stage s (some next) s')
    (huse : (Frame.tryWork p next : Frame P).usesOwn) : own ≠ none := by
  generalize hnext : some next = o at h
  cases h with
  | startOwn hown => simp [hown]
  | lockOwn hown _ _ _ => simp [hown]
  | popOwnEmpty hown _ _ _ => simp [hown]
  | popOwn hown _ _ _ => simp [hown]
  | unlockOwn hown _ _ => simp [hown]
  | @unlockSteal _ _ _ _ task _ _ _ _ =>
    cases hnext
    cases task <;> cases huse
  | _ =>
    cases hnext
    try cases huse

theorem WellUsed.uses_step (hW : WellUsed home c) (h : PoolStep home t (c.pc t) c.sh l th' s')
    (hf : f ∈ th'.frames) (huse : f.usesOwn) : th'.tlPInnerQueue ≠ none := by
  have hkeep : (c.pc t).tlPInnerQueue ≠ none → th'.tlPInnerQueue ≠ none := by
    intro hown
    cases h.equips with
    | same hsame _ _ _ => rwa [hsame]
    | index _ hth _ => rwa [hth]
    | queue _ hth _ =>
      rw [hth]
      nofun
    | exit _ hth _ _ => rwa [hth]
  apply hkeep
  cases h.arrives hf with
  | old hmem => exact hW.uses t f hmem huse
  | assigning _ hstep => exact hstep.own_ne_none huse
  | working _ hstep => exact hstep.own_ne_none huse
  | _ => cases huse

theorem PoolStep.gone {s : Shared Tid P} {th : Thread P} (h : PoolStep home t th s l th' s')
    (hgone : ∀ p, s.destroyed p = true → s.pools p = none) (hd : s'.destroyed p = true) :
    s'.pools p = none := by
  rcases h.destroyed hd with hd | hnone
  · rcases h.pools_none (hgone p hd) with hnone | ⟨_, _, _, _, hnew⟩
    · exact hnone
    · cases hnew.symm.trans hd
  · exact hnone

theorem WellUsed.exited_step (hW : WellUsed home c) (h : PoolStep home t (c.pc t) c.sh l th' s')
    (hmem : .exited ∈
      ((⟨Function.update c.pc t th', s'⟩ : Config Tid _ (Shared Tid P)).pc u).frames) :
    s'.finished u = true := by
  have hmono : ∀ v, c.sh.finished v = true → s'.finished v = true := by
    intro v hv
    cases h.equips with
    | exit _ _ _ hfin =>
      rw [hfin]
      by_cases hvt : v = t
      · rw [hvt, Function.update_self]
      · rw [Function.update_of_ne hvt, hv]
    | same _ _ _ hfin | index _ _ hfin | queue _ _ hfin => rw [hfin, hv]
  rcases mem_frames_update hmem with ⟨rfl, hnew⟩ | hmem
  · cases h.equips with
    | same _ _ hframes _ =>
      rcases hframes _ hnew with hcall | hold
      · exact hcall.elim
      · exact hmono _ (hW.exited _ hold)
    | index htop hth _ | queue htop hth _ =>
      subst hth
      obtain ⟨rfl, _⟩ := hW.workerOf_loop htop
      cases List.mem_singleton.mp hnew
    | exit _ _ _ hfin => rw [hfin, Function.update_self]
  · exact hmono u (hW.exited u hmem)

theorem WellUsed.quit_step (hW : WellUsed home c) (h : PoolStep home t (c.pc t) c.sh l th' s')
    {i : ℕ} (hu : home u = some (p, i))
    (hmem : .exited ∈
      ((⟨Function.update c.pc t th', s'⟩ : Config Tid _ (Shared Tid P)).pc u).frames) :
    s'.Stopping p := by
  apply h.poolTurns.stopping
  rcases mem_frames_update hmem with ⟨rfl, hnew⟩ | hmem
  · cases h.equips with
    | same _ _ hframes _ =>
      rcases hframes _ hnew with hcall | hold
      · exact hcall.elim
      · exact hW.quit _ p i hu hold
    | index htop hth _ | queue htop hth _ =>
      subst hth
      obtain ⟨rfl, _⟩ := hW.workerOf_loop htop
      cases List.mem_singleton.mp hnew
    | exit htop _ hstop _ =>
      cases (hW.workerOf_loop htop).2.symm.trans hu
      exact hstop
  · exact hW.quit u p i hu hmem

/-- Every step that meets the condition keeps the invariant. -/
theorem WellUsed.step (hW : WellUsed home c) (hG : Proper home c (t, l))
    (h : PoolStep home t (c.pc t) c.sh l th' s') :
    WellUsed home ⟨Function.update c.pc t th', s'⟩ where
  lifetimes := hW.lifetimes.step h
  own u q i hown := by
    by_cases hut : u = t
    · subst hut
      simp only [Function.update_self] at hown ⊢
      exact hW.own_step h hown
    · simp only [Function.update_of_ne hut] at hown ⊢
      exact hW.own u q i hown
  index u p i stage hmem hstage := by
    by_cases hut : u = t
    · subst hut
      simp only [Function.update_self] at hmem ⊢
      exact hW.index_step h hmem hstage
    · simp only [Function.update_of_ne hut] at hmem ⊢
      exact hW.index u p i stage hmem hstage
  loop u p i hmem := by
    by_cases hut : u = t
    · subst hut
      simp only [Function.update_self] at hmem ⊢
      exact hW.loop_step h hmem
    · simp only [Function.update_of_ne hut] at hmem ⊢
      exact hW.loop u p i hmem
  uses u f hmem huse := by
    by_cases hut : u = t
    · subst hut
      simp only [Function.update_self] at hmem ⊢
      exact hW.uses_step h hmem huse
    · simp only [Function.update_of_ne hut] at hmem ⊢
      exact hW.uses u f hmem huse
  exited u hmem := hW.exited_step h hmem
  alive u p f hf hon := hW.alive_step h hf hon
  destroys u p stage hmem := hW.destroys_step hG h hmem
  rounds u p stage i n hmem hi hn := hW.rounds_step h hmem hi hn
  locks p i u hown := hW.locks_step h hown
  quit u p i hu hmem := hW.quit_step h hu hmem
  staffed p n hn := hW.staffed_step hG h hn
  gone p hd := h.gone hW.gone hd

end Steps

end UbuntuProjects.ThreadPool
