import UbuntuProjects.Model.ThreadPoolConstruction
import UbuntuProjects.Analysis.ThreadPoolTake
import UbuntuProjects.Analysis.ThreadPoolCustody

/-!
# `basic_thread_pool`: a constructor that fails

Nothing in the unwinding of the constructor sets `m_stopped`. A worker that was created
finds no task in any queue and goes on looking for one (`Busy`), so its thread never ends
and the destructor of `m_threads` waits for it for ever. Only if not even the first worker
could be created there is nothing to wait for.
-/

set_option autoImplicit false

namespace UbuntuProjects.ThreadPool

open Concurrency (Config Run Step anyStep)

/-! ## What the workers do meanwhile -/

/-- A pool without tasks that was not told to stop. -/
structure Barren (s : Shared (Option ℕ) Unit) (D : Pool (Option ℕ)) : Prop where
  alive : s.pools () = some D
  running : D.mStopped = false
  queue : D.mQueue = []
  inner : ∀ iq ∈ D.mInnerQueues, iq.mQueue = []

/-- A stage of `try_work` at which nothing was taken. -/
def WorkStage.Vain : WorkStage → Prop
  | .unlockOwn task | .unlockSteal _ task => task = none
  | .call _ | .calling _ => False
  | _ => True

/-- The stack of a worker that has found no task so far. -/
inductive Searching (i : ℕ) : List (Frame Unit) → Prop
  | outside (stage : WorkerStage) : Searching i [.worker () i stage]
  | tryWork {stage : WorkStage} : stage.Vain →
      Searching i [.tryWork () stage, .worker () i .loop]

section Steps

variable {s s' : Shared (Option ℕ) Unit} {D : Pool (Option ℕ)} {t : Option ℕ}
  {own : Option (Unit × ℕ)} {index : ℤ} {stage : WorkStage} {next : Option WorkStage}
  {iq : InnerQueue (Option ℕ)} {i j : ℕ}

/-- INTERNAL: locking or unlocking an inner queue. -/
theorem Barren.setInner (h : Barren s D) (hiq : iq.mQueue = []) :
    Barren (s.setPool () (D.setInner j iq)) (D.setInner j iq) where
  alive := pools_setPool
  running := h.running
  queue := h.queue
  inner iq' hmem := by
    rcases List.mem_or_eq_of_mem_set hmem with hmem | rfl
    · exact h.inner iq' hmem
    · exact hiq

/-- INTERNAL: an inner queue that is looked into is empty. -/
theorem Barren.at (h : Barren s D) {D' : Pool (Option ℕ)} (hD' : s.pools () = some D')
    (hi : D'.mInnerQueues[i]? = some iq) : D' = D ∧ iq.mQueue = [] := by
  obtain rfl : D' = D := Option.some.inj (hD'.symm.trans h.alive)
  exact ⟨rfl, h.inner iq (List.mem_of_getElem? hi)⟩

/-- INTERNAL: a step of `try_work` finds nothing. -/
theorem Barren.workStep (h : Barren s D) (hvain : stage.Vain)
    (hs : WorkStep t own index () stage s next s') :
    (∃ D', Barren s' D') ∧ s'.finished = s.finished ∧ ∀ st, next = some st → st.Vain := by
  cases hs with
  | startOwn | startGlobal | popGlobalEmpty | steal =>
    exact ⟨⟨D, h⟩, rfl, fun st hst => Option.some.inj hst ▸ trivial⟩
  | popOwnEmpty | popStealEmpty =>
    exact ⟨⟨D, h⟩, rfl, fun st hst => Option.some.inj hst ▸ rfl⟩
  | stealEnd => exact ⟨⟨D, h⟩, rfl, fun st hst => absurd hst (by simp)⟩
  | lockOwn hown hp hi | lockSteal hp hidx hi =>
    obtain ⟨rfl, hiq⟩ := h.at hp hi
    exact ⟨⟨_, h.setInner hiq⟩, rfl, fun st hst => Option.some.inj hst ▸ trivial⟩
  | unlockOwn hown hp hi | unlockSteal hp hidx hi =>
    obtain ⟨rfl, hiq⟩ := h.at hp hi
    obtain rfl := hvain
    exact ⟨⟨_, h.setInner hiq⟩, rfl, fun st hst => Option.some.inj hst ▸ trivial⟩
  | popOwn hown hp hi hx =>
    obtain ⟨-, hiq⟩ := h.at hp hi
    rw [hiq] at hx
    cases hx
  | popSteal hp hidx hi hx =>
    obtain ⟨-, hiq⟩ := h.at hp hi
    rw [hiq] at hx
    simp at hx
  | popGlobal hp hx =>
    obtain rfl := Option.some.inj (hp.symm.trans h.alive)
    rw [h.queue] at hx
    cases hx
  | calling => exact hvain.elim

/-- INTERNAL: a worker goes on searching. -/
theorem Barren.poolStep (h : Barren s D) {th th' : Thread Unit} {l : Lab Unit}
    (hth : Searching i th.frames) (hs : PoolStep workerHome t th s l th' s') :
    (∃ D', Barren s' D') ∧ s'.finished = s.finished ∧ Searching i th'.frames := by
  cases hs with
  | client hc => cases hth <;> exact hc.runs.elim
  | tryWork hw =>
    cases hth with
    | tryWork hvain =>
      obtain ⟨hbarren, hfin, hnext⟩ := h.workStep hvain hw
      refine ⟨hbarren, hfin, ?_⟩
      rename_i next
      cases next with
      | none => exact .outside .loop
      | some st => exact .tryWork (hnext st rfl)
  | call =>
    cases hth with
    | tryWork hvain => exact hvain.elim
  | assignTask | destroy => cases hth
  | initIndex =>
    cases hth with
    | outside => exact ⟨⟨D, h⟩, rfl, .outside _⟩
  | initQueue =>
    cases hth with
    | outside => exact ⟨⟨D, h⟩, rfl, .outside _⟩
  | work =>
    cases hth with
    | outside => exact ⟨⟨D, h⟩, rfl, .tryWork trivial⟩
  | exit hp hstop =>
    obtain rfl := Option.some.inj (hp.symm.trans h.alive)
    rw [h.running] at hstop
    cases hstop

end Steps

/-! ## The constructor that waits -/

/-- What holds until the end of time when worker `k` could not be created and others
could. -/
structure Hanging (k : ℕ) (c : Config (Option ℕ) BuildPc Building) : Prop where
  builder : (∃ i ≤ k, c.pc none = .builder (.loop i)) ∨
    c.pc none = .builder (.unwinding (List.range k))
  barren : ∃ D, Barren c.sh.pool D
  unfinished : ∀ t, c.sh.pool.finished t = false
  workers : ∀ i, ∃ th, c.pc (some i) = .worker th ∧ Searching i th.frames

section Runs

variable {threadCount k : ℕ} {c c' : Config (Option ℕ) BuildPc Building}
  {tr : List (Option ℕ × Lab Unit)}

/-- INTERNAL: the members before the loop of the constructor. -/
theorem barren_buildStart (n : ℕ) :
    Barren (buildStart n).sh.pool ⟨[], false, List.replicate n ⟨none, []⟩⟩ where
  alive := rfl
  running := rfl
  queue := rfl
  inner iq hmem := by
    rw [List.eq_of_mem_replicate hmem]

/-- INTERNAL: a step of the constructor itself. -/
theorem Hanging.of_builder (h : Hanging k c) {b : Build} {started : ℕ}
    (hb : (∃ i ≤ k, b = .loop i) ∨ b = .unwinding (List.range k)) :
    Hanging k ⟨Function.update c.pc none (.builder b), { c.sh with started := started }⟩ where
  builder := by
    simp only [Function.update_self, BuildPc.builder.injEq]
    exact hb
  barren := h.barren
  unfinished := h.unfinished
  workers i := by
    obtain ⟨th, hth, hsearch⟩ := h.workers i
    exact ⟨th, by simpa using hth, hsearch⟩

/-- INTERNAL: a step of a worker. -/
theorem Hanging.worker (h : Hanging k c) {i : ℕ} {th th' : Thread Unit} {l : Lab Unit}
    {pool' : Shared (Option ℕ) Unit} (hth : c.pc (some i) = .worker th)
    (hs : PoolStep workerHome (some i) th c.sh.pool l th' pool') :
    Hanging k ⟨Function.update c.pc (some i) (.worker th'), { c.sh with pool := pool' }⟩ := by
  obtain ⟨D, hD⟩ := h.barren
  obtain ⟨th₀, hth₀, hsearch⟩ := h.workers i
  obtain rfl : th = th₀ := BuildPc.worker.inj (hth.symm.trans hth₀)
  obtain ⟨hbarren, hfin, hsearch'⟩ := hD.poolStep hsearch hs
  refine ⟨?_, hbarren, fun t => ?_, fun j => ?_⟩
  · simpa using h.builder
  · show pool'.finished t = false
    rw [hfin]
    exact h.unfinished t
  · by_cases hj : j = i
    · subst hj
      exact ⟨th', Function.update_self .., hsearch'⟩
    · obtain ⟨th₁, hth₁, hsearch₁⟩ := h.workers j
      exact ⟨th₁, (Function.update_of_ne (by simpa using hj) ..).trans hth₁, hsearch₁⟩

/-- INTERNAL: no step ends the waiting. -/
theorem Hanging.step (hpos : 0 < k) (hk : k < threadCount) (h : Hanging k c)
    {e : Option ℕ × Lab Unit} (hs : Step (ConstructionStep threadCount k) c e c') :
    Hanging k c' := by
  obtain ⟨hP⟩ := hs
  rename_i t l p' s'
  have hbuilder := h.builder
  generalize hp : c.pc t = p at hP
  cases hP with
  | @create _ i hi hne =>
    refine h.of_builder (.inl ⟨i + 1, ?_, rfl⟩)
    rw [hp] at hbuilder
    rcases hbuilder with ⟨j, hj, heq⟩ | heq
    · cases heq
      omega
    · cases heq
  | fail _ => exact h.of_builder (.inr rfl)
  | @constructed _ i hi =>
    rw [hp] at hbuilder
    rcases hbuilder with ⟨j, hj, heq⟩ | heq
    · cases heq
      omega
    · cases heq
  | @join _ left i _ hfin =>
    -- the worker has not returned
    rw [h.unfinished] at hfin
    cases hfin
  | joined =>
    rw [hp] at hbuilder
    rcases hbuilder with ⟨j, -, heq⟩ | heq
    · cases heq
    · -- there is a worker to be joined
      have hlen : (List.range k).length = 0 := by
        rw [← Build.unwinding.inj (BuildPc.builder.inj heq)]
        rfl
      rw [List.length_range] at hlen
      omega
  | queues _ =>
    rw [hp] at hbuilder
    rcases hbuilder with ⟨j, -, heq⟩ | heq <;> cases heq
  | worker _ hw => exact h.worker hp hw

/-- The constructor waits for ever. -/
theorem hanging_run (hpos : 0 < k) (hk : k < threadCount)
    (h : Run (ConstructionStep threadCount k) anyStep (buildStart threadCount) tr c) :
    Hanging k c := by
  apply h.invariant (Hanging k)
  · exact ⟨.inl ⟨0, Nat.zero_le k, rfl⟩, ⟨_, barren_buildStart threadCount⟩, fun _ => rfl,
      fun i => ⟨_, rfl, .outside .initIndex⟩⟩
  · intro c e c' hc _ hs
    exact hc.step hpos hk hs

/-- INTERNAL: the first `i` workers have been created and have not run yet. -/
theorem created_run {i : ℕ} (hi : i ≤ k) (hk : k < threadCount) : ∃ tr c,
    Run (ConstructionStep threadCount k) anyStep (buildStart threadCount) tr c ∧
      c.pc none = .builder (.loop i) ∧ c.sh.pool = (buildStart threadCount).sh.pool := by
  induction i with
  | zero => exact ⟨[], _, .nil, rfl, rfl⟩
  | succ i ih =>
    obtain ⟨tr, c, hrun, hpc, hpool⟩ := ih (by omega)
    have hstep : ConstructionStep threadCount k none (c.pc none) c.sh .step
        (.builder (.loop (i + 1))) { c.sh with started := i + 1 } := by
      rw [hpc]
      exact .create (by omega) (by omega)
    exact ⟨_, _, hrun.snoc none trivial hstep, by simp, hpool⟩

/-- INTERNAL: the creation of worker `k` has failed. -/
theorem failed_run (hk : k < threadCount) : ∃ tr c,
    Run (ConstructionStep threadCount k) anyStep (buildStart threadCount) tr c ∧
      c.pc none = .builder (.unwinding (List.range k)) ∧
      c.sh.pool = (buildStart threadCount).sh.pool := by
  obtain ⟨tr, c, hrun, hpc, hpool⟩ := created_run (Nat.le_refl k) hk
  have hstep : ConstructionStep threadCount k none (c.pc none) c.sh .step
      (.builder (.unwinding (List.range k))) c.sh := by
    rw [hpc]
    exact .fail hk
  exact ⟨_, _, hrun.snoc none trivial hstep, by simp, hpool⟩

/-! ## The constructor that ends -/

/-- INTERNAL: the queues can be destroyed. -/
theorem queues_run (hpc : c.pc none = .builder .queues) {D : Pool (Option ℕ)}
    (hD : c.sh.pool.pools () = some D) : ∃ tr c',
    Run (ConstructionStep threadCount k) anyStep c tr c' ∧ c'.pc none = .builder .thrown := by
  induction hqs : D.mInnerQueues using List.reverseRecOn generalizing D c with
  | nil =>
    have hstep : ConstructionStep threadCount k none (.builder .queues) c.sh _ _ _ :=
      .queues (.queue hD hqs)
    rw [← hpc] at hstep
    exact ⟨_, _, Run.nil.snoc none trivial hstep, by simp⟩
  | append_singleton rest iq ih =>
    have hstep : ConstructionStep threadCount k none (.builder .queues) c.sh _ _ _ :=
      .queues (.innerQueue hD hqs)
    rw [← hpc] at hstep
    have hD' : (c.sh.pool.setPool () { D with mInnerQueues := rest }).pools () =
        some { D with mInnerQueues := rest } := pools_setPool
    obtain ⟨tr, c', hrest, hthrown⟩ := ih
      (c := ⟨Function.update c.pc none (.builder .queues),
        ⟨{ c.sh.pool.setPool () { D with mInnerQueues := rest } with
            uncalled := c.sh.pool.uncalled ++ iq.mQueue }, c.sh.started⟩⟩) (by simp) hD' rfl
    exact ⟨_, c', (Run.nil.snoc none trivial hstep).trans hrest, hthrown⟩

/-- Where the constructor is when not even the first worker could be created. -/
structure Unstarted (c : Config (Option ℕ) BuildPc Building) : Prop where
  started : c.sh.started = 0
  stage : c.pc none = .builder (.loop 0) ∨ c.pc none = .builder (.unwinding []) ∨
    c.pc none = .builder .queues ∨ c.pc none = .builder .thrown
  alive : c.pc none ≠ .builder .queues → c.pc none ≠ .builder .thrown →
    ∃ D, c.sh.pool.pools () = some D

/-- INTERNAL: there is nobody to wait for. -/
theorem Unstarted.step (hk : 0 < threadCount) (h : Unstarted c) {e : Option ℕ × Lab Unit}
    (hs : Step (ConstructionStep threadCount 0) c e c') : Unstarted c' := by
  obtain ⟨hP⟩ := hs
  rename_i t l p' s'
  have hstage := h.stage
  have halive := h.alive
  generalize hp : c.pc t = p at hP
  cases hP with
  | @create _ i hi hne =>
    rw [hp] at hstage
    rcases hstage with heq | heq | heq | heq <;> cases heq
    omega
  | fail _ =>
    refine ⟨h.started, .inr (.inl (by simp)), fun _ _ => halive ?_ ?_⟩ <;> simp [hp]
  | @constructed _ i hi =>
    rw [hp] at hstage
    rcases hstage with heq | heq | heq | heq <;> cases heq
    omega
  | @join _ left i hi _ =>
    rw [hp] at hstage
    rcases hstage with heq | heq | heq | heq <;> cases heq
    cases hi
  | joined => exact ⟨h.started, .inr (.inr (.inl (by simp))), fun hne => absurd (by simp) hne⟩
  | @queues _ next pool' _ =>
    cases next with
    | none => exact ⟨h.started, .inr (.inr (.inr (by simp))), fun _ hne => absurd (by simp) hne⟩
    | some st => exact ⟨h.started, .inr (.inr (.inl (by simp))), fun hne => absurd (by simp) hne⟩
  | worker hi _ =>
    rw [h.started] at hi
    omega

/-- INTERNAL: the constructor whose first worker cannot be created. -/
theorem unstarted_run (hk : 0 < threadCount)
    (h : Run (ConstructionStep threadCount 0) anyStep (buildStart threadCount) tr c) :
    Unstarted c := by
  apply h.invariant Unstarted
  · exact ⟨rfl, .inl rfl, fun _ _ => ⟨_, rfl⟩⟩
  · intro c e c' hc _ hs
    exact hc.step hk hs

end Runs

/-! ## Every failure -/

/-- The first part of the property: `m_stopped` is true whenever the destructor of
`m_threads` is about to join a worker. -/
def StopsBeforeJoin (threadCount k : ℕ) : Prop :=
  ∀ tr c, Run (ConstructionStep threadCount k) anyStep (buildStart threadCount) tr c →
    ∀ left i, c.pc none = .builder (.unwinding left) → i ∈ left →
      ∃ D, c.sh.pool.pools () = some D ∧ D.mStopped = true

/-- The second part: from wherever the unwinding has got to, it can be finished. -/
def UnwindingEnds (threadCount k : ℕ) : Prop :=
  ∀ tr c, Run (ConstructionStep threadCount k) anyStep (buildStart threadCount) tr c →
    ∀ left, c.pc none = .builder (.unwinding left) →
      ∃ tr' c', Run (ConstructionStep threadCount k) anyStep c tr' c' ∧
        c'.pc none = .builder .thrown

/-- **A constructor that fails.** If the creation of worker `k` throws, the unwinding finds
`m_stopped` set whenever it is about to join a worker, and it can be finished, exactly if
`k` is 0. -/
theorem failed_construction_iff {threadCount k : ℕ} (hk : k < threadCount) :
    (StopsBeforeJoin threadCount k ↔ k = 0) ∧ (UnwindingEnds threadCount k ↔ k = 0) := by
  obtain ⟨tr, c, hrun, hpc, hpool⟩ := failed_run hk
  refine ⟨⟨fun hstops => ?_, ?_⟩, ⟨fun hends => ?_, ?_⟩⟩
  · by_contra hne
    have hmem : 0 ∈ List.range k := List.mem_range.mpr (by omega)
    obtain ⟨D, hD, hstop⟩ := hstops tr c hrun _ 0 hpc hmem
    rw [hpool] at hD
    obtain rfl := Option.some.inj hD
    cases hstop
  · rintro rfl tr c hrun left i hpc hi
    have hstage := (unstarted_run hk hrun).stage
    rw [hpc] at hstage
    rcases hstage with heq | heq | heq | heq <;> cases heq
    cases hi
  · by_contra hne
    obtain ⟨tr', c', hrun', hthrown⟩ := hends tr c hrun _ hpc
    have hbuilder := (hanging_run (by omega) hk (hrun.trans hrun')).builder
    rw [hthrown] at hbuilder
    rcases hbuilder with ⟨i, -, heq⟩ | heq <;> cases heq
  · rintro rfl tr c hrun left hpc
    have hun := unstarted_run hk hrun
    obtain ⟨D, hD⟩ := hun.alive (by simp [hpc]) (by simp [hpc])
    have hstage := hun.stage
    rw [hpc] at hstage
    rcases hstage with heq | heq | heq | heq <;> cases heq
    have hstep : ConstructionStep threadCount 0 none (c.pc none) c.sh .step
        (.builder .queues) c.sh := by
      rw [hpc]
      exact .joined
    have hrest : ∃ tr' c', Run (ConstructionStep threadCount 0) anyStep
        ⟨Function.update c.pc none (.builder .queues), c.sh⟩ tr' c' ∧
          c'.pc none = .builder .thrown := queues_run (by simp) hD
    obtain ⟨tr', c', hrest, hthrown⟩ := hrest
    exact ⟨_, c', (Run.nil.snoc none trivial hstep).trans hrest, hthrown⟩

/-- Two workers are wanted, and the second one cannot be created. -/
theorem failed_construction_iff_two : 1 < 2 ∧ ¬StopsBeforeJoin 2 1 ∧ ¬UnwindingEnds 2 1 := by
  have h : (StopsBeforeJoin 2 1 ↔ 1 = 0) ∧ (UnwindingEnds 2 1 ↔ 1 = 0) :=
    failed_construction_iff (by decide)
  refine ⟨by decide, fun hs => ?_, fun hu => ?_⟩
  · exact absurd (h.1.mp hs) (by decide)
  · exact absurd (h.2.mp hu) (by decide)

/-- The first of two workers has been created and the second has not, and the first is about
to be joined while `m_stopped` is false. -/
theorem failed_construction_joins : ¬StopsBeforeJoin 2 1 := by
  have h₁ := (Run.nil : Run (ConstructionStep 2 1) anyStep (buildStart 2) [] _).snoc
    none trivial (.create (i := 0) (by decide) (by decide))
  have h₂ := h₁.snoc none trivial (.fail (by decide))
  intro hstops
  obtain ⟨D, hD, hstop⟩ := hstops _ _ h₂ [0] 0 rfl (List.mem_singleton_self 0)
  obtain rfl := Option.some.inj hD
  cases hstop

end UbuntuProjects.ThreadPool
