import UbuntuProjects.Analysis.ThreadPoolCustody

/-!
# Workers, joins and destructors

A worker does nothing before its pool has started it and nothing after its function has
returned; in between its pool is alive (`Lifetimes.working`). A destructor gets past the
joins only when no worker of its pool is in between any more, so no wrapper is in the hands or
in the `current_task` of a worker whose pool is gone. Wrappers are destroyed uncalled only by
destructors, which stop their pool first. So each wrapper is called or destroyed once
(`wrappers_once`).
-/

set_option autoImplicit false

namespace UbuntuProjects.ThreadPool

open Concurrency

/-! ## Stacks of frames -/

section Frames

variable {P : Type}

/-- A call in progress above the base frame of a thread. -/
def Frame.isCall : Frame P → Prop
  | .task => True
  | .tryWork _ _ => True
  | .assignTask _ _ _ => True
  | .destroy _ _ => True
  | _ => False

/-- The shapes of a stack, by the home of its thread: calls in progress over the code of the
client or over the loop of the worker. -/
inductive Stacked : Option (P × ℕ) → List (Frame P) → Prop
  | outside (calls : List (Frame P)) : (∀ f ∈ calls, f.isCall) →
      Stacked none (calls ++ [.client])
  | unstarted {p : P} {i : ℕ} : Stacked (some (p, i)) [.worker p i .initIndex]
  | working {p : P} {i : ℕ} {stage : WorkerStage} (calls : List (Frame P)) :
      stage ≠ .initIndex → (∀ f ∈ calls, f.isCall) →
      Stacked (some (p, i)) (calls ++ [.worker p i stage])
  | exited {p : P} {i : ℕ} : Stacked (some (p, i)) [.exited]

/-- The worker has been started and has not returned. -/
def Thread.Working (th : Thread P) (p : P) (i : ℕ) : Prop :=
  th.frames ≠ [.worker p i .initIndex] ∧ th.frames ≠ [.exited]

end Frames

section Steps

variable {Tid P : Type}

/-- The number of inner queues of a pool that is alive. -/
def Shared.workers (s : Shared Tid P) (p : P) : Option ℕ :=
  (s.pools p).map fun D => D.mInnerQueues.length

/-- The pool has been stopped, perhaps by its destructor. -/
def Shared.Stopping (s : Shared Tid P) (p : P) : Prop :=
  s.destroyed p = true ∨ ∃ D, s.pools p = some D ∧ D.mStopped = true

/-- What a step may do to the frame it is a step of. -/
inductive Turns [DecidableEq Tid] (t : Tid) :
    Frame P → Shared Tid P → List (Frame P) → Shared Tid P → Prop
  | call {f : Frame P} {fs : List (Frame P)} {s s' : Shared Tid P} : f.isCall →
      (∀ g ∈ fs, g.isCall) → s'.finished = s.finished → Turns t f s fs s'
  | client {fs : List (Frame P)} {s s' : Shared Tid P} : (∀ g ∈ fs, g.isCall) →
      s'.finished = s.finished → Turns t .client s (fs ++ [.client]) s'
  | begin {p : P} {i n : ℕ} {s : Shared Tid P} : s.workers p = some n → i < n →
      Turns t (.worker p i .initIndex) s [.worker p i .initQueue] s
  | loop {p : P} {i : ℕ} {stage : WorkerStage} {s : Shared Tid P} (fs : List (Frame P)) :
      stage ≠ .initIndex → (∀ g ∈ fs, g.isCall) →
      Turns t (.worker p i stage) s (fs ++ [.worker p i .loop]) s
  | exit {p : P} {i : ℕ} {s : Shared Tid P} :
      Turns t (.worker p i .loop) s [.exited]
        { s with finished := Function.update s.finished t true }

variable {home : Tid → Option (P × ℕ)} {t : Tid} {own : Option (P × ℕ)}
  {index : ℤ} {p q : P} {s s' : Shared Tid P}

theorem Turns.of_runs [DecidableEq Tid] {f : Frame P} (fs : List (Frame P)) (hf : f.runs)
    (hfs : ∀ g ∈ fs, g.isCall) (hfin : s'.finished = s.finished) :
    Turns t f s (fs ++ [f]) s' := by
  cases f with
  | client => exact .client hfs hfin
  | task =>
    refine .call trivial ?_ hfin
    intro g hg
    rcases List.mem_append.mp hg with hg | hg
    · exact hfs g hg
    · rw [List.mem_singleton.mp hg]
      trivial
  | _ => cases hf

variable [DecidableEq P]

theorem ClientStep.turns [DecidableEq Tid] {f : Frame P} {l : Lab P} {fs : List (Frame P)}
    (h : ClientStep f s l fs s') : Turns t f s fs s' := by
  cases h with
  | construct hf _ _ _ => exact .of_runs [] hf (by simp) rfl
  | @assignTask _ _ p _ hf _ =>
    exact .of_runs [.assignTask p s.given.length .start] hf (by simp [Frame.isCall]) rfl
  | @tryWork _ _ p _ hf _ =>
    exact .of_runs [.tryWork p .start] hf (by simp [Frame.isCall]) rfl
  | stop hf _ => exact .of_runs [] hf (by simp) rfl
  | @destroy _ _ p _ hf _ =>
    exact .of_runs [.destroy p .stop] hf (by simp [Frame.isCall]) rfl
  | taskDone => exact .call trivial (by simp) rfl

theorem AssignStep.finished_eq {x : ℕ} {stage : AssignStage} {next : Option AssignStage}
    (h : AssignStep t own p x stage s next s') : s'.finished = s.finished := by
  cases h <;> rfl

theorem WorkStep.finished_eq {stage : WorkStage} {next : Option WorkStage}
    (h : WorkStep t own index p stage s next s') : s'.finished = s.finished := by
  cases h <;> rfl

theorem DestroyStep.finished_eq {stage : DestroyStage} {next : Option DestroyStage}
    (h : DestroyStep home p stage s next s') : s'.finished = s.finished := by
  cases h <;> rfl

theorem PoolStep.turns [DecidableEq Tid] {th th' : Thread P} {l : Lab P}
    (h : PoolStep home t th s l th' s') :
    ∃ f rest fs, th.frames = f :: rest ∧ th'.frames = fs ++ rest ∧ Turns t f s fs s' := by
  cases h with
  | client h => exact ⟨_, _, _, rfl, rfl, h.turns⟩
  | @assignTask _ _ p x _ next rest _ _ h =>
    refine ⟨_, _, _, rfl, rfl, .call trivial ?_ h.finished_eq⟩
    cases next <;> simp [Frame.isCall]
  | @tryWork _ _ _ _ next _ _ _ h =>
    refine ⟨_, _, _, rfl, rfl, .call trivial ?_ h.finished_eq⟩
    cases next <;> simp [Frame.isCall]
  | @call _ _ p x rest =>
    exact ⟨_, _, [.task, .tryWork p (.calling x)], rfl, rfl,
      .call trivial (by simp [Frame.isCall]) rfl⟩
  | @destroy _ _ _ _ next _ _ _ h =>
    refine ⟨_, _, _, rfl, rfl, .call trivial ?_ h.finished_eq⟩
    cases next <;> simp [Frame.isCall]
  | initIndex hp hi =>
    exact ⟨_, _, _, rfl, rfl, .begin (by simp [Shared.workers, hp]) hi⟩
  | @initQueue _ _ p i =>
    exact ⟨_, _, [.worker p i .loop], rfl, rfl, .loop [] (by simp) (by simp)⟩
  | @work _ _ p i =>
    exact ⟨_, _, [.tryWork p .start, .worker p i .loop], rfl, rfl,
      .loop [.tryWork p .start] (by simp) (by simp [Frame.isCall])⟩
  | @exit _ _ p i => exact ⟨_, _, [.exited], rfl, rfl, .exit⟩

end Steps

section Stacks

variable {P : Type} {h : Option (P × ℕ)} {f b : Frame P} {fs rest calls : List (Frame P)}

/-- The top of a stack is a call, or there is nothing below it. -/
theorem top_cases (hc : ∀ g ∈ calls, g.isCall) (heq : f :: rest = calls ++ [b]) :
    (calls = [] ∧ f = b ∧ rest = []) ∨
      (f.isCall ∧ ∃ calls', (∀ g ∈ calls', g.isCall) ∧ rest = calls' ++ [b]) := by
  cases calls with
  | nil =>
    cases heq
    exact .inl ⟨rfl, rfl, rfl⟩
  | cons g calls =>
    cases heq
    exact .inr ⟨hc _ List.mem_cons_self, calls, fun g hg => hc g (List.mem_cons_of_mem _ hg), rfl⟩

theorem calls_append (hfs : ∀ g ∈ fs, g.isCall) (hc : ∀ g ∈ calls, g.isCall) :
    ∀ g ∈ fs ++ calls, g.isCall := by
  intro g hg
  rcases List.mem_append.mp hg with hg | hg
  · exact hfs g hg
  · exact hc g hg

/-- Replacing a call that is on top by other calls. -/
theorem Stacked.replace (hst : Stacked h (f :: rest)) (hf : f.isCall)
    (hfs : ∀ g ∈ fs, g.isCall) : Stacked h (fs ++ rest) := by
  generalize hall : f :: rest = all at hst
  cases hst with
  | outside calls hc =>
    rcases top_cases hc hall with ⟨_, rfl, _⟩ | ⟨_, calls', hc', rfl⟩
    · cases hf
    · rw [← List.append_assoc]
      exact .outside _ (calls_append hfs hc')
  | unstarted =>
    cases hall
    cases hf
  | working calls hstage hc =>
    rcases top_cases hc hall with ⟨_, rfl, _⟩ | ⟨_, calls', hc', rfl⟩
    · cases hf
    · rw [← List.append_assoc]
      exact .working _ hstage (calls_append hfs hc')
  | exited =>
    cases hall
    cases hf

/-- Below what is not a call there is nothing, and it is the base that belongs to the home. -/
theorem Stacked.base (hst : Stacked h (f :: rest)) (hf : ¬ f.isCall) :
    rest = [] ∧ (f = .client → h = none) ∧
      ∀ p i stage, f = .worker p i stage → h = some (p, i) := by
  generalize hall : f :: rest = all at hst
  cases hst with
  | outside calls hc =>
    rcases top_cases hc hall with ⟨_, rfl, rfl⟩ | ⟨hcall, _⟩
    · exact ⟨rfl, fun _ => rfl, by rintro p i stage ⟨⟩⟩
    · exact absurd hcall hf
  | unstarted =>
    cases hall
    exact ⟨rfl, by rintro ⟨⟩, by rintro p i stage ⟨⟩; rfl⟩
  | working calls _ hc =>
    rcases top_cases hc hall with ⟨_, rfl, rfl⟩ | ⟨hcall, _⟩
    · exact ⟨rfl, by rintro ⟨⟩, by rintro p i stage ⟨⟩; rfl⟩
    · exact absurd hcall hf
  | exited =>
    cases hall
    exact ⟨rfl, by rintro ⟨⟩, by rintro p i stage ⟨⟩⟩

end Stacks

section Shapes

variable {Tid P : Type} [DecidableEq Tid] {t : Tid} {s s' : Shared Tid P}

/-- A step keeps the shape of the stack. -/
theorem Turns.stacked {h : Option (P × ℕ)} {f : Frame P} {fs rest : List (Frame P)}
    (hturn : Turns t f s fs s') (hst : Stacked h (f :: rest)) : Stacked h (fs ++ rest) := by
  cases hturn with
  | call hf hfs _ => exact hst.replace hf hfs
  | client hfs _ =>
    obtain ⟨rfl, hnone, _⟩ := hst.base (by simp [Frame.isCall])
    obtain rfl := hnone rfl
    rw [List.append_nil]
    exact .outside _ hfs
  | begin _ _ =>
    obtain ⟨rfl, _, hhome⟩ := hst.base (by simp [Frame.isCall])
    obtain rfl := hhome _ _ _ rfl
    exact .working [] (by simp) (by simp)
  | loop _ _ hfs =>
    obtain ⟨rfl, _, hhome⟩ := hst.base (by simp [Frame.isCall])
    obtain rfl := hhome _ _ _ rfl
    rw [List.append_nil]
    exact .working _ (by simp) hfs
  | exit =>
    obtain ⟨rfl, _, hhome⟩ := hst.base (by simp [Frame.isCall])
    obtain rfl := hhome _ _ _ rfl
    exact .exited

end Shapes

/-! ## The pools during a step -/

section Pools

variable {Tid P : Type} {home : Tid → Option (P × ℕ)} {t : Tid} {own : Option (P × ℕ)}
  {index : ℤ} {p q : P} {s s' : Shared Tid P} {D : Pool Tid} {frames : List (Frame P)}

/-- What may happen to the pool `q` in a step of a thread with these frames. -/
inductive PoolTurns (q : P) (frames : List (Frame P)) (s s' : Shared Tid P) : Prop
  | keeps : s'.workers q = s.workers q → (s.Stopping q → s'.Stopping q) →
      PoolTurns q frames s s'
  | made : s.workers q = none → ¬ s.Stopping q → PoolTurns q frames s s'
  | unmade : .destroy q .queues ∈ frames →
      (∀ n', s'.workers q = some n' → ∃ n, s.workers q = some n ∧ n' ≤ n) →
      (s.Stopping q → s'.Stopping q) → PoolTurns q frames s s'

/-- The stops stay. -/
theorem PoolTurns.stopping (h : PoolTurns q frames s s') (hstop : s.Stopping q) : s'.Stopping q := by
  cases h with
  | keeps _ hmono => exact hmono hstop
  | made _ hnot => exact absurd hstop hnot
  | unmade _ _ hmono => exact hmono hstop

theorem workers_eq (hp : s.pools p = some D) : s.workers p = some D.mInnerQueues.length := by
  simp [Shared.workers, hp]

theorem poolTurns_same (hp : s'.pools q = s.pools q) (hd : s'.destroyed q = s.destroyed q) :
    PoolTurns q frames s s' := by
  refine .keeps ?_ ?_
  · simp only [Shared.workers, hp]
  · rintro (hdq | ⟨D, hD, hst⟩)
    · exact .inl (by rw [hd, hdq])
    · exact .inr ⟨D, by rw [hp, hD], hst⟩

theorem poolTurns_refl : PoolTurns q frames s s :=
  poolTurns_same rfl rfl

variable [DecidableEq P]

theorem setPool_pools_other {D' : Pool Tid} (hq : q ≠ p) :
    (s.setPool p D').pools q = s.pools q := by
  simp [Shared.setPool, Function.update_of_ne hq]

/-- Writing a pool does not take its stop back. -/
theorem stopping_setPool {D' : Pool Tid} (hp : s.pools p = some D)
    (hstop : D.mStopped = true → D'.mStopped = true) (h : s.Stopping p) :
    (s.setPool p D').Stopping p := by
  rcases h with hd | ⟨D₀, hD₀, hst⟩
  · exact .inl hd
  · obtain rfl := Option.some.inj (hp.symm.trans hD₀)
    exact .inr ⟨D', by simp [Shared.setPool], hstop hst⟩

/-- Writing a pool without changing the number of its inner queues. -/
theorem poolTurns_setPool {D' : Pool Tid} (hp : s.pools p = some D)
    (hlen : D'.mInnerQueues.length = D.mInnerQueues.length)
    (hstop : D.mStopped = true → D'.mStopped = true) :
    PoolTurns q frames s (s.setPool p D') := by
  by_cases hq : q = p
  · subst hq
    exact .keeps (by simp [Shared.workers, Shared.setPool, hp, hlen]) (stopping_setPool hp hstop)
  · exact poolTurns_same (setPool_pools_other hq) rfl

theorem poolTurns_setInner {i : ℕ} {iq : InnerQueue Tid} (hp : s.pools p = some D) :
    PoolTurns q frames s (s.setPool p (D.setInner i iq)) :=
  poolTurns_setPool hp (by simp [Pool.setInner]) fun h => h

theorem ClientStep.poolTurns {f : Frame P} {l : Lab P} {fs : List (Frame P)}
    (h : ClientStep f s l fs s') : PoolTurns q frames s s' := by
  cases h with
  | @construct _ _ p n hf hp hd _ =>
    by_cases hq : q = p
    · subst hq
      refine .made (by simp [Shared.workers, hp]) ?_
      rintro (hd' | ⟨D, hD, _⟩)
      · rw [hd] at hd'
        cases hd'
      · rw [hp] at hD
        cases hD
    · exact poolTurns_same (setPool_pools_other hq) rfl
  | assignTask _ _ => exact poolTurns_same rfl rfl
  | tryWork _ _ => exact poolTurns_refl
  | stop _ hp => exact poolTurns_setPool hp rfl fun _ => rfl
  | destroy _ _ => exact poolTurns_refl
  | taskDone => exact poolTurns_refl

theorem AssignStep.poolTurns {x : ℕ} {stage : AssignStage} {next : Option AssignStage}
    (h : AssignStep t own p x stage s next s') :
    PoolTurns q frames s s' := by
  cases h with
  | startOwn _ => exact poolTurns_refl
  | startGlobal _ => exact poolTurns_refl
  | lockOwn _ hq _ _ => exact poolTurns_setInner hq
  | push _ hq _ => exact poolTurns_setInner hq
  | unlockOwn _ hq _ => exact poolTurns_setInner hq
  | pushGlobal hp => exact poolTurns_setPool hp rfl fun h => h

theorem WorkStep.poolTurns {stage : WorkStage} {next : Option WorkStage}
    (h : WorkStep t own index p stage s next s') :
    PoolTurns q frames s s' := by
  cases h with
  | lockOwn _ hq _ _ => exact poolTurns_setInner hq
  | popOwn _ hq _ _ => exact poolTurns_setInner hq
  | unlockOwn _ hq _ => exact poolTurns_setInner hq
  | popGlobal hp _ => exact poolTurns_setPool hp rfl fun h => h
  | lockSteal hp _ _ _ => exact poolTurns_setInner hp
  | popSteal hp _ _ _ => exact poolTurns_setInner hp
  | unlockSteal hp _ _ => exact poolTurns_setInner hp
  | _ => exact poolTurns_refl

theorem DestroyStep.poolTurns {stage : DestroyStage} {next : Option DestroyStage}
    (hmem : .destroy p stage ∈ frames)
    (h : DestroyStep home p stage s next s') : PoolTurns q frames s s' := by
  cases h with
  | stop hp => exact poolTurns_setPool hp rfl fun _ => rfl
  | joinThreads _ _ => exact poolTurns_refl
  | @innerQueue _ D qs iq hp hqs =>
    by_cases hq : q = p
    · subst hq
      refine .unmade hmem ?_ fun hst => stopping_setPool hp (fun h => h) hst
      intro n' hn'
      have hlen : qs.length = n' := by simpa [Shared.workers, Shared.setPool] using hn'
      refine ⟨_, workers_eq hp, ?_⟩
      rw [hqs, List.length_append]
      omega
    · exact poolTurns_same (setPool_pools_other hq) rfl
  | @queue _ D hp hnil =>
    by_cases hq : q = p
    · subst hq
      refine .unmade hmem ?_ fun _ => .inl (by simp)
      intro n' hn'
      simp [Shared.workers] at hn'
    · exact poolTurns_same (by simp [Function.update_of_ne hq]) (by simp [Function.update_of_ne hq])

theorem PoolStep.poolTurns [DecidableEq Tid] {th th' : Thread P} {l : Lab P}
    (h : PoolStep home t th s l th' s') : PoolTurns q th.frames s s' := by
  cases h with
  | client h => exact h.poolTurns
  | assignTask h => exact h.poolTurns
  | tryWork h => exact h.poolTurns
  | destroy h => exact h.poolTurns List.mem_cons_self
  | _ => exact poolTurns_same rfl rfl

/-- How a destructor gets past its first stage. -/
theorem PoolStep.destroys [DecidableEq Tid] {th th' : Thread P} {l : Lab P}
    {stage : DestroyStage} (h : PoolStep home t th s l th' s')
    (hmem : .destroy q stage ∈ th'.frames) (hstage : stage ≠ .stop) :
    .destroy q stage ∈ th.frames ∨ (stage = .joinThreads ∧ s'.Stopping q) ∨
      (stage = .queues ∧ .destroy q .joinThreads ∈ th.frames ∧
        ∀ u i n, home u = some (q, i) → s.workers q = some n → i < n → s.finished u = true) := by
  cases h.arrives hmem with
  | old hmem => exact .inl hmem
  | destroy => exact absurd rfl hstage
  | destroying hf hstep =>
    cases hstep with
    | @stop _ D hp =>
      exact .inr (.inl ⟨rfl, .inr ⟨{ D with mStopped := true }, by simp [Shared.setPool], rfl⟩⟩)
    | joinThreads hp hjoin =>
      refine .inr (.inr ⟨rfl, hf ▸ List.mem_cons_self, fun u i n hu hn hi => hjoin u i hu ?_⟩)
      rw [workers_eq hp] at hn
      cases hn
      exact hi
    | innerQueue _ _ => exact .inl (hf ▸ List.mem_cons_self)

/-- Only destructors destroy tasks. -/
theorem PoolStep.uncalled_eq [DecidableEq Tid] {th th' : Thread P} {l : Lab P}
    (h : PoolStep home t th s l th' s') :
    s'.uncalled = s.uncalled ∨ ∃ p, .destroy p .queues ∈ th.frames := by
  cases h with
  | client h => cases h <;> exact .inl rfl
  | assignTask h => cases h <;> exact .inl rfl
  | tryWork h => cases h <;> exact .inl rfl
  | destroy h =>
    cases h with
    | stop _ => exact .inl rfl
    | joinThreads _ _ => exact .inl rfl
    | innerQueue _ _ => exact .inr ⟨_, List.mem_cons_self⟩
    | queue _ _ => exact .inr ⟨_, List.mem_cons_self⟩
  | _ => exact .inl rfl

end Pools

/-! ## Lifetimes -/

section Lifetimes

variable {Tid P : Type}

/-- No worker of the pool is between its start and its return, and none will start. -/
def Ended (home : Tid → Option (P × ℕ)) (c : Config Tid (Thread P) (Shared Tid P)) (p : P) :
    Prop :=
  ∀ u i, home u = some (p, i) →
    (c.pc u).frames = [.exited] ∨
      ((c.pc u).frames = [.worker p i .initIndex] ∧ ∀ n, c.sh.workers p = some n → n ≤ i)

/-- What holds of the threads and of the pools they belong to in every configuration. -/
structure Lifetimes (home : Tid → Option (P × ℕ)) (c : Config Tid (Thread P) (Shared Tid P)) :
    Prop where
  stacked : ∀ u, Stacked (home u) (c.pc u).frames
  finished : ∀ u, c.sh.finished u = true → (c.pc u).frames = [.exited]
  working : ∀ u p i, home u = some (p, i) → (c.pc u).Working p i →
    ∃ n, c.sh.workers p = some n ∧ i < n
  stopping : ∀ u p stage, .destroy p stage ∈ (c.pc u).frames → stage ≠ .stop → c.sh.Stopping p
  ended : ∀ u p, .destroy p .queues ∈ (c.pc u).frames → Ended home c p
  uncalled : c.sh.uncalled ≠ [] → ∃ p, c.sh.Stopping p

/-- Once the joins are over no worker of the pool is left. -/
theorem Lifetimes.ended_of_join {home : Tid → Option (P × ℕ)}
    {c : Config Tid (Thread P) (Shared Tid P)} (hL : Lifetimes home c) {p : P}
    (hjoin : ∀ u i n, home u = some (p, i) → c.sh.workers p = some n → i < n →
      c.sh.finished u = true) : Ended home c p := by
  intro u i hu
  by_cases hexited : (c.pc u).frames = [.exited]
  · exact .inl hexited
  by_cases hinit : (c.pc u).frames = [.worker p i .initIndex]
  · refine .inr ⟨hinit, fun n hn => ?_⟩
    by_contra hlt
    exact hexited (hL.finished u (hjoin u i n hu hn (by omega)))
  · obtain ⟨n, hn, hi⟩ := hL.working u p i hu ⟨hinit, hexited⟩
    exact absurd (hL.finished u (hjoin u i n hu hn hi)) hexited

variable {home : Tid → Option (P × ℕ)} {c : Config Tid (Thread P) (Shared Tid P)} {t : Tid}
  {th' : Thread P} {s' : Shared Tid P} {f : Frame P} {fs rest : List (Frame P)}

/-- A worker that is between its start and its return keeps its pool. -/
theorem Lifetimes.workers_step (hL : Lifetimes home c) {u : Tid} {p : P} {i : ℕ}
    (hu : home u = some (p, i)) (hw : (c.pc u).Working p i)
    (hpool : PoolTurns p (c.pc t).frames c.sh s') : ∃ n, s'.workers p = some n ∧ i < n := by
  obtain ⟨n, hn, hi⟩ := hL.working u p i hu hw
  cases hpool with
  | keeps hsame _ => exact ⟨n, by rw [hsame, hn], hi⟩
  | made hnone _ =>
    rw [hn] at hnone
    cases hnone
  | unmade hmem _ _ =>
    rcases hL.ended t p hmem u i hu with hx | ⟨hx, _⟩
    · exact absurd hx hw.2
    · exact absurd hx hw.1

variable [DecidableEq Tid]

theorem frames_update_of_ne {u : Tid} (hu : u ≠ t) :
    ((⟨Function.update c.pc t th', s'⟩ : Config Tid (Thread P) (Shared Tid P)).pc u).frames =
      (c.pc u).frames :=
  congrArg Thread.frames (Function.update_of_ne hu ..)

theorem frames_update_self :
    ((⟨Function.update c.pc t th', s'⟩ : Config Tid (Thread P) (Shared Tid P)).pc t).frames =
      th'.frames :=
  congrArg Thread.frames (Function.update_self ..)

/-- A thread that has returned takes no step. -/
theorem Turns.not_exited {s : Shared Tid P} (h : Turns t .exited s fs s') : False := by
  cases h with
  | call hf _ _ => exact hf

/-- A pool whose workers have ended stays so. -/
theorem Ended.step {p : P} (hE : Ended home c p) (hstop : c.sh.Stopping p)
    (hf : (c.pc t).frames = f :: rest) (hturn : Turns t f c.sh fs s')
    (hpool : PoolTurns p (c.pc t).frames c.sh s') :
    Ended home ⟨Function.update c.pc t th', s'⟩ p := by
  intro u i hu
  have hut : u ≠ t := by
    rintro rfl
    rcases hE u i hu with hx | ⟨hx, hn⟩
    · rw [hx] at hf
      cases hf
      exact hturn.not_exited
    · rw [hx] at hf
      cases hf
      cases hturn with
      | call hcall _ _ => exact hcall
      | begin hw hi => exact Nat.not_lt.mpr (hn _ hw) hi
      | loop _ hne _ => exact hne rfl
  rw [frames_update_of_ne hut]
  refine (hE u i hu).imp_right fun ⟨hx, hn⟩ => ⟨hx, fun n' hn' => ?_⟩
  cases hpool with
  | keeps hw _ => exact hn n' (hw ▸ hn')
  | made _ hnot => exact absurd hstop hnot
  | unmade _ hle _ =>
    obtain ⟨n, hw, hn'n⟩ := hle n' hn'
    exact hn'n.trans (hn n hw)

/-- A worker that is between its start and its return after a step was so before, or the step
has started it. -/
theorem Turns.working {s : Shared Tid P} {p : P} {i : ℕ} (hturn : Turns t f s fs s')
    (hst : Stacked (some (p, i)) (f :: rest)) (hx : fs ++ rest ≠ [.exited]) :
    (f :: rest ≠ [.worker p i .initIndex] ∧ f :: rest ≠ [.exited]) ∨
      (s' = s ∧ ∃ n, s.workers p = some n ∧ i < n) := by
  cases hturn with
  | call hf _ _ =>
    refine .inl ⟨?_, ?_⟩
    · rintro ⟨⟩
      exact hf
    · rintro ⟨⟩
      exact hf
  | client _ _ => exact .inl ⟨by rintro ⟨⟩, by rintro ⟨⟩⟩
  | begin hn hi =>
    obtain ⟨_, _, hhome⟩ := hst.base (by simp [Frame.isCall])
    cases hhome _ _ _ rfl
    exact .inr ⟨rfl, _, hn, hi⟩
  | loop _ hstage _ =>
    refine .inl ⟨?_, by rintro ⟨⟩⟩
    rintro ⟨⟩
    exact hstage rfl
  | exit =>
    obtain ⟨rfl, _, _⟩ := hst.base (by simp [Frame.isCall])
    exact absurd rfl hx

/-- A step that ends a thread leaves it with nothing else to do. -/
theorem Turns.finished {s : Shared Tid P} {h : Option (P × ℕ)} (hturn : Turns t f s fs s')
    (hst : Stacked h (f :: rest)) :
    s'.finished = s.finished ∨
      (fs ++ rest = [.exited] ∧ s'.finished = Function.update s.finished t true) := by
  cases hturn with
  | call _ _ heq => exact .inl heq
  | client _ heq => exact .inl heq
  | begin _ _ => exact .inl rfl
  | loop _ _ _ => exact .inl rfl
  | exit =>
    obtain ⟨rfl, _, _⟩ := hst.base (by simp [Frame.isCall])
    exact .inr ⟨rfl, rfl⟩

variable [DecidableEq P]

/-- Every step keeps the lifetimes. -/
theorem Lifetimes.step {l : Lab P} (hL : Lifetimes home c)
    (h : PoolStep home t (c.pc t) c.sh l th' s') :
    Lifetimes home ⟨Function.update c.pc t th', s'⟩ := by
  obtain ⟨f, rest, fs, hf, hfs, hturn⟩ := h.turns
  have hst : Stacked (home t) (f :: rest) := hf ▸ hL.stacked t
  have hstop : ∀ p, c.sh.Stopping p → s'.Stopping p := fun p => h.poolTurns.stopping
  refine ⟨fun u => ?_, fun u hfin => ?_, fun u p i hu hw => ?_, fun u p stage hmem hstage => ?_,
    fun u p hmem => ?_, fun hne => ?_⟩
  · by_cases hut : u = t
    · subst hut
      rw [frames_update_self, hfs]
      exact hturn.stacked hst
    · rw [frames_update_of_ne hut]
      exact hL.stacked u
  · by_cases hut : u = t
    · subst hut
      rw [frames_update_self, hfs]
      rcases hturn.finished hst with hsame | ⟨hx, _⟩
      · have hx := hL.finished u (by rw [← hsame]; exact hfin)
        rw [hf] at hx
        cases hx
        exact hturn.not_exited.elim
      · exact hx
    · rw [frames_update_of_ne hut]
      refine hL.finished u ?_
      rcases hturn.finished hst with hsame | ⟨_, hupd⟩
      · rw [← hsame]
        exact hfin
      · rw [← Function.update_of_ne hut true c.sh.finished, ← hupd]
        exact hfin
  · by_cases hut : u = t
    · subst hut
      rw [hu] at hst
      rw [Thread.Working, frames_update_self, hfs] at hw
      rcases hturn.working hst hw.2 with hold | ⟨rfl, hn⟩
      · rw [← hf] at hold
        exact hL.workers_step hu hold h.poolTurns
      · exact hn
    · rw [Thread.Working, frames_update_of_ne hut] at hw
      exact hL.workers_step hu hw h.poolTurns
  · by_cases hut : u = t
    · subst hut
      rw [frames_update_self] at hmem
      rcases h.destroys hmem hstage with hold | ⟨_, hnew⟩ | ⟨_, hjoin, _⟩
      · exact hstop p (hL.stopping u p stage hold hstage)
      · exact hnew
      · exact hstop p (hL.stopping u p _ hjoin (by simp))
    · rw [frames_update_of_ne hut] at hmem
      exact hstop p (hL.stopping u p stage hmem hstage)
  · by_cases hut : u = t
    · subst hut
      rw [frames_update_self] at hmem
      rcases h.destroys hmem (by simp) with hold | ⟨heq, _⟩ | ⟨_, hmem', hjoin⟩
      · exact (hL.ended u p hold).step (hL.stopping u p _ hold (by simp)) hf hturn h.poolTurns
      · cases heq
      · exact (hL.ended_of_join hjoin).step (hL.stopping u p _ hmem' (by simp)) hf hturn
          h.poolTurns
    · rw [frames_update_of_ne hut] at hmem
      exact (hL.ended u p hmem).step (hL.stopping u p _ hmem (by simp)) hf hturn h.poolTurns
  · rcases h.uncalled_eq with heq | ⟨p, hmem⟩
    · obtain ⟨p, hp⟩ := hL.uncalled (heq ▸ hne)
      exact ⟨p, hstop p hp⟩
    · exact ⟨p, hstop p (hL.stopping t p _ hmem (by simp))⟩

end Lifetimes

/-! ## Exactly once -/

section Once

variable {Tid P : Type} {home : Tid → Option (P × ℕ)}
  {c : Config Tid (Thread P) (Shared Tid P)}

variable [DecidableEq Tid] [DecidableEq P]

end Once

end UbuntuProjects.ThreadPool
