import UbuntuProjects.Concurrency.Custody
import UbuntuProjects.Model.ThreadPool

/-!
# Where the wrappers of the pools are

The wrapper of a task is in the hands of the thread that assigns the task, in a slot of a queue,
in a `current_task`, among the calls, or among what was destroyed uncalled. A step moves at most
one wrapper, from one of these places to another, except that destroying a queue drops all that
is in it (`PoolStep.moves`).
-/

set_option autoImplicit false

namespace UbuntuProjects.ThreadPool

open Concurrency

/-! ## Places -/

/-- What `assign_task(x)` has not pushed yet. -/
def AssignStage.unpushed (x : ℕ) : AssignStage → List ℕ
  | .unlockOwn => []
  | _ => [x]

/-- The `current_task` from when it is taken until it is called. -/
def WorkStage.taken : WorkStage → List ℕ
  | .unlockOwn task => task.toList
  | .unlockSteal _ task => task.toList
  | .call x => [x]
  | _ => []

section Frames

variable {P : Type}

def Frame.inHands : Frame P → List ℕ
  | .assignTask _ x stage => stage.unpushed x
  | _ => []

def Frame.currentTask : Frame P → List ℕ
  | .tryWork _ stage => stage.taken
  | _ => []

/-- The tasks that the thread assigns and has not pushed. -/
def Thread.inHands (th : Thread P) : List ℕ :=
  th.frames.flatMap Frame.inHands

/-- The tasks that the thread has taken and not called. -/
def Thread.currentTasks (th : Thread P) : List ℕ :=
  th.frames.flatMap Frame.currentTask

end Frames

/-- The places of the shared state. -/
inductive SharedPlace (P : Type) where
  | global (p : P)
  | inner (p : P) (i : ℕ)
  | called
  | destroyed

/-- All places. -/
inductive Place (Tid P : Type) where
  | hands (t : Tid)
  | current (t : Tid)
  | shared (k : SharedPlace P)

section Contents

variable {Tid P : Type}

/-- The tasks at a place of the shared state. -/
def Shared.tasks (s : Shared Tid P) : SharedPlace P → List ℕ
  | .global p => (s.pools p).elim [] Pool.mQueue
  | .inner p i =>
    ((s.pools p).bind fun D => D.mInnerQueues[i]?).elim [] InnerQueue.mQueue
  | .called => s.called.map Prod.fst
  | .destroyed => s.uncalled

/-- The tasks at a place. -/
def content (c : Config Tid (Thread P) (Shared Tid P)) : Place Tid P → List ℕ
  | .hands t => (c.pc t).inHands
  | .current t => (c.pc t).currentTasks
  | .shared k => c.sh.tasks k

theorem tasks_global {s : Shared Tid P} {p : P} {D : Pool Tid} (hp : s.pools p = some D) :
    s.tasks (.global p) = D.mQueue := by
  simp [Shared.tasks, hp]

theorem tasks_inner {s : Shared Tid P} {p : P} {D : Pool Tid} {i : ℕ} {iq : InnerQueue Tid}
    (hp : s.pools p = some D) (hi : D.mInnerQueues[i]? = some iq) :
    s.tasks (.inner p i) = iq.mQueue := by
  simp [Shared.tasks, hp, hi]

end Contents

/-- Only the code of a client takes the steps of `ClientStep`. -/
theorem ClientStep.runs {Tid P : Type} [DecidableEq P] {s s' : Shared Tid P} {f : Frame P}
    {l : Lab P} {fs : List (Frame P)} (h : ClientStep f s l fs s') : f.runs := by
  cases h with
  | construct hf _ _ _ => exact hf
  | assignTask hf _ => exact hf
  | tryWork hf _ => exact hf
  | stop hf _ => exact hf
  | destroy hf _ => exact hf
  | taskDone => trivial

/-! ## Writing a pool -/

section Writes

variable {Tid P : Type} [DecidableEq P] {s : Shared Tid P} {p : P} {D : Pool Tid}

/-- A place outside the pool `p`. -/
theorem tasks_setPool_other {D' : Pool Tid} {k : SharedPlace P} (hg : k ≠ .global p)
    (hi : ∀ i, k ≠ .inner p i) : (s.setPool p D').tasks k = s.tasks k := by
  cases k with
  | global q =>
    have hq : q ≠ p := fun h => hg (h ▸ rfl)
    simp [Shared.tasks, Shared.setPool, Function.update_of_ne hq]
  | inner q i =>
    have hq : q ≠ p := fun h => hi i (h ▸ rfl)
    simp [Shared.tasks, Shared.setPool, Function.update_of_ne hq]
  | called => rfl
  | destroyed => rfl

theorem tasks_setPool_global {D' : Pool Tid} :
    (s.setPool p D').tasks (.global p) = D'.mQueue := by
  simp [Shared.tasks, Shared.setPool]

theorem tasks_setPool_inner {D' : Pool Tid} {i : ℕ} :
    (s.setPool p D').tasks (.inner p i) = D'.mInnerQueues[i]?.elim [] InnerQueue.mQueue := by
  simp [Shared.tasks, Shared.setPool]

/-- INTERNAL: a pool that holds what was held in its place. -/
theorem tasks_setPool_same {D' : Pool Tid} (hg : D'.mQueue = s.tasks (.global p))
    (hi : ∀ i, D'.mInnerQueues[i]?.elim [] InnerQueue.mQueue = s.tasks (.inner p i)) :
    (s.setPool p D').tasks = s.tasks := by
  funext k
  by_cases hk : k = .global p
  · subst hk
    rw [tasks_setPool_global, hg]
  by_cases hj : ∃ j, k = .inner p j
  · obtain ⟨j, rfl⟩ := hj
    rw [tasks_setPool_inner, hi]
  · exact tasks_setPool_other hk fun j h => hj ⟨j, h⟩

/-- Writing the flag of a pool. -/
theorem tasks_setStopped (hp : s.pools p = some D) {b : Bool} :
    (s.setPool p { D with mStopped := b }).tasks = s.tasks := by
  apply tasks_setPool_same
  · exact (tasks_global hp).symm
  · intro i
    simp [Shared.tasks, hp]

/-- Writing the shared queue changes that place. -/
theorem tasks_setQueue_other (hp : s.pools p = some D) {xs : List ℕ} {k : SharedPlace P}
    (hk : k ≠ .global p) : (s.setPool p { D with mQueue := xs }).tasks k = s.tasks k := by
  by_cases hi : ∃ i, k = .inner p i
  · obtain ⟨i, rfl⟩ := hi
    rw [tasks_setPool_inner]
    simp [Shared.tasks, hp]
  · exact tasks_setPool_other hk fun i h => hi ⟨i, h⟩

/-- Writing an inner queue changes that place. -/
theorem tasks_setInner_self {i : ℕ} {iq iq' : InnerQueue Tid}
    (hi : D.mInnerQueues[i]? = some iq) :
    (s.setPool p (D.setInner i iq')).tasks (.inner p i) = iq'.mQueue := by
  have hlt : i < D.mInnerQueues.length := (List.getElem?_eq_some_iff.mp hi).1
  rw [tasks_setPool_inner]
  simp [Pool.setInner, hlt]

theorem tasks_setInner_other (hp : s.pools p = some D) {i : ℕ} {iq : InnerQueue Tid}
    {k : SharedPlace P} (hk : k ≠ .inner p i) :
    (s.setPool p (D.setInner i iq)).tasks k = s.tasks k := by
  by_cases hg : k = .global p
  · subst hg
    rw [tasks_setPool_global, tasks_global hp]
    rfl
  by_cases hj : ∃ j, k = .inner p j
  · obtain ⟨j, rfl⟩ := hj
    have hij : i ≠ j := fun h => hk (h ▸ rfl)
    rw [tasks_setPool_inner]
    simp [Shared.tasks, Pool.setInner, hp, hij]
  · exact tasks_setPool_other hg fun j h => hj ⟨j, h⟩

/-- Locking or unlocking an inner queue moves no task. -/
theorem tasks_setInner_mutex (hp : s.pools p = some D) {i : ℕ} {iq : InnerQueue Tid}
    (hi : D.mInnerQueues[i]? = some iq) {m : Option Tid} :
    (s.setPool p (D.setInner i { iq with mMut := m })).tasks = s.tasks := by
  funext k
  by_cases hk : k = .inner p i
  · subst hk
    rw [tasks_setInner_self hi, tasks_inner hp hi]
  · exact tasks_setInner_other hp hk

/-- The constructor's queues are empty. -/
theorem tasks_construct (hp : s.pools p = none) {n : ℕ} {b : Bool} :
    (s.setPool p ⟨[], b, List.replicate n ⟨none, []⟩⟩).tasks = s.tasks := by
  apply tasks_setPool_same
  · simp [Shared.tasks, hp]
  · intro i
    by_cases hi : i < n
    · simp [Shared.tasks, hp, hi]
    · simp [Shared.tasks, hp, hi]

/-- Destroying the last inner queue changes that place. -/
theorem tasks_dropLast (hp : s.pools p = some D) {qs : List (InnerQueue Tid)}
    {iq : InnerQueue Tid} (hqs : D.mInnerQueues = qs ++ [iq]) {k : SharedPlace P}
    (hk : k ≠ .inner p qs.length) :
    (s.setPool p { D with mInnerQueues := qs }).tasks k = s.tasks k := by
  by_cases hg : k = .global p
  · subst hg
    rw [tasks_setPool_global, tasks_global hp]
  by_cases hj : ∃ j, k = .inner p j
  · obtain ⟨j, rfl⟩ := hj
    have hne : j ≠ qs.length := fun h => hk (h ▸ rfl)
    rw [tasks_setPool_inner]
    by_cases hlt : j < qs.length
    · simp [Shared.tasks, hp, hqs, hlt, List.getElem?_append_left]
    · have hshort : qs[j]? = none := List.getElem?_eq_none (by omega)
      have hlong : (qs ++ [iq])[j]? = none := by
        refine List.getElem?_eq_none ?_
        rw [List.length_append, List.length_singleton]
        omega
      simp only [Shared.tasks, hp, hqs, hshort, hlong, Option.bind_some, Option.elim_none]
  · exact tasks_setPool_other hg fun j h => hj ⟨j, h⟩

/-- Destroying the shared queue of a pool that has no inner queues changes that place. -/
theorem tasks_remove (hp : s.pools p = some D) (hnil : D.mInnerQueues = [])
    {k : SharedPlace P} (hk : k ≠ .global p) :
    ({ s with pools := Function.update s.pools p none } : Shared Tid P).tasks k =
      s.tasks k := by
  cases k with
  | global q =>
    have hq : q ≠ p := fun h => hk (h ▸ rfl)
    simp [Shared.tasks, Function.update_of_ne hq]
  | inner q i =>
    by_cases hq : q = p
    · subst hq
      simp [Shared.tasks, hp, hnil]
    · simp [Shared.tasks, Function.update_of_ne hq]
  | called => rfl
  | destroyed => rfl

end Writes

/-! ## What one step moves -/

section Moves

variable {Tid P : Type}

/-- What a step may do to the places of the thread that takes it and to the shared ones. -/
inductive Moves (th th' : Thread P) (s s' : Shared Tid P) : Prop
  | stay : th'.inHands = th.inHands → th'.currentTasks = th.currentTasks →
      s'.tasks = s.tasks → s'.given = s.given → Moves th th' s s'
  | given (p : P) : th'.inHands = s.given.length :: th.inHands →
      th'.currentTasks = th.currentTasks → s'.tasks = s.tasks → s'.given = s.given ++ [p] →
      Moves th th' s s'
  | pushed (x : ℕ) (k : SharedPlace P) : th.inHands = x :: th'.inHands →
      th'.currentTasks = th.currentTasks → (s'.tasks k).Perm (x :: s.tasks k) →
      (∀ j, j ≠ k → s'.tasks j = s.tasks j) → s'.given = s.given → Moves th th' s s'
  | taken (x : ℕ) (k : SharedPlace P) : th'.inHands = th.inHands →
      th'.currentTasks = x :: th.currentTasks → (s.tasks k).Perm (x :: s'.tasks k) →
      (∀ j, j ≠ k → s'.tasks j = s.tasks j) → s'.given = s.given → Moves th th' s s'
  | called (x : ℕ) : th'.inHands = th.inHands → th.currentTasks = x :: th'.currentTasks →
      (s'.tasks .called).Perm (x :: s.tasks .called) →
      (∀ j, j ≠ .called → s'.tasks j = s.tasks j) → s'.given = s.given → Moves th th' s s'
  | dropped (k : SharedPlace P) : k ≠ .destroyed → th'.inHands = th.inHands →
      th'.currentTasks = th.currentTasks → s'.tasks k = [] →
      s'.tasks .destroyed = s.tasks .destroyed ++ s.tasks k →
      (∀ j, j ≠ k → j ≠ .destroyed → s'.tasks j = s.tasks j) → s'.given = s.given →
      Moves th th' s s'

variable [DecidableEq P] {home : Tid → Option (P × ℕ)} {t : Tid} {own : Option (P × ℕ)}
  {index : ℤ} {p : P} {s s' : Shared Tid P} {rest : List (Frame P)}

theorem ClientStep.moves {f : Frame P} {l : Lab P} {fs : List (Frame P)}
    (h : ClientStep f s l fs s') :
    Moves ⟨own, index, f :: rest⟩ ⟨own, index, fs ++ rest⟩ s s' := by
  cases h with
  | construct _ hp _ _ => exact .stay rfl rfl (tasks_construct hp) rfl
  | @assignTask _ _ p _ hf _ => exact .given p rfl rfl rfl rfl
  | tryWork hf _ => exact .stay rfl rfl rfl rfl
  | stop hf hp => exact .stay rfl rfl (tasks_setStopped hp) rfl
  | destroy hf _ => exact .stay rfl rfl rfl rfl
  | taskDone => exact .stay rfl rfl rfl rfl

theorem AssignStep.moves {x : ℕ} {stage : AssignStage} {next : Option AssignStage}
    (h : AssignStep t own p x stage s next s') :
    Moves ⟨own, index, .assignTask p x stage :: rest⟩
      ⟨own, index, (next.map (Frame.assignTask p x)).toList ++ rest⟩ s s' := by
  cases h with
  | startOwn _ => exact .stay rfl rfl rfl rfl
  | startGlobal _ => exact .stay rfl rfl rfl rfl
  | lockOwn _ hq hi _ => exact .stay rfl rfl (tasks_setInner_mutex hq hi) rfl
  | @push _ q i _ _ _ hq hi =>
    refine .pushed x (.inner q i) rfl rfl ?_ (fun j hj => tasks_setInner_other hq hj) rfl
    rw [tasks_setInner_self hi, tasks_inner hq hi]
    exact List.perm_append_singleton ..
  | unlockOwn _ hq hi => exact .stay rfl rfl (tasks_setInner_mutex hq hi) rfl
  | pushGlobal hp =>
    refine .pushed x (.global p) rfl rfl ?_ (fun j hj => tasks_setQueue_other hp hj) rfl
    rw [tasks_setPool_global, tasks_global hp]
    exact List.perm_append_singleton ..

theorem WorkStep.moves {stage : WorkStage} {next : Option WorkStage}
    (h : WorkStep t own index p stage s next s') :
    Moves ⟨own, index, .tryWork p stage :: rest⟩
      ⟨own, index, (next.map (Frame.tryWork p)).toList ++ rest⟩ s s' := by
  cases h with
  | startOwn _ => exact .stay rfl rfl rfl rfl
  | startGlobal _ => exact .stay rfl rfl rfl rfl
  | lockOwn _ hq hi _ => exact .stay rfl rfl (tasks_setInner_mutex hq hi) rfl
  | popOwnEmpty _ _ _ _ => exact .stay rfl rfl rfl rfl
  | @popOwn _ q i x _ _ _ _ hq hi hx =>
    refine .taken x (.inner q i) rfl rfl ?_ (fun j hj => tasks_setInner_other hq hj) rfl
    rw [tasks_setInner_self hi, tasks_inner hq hi, hx]
  | @unlockOwn _ q i task _ _ _ hq hi =>
    refine .stay ?_ ?_ (tasks_setInner_mutex hq hi) rfl
    · cases task <;> rfl
    · cases task <;> rfl
  | popGlobalEmpty _ _ => exact .stay rfl rfl rfl rfl
  | @popGlobal _ _ x _ hp hx =>
    refine .taken x (.global p) rfl rfl ?_ (fun j hj => tasks_setQueue_other hp hj) rfl
    rw [tasks_setPool_global, tasks_global hp, hx]
  | steal _ _ => exact .stay rfl rfl rfl rfl
  | stealEnd _ _ => exact .stay rfl rfl rfl rfl
  | lockSteal hp _ hi _ => exact .stay rfl rfl (tasks_setInner_mutex hp hi) rfl
  | popStealEmpty _ _ _ _ => exact .stay rfl rfl rfl rfl
  | @popSteal _ _ _ j x _ _ hp _ hi hx =>
    refine .taken x (.inner p j) rfl rfl ?_ (fun j hj => tasks_setInner_other hp hj) rfl
    rw [tasks_setInner_self hi, tasks_inner hp hi, hx]
    exact List.perm_append_singleton ..
  | @unlockSteal _ _ _ _ task _ hp _ hi =>
    refine .stay ?_ ?_ (tasks_setInner_mutex hp hi) rfl
    · cases task <;> rfl
    · cases task <;> rfl
  | calling => exact .stay rfl rfl rfl rfl

theorem DestroyStep.moves {stage : DestroyStage} {next : Option DestroyStage}
    (h : DestroyStep home p stage s next s') :
    Moves ⟨own, index, .destroy p stage :: rest⟩
      ⟨own, index, (next.map (Frame.destroy p)).toList ++ rest⟩ s s' := by
  cases h with
  | stop hp => exact .stay rfl rfl (tasks_setStopped hp) rfl
  | joinThreads _ _ => exact .stay rfl rfl rfl rfl
  | @innerQueue _ D qs iq hp hqs =>
    have hlast : D.mInnerQueues[qs.length]? = some iq := by simp [hqs]
    refine .dropped (.inner p qs.length) (by simp) rfl rfl ?_ ?_ ?_ rfl
    · simp [Shared.tasks, Shared.setPool]
    · rw [tasks_inner hp hlast]
      rfl
    · intro j hj hd
      rw [← tasks_dropLast hp hqs hj]
      cases j with
      | destroyed => exact absurd rfl hd
      | _ => rfl
  | @queue _ D hp hnil =>
    refine .dropped (.global p) (by simp) rfl rfl ?_ ?_ ?_ rfl
    · simp [Shared.tasks]
    · rw [tasks_global hp]
      rfl
    · intro j hj hd
      rw [← tasks_remove hp hnil hj]
      cases j with
      | destroyed => exact absurd rfl hd
      | _ => rfl

theorem PoolStep.moves [DecidableEq Tid] {th th' : Thread P} {l : Lab P}
    (h : PoolStep home t th s l th' s') : Moves th th' s s' := by
  cases h with
  | client h => exact h.moves
  | assignTask h => exact h.moves
  | tryWork h => exact h.moves
  | @call _ _ p x rest =>
    refine .called x rfl rfl ?_ ?_ rfl
    · simp only [Shared.tasks, List.map_append]
      exact List.perm_append_singleton ..
    · intro j hj
      cases j with
      | called => exact absurd rfl hj
      | _ => rfl
  | destroy h => exact h.moves
  | initIndex _ _ => exact .stay rfl rfl rfl rfl
  | initQueue => exact .stay rfl rfl rfl rfl
  | work _ _ => exact .stay rfl rfl rfl rfl
  | exit _ _ => exact .stay rfl rfl rfl rfl

end Moves

/-! ## The frames after one step -/

section Frames

variable {Tid P : Type} [DecidableEq P] {home : Tid → Option (P × ℕ)} {t : Tid}

/-- A frame that a thread has after a step: one it had before, a call the step has made, or
the call it is a step of. -/
inductive Arrives (home : Tid → Option (P × ℕ)) (t : Tid) (th : Thread P) (s s' : Shared Tid P) :
    Frame P → Prop
  | old {f : Frame P} : f ∈ th.frames → Arrives home t th s s' f
  | assign {p : P} : s'.given = s.given ++ [p] →
      Arrives home t th s s' (.assignTask p s.given.length .start)
  | tryWork {p : P} : Arrives home t th s s' (.tryWork p .start)
  | destroy {p : P} : Arrives home t th s s' (.destroy p .stop)
  | calling {p : P} {x : ℕ} : Arrives home t th s s' (.tryWork p (.calling x))
  | assigning {p : P} {x : ℕ} {stage next : AssignStage} {rest : List (Frame P)} :
      th.frames = .assignTask p x stage :: rest →
      AssignStep t th.tlPInnerQueue p x stage s (some next) s' →
      Arrives home t th s s' (.assignTask p x next)
  | working {p : P} {stage next : WorkStage} {rest : List (Frame P)} :
      th.frames = .tryWork p stage :: rest →
      WorkStep t th.tlPInnerQueue th.tlThreadIndex p stage s (some next) s' →
      Arrives home t th s s' (.tryWork p next)
  | destroying {p : P} {stage next : DestroyStage} {rest : List (Frame P)} :
      th.frames = .destroy p stage :: rest → DestroyStep home p stage s (some next) s' →
      Arrives home t th s s' (.destroy p next)
  | task : Arrives home t th s s' .task
  | worker {p : P} {i : ℕ} {stage : WorkerStage} : Arrives home t th s s' (.worker p i stage)
  | exited : Arrives home t th s s' .exited

variable {own : Option (P × ℕ)} {index : ℤ} {s s' : Shared Tid P} {f g : Frame P}

theorem ClientStep.arrives {l : Lab P} {fs rest : List (Frame P)} (h : ClientStep f s l fs s')
    (hg : g ∈ fs ++ rest) : Arrives home t ⟨own, index, f :: rest⟩ s s' g := by
  cases h with
  | assignTask _ _ =>
    rcases List.mem_cons.mp hg with rfl | hg
    · exact .assign rfl
    · exact .old hg
  | tryWork _ _ =>
    rcases List.mem_cons.mp hg with rfl | hg
    · exact .tryWork
    · exact .old hg
  | destroy _ _ =>
    rcases List.mem_cons.mp hg with rfl | hg
    · exact .destroy
    · exact .old hg
  | construct _ _ _ _ => exact .old hg
  | stop _ _ => exact .old hg
  | taskDone => exact .old (List.mem_cons_of_mem _ hg)

/-- The frames after a step. -/
theorem PoolStep.arrives [DecidableEq Tid] {th th' : Thread P} {l : Lab P}
    (h : PoolStep home t th s l th' s') (hg : g ∈ th'.frames) : Arrives home t th s s' g := by
  cases h with
  | client h => exact h.arrives hg
  | @assignTask _ _ p x stage next rest _ _ h =>
    rcases List.mem_append.mp hg with hg | hg
    · obtain ⟨stage', rfl, rfl⟩ := Option.map_eq_some_iff.mp (Option.mem_toList.mp hg)
      exact .assigning rfl h
    · exact .old (List.mem_cons_of_mem _ hg)
  | @tryWork _ _ p stage next rest _ _ h =>
    rcases List.mem_append.mp hg with hg | hg
    · obtain ⟨stage', rfl, rfl⟩ := Option.map_eq_some_iff.mp (Option.mem_toList.mp hg)
      exact .working rfl h
    · exact .old (List.mem_cons_of_mem _ hg)
  | call =>
    rcases List.mem_cons.mp hg with rfl | hg
    · exact .task
    · rcases List.mem_cons.mp hg with rfl | hg
      · exact .calling
      · exact .old (List.mem_cons_of_mem _ hg)
  | @destroy _ _ p stage next rest _ _ h =>
    rcases List.mem_append.mp hg with hg | hg
    · obtain ⟨stage', rfl, rfl⟩ := Option.map_eq_some_iff.mp (Option.mem_toList.mp hg)
      exact .destroying rfl h
    · exact .old (List.mem_cons_of_mem _ hg)
  | initIndex _ _ =>
    rcases List.mem_cons.mp hg with rfl | hg
    · exact .worker
    · exact .old (List.mem_cons_of_mem _ hg)
  | initQueue =>
    rcases List.mem_cons.mp hg with rfl | hg
    · exact .worker
    · exact .old (List.mem_cons_of_mem _ hg)
  | work _ _ =>
    rcases List.mem_cons.mp hg with rfl | hg
    · exact .tryWork
    · exact .old hg
  | exit _ _ =>
    rcases List.mem_cons.mp hg with rfl | hg
    · exact .exited
    · exact .old (List.mem_cons_of_mem _ hg)

end Frames

/-- At the start no thread is in a call. -/
theorem start_frames {Tid P : Type} {home : Tid → Option (P × ℕ)} {u : Tid} {f : Frame P}
    (h : f ∈ ((start home).pc u).frames) : f = .client ∨ ∃ p i, f = .worker p i .initIndex := by
  have h := List.mem_singleton.mp h
  cases hu : home u with
  | none => exact .inl (by simpa [firstFrame, hu] using h)
  | some pi => exact .inr ⟨pi.1, pi.2, by simpa [firstFrame, hu] using h⟩

/-! ## Custody of the tasks -/

section Custody

variable {Tid P : Type} [DecidableEq Tid] {c : Config Tid (Thread P) (Shared Tid P)} {t : Tid}
  {th' : Thread P} {s' : Shared Tid P}

/-- A place that a step of `t` leaves as it is. -/
theorem content_update {k : Place Tid P}
    (hh : k = .hands t → th'.inHands = (c.pc t).inHands)
    (hc : k = .current t → th'.currentTasks = (c.pc t).currentTasks)
    (hs : ∀ j, k = .shared j → s'.tasks j = c.sh.tasks j) :
    content ⟨Function.update c.pc t th', s'⟩ k = content c k := by
  cases k with
  | hands u =>
    by_cases hu : u = t
    · subst hu
      simpa [content] using hh rfl
    · simp [content, Function.update_of_ne hu]
  | current u =>
    by_cases hu : u = t
    · subst hu
      simpa [content] using hc rfl
    · simp [content, Function.update_of_ne hu]
  | shared j => exact hs j rfl

theorem content_hands :
    content ⟨Function.update c.pc t th', s'⟩ (.hands t) = th'.inHands := by
  simp [content]

theorem content_current :
    content ⟨Function.update c.pc t th', s'⟩ (.current t) = th'.currentTasks := by
  simp [content]

/-- A step keeps custody. -/
theorem custody_step (hcust : Custody (content c) c.sh.given.length)
    (h : Moves (c.pc t) th' c.sh s') :
    Custody (content ⟨Function.update c.pc t th', s'⟩) s'.given.length := by
  cases h with
  | stay hh hc hs hg =>
    rw [hg]
    exact hcust.congr fun k => content_update (fun _ => hh) (fun _ => hc) fun j _ => by rw [hs]
  | given p hh hc hs hg =>
    rw [hg, List.length_append]
    refine hcust.issue (k := .hands t) ?_ fun k hk =>
      content_update (fun h => absurd h hk) (fun _ => hc) fun j _ => by rw [hs]
    rw [content_hands, hh]
    exact .refl _
  | pushed x k hh hc hk hother hg =>
    rw [hg]
    refine hcust.handOver (.hands t) (.shared k) [x] (by simp) ?_ hk ?_
    · rw [content_hands, show content c (.hands t) = x :: th'.inHands from hh]
      exact .refl _
    · intro j hj hjk
      refine content_update (fun h => absurd h hj) (fun _ => hc) fun i hi => hother i ?_
      rintro rfl
      exact hjk hi
  | taken x k hh hc hk hother hg =>
    rw [hg]
    refine hcust.handOver (.shared k) (.current t) [x] (by simp) hk ?_ ?_
    · rw [content_current, hc]
      exact .refl _
    · intro j hj hjt
      refine content_update (fun _ => hh) (fun h => absurd h hjt) fun i hi => hother i ?_
      rintro rfl
      exact hj hi
  | called x hh hc hk hother hg =>
    rw [hg]
    refine hcust.handOver (.current t) (.shared .called) [x] (by simp) ?_ hk ?_
    · rw [content_current, show content c (.current t) = x :: th'.currentTasks from hc]
      exact .refl _
    · intro j hj hjk
      refine content_update (fun _ => hh) (fun h => absurd h hj) fun i hi => hother i ?_
      rintro rfl
      exact hjk hi
  | dropped k hne hh hc hnil hd hother hg =>
    rw [hg]
    refine hcust.handOver (.shared k) (.shared .destroyed)
      (c.sh.tasks k) (by simpa using hne) ?_ ?_ ?_
    · simp [content, hnil]
    · simp only [content, hd]
      exact List.perm_append_comm
    · intro j hj hjd
      refine content_update (fun _ => hh) (fun _ => hc) fun i hi => hother i ?_ ?_
      · rintro rfl
        exact hj hi
      · rintro rfl
        exact hjd hi

variable [DecidableEq P]

/-- In every run each wrapper that `assign_task` made is in exactly one place. -/
theorem custody_run {home : Tid → Option (P × ℕ)} {tr : List (Tid × Lab P)}
    {G : Config Tid (Thread P) (Shared Tid P) → Tid × Lab P → Prop}
    (h : Run (PoolStep home) G (start home) tr c) :
    Custody (content c) c.sh.given.length := by
  refine h.invariant (fun c => Custody (content c) c.sh.given.length) ?_ ?_
  · refine custody_empty fun k => ?_
    cases k with
    | hands t =>
      show [firstFrame (home t)].flatMap Frame.inHands = []
      cases home t <;> rfl
    | current t =>
      show [firstFrame (home t)].flatMap Frame.currentTask = []
      cases home t <;> rfl
    | shared j => cases j <;> rfl
  · rintro c ⟨t, l⟩ c' hcust _ hstep
    obtain ⟨hP⟩ := hstep
    exact custody_step hcust hP.moves

end Custody

end UbuntuProjects.ThreadPool
