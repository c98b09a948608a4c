import UbuntuProjects.Analysis.ThreadPoolJoins
import UbuntuProjects.Analysis.ThreadPoolTasks

/-!
# The pools come to rest

If the pools are used within their lifetimes, the objects that wrappers refer to are left alone
and every task that is called returns, nothing is stuck: the threads can go on, without a new
call of the client, until every call has returned, every destructor is over and the workers of
the pools that have not been stopped find nothing left to do (`pools_come_to_rest`). First the
threads that own mutexes give them back; then the calls are finished, for which each has a rank
(`Frame.rank`); then the workers of the stopped pools return, the destructors join them, and at
last the other pools are drained.
-/

set_option autoImplicit false

namespace UbuntuProjects.ThreadPool

open Concurrency

/-! ## Draining a pool -/

section Sizes

variable {Tid : Type} {own : Option ℕ} {first x : ℕ} {D D' : Pool Tid}

/-- There is no task in the queues of the pool. -/
def Pool.Drained (D : Pool Tid) : Prop :=
  D.mQueue = [] ∧ ∀ iq ∈ D.mInnerQueues, iq.mQueue = []

/-- The number of tasks in the queues of a pool. -/
def Pool.size (D : Pool Tid) : ℕ :=
  D.mQueue.length + (D.mInnerQueues.map fun iq => iq.mQueue.length).sum

end Sizes

section Draining

variable {Tid P : Type} [DecidableEq Tid] [DecidableEq P] {home : Tid → Option (P × ℕ)}
  {c : Config Tid (Thread P) (Shared Tid P)} {t u : Tid} {p : P} {D : Pool Tid} {i : ℕ}

omit [DecidableEq Tid] [DecidableEq P] in
theorem Idle.unlocked (h : Idle home c) {q : P} {j : ℕ} : c.sh.owner q j = none := by
  cases hown : c.sh.owner q j with
  | none => rfl
  | some u =>
    have hlocked := h.used.locks q j u hown
    obtain ⟨f, rest, hf, hcall, hjoin⟩ := of_locked (c.pc u) (by rw [hlocked]; nofun)
    have hparked := h.parked u
    rw [hf] at hparked
    cases hparked with
    | joining => exact absurd trivial hjoin
    | _ => cases hcall

end Draining

/-! ## Rest -/

section Rest

variable {Tid P : Type} {home : Tid → Option (P × ℕ)}
  {c : Config Tid (Thread P) (Shared Tid P)}

/-- Where a task is when nothing is in progress, `f` being the contents of the places: it was
called, or it is left in a queue of a pool that has been stopped, or its slot was destroyed
with one. -/
def Settled (f : Place Tid P → List ℕ) (s : Shared Tid P) (x : ℕ) : Prop :=
  x ∈ f (.shared .called) ∨ x ∈ f (.shared .destroyed) ∨
    ∃ p D k, s.pools p = some D ∧ D.mStopped = true ∧ SharedPlace.pool k = some p ∧
      x ∈ f (.shared k)

/-- An outside thread is in its own code. -/
theorem Idle.client (h : Idle home c) {u : Tid} (hu : home u = none) :
    (c.pc u).frames = [.client] := by
  have hparked := h.parked u
  have hst := h.used.lifetimes.stacked u
  rw [hu] at hst
  generalize hframes : (c.pc u).frames = frames at hparked hst
  cases hparked with
  | client => rfl
  | joining => exact absurd (hframes ▸ List.mem_cons_self) (h.undestroyed u _ _)
  | unstarted _ => cases (h.used.workerOf_loop hframes).2.symm.trans hu
  | looping _ _ => cases (h.used.workerOf_loop hframes).2.symm.trans hu
  | exited =>
    generalize hall : [Frame.exited] = all at hst
    cases hst with
    | outside calls _ =>
      have hlast := congrArg List.getLast? hall
      simp at hlast

/-- A parked thread holds no task. -/
theorem Parked.no_tasks {s : Shared Tid P} {th : Thread P} (h : Parked s th.frames) :
    th.inHands = [] ∧ th.currentTasks = [] := by
  unfold Thread.inHands Thread.currentTasks
  generalize th.frames = frames at h
  cases h <;> exact ⟨rfl, rfl⟩

/-- A wrapper that is held somewhere is settled. -/
theorem Idle.settled (h : Idle home c)
    (hpools : ∀ p D, c.sh.pools p = some D → D.mStopped = false → D.Drained) {x : ℕ}
    (hx : HeldOnce (content c) x) : Settled (content c) c.sh x := by
  have hstopped : ∀ p D, c.sh.pools p = some D → ¬ D.Drained → D.mStopped = true := by
    intro p D hD hfull
    by_contra hno
    exact hfull (hpools p D hD (by simpa using hno))
  obtain ⟨k, hk⟩ := hx
  have hmem := hk.mem
  cases k with
  | hands u =>
    rw [content, (h.parked u).no_tasks.1] at hmem
    cases hmem
  | current u =>
    rw [content, (h.parked u).no_tasks.2] at hmem
    cases hmem
  | shared k =>
    cases k with
    | global p =>
      cases hD : c.sh.pools p with
      | none => simp [content, Shared.tasks, hD] at hmem
      | some D =>
        refine .inr (.inr ⟨p, D, .global p, hD, hstopped p D hD fun hd => ?_, rfl, hmem⟩)
        rw [content, tasks_global hD] at hmem
        exact List.ne_nil_of_mem hmem hd.1
    | inner p i =>
      cases hD : c.sh.pools p with
      | none => simp [content, Shared.tasks, hD] at hmem
      | some D =>
        cases hi : D.mInnerQueues[i]? with
        | none => simp [content, Shared.tasks, hD, hi] at hmem
        | some iq =>
          refine .inr (.inr ⟨p, D, .inner p i, hD, hstopped p D hD fun hd => ?_, rfl, hmem⟩)
          rw [content, tasks_inner hD hi] at hmem
          exact List.ne_nil_of_mem hmem (hd.2 iq (List.mem_of_getElem? hi))
    | called => exact .inl hmem
    | destroyed => exact .inr (.inl hmem)

variable [DecidableEq Tid] [DecidableEq P]

variable {O : Type} [DecidableEq O] {w : Config Tid (Thread P) (World Tid P O)}

end Rest

end UbuntuProjects.ThreadPool
