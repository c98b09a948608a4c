import UbuntuProjects.Analysis.ThreadPoolLifetime
import UbuntuProjects.Analysis.ThreadPoolTake

/-!
# The mutexes of the inner queues

Which thread owns the mutex of an inner queue (`Shared.owner`), which inner queue a thread has
locked by where it stands in the code (`Thread.locked`), and what a step does to both
(`PoolStep.locking`).
-/

set_option autoImplicit false

namespace UbuntuProjects.ThreadPool

open Concurrency

/-! ## The mutexes of the inner queues -/

section Owners

variable {Tid P : Type}

/-- The owner of the mutex of an inner queue. -/
def Shared.owner (s : Shared Tid P) (p : P) (i : ℕ) : Option Tid :=
  ((s.pools p).bind fun D => D.mInnerQueues[i]?).bind InnerQueue.mMut

/-- The number of inner queues of a pool, 0 if it is not alive. -/
def Shared.width (s : Shared Tid P) (p : P) : ℕ :=
  (s.workers p).getD 0

/-- The inner queue that is locked during a frame. -/
def Frame.locked (own : Option (P × ℕ)) (index : ℤ) (width : P → ℕ) :
    Frame P → Option (P × ℕ)
  | .assignTask _ _ .push => own
  | .assignTask _ _ .unlockOwn => own
  | .tryWork _ .popOwn => own
  | .tryWork _ (.unlockOwn _) => own
  | .tryWork p (.popSteal i) => some (p, stealIndex index i (width p))
  | .tryWork p (.unlockSteal i _) => some (p, stealIndex index i (width p))
  | _ => none

/-- The inner queue that a thread has locked. -/
def Thread.locked (width : P → ℕ) (th : Thread P) : Option (P × ℕ) :=
  th.frames.head?.bind (Frame.locked th.tlPInnerQueue th.tlThreadIndex width)

theorem locked_of_top {th : Thread P} {width : P → ℕ} {f : Frame P} {rest : List (Frame P)}
    (hf : th.frames = f :: rest) :
    th.locked width = f.locked th.tlPInnerQueue th.tlThreadIndex width := by
  simp [Thread.locked, hf]

theorem owner_eq {s : Shared Tid P} {p : P} {D : Pool Tid} {i : ℕ} {iq : InnerQueue Tid}
    (hp : s.pools p = some D) (hi : D.mInnerQueues[i]? = some iq) : s.owner p i = iq.mMut := by
  simp [Shared.owner, hp, hi]

theorem width_eq {s : Shared Tid P} {p : P} {D : Pool Tid} (hp : s.pools p = some D) :
    s.width p = D.mInnerQueues.length := by
  simp [Shared.width, workers_eq hp]

variable [DecidableEq P] {s : Shared Tid P} {p q : P} {D D' : Pool Tid} {i j : ℕ}
  {iq iq' : InnerQueue Tid}

theorem owner_setPool_of_ne (hq : q ≠ p) : (s.setPool p D).owner q i = s.owner q i := by
  simp [Shared.owner, setPool_pools_other hq]

theorem owner_setPool_self :
    (s.setPool p D).owner p i = D.mInnerQueues[i]?.bind InnerQueue.mMut := by
  simp [Shared.owner, Shared.setPool]

/-- Writing a pool without changing its inner queues. -/
theorem owner_setPool_same (hp : s.pools p = some D) (hD : D'.mInnerQueues = D.mInnerQueues) :
    (s.setPool p D').owner q i = s.owner q i := by
  by_cases hq : q = p
  · subst hq
    rw [owner_setPool_self, hD]
    simp [Shared.owner, hp]
  · exact owner_setPool_of_ne hq

/-- Writing one inner queue. -/
theorem owner_setInner (hp : s.pools p = some D) (hi : D.mInnerQueues[i]? = some iq) :
    (s.setPool p (D.setInner i iq')).owner q j =
      if (q, j) = (p, i) then iq'.mMut else s.owner q j := by
  have hlt : i < D.mInnerQueues.length := (List.getElem?_eq_some_iff.mp hi).1
  by_cases hq : q = p
  · subst hq
    rw [owner_setPool_self]
    by_cases hj : j = i
    · subst hj
      simp [Pool.setInner, List.getElem?_set_self hlt]
    · simp [Pool.setInner, List.getElem?_set_ne (Ne.symm hj), hj, Shared.owner, hp]
  · simp [owner_setPool_of_ne hq, hq]

theorem width_setPool (hp : s.pools p = some D)
    (hlen : D'.mInnerQueues.length = D.mInnerQueues.length) :
    (s.setPool p D').width = s.width := by
  funext q
  by_cases hq : q = p
  · subst hq
    rw [width_eq (D := D') (by simp [Shared.setPool]), width_eq hp, hlen]
  · simp [Shared.width, Shared.workers, setPool_pools_other hq]

theorem width_setInner (hp : s.pools p = some D) :
    (s.setPool p (D.setInner i iq)).width = s.width :=
  width_setPool hp (by simp [Pool.setInner])

/-- Writing an inner queue without touching its mutex. -/
theorem owner_setInner_same (hp : s.pools p = some D) (hi : D.mInnerQueues[i]? = some iq)
    (hmut : iq'.mMut = iq.mMut) : (s.setPool p (D.setInner i iq')).owner q j = s.owner q j := by
  rw [owner_setInner hp hi]
  split
  · rename_i heq
    cases heq
    rw [hmut, owner_eq hp hi]
  · rfl

/-- What a step does to the mutexes of the inner queues. -/
inductive Locking (t : Tid) (th th' : Thread P) (s s' : Shared Tid P) : Prop
  | same : (∀ q j u, s'.owner q j = some u → s.owner q j = some u) →
      (th.locked s.width = none ∨ th'.locked s'.width = th.locked s.width) →
      Locking t th th' s s'
  | lock {p : P} {i : ℕ} : th'.locked s'.width = some (p, i) →
      (∀ q j u, s'.owner q j = some u → (u = t ∧ (q, j) = (p, i)) ∨ s.owner q j = some u) →
      th.locked s.width = none → Locking t th th' s s'
  | unlock {p : P} {i : ℕ} : th.locked s.width = some (p, i) → s'.owner p i = none →
      (∀ q j u, s'.owner q j = some u → s.owner q j = some u) → Locking t th th' s s'

variable {t u : Tid} {s' : Shared Tid P} {own : Option (P × ℕ)} {index : ℤ}
  {rest : List (Frame P)} {home : Tid → Option (P × ℕ)}

/-- INTERNAL: the owners after an inner queue has been locked. -/
theorem owner_locked (hp : s.pools p = some D) (hi : D.mInnerQueues[i]? = some iq)
    (h : (s.setPool p (D.setInner i { iq with mMut := some t })).owner q j = some u) :
    (u = t ∧ (q, j) = (p, i)) ∨ s.owner q j = some u := by
  rw [owner_setInner hp hi] at h
  split at h
  · rename_i heq
    exact .inl ⟨(Option.some.inj h).symm, heq⟩
  · exact .inr h

/-- INTERNAL: the owners after an inner queue has been unlocked. -/
theorem owner_unlocked (hp : s.pools p = some D) (hi : D.mInnerQueues[i]? = some iq) :
    (s.setPool p (D.setInner i { iq with mMut := none })).owner p i = none ∧
      ∀ q j u, (s.setPool p (D.setInner i { iq with mMut := none })).owner q j = some u →
        s.owner q j = some u := by
  refine ⟨by simp [owner_setInner hp hi], fun q j u h => ?_⟩
  rw [owner_setInner hp hi] at h
  split at h
  · cases h
  · exact h

theorem AssignStep.locking {x : ℕ} {stage : AssignStage} {next : Option AssignStage}
    (h : AssignStep t own p x stage s next s') :
    Locking t ⟨own, index, .assignTask p x stage :: rest⟩
      ⟨own, index, (next.map (Frame.assignTask p x)).toList ++ rest⟩ s s' := by
  cases h with
  | startOwn _ => exact .same (fun _ _ _ => id) (.inl rfl)
  | startGlobal _ => exact .same (fun _ _ _ => id) (.inl rfl)
  | lockOwn hown hq hi _ => exact .lock hown (fun _ _ _ => owner_locked hq hi) rfl
  | push hown hq hi =>
    refine .same (fun _ _ _ hu => ?_) (.inr rfl)
    rwa [owner_setInner_same hq hi (by rfl)] at hu
  | unlockOwn hown hq hi =>
    obtain ⟨hfree, hothers⟩ := owner_unlocked hq hi
    exact .unlock hown hfree hothers
  | pushGlobal hp =>
    refine .same (fun _ _ _ hu => ?_) (.inl rfl)
    rwa [owner_setPool_same hp (by rfl)] at hu

theorem WorkStep.locking {stage : WorkStage} {next : Option WorkStage}
    (h : WorkStep t own index p stage s next s') :
    Locking t ⟨own, index, .tryWork p stage :: rest⟩
      ⟨own, index, (next.map (Frame.tryWork p)).toList ++ rest⟩ s s' := by
  cases h with
  | lockOwn hown hq hi _ => exact .lock hown (fun _ _ _ => owner_locked hq hi) rfl
  | popOwnEmpty _ _ _ _ => exact .same (fun _ _ _ => id) (.inr rfl)
  | popOwn hown hq hi _ =>
    refine .same (fun _ _ _ hu => ?_) (.inr rfl)
    rwa [owner_setInner_same hq hi (by rfl)] at hu
  | unlockOwn hown hq hi =>
    obtain ⟨hfree, hothers⟩ := owner_unlocked hq hi
    exact .unlock hown hfree hothers
  | popGlobal hp _ =>
    refine .same (fun _ _ _ hu => ?_) (.inl rfl)
    rwa [owner_setPool_same hp (by rfl)] at hu
  | @lockSteal _ _ i _ _ hp hj hi _ =>
    refine .lock ?_ (fun _ _ _ => owner_locked hp hi) rfl
    show some (p, stealIndex index i ((s.setPool p _).width p)) = _
    rw [width_setInner hp, width_eq hp, hj]
  | popStealEmpty _ _ _ _ => exact .same (fun _ _ _ => id) (.inr rfl)
  | @popSteal _ _ i _ _ _ _ hp hj hi _ =>
    refine .same (fun _ _ _ hu => ?_) (.inr ?_)
    · rwa [owner_setInner_same hp hi (by rfl)] at hu
    · show some (p, stealIndex index i ((s.setPool p _).width p)) = _
      rw [width_setInner hp]
      rfl
  | @unlockSteal _ _ i j _ _ hp hj hi =>
    obtain ⟨hfree, hothers⟩ := owner_unlocked hp hi
    refine .unlock ?_ hfree hothers
    show some (p, stealIndex index i (s.width p)) = some (p, j)
    rw [width_eq hp, hj]
  | _ => exact .same (fun _ _ _ => id) (.inl rfl)

omit [DecidableEq P] in
/-- The code of the client has no inner queue locked. -/
theorem locked_of_runs {f : Frame P} {width : P → ℕ} (hf : f.runs) :
    (⟨own, index, f :: rest⟩ : Thread P).locked width = none := by
  cases f <;> first | rfl | cases hf

theorem ClientStep.locking {f : Frame P} {l : Lab P} {fs : List (Frame P)} {th' : Thread P}
    (h : ClientStep f s l fs s') : Locking t ⟨own, index, f :: rest⟩ th' s s' := by
  apply Locking.same _ (.inl (locked_of_runs h.runs))
  intro q j u hu
  cases h with
  | @construct _ _ p n _ hp _ _ =>
    by_cases hq : q = p
    · subst hq
      rw [owner_setPool_self, List.getElem?_replicate] at hu
      split at hu <;> cases hu
    · rwa [owner_setPool_of_ne hq] at hu
  | stop _ hp => rwa [owner_setPool_same hp (by rfl)] at hu
  | _ => exact hu

theorem DestroyStep.locking {stage : DestroyStage} {next : Option DestroyStage} {th' : Thread P}
    (h : DestroyStep home p stage s next s') :
    Locking t ⟨own, index, .destroy p stage :: rest⟩ th' s s' := by
  apply Locking.same _ (.inl rfl)
  intro q j u hu
  cases h with
  | stop hp => rwa [owner_setPool_same hp (by rfl)] at hu
  | joinThreads _ _ => exact hu
  | @innerQueue _ D qs iq hp hqs =>
    by_cases hq : q = p
    · subst hq
      have hget : qs[j]?.bind InnerQueue.mMut = some u := by
        rw [← owner_setPool_self (s := s) (p := q) (D := { D with mInnerQueues := qs })]
        exact hu
      obtain ⟨iq', hj, hmut⟩ := Option.bind_eq_some_iff.mp hget
      have hget' : D.mInnerQueues[j]? = some iq' := by
        rw [hqs, List.getElem?_append_left (List.getElem?_eq_some_iff.mp hj).1]
        exact hj
      rw [owner_eq hp hget']
      exact hmut
    · rw [← owner_setPool_of_ne (D := { D with mInnerQueues := qs }) hq]
      exact hu
  | queue hp _ =>
    by_cases hq : q = p
    · subst hq
      simp [Shared.owner] at hu
    · simpa [Shared.owner, Function.update_of_ne hq] using hu

theorem PoolStep.locking [DecidableEq Tid] {th th' : Thread P} {l : Lab P}
    (h : PoolStep home t th s l th' s') : Locking t th th' s s' := by
  cases h with
  | client h => exact h.locking
  | assignTask h => exact h.locking
  | tryWork h => exact h.locking
  | destroy h => exact h.locking
  | _ => exact .same (fun _ _ _ => id) (.inl rfl)

end Owners

end UbuntuProjects.ThreadPool
