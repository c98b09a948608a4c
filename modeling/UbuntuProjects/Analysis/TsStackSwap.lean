import UbuntuProjects.Model.TsStackSwap

/-!
# When two stacks can be swapped

For two stacks the call takes both mutexes, exchanges the elements and returns. For a stack
and itself the list of mutexes names one mutex twice.
-/

set_option autoImplicit false

namespace UbuntuProjects.TsStack

open Concurrency

variable {Obj Tid T : Type} [DecidableEq Obj]

section Swapping

variable {s s₀ : Obj → Shared Tid T} {this other q : Obj} {t : Tid}

/-- The states agree but for the mutexes of the operands that thread `t` owns in `s`. -/
def SameButLocks (t : Tid) (this other : Obj) (s s₀ : Obj → Shared Tid T) : Prop :=
  ∀ q, ∃ m, s q = { s₀ q with mMut := m } ∧
    (m = (s₀ q).mMut ∨ q ∈ swapMutexes this other ∧ m = some t)

/-- INTERNAL: writing a mutex. -/
theorem SameButLocks.set (h : SameButLocks t this other s s₀) {m' : Option Tid}
    (hm' : m' = (s₀ q).mMut ∨ q ∈ swapMutexes this other ∧ m' = some t) :
    SameButLocks t this other (setMut s q m') s₀ := by
  intro r
  obtain ⟨m, hm, hcase⟩ := h r
  unfold setMut
  by_cases hr : r = q
  · subst hr
    rw [Function.update_self]
    refine ⟨m', ?_, hm'⟩
    rw [hm]
  · rw [Function.update_of_ne hr]
    exact ⟨m, hm, hcase⟩

/-- INTERNAL: acquiring a mutex of an operand. -/
theorem SameButLocks.lock (h : SameButLocks t this other s s₀)
    (hq : q ∈ swapMutexes this other) : SameButLocks t this other (setMut s q (some t)) s₀ :=
  h.set (.inr ⟨hq, rfl⟩)

/-- INTERNAL: giving a mutex back that was free before the call. -/
theorem SameButLocks.unlock (h : SameButLocks t this other s s₀) (hfree : (s₀ q).mMut = none) :
    SameButLocks t this other (setMut s q none) s₀ :=
  h.set (.inl hfree.symm)

/-- INTERNAL: the exchange under the locks. -/
theorem SameButLocks.exchange (h : SameButLocks t this other s s₀) :
    SameButLocks t this other (exchangeStacks s this other)
      (exchangeStacks s₀ this other) := by
  intro r
  obtain ⟨m, hm, hcase⟩ := h r
  obtain ⟨m₁, hthis, -⟩ := h this
  obtain ⟨m₂, hother, -⟩ := h other
  unfold exchangeStacks
  by_cases hr : r = other
  · subst hr
    rw [Function.update_self, Function.update_self]
    exact ⟨m, by rw [hm, hthis], hcase⟩
  · rw [Function.update_of_ne hr, Function.update_of_ne hr]
    by_cases hr' : r = this
    · subst hr'
      rw [Function.update_self, Function.update_self]
      exact ⟨m, by rw [hm, hother], hcase⟩
    · rw [Function.update_of_ne hr', Function.update_of_ne hr']
      exact ⟨m, hm, hcase⟩

omit [DecidableEq Obj] in
/-- INTERNAL: without locks the states are the same. -/
theorem SameButLocks.eq (h : SameButLocks t this other s s₀)
    (hnone : ∀ q ∈ swapMutexes this other, (s q).mMut ≠ some t) : s = s₀ := by
  funext r
  obtain ⟨m, hm, hcase⟩ := h r
  rcases hcase with rfl | ⟨hr, rfl⟩
  · exact hm
  · refine absurd ?_ (hnone r hr)
    rw [hm]

/-- INTERNAL: the exchange leaves the mutexes alone. -/
theorem exchangeStacks_mMut (s : Obj → Shared Tid T) (this other q : Obj) :
    (exchangeStacks s this other q).mMut = (s q).mMut := by
  unfold exchangeStacks
  by_cases hq : q = other
  · subst hq
    rw [Function.update_self]
  · rw [Function.update_of_ne hq]
    by_cases hq' : q = this
    · subst hq'
      rw [Function.update_self]
    · rw [Function.update_of_ne hq']

/-- The contents of both operands are exchanged, and nothing else changes. -/
theorem exchangeStacks_spec (s : Obj → Shared Tid T) (this other : Obj) :
    exchangeStacks s this other this = { s this with mStack := (s other).mStack } ∧
      exchangeStacks s this other other = { s other with mStack := (s this).mStack } ∧
      ∀ q, q ≠ this → q ≠ other → exchangeStacks s this other q = s q := by
  unfold exchangeStacks
  refine ⟨?_, Function.update_self .., fun q hq hq' => ?_⟩
  · by_cases h : this = other
    · subst h
      rw [Function.update_self]
    · rw [Function.update_of_ne h, Function.update_self]
  · rw [Function.update_of_ne hq', Function.update_of_ne hq]

end Swapping

section Runs

variable [DecidableEq Tid]

/-- Only thread `t` steps, and its call has not returned. -/
def swapping (t : Tid) : Config Tid (SwapPc Obj) (Obj → Shared Tid T) →
    Tid × Option (SwapCall Obj) → Prop :=
  fun c e => e.1 = t ∧ c.pc t ≠ .returning

/-- What the call that thread `t` has just entered is to do: it locks its mutexes safely, it
returns, and when it has returned the contents are exchanged and all else is as before. -/
structure SwapTolerates (c : Config Tid (SwapPc Obj) (Obj → Shared Tid T)) (t : Tid)
    (this other : Obj) : Prop where
  locksSafely : ∀ attempts todo held,
    LockRun (swapMutexes this other) attempts todo held → NeverOwned attempts
  returns : ∃ tr c', Run SwapStep (swapping t) c tr c' ∧ c'.pc t = .returning
  exchanges : ∀ tr c', Run SwapStep (swapping t) c tr c' → c'.pc t = .returning →
    c'.sh = exchangeStacks c.sh this other

variable {c : Config Tid (SwapPc Obj) (Obj → Shared Tid T)} {t : Tid} {this other : Obj}

/-- Where the call is, and what it has done by then. -/
def SwapInv (s₀ : Obj → Shared Tid T) (t : Tid) (this other : Obj) :
    SwapPc Obj → (Obj → Shared Tid T) → Prop
  | .acquire a b, s => a = this ∧ b = other ∧ SameButLocks t this other s s₀
  | .exchange a b, s => a = this ∧ b = other ∧ SameButLocks t this other s s₀
  | .release a b, s =>
    a = this ∧ b = other ∧ SameButLocks t this other s (exchangeStacks s₀ this other)
  | .returning, s => s = exchangeStacks s₀ this other
  | .idle, _ => False

omit [DecidableEq Tid] in
/-- INTERNAL: every step of the call keeps to it. -/
theorem swapStep_inv {s₀ s s' : Obj → Shared Tid T} {p p' : SwapPc Obj}
    {l : Option (SwapCall Obj)} (hfree : ∀ q ∈ swapMutexes this other, (s₀ q).mMut = none)
    (hp : p ≠ .returning) (h : SwapInv s₀ t this other p s) (hs : SwapStep t p s l p' s') :
    SwapInv s₀ t this other p' s' := by
  cases hs with
  | call => exact False.elim h
  | ret => exact absurd rfl hp
  | acquire hq _ =>
    obtain ⟨rfl, rfl, hsame⟩ := h
    exact ⟨rfl, rfl, hsame.lock hq⟩
  | backOff hq _ =>
    obtain ⟨rfl, rfl, hsame⟩ := h
    exact ⟨rfl, rfl, hsame.unlock (hfree _ hq)⟩
  | enter _ _ => exact h
  | exchange =>
    obtain ⟨rfl, rfl, hsame⟩ := h
    exact ⟨rfl, rfl, hsame.exchange⟩
  | release hq _ =>
    obtain ⟨rfl, rfl, hsame⟩ := h
    refine ⟨rfl, rfl, hsame.unlock ?_⟩
    rw [exchangeStacks_mMut]
    exact hfree _ hq
  | released hnone =>
    obtain ⟨rfl, rfl, hsame⟩ := h
    exact hsame.eq hnone

/-- INTERNAL: a call that returns has exchanged the contents. -/
theorem swap_exchanges (hpc : c.pc t = .acquire this other)
    (hfree : ∀ q ∈ swapMutexes this other, (c.sh q).mMut = none)
    {tr : List (Tid × Option (SwapCall Obj))}
    {c' : Config Tid (SwapPc Obj) (Obj → Shared Tid T)} (h : Run SwapStep (swapping t) c tr c') :
    SwapInv c.sh t this other (c'.pc t) c'.sh := by
  apply h.invariant (fun c' => SwapInv c.sh t this other (c'.pc t) c'.sh)
  · rw [hpc]
    exact ⟨rfl, rfl, fun q => ⟨_, rfl, .inl rfl⟩⟩
  · intro c₁ e c₂ hI hG hs
    obtain ⟨hP⟩ := hs
    rename_i u l p' s'
    obtain ⟨rfl, hp⟩ := hG
    have hown : Function.update c₁.pc u p' u = p' := Function.update_self ..
    show SwapInv c.sh u this other (Function.update c₁.pc u p' u) s'
    rw [hown]
    exact swapStep_inv hfree hp hI hP

/-- Thread `t`, stepping alone, has come to the control point `p` with the stacks `s`. -/
def Comes (c : Config Tid (SwapPc Obj) (Obj → Shared Tid T)) (t : Tid) (p : SwapPc Obj)
    (s : Obj → Shared Tid T) : Prop :=
  ∃ tr c', Run SwapStep (swapping t) c tr c' ∧ c'.pc t = p ∧ c'.sh = s

/-- INTERNAL: one more step of the thread. -/
theorem Comes.step {p p' : SwapPc Obj} {s s' : Obj → Shared Tid T}
    {l : Option (SwapCall Obj)} (h : Comes c t p s) (hp : p ≠ .returning)
    (hs : SwapStep t p s l p' s') : Comes c t p' s' := by
  obtain ⟨tr, c', hr, rfl, rfl⟩ := h
  exact ⟨_, _, hr.snoc t ⟨rfl, hp⟩ hs, Function.update_self .., rfl⟩

/-- INTERNAL: the call on two stacks returns. -/
theorem swap_returns (hne : this ≠ other) (hpc : c.pc t = .acquire this other)
    (hfree : ∀ q ∈ swapMutexes this other, (c.sh q).mMut = none) :
    ∃ s, Comes c t .returning s := by
  have hthis : this ∈ swapMutexes this other := List.mem_cons_self
  have hother : other ∈ swapMutexes this other := List.mem_cons_of_mem _ (List.mem_singleton_self _)
  have h₀ : Comes c t (.acquire this other) c.sh := ⟨[], c, .nil, hpc, rfl⟩
  have h₁ := h₀.step (by simp) (.acquire hthis (hfree this hthis))
  have h₂ := h₁.step (by simp) (.acquire hother (by
    unfold setMut
    rw [Function.update_of_ne (Ne.symm hne)]
    exact hfree other hother))
  have h₃ := h₂.step (by simp) (.enter (by simpa [swapMutexes] using hne) (by
    intro q hq
    rcases List.mem_pair.mp hq with rfl | rfl
    · simp [setMut, Function.update_of_ne hne]
    · simp [setMut]))
  have h₄ := h₃.step (by simp) .exchange
  have h₅ := h₄.step (by simp) (.release hthis (by
    rw [exchangeStacks_mMut]
    simp [setMut, Function.update_of_ne hne]))
  have h₆ := h₅.step (by simp) (.release hother (by
    unfold setMut
    rw [Function.update_of_ne (Ne.symm hne)]
    exact (exchangeStacks_mMut _ _ _ _).trans (by rw [Function.update_self])))
  have h₇ := h₆.step (by simp) (.released (by
    intro q hq
    rcases List.mem_pair.mp hq with rfl | rfl
    · simp [setMut, Function.update_of_ne hne]
    · simp [setMut]))
  exact ⟨_, h₇⟩

/-- **Swapping is tolerated for two stacks** and for no stack and itself. -/
theorem swapTolerates_iff (hpc : c.pc t = .acquire this other)
    (hfree : ∀ q ∈ swapMutexes this other, (c.sh q).mMut = none) :
    SwapTolerates c t this other ↔ this ≠ other := by
  have hnodup : (swapMutexes this other).Nodup ↔ this ≠ other := by
    unfold swapMutexes
    simp
  constructor
  · exact fun h => hnodup.mp ((neverOwned_iff_nodup _).mp h.locksSafely)
  · intro hne
    refine ⟨(neverOwned_iff_nodup _).mpr (hnodup.mpr hne), ?_, ?_⟩
    · obtain ⟨s, tr, c', hr, hret, -⟩ := swap_returns hne hpc hfree
      exact ⟨tr, c', hr, hret⟩
    · intro tr c' hr hret
      have h := swap_exchanges hpc hfree hr
      rw [hret] at h
      exact h

end Runs

end UbuntuProjects.TsStack
