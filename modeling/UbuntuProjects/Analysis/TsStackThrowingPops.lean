import UbuntuProjects.Analysis.TsStackWakeups
import Mathlib.Tactic.FinCases

/-!
# A waiting pop of `ts_stack` that throws

A pop that was woken by a notification and whose move assignment throws leaves its element
in the stack, and nobody is notified in its place: another waiter stays parked beside it
(`wakeup_swallowed`). This happens only where somebody is parked whom no notification still
to be issued will reach, and the elements are not paid for without the thread that throws
(`throwing_pop_swallows_nothing`).
-/

set_option autoImplicit false

namespace UbuntuProjects.TsStack

open Concurrency

variable {Tid T : Type}

/-- The pushes that notify and the pops that may wait. -/
def Op.mayWait (op : Op T) : Prop :=
  (∃ v, op = .pushAndNotifyOne v) ∨ op = .waitAndPop ∨ op = .waitForAndPop ∨
    op = .waitUntilAndPop

/-- Only these calls are made, and of the element operations only the move assignment of a
pop may throw. -/
def PopsMayThrow (_ : Config Tid (Pc T) (Shared Tid T)) (e : Tid × Lab T) : Prop :=
  (∀ op, e.2 = .call op → op.mayWait) ∧ e.2 ≠ .pushThrew

/-- The same, where a pop may throw only if this does no harm. -/
def SparedPopsMayThrow [DecidableEq Tid] (c : Config Tid (Pc T) (Shared Tid T))
    (e : Tid × Lab T) : Prop :=
  PopsMayThrow c e ∧ (e.2 = .popThrew → Spared c e.1)

/-- A push that has not finished, or a pop that has thrown and not finished. -/
def Pc.unfinished : Pc T → Prop
  | .lockPush _ _ => True
  | .push _ _ => True
  | .unlockPush _ _ => True
  | .notify _ _ => True
  | .unlock .threw => True
  | .returning .threw => True
  | .returning (.of .unit) => True
  | _ => False

/-- All pushes and throwing pops have finished, no notified thread is pending, and somebody is
parked although the stack is not empty. -/
structure Swallowed [DecidableEq Tid] (c : Config Tid (Pc T) (Shared Tid T)) : Prop where
  finished : ∀ t, ¬(c.pc t).unfinished
  pending : ∀ t, ¬Notified c t
  parked : c.sh.mCb ≠ []
  elements : c.sh.mStack ≠ []

/-- Threads 0 and 1 are parked, thread 2 pushes an element and wakes thread 0, whose move
assignment throws: thread 1 stays parked beside the element. -/
theorem wakeup_swallowed :
    ∃ (c : Config (Fin 3) (Pc ℕ) (Shared (Fin 3) ℕ)) (tr : List (Fin 3 × Lab ℕ)),
      Run TsStackStep PopsMayThrow (start (Fin 3) ℕ) tr c ∧ Swallowed c := by
  have hstep : ∀ (c : Config (Fin 3) (Pc ℕ) (Shared (Fin 3) ℕ)) (t : Fin 3),
      PopsMayThrow c (t, .step) := fun _ _ => ⟨fun _ h => (by cases h), by simp⟩
  have hthrew : ∀ (c : Config (Fin 3) (Pc ℕ) (Shared (Fin 3) ℕ)) (t : Fin 3),
      PopsMayThrow c (t, .popThrew) := fun _ _ => ⟨fun _ h => (by cases h), by simp⟩
  have hret : ∀ (c : Config (Fin 3) (Pc ℕ) (Shared (Fin 3) ℕ)) (t : Fin 3) (r : Outcome ℕ),
      PopsMayThrow c (t, .ret r) := fun _ _ _ => ⟨fun _ h => (by cases h), by simp⟩
  have hcall : ∀ (c : Config (Fin 3) (Pc ℕ) (Shared (Fin 3) ℕ)) (t : Fin 3) (op : Op ℕ),
      op.mayWait → PopsMayThrow c (t, .call op) := by
    refine fun _ _ op hop => ⟨fun op' h => ?_, by simp⟩
    obtain rfl : op = op' := by simpa using h
    exact hop
  have h₁ := (Run.nil : Run TsStackStep PopsMayThrow (start (Fin 3) ℕ) [] _).snoc
    0 (hcall _ _ .waitAndPop (.inr (.inl rfl))) (.client (.call _ _))
  have h₂ := h₁.snoc 0 (hstep _ _) (.pop (.lockPop rfl))
  have h₃ := h₂.snoc 0 (hstep _ _) (.pop (.wait rfl))
  have h₄ := h₃.snoc 0 (hstep _ _) (.pop .park)
  have h₅ := h₄.snoc 1 (hcall _ _ .waitAndPop (.inr (.inl rfl))) (.client (.call _ _))
  have h₆ := h₅.snoc 1 (hstep _ _) (.pop (.lockPop rfl))
  have h₇ := h₆.snoc 1 (hstep _ _) (.pop (.wait rfl))
  have h₈ := h₇.snoc 1 (hstep _ _) (.pop .park)
  have k₁ := h₈.snoc 2 (hcall _ _ (.pushAndNotifyOne 7) (.inl ⟨7, rfl⟩)) (.client (.call _ _))
  have k₂ := k₁.snoc 2 (hstep _ _) (.stack (.lockPush rfl))
  have k₃ := k₂.snoc 2 (hstep _ _) (.stack .push)
  have k₄ := k₃.snoc 2 (hstep _ _) (.stack .unlockPush)
  have k₅ := k₄.snoc 2 (hstep _ _) (.client (.notifyOne (u := 0) (by decide)))
  have k₆ := k₅.snoc 2 (hret _ _ _) (.client (.ret _ _))
  -- thread 0 finds the element, and moving it out throws
  have h₉ := k₆.snoc 0 (hstep _ _) (.pop (.notified (by decide)))
  have h₁₀ := h₉.snoc 0 (hstep _ _) (.pop (.relock rfl))
  have h₁₁ := h₁₀.snoc 0 (hthrew _ _) (.pop (@PopStep.popThrew _ _ _ _ _ _ _ _ _ [] [] [] 7 rfl rfl))
  have h₁₂ := h₁₁.snoc 0 (hstep _ _) (.stack .unlock)
  have h₁₃ := h₁₂.snoc 0 (hret _ _ _) (.client (.ret _ _))
  refine ⟨_, _, h₁₃, fun t => ?_, fun t => ?_, by decide, by decide⟩
  · fin_cases t <;> exact id
  · fin_cases t <;> decide

section Runs

variable [DecidableEq Tid] {c : Config Tid (Pc T) (Shared Tid T)} {tr : List (Tid × Lab T)}

/-- INTERNAL: pushes that notify and pops that may wait are paid for. -/
theorem Op.mayWait.paid {op : Op T} (h : op.mayWait) : op.paid := by
  rcases h with ⟨v, rfl⟩ | rfl | rfl | rfl
  · exact TsQueue.Notify.noConfusion
  · exact .inr (by simp)
  · exact .inr (by simp)
  · exact .inr (by simp)

/-- **A pop that throws swallows no wake-up** if, whenever one throws, the threads parked
un-notified are at most the elements whose notification is still to be issued, or the elements
in the stack are at most these plus the other threads notified and yet to test the predicate. -/
theorem throwing_pop_swallows_nothing (h : Run TsStackStep SparedPopsMayThrow (start Tid T) tr c) :
    ¬Swallowed c := by
  have hbooks : Books true c := books_run (h.mono fun _ _ hG =>
    ⟨fun op hop => (hG.1.1 op hop).paid, hG.1.2, fun hthrow => ⟨rfl, hG.2 hthrow⟩⟩)
  intro hsw
  have hrest := hbooks.rest fun t => ⟨hsw.pending t, by
    have hfin := hsw.finished t
    cases hpc : c.pc t with
    | unlockPush | notify =>
      rw [hpc] at hfin
      exact absurd trivial hfin
    | _ => rfl⟩
  rcases hrest with hcb | hst
  · exact hsw.parked hcb
  · exact hsw.elements hst

end Runs

/-- The only waiter is woken and its move assignment throws: nobody else is parked. -/
theorem throwing_pop_swallows_nothing_alone :
    ∃ (c : Config Bool (Pc ℕ) (Shared Bool ℕ)) (tr : List (Bool × Lab ℕ)),
      Run TsStackStep SparedPopsMayThrow (start Bool ℕ) tr c ∧
        c.pc false = .returning .threw ∧ c.sh.mStack = [7] ∧ ¬Swallowed c := by
  have hstep : ∀ (c : Config Bool (Pc ℕ) (Shared Bool ℕ)) (t : Bool),
      SparedPopsMayThrow c (t, .step) := fun _ _ =>
    ⟨⟨fun _ h => (by cases h), by simp⟩, fun h => (by cases h)⟩
  have hcall : ∀ (c : Config Bool (Pc ℕ) (Shared Bool ℕ)) (t : Bool) (op : Op ℕ),
      op.mayWait → SparedPopsMayThrow c (t, .call op) := by
    refine fun _ _ op hop => ⟨⟨fun op' h => ?_, by simp⟩, fun h => (by cases h)⟩
    obtain rfl : op = op' := by simpa using h
    exact hop
  have h₁ := (Run.nil : Run TsStackStep SparedPopsMayThrow (start Bool ℕ) [] _).snoc
    false (hcall _ _ .waitAndPop (.inr (.inl rfl))) (.client (.call _ _))
  have h₂ := h₁.snoc false (hstep _ _) (.pop (.lockPop rfl))
  have h₃ := h₂.snoc false (hstep _ _) (.pop (.wait rfl))
  have h₄ := h₃.snoc false (hstep _ _) (.pop .park)
  have k₁ := h₄.snoc true (hcall _ _ (.pushAndNotifyOne 7) (.inl ⟨7, rfl⟩)) (.client (.call _ _))
  have k₂ := k₁.snoc true (hstep _ _) (.stack (.lockPush rfl))
  have k₃ := k₂.snoc true (hstep _ _) (.stack .push)
  have k₄ := k₃.snoc true (hstep _ _) (.stack .unlockPush)
  have k₅ := k₄.snoc true (hstep _ _) (.client (.notifyOne (u := false) (by decide)))
  have h₅ := k₅.snoc false (hstep _ _) (.pop (.notified (by decide)))
  have h₆ := h₅.snoc false (hstep _ _) (.pop (.relock rfl))
  have h₇ := h₆.snoc false ⟨⟨fun _ h => (by cases h), by simp⟩, fun _ => .inl (by decide)⟩
    (.pop (@PopStep.popThrew _ _ _ _ _ _ _ _ _ [] [] [] 7 rfl rfl))
  have h₈ := h₇.snoc false (hstep _ _) (.stack .unlock)
  exact ⟨_, _, h₈, rfl, rfl, throwing_pop_swallows_nothing h₈⟩

end UbuntuProjects.TsStack
