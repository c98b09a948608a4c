import Mathlib.Logic.Function.Basic

/-!
# Mutexes that may be shared

A mutex that one thread holds exclusively or several threads share. The mutex is valid
if a thread that holds it exclusively is the only one that holds it; it stays so when it
is granted and when it is released.
-/

set_option autoImplicit false

namespace Concurrency

/-- How a thread holds a mutex. -/
inductive Hold where
  | free
  | shared
  | exclusive
  deriving DecidableEq

/-- A mutex: how each thread holds it. -/
abbrev SharedMutex (Tid : Type) : Type := Tid → Hold

namespace SharedMutex

variable {Tid : Type}

/-- Nobody holds the mutex. -/
def unlocked : SharedMutex Tid := fun _ => .free

/-- What a mutex grants at the moment: sharing if nobody holds it exclusively, and
exclusiveness if nobody holds it. -/
def Grants (m : SharedMutex Tid) : Hold → Prop
  | .free => True
  | .shared => ∀ u, m u ≠ .exclusive
  | .exclusive => ∀ u, m u = .free

/-- Whoever holds the mutex exclusively is the only one that holds it. -/
def Valid (m : SharedMutex Tid) : Prop := ∀ t u, m t = .exclusive → u ≠ t → m u = .free

theorem valid_unlocked : (unlocked : SharedMutex Tid).Valid := by
  intro t u ht _
  cases ht

variable {m : SharedMutex Tid} {t u : Tid} {h : Hold}

/-- Nobody holds a free mutex exclusively. -/
theorem not_exclusive_of_free (h : ∀ u, m u = .free) (u : Tid) : m u ≠ .exclusive := by
  rw [h u]
  decide

/-- While one thread shares the mutex nobody holds it exclusively. -/
theorem Valid.not_exclusive_of_shared (hm : m.Valid) (ht : m t = .shared) (u : Tid) :
    m u ≠ .exclusive := by
  intro hex
  by_cases hut : t = u
  · rw [← hut, ht] at hex
    cases hex
  · have hfree := hm u t hex hut
    rw [ht] at hfree
    cases hfree

variable [DecidableEq Tid]

/-- Taking a mutex as it is granted. -/
theorem Valid.lock (hm : m.Valid) (hg : m.Grants h) :
    SharedMutex.Valid (Function.update m t h) := by
  intro a b ha hb
  by_cases hat : a = t
  · subst hat
    rw [Function.update_self] at ha
    subst ha
    rw [Function.update_of_ne hb]
    exact hg b
  · rw [Function.update_of_ne hat] at ha
    by_cases hbt : b = t
    · subst hbt
      rw [Function.update_self]
      -- `a` holds the mutex exclusively, so nothing but `free` was granted
      cases h with
      | free => rfl
      | shared => exact absurd ha (hg a)
      | exclusive => cases ha.symm.trans (hg a)
    · rw [Function.update_of_ne hbt]
      exact hm a b ha hb

end SharedMutex

end Concurrency
