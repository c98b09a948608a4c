import Mathlib.Data.List.Perm.Basic
import Mathlib.Data.List.Nodup

/-!
# Locking several mutexes

What `std::lock` may do with the mutexes it is given: lock or try to lock one that it has
not yet locked, fail to, and unlock one again, in any order (`LockRun`). A list of mutexes
may name one twice. That is safe exactly when it does not: whatever the order, a thread that
locks everything in a list with a repetition tries to lock a mutex that it owns.
-/

set_option autoImplicit false

namespace Concurrency

variable {M : Type}

/-- The attempts to lock one of the mutexes `ms`, each with the mutexes held at that time,
then what is still to be locked and what is held. -/
inductive LockRun (ms : List M) : List (M × List M) → List M → List M → Prop
  | start : LockRun ms [] ms []
  | locks {attempts : List (M × List M)} {l₁ l₂ held : List M} {m : M} :
      LockRun ms attempts (l₁ ++ m :: l₂) held →
      LockRun ms (attempts ++ [(m, held)]) (l₁ ++ l₂) (m :: held)
  | fails {attempts : List (M × List M)} {todo held : List M} {m : M} :
      LockRun ms attempts todo held → m ∈ todo →
      LockRun ms (attempts ++ [(m, held)]) todo held
  | unlocks {attempts : List (M × List M)} {todo h₁ h₂ : List M} {m : M} :
      LockRun ms attempts todo (h₁ ++ m :: h₂) →
      LockRun ms attempts (m :: todo) (h₁ ++ h₂)

/-- No attempt is made on a mutex that is held. -/
def NeverOwned (attempts : List (M × List M)) : Prop :=
  ∀ a ∈ attempts, a.1 ∉ a.2

variable {ms todo held : List M} {attempts : List (M × List M)}

/-- INTERNAL: what is held and what is still to be locked are the given mutexes. -/
theorem LockRun.perm (h : LockRun ms attempts todo held) : (todo ++ held).Perm ms := by
  induction h with
  | start => rw [List.append_nil]
  | @locks _ l₁ l₂ held m _ ih =>
    have hswap : (l₁ ++ l₂ ++ m :: held).Perm (l₁ ++ m :: l₂ ++ held) := by
      rw [List.append_assoc, List.append_assoc]
      exact List.Perm.append_left l₁ List.perm_middle
    exact hswap.trans ih
  | fails _ _ ih => exact ih
  | @unlocks _ todo h₁ h₂ m _ ih =>
    have hswap : (m :: todo ++ (h₁ ++ h₂)).Perm (todo ++ (h₁ ++ m :: h₂)) := by
      rw [← List.append_assoc, ← List.append_assoc]
      exact List.perm_middle.symm
    exact hswap.trans ih

/-- Distinct mutexes: no attempt is made on one that is held. -/
theorem LockRun.neverOwned (hms : ms.Nodup) (h : LockRun ms attempts todo held) :
    NeverOwned attempts := by
  have hdisjoint : ∀ {attempts : List (M × List M)} {todo held : List M},
      LockRun ms attempts todo held → ∀ m ∈ todo, m ∉ held := by
    intro attempts todo held h m hm hheld
    have hnodup : (todo ++ held).Nodup := h.perm.nodup_iff.mpr hms
    exact List.disjoint_of_nodup_append hnodup hm hheld
  induction h with
  | start => exact fun a ha => absurd ha List.not_mem_nil
  | locks hr ih =>
    intro a ha
    rcases List.mem_append.mp ha with hold | hnew
    · exact ih a hold
    · rw [List.mem_singleton.mp hnew]
      exact hdisjoint hr _ (List.mem_append_right _ List.mem_cons_self)
  | fails hr hm ih =>
    intro a ha
    rcases List.mem_append.mp ha with hold | hnew
    · exact ih a hold
    · rw [List.mem_singleton.mp hnew]
      exact hdisjoint hr _ hm
  | unlocks _ ih => exact ih

/-- INTERNAL: without an attempt on a mutex that is held none is held twice. -/
theorem LockRun.nodup_held (h : LockRun ms attempts todo held) (hnever : NeverOwned attempts) :
    held.Nodup := by
  induction h with
  | start => exact List.nodup_nil
  | locks _ ih =>
    have hold := ih fun a ha => hnever a (List.mem_append_left _ ha)
    have hnew := hnever _ (List.mem_append_right _ (List.mem_singleton_self _))
    exact List.nodup_cons.mpr ⟨hnew, hold⟩
  | fails _ _ ih => exact ih fun a ha => hnever a (List.mem_append_left _ ha)
  | unlocks _ ih => exact (List.nodup_middle.mp (ih hnever)).of_cons

/-- INTERNAL: all mutexes can be locked one after another. -/
theorem exists_lockRun (ms : List M) : ∃ attempts held, LockRun ms attempts [] held := by
  have h : ∀ (rest : List M) {attempts : List (M × List M)} {held : List M},
      LockRun ms attempts rest held → ∃ attempts held, LockRun ms attempts [] held := by
    intro rest
    induction rest with
    | nil => exact fun hr => ⟨_, _, hr⟩
    | cons m rest ih =>
      intro attempts held hr
      have hfront : LockRun ms attempts ([] ++ m :: rest) held := hr
      exact ih hfront.locks
  exact h ms .start

/-- **A repetition is an attempt on an owned mutex**, in whatever way all are locked. -/
theorem LockRun.nodup_of_neverOwned (h : LockRun ms attempts [] held)
    (hnever : NeverOwned attempts) : ms.Nodup :=
  h.perm.nodup_iff.mp (h.nodup_held hnever)

/-- **When several mutexes can be locked safely.** -/
theorem neverOwned_iff_nodup (ms : List M) :
    (∀ attempts todo held, LockRun ms attempts todo held → NeverOwned attempts) ↔ ms.Nodup := by
  constructor
  · intro h
    obtain ⟨attempts, held, hr⟩ := exists_lockRun ms
    exact hr.nodup_of_neverOwned (h _ _ _ hr)
  · exact fun hms attempts todo held hr => hr.neverOwned hms

end Concurrency
