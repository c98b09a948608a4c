import Mathlib.Data.Set.Finite.Lemmas
import Mathlib.Data.ZMod.Defs
import UbuntuProjects.Analysis.HierarchyMutexInvariant

/-!
# `hierarchy_mutex`: no deadlock

A thread that waits in `mut_.lock` has passed `check`, so it waits for a mutex whose
hierarchy is below its value. If the owner waits as well, the owner's value is at most that
hierarchy. So along a circle of waiting threads the values would descend for ever, but a
run moves only finitely many threads (`no_deadlock`).
-/

set_option autoImplicit false

namespace UbuntuProjects.HierarchyMutex

open Concurrency (Config Run)

variable {Tid M α : Type} [LinearOrder α] [OrderTop α]

/-- Thread `t` is blocked in `mut_.lock` on a mutex that `u` owns. -/
def WaitsFor (c : Config Tid (Pc M) (Shared Tid M α)) (t u : Tid) : Prop :=
  ∃ m, c.pc t = .take .lock m ∧ c.sh.mut_ m = some u

/-- The value of a thread is above that of a waiting thread that it waits for. -/
theorem Bookkeeping.descends {hierarchy : M → α} {L : Tid → List M}
    {c : Config Tid (Pc M) (Shared Tid M α)} (h : Bookkeeping hierarchy L c) {t u v : Tid}
    (htu : WaitsFor c t u) (huv : WaitsFor c u v) : c.sh.thisThreadH u < c.sh.thisThreadH t := by
  obtain ⟨m, hpc, howner⟩ := htu
  obtain ⟨m', hpc', -⟩ := huv
  have ht := (h t).stands
  rw [hpc] at ht
  obtain ⟨-, hv, hlt⟩ := ht
  have hu := (h u).stands
  rw [hpc'] at hu
  obtain ⟨hc, hv', -⟩ := hu
  calc c.sh.thisThreadH u = lowest hierarchy (L u) := hv'
    _ ≤ hierarchy m := hc.lowest_le (((h u).owns m).mpr howner)
    _ < lowest hierarchy (L t) := hlt
    _ = c.sh.thisThreadH t := hv.symm

/-- **No deadlock.** In every run in which threads only unlock mutexes that they own, no set
of threads is blocked each on a mutex that a thread of the set owns. -/
theorem no_deadlock [DecidableEq Tid] [DecidableEq M] [Zero α] (hierarchy : M → α) {tr : List (Tid × Lab M)}
    {c : Config Tid (Pc M) (Shared Tid M α)}
    (h : Run (MutexStep hierarchy) UnlocksOwned (start Tid M α) tr c) (S : Set Tid)
    (hne : S.Nonempty) : ¬∀ t ∈ S, ∃ u ∈ S, WaitsFor c t u := by
  intro hwait
  have hrun := bookkeeping_run h
  -- whoever waits has moved
  have hfin : S.Finite := by
    refine h.finite_moved.subset fun t ht => ?_
    obtain ⟨u, -, m, hpc, -⟩ := hwait t ht
    show c.pc t ≠ .idle
    rw [hpc]
    simp
  obtain ⟨t, ht, hmin⟩ := Set.exists_min_image S c.sh.thisThreadH hfin hne
  obtain ⟨u, hu, htu⟩ := hwait t ht
  obtain ⟨v, -, huv⟩ := hwait u hu
  exact absurd (hmin u hu) (not_le_of_gt (hrun.descends htu huv))

/-- A thread that has locked a mutex of hierarchy 1000 waits for one of hierarchy 500 that
another thread has locked. -/
theorem no_deadlock_waiting :
    ∃ (tr : List (Bool × Lab (Fin 2000)))
      (c : Config Bool (Pc (Fin 2000)) (Shared Bool (Fin 2000) (Fin 2000))),
      Run (MutexStep id) UnlocksOwned (start Bool (Fin 2000) (Fin 2000)) tr c ∧
      WaitsFor c true false ∧
      ¬∀ t ∈ ({true, false} : Set Bool), ∃ u ∈ ({true, false} : Set Bool), WaitsFor c t u := by
  have h₀ : Run (MutexStep id) UnlocksOwned (start Bool (Fin 2000) (Fin 2000)) [] _ := .nil
  have h₁ := h₀.snoc true (fun m h => by cases h) (.call _ (.lock 1000))
  have h₂ := h₁.snoc true (fun m h => by cases h) (.checkPass (by decide))
  have h₃ := h₂.snoc true (fun m h => by cases h) (.take rfl)
  have h₄ := h₃.snoc true (fun m h => by cases h) (.storePrev _ _ _)
  have h₅ := h₄.snoc true (fun m h => by cases h) (.storeThis _ _ _)
  have h₆ := h₅.snoc true (fun m h => by cases h) (.ret _ _)
  have h₇ := h₆.snoc false (fun m h => by cases h) (.call _ (.lock 500))
  have h₈ := h₇.snoc false (fun m h => by cases h) (.checkPass (by decide))
  have h₉ := h₈.snoc false (fun m h => by cases h) (.take (by decide))
  have h₁₀ := h₉.snoc true (fun m h => by cases h) (.call _ (.lock 500))
  have h₁₁ := h₁₀.snoc true (fun m h => by cases h) (.checkPass (by decide))
  exact ⟨_, _, h₁₁, ⟨500, rfl, by decide⟩, no_deadlock id h₁₁ _ (by simp)⟩

end UbuntuProjects.HierarchyMutex
