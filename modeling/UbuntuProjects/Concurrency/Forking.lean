import Mathlib.Data.List.Basic

/-!
# Trees of processes

Processes that share nothing but the table of all of them: a process is its index in the
table, a step of one may read the whole table, moves that process on and adds the processes
it forks at the end. `ForkRun` interleaves their steps in any order.

Properties of all processes are proved one process at a time (`ForkRun.each`), together with
the labels of the steps that the process itself has taken.
-/

set_option autoImplicit false

namespace Concurrency

/-- The steps of one process: the table, where the process is, the label, where it is then
and the processes it forks. -/
abbrev ForkProgram (Pc Lab : Type) : Type :=
  List Pc → Pc → Lab → Pc → List Pc → Prop

variable {Pc Lab : Type}

/-- One process takes one step; the others stay. -/
inductive ForkStep (P : ForkProgram Pc Lab) : List Pc → ℕ × Lab → List Pc → Prop
  | mk {ps : List Pc} {i : ℕ} {p p' : Pc} {l : Lab} {new : List Pc} :
      ps[i]? = some p → P ps p l p' new → ForkStep P ps (i, l) (ps.set i p' ++ new)

/-- The runs from `ps₀` whose steps all satisfy the guard `G`, with the labels in order. -/
inductive ForkRun (P : ForkProgram Pc Lab) (G : List Pc → ℕ × Lab → Prop) (ps₀ : List Pc) :
    List (ℕ × Lab) → List Pc → Prop
  | nil : ForkRun P G ps₀ [] ps₀
  | step {tr : List (ℕ × Lab)} {ps ps' : List Pc} {e : ℕ × Lab} :
      ForkRun P G ps₀ tr ps → G ps e → ForkStep P ps e ps' →
        ForkRun P G ps₀ (tr ++ [e]) ps'

/-- The labels of the steps that process `i` has taken. -/
def ownLabels (i : ℕ) (tr : List (ℕ × Lab)) : List Lab :=
  (tr.filter fun e => e.1 == i).map Prod.snd

/-- INTERNAL: a step of another process. -/
theorem ownLabels_append_of_ne {i j : ℕ} (hne : j ≠ i) (tr : List (ℕ × Lab)) (l : Lab) :
    ownLabels i (tr ++ [(j, l)]) = ownLabels i tr := by
  unfold ownLabels
  have hfalse : (j == i) = false := beq_false_of_ne hne
  rw [List.filter_append, List.filter_singleton, hfalse]
  simp

/-- INTERNAL: a step of the process itself. -/
theorem ownLabels_append_self (i : ℕ) (tr : List (ℕ × Lab)) (l : Lab) :
    ownLabels i (tr ++ [(i, l)]) = ownLabels i tr ++ [l] := by
  unfold ownLabels
  rw [List.filter_append, List.filter_singleton, beq_self_eq_true]
  simp

theorem mem_ownLabels {i : ℕ} {l : Lab} {tr : List (ℕ × Lab)} :
    l ∈ ownLabels i tr ↔ (i, l) ∈ tr := by
  unfold ownLabels
  simp

section Runs

variable {P : ForkProgram Pc Lab} {G : List Pc → ℕ × Lab → Prop} {ps₀ ps : List Pc}
  {tr : List (ℕ × Lab)}

/-- One more step taken by process `i`. -/
theorem ForkRun.snoc {l : Lab} {p p' : Pc} {new : List Pc} (h : ForkRun P G ps₀ tr ps) (i : ℕ)
    (hp : ps[i]? = some p) (hG : G ps (i, l)) (hP : P ps p l p' new) :
    ForkRun P G ps₀ (tr ++ [(i, l)]) (ps.set i p' ++ new) :=
  .step h hG (.mk hp hP)

/-- Only processes of the table have taken steps. -/
theorem ForkRun.ownLabels_of_le (h : ForkRun P G ps₀ tr ps) :
    ∀ i, ps.length ≤ i → ownLabels i tr = [] := by
  induction h with
  | nil => exact fun i _ => rfl
  | step _ _ hs ih =>
    obtain ⟨hp, -⟩ := hs
    rename_i i p p' l new
    obtain ⟨hlt, -⟩ := List.getElem?_eq_some_iff.mp hp
    intro j hj
    rw [List.length_append, List.length_set] at hj
    rw [ownLabels_append_of_ne (by omega)]
    exact ih j (by omega)

/-- **One process at a time.** What holds of the processes at the start and of every forked
process, and is kept for a process by each of its own steps, holds of all processes. -/
theorem ForkRun.each (I : ℕ → List Lab → Pc → Prop)
    (h₀ : ∀ i p, ps₀[i]? = some p → I i [] p)
    (hnew : ∀ ps i p l p' new, G ps (i, l) → P ps p l p' new →
      ∀ j q, 0 < j → q ∈ new → I j [] q)
    (hown : ∀ ps i ls p l p' new, I i ls p → G ps (i, l) → P ps p l p' new →
      I i (ls ++ [l]) p')
    (h : ForkRun P G ps₀ tr ps) :
    ∀ i p, ps[i]? = some p → I i (ownLabels i tr) p := by
  induction h with
  | nil => exact h₀
  | step hr hG hs ih =>
    have hnone := hr.ownLabels_of_le
    obtain ⟨hp, hP⟩ := hs
    rename_i ps i p p' l new
    obtain ⟨hlt, -⟩ := List.getElem?_eq_some_iff.mp hp
    intro j q hq
    by_cases hj : j < ps.length
    · rw [List.getElem?_append_left (by rw [List.length_set]; exact hj)] at hq
      by_cases hji : j = i
      · subst hji
        rw [List.getElem?_set_self hlt] at hq
        obtain rfl := Option.some.inj hq
        rw [ownLabels_append_self]
        exact hown _ _ _ _ _ _ _ (ih j p hp) hG hP
      · rw [List.getElem?_set_ne (Ne.symm hji)] at hq
        rw [ownLabels_append_of_ne (Ne.symm hji)]
        exact ih j q hq
    · -- a process that has just been forked
      rw [List.getElem?_append_right (by rw [List.length_set]; omega)] at hq
      rw [ownLabels_append_of_ne (by omega), hnone j (by omega)]
      exact hnew _ _ _ _ _ _ hG hP j q (by omega) (List.mem_of_getElem? hq)

end Runs

end Concurrency
