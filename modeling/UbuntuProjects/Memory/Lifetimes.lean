import Mathlib.Data.List.Perm.Basic
import Mathlib.Data.List.Count

/-!
# Lifetimes of objects

A record of the moments at which the lifetimes of objects begin and end is proper when no
object begins twice and only objects that are alive end (`Lifetimes`). At a moment when
nothing is alive every object that has begun has ended exactly once
(`Lifetimes.ended_once`).
-/

set_option autoImplicit false

namespace Memory

/-- What happens to an object. -/
inductive Life (α : Type) where
  | begins (o : α)
  | ends (o : α)
  deriving DecidableEq

variable {α : Type}

/-- The record is proper, and the objects of the second list are alive. -/
inductive Lifetimes : List (Life α) → List α → Prop
  | nil : Lifetimes [] []
  | begins {log : List (Life α)} {live : List α} {o : α} : Lifetimes log live →
      .begins o ∉ log → Lifetimes (log ++ [.begins o]) (o :: live)
  | ends {log : List (Life α)} {live : List α} {o : α} : Lifetimes log (o :: live) →
      Lifetimes (log ++ [.ends o]) live
  | perm {log : List (Life α)} {live live' : List α} : Lifetimes log live →
      live.Perm live' → Lifetimes log live'

/-- Several objects end one after another. -/
theorem Lifetimes.ends_all {log : List (Life α)} {os live : List α}
    (h : Lifetimes log (os ++ live)) : Lifetimes (log ++ os.map .ends) live := by
  induction os generalizing log with
  | nil => simpa using h
  | cons o os ih =>
    have h' : Lifetimes ((log ++ [.ends o]) ++ os.map .ends) live := ih h.ends
    rwa [List.append_assoc] at h'

section Counts

variable [DecidableEq α] {log : List (Life α)} {live : List α}

/-- Nothing begins twice. -/
theorem Lifetimes.count_begins_le (h : Lifetimes log live) (o : α) :
    log.count (.begins o) ≤ 1 := by
  induction h with
  | nil => exact Nat.zero_le 1
  | @begins log live o' _ hnew ih =>
    rw [List.count_append, List.count_singleton]
    by_cases ho : o' = o
    · subst ho
      rw [List.count_eq_zero_of_not_mem hnew]
      simp
    · simpa [ho] using ih
  | ends _ ih => simpa [List.count_append, List.count_singleton] using ih
  | perm _ _ ih => exact ih

/-- What has begun has ended or is alive. -/
theorem Lifetimes.count_begins (h : Lifetimes log live) (o : α) :
    log.count (.begins o) = log.count (.ends o) + live.count o := by
  induction h with
  | nil => rfl
  | @begins log live o' _ _ ih =>
    simp only [List.count_append, List.count_cons, ih]
    by_cases ho : o' = o
    · simp [ho]
      omega
    · simp [ho]
  | @ends log live o' _ ih =>
    simp only [List.count_append, List.count_cons] at ih ⊢
    by_cases ho : o' = o
    · simp [ho] at ih ⊢
      omega
    · simp [ho] at ih ⊢
      omega
  | perm _ hp ih => rw [ih, hp.count_eq]

/-- When nothing is alive, what has begun has ended exactly once. -/
theorem Lifetimes.ended_once (h : Lifetimes log []) {o : α} (ho : .begins o ∈ log) :
    log.count (.begins o) = 1 ∧ log.count (.ends o) = 1 := by
  have hle := h.count_begins_le o
  have hpos : 0 < log.count (.begins o) := List.count_pos_iff.mpr ho
  have heq := h.count_begins o
  rw [List.count_nil, Nat.add_zero] at heq
  omega

end Counts

end Memory
