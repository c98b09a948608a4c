import Mathlib.Algebra.Order.Ring.Nat

/-!
# Adding up numbers while they change

A thread adds up the numbers of a list one after the other. Between two of its steps others
may change one of the numbers by one, in front of the thread or behind it (`Drifts`). What
the thread would find if nothing changed any more is its estimate of the total
(`estimate`): adding the next number keeps it.

The result need not be a total that the list ever had. If the total goes in one direction
only, the estimate follows it and does not overtake it, and as the total changes by one at
most, every number between the two has been the total once (`Trails`).
-/

set_option autoImplicit false

namespace Concurrency

/-! ## Estimates -/

/-- One of the numbers may change by one. -/
inductive Drifts (ns : List ℕ) : List ℕ → Prop
  | stay : Drifts ns ns
  | change {j a b : ℕ} : ns[j]? = some a → a ≤ b + 1 → b ≤ a + 1 → Drifts ns (ns.set j b)

/-- What has been added up, and the numbers that are still to be added. -/
def estimate (sum i : ℕ) (ns : List ℕ) : ℕ := sum + (ns.drop i).sum

section Estimates

variable {ns : List ℕ} {sum i j a : ℕ}

/-- Replacing one number changes the total by as much. -/
theorem sum_set_add (h : ns[j]? = some a) (b : ℕ) : (ns.set j b).sum + a = ns.sum + b := by
  induction ns generalizing j with
  | nil => cases h
  | cons x xs ih =>
    cases j with
    | zero =>
      obtain rfl : x = a := by simpa using h
      simp only [List.set_cons_zero, List.sum_cons]
      omega
    | succ j =>
      have hxs := ih (j := j) (by simpa using h)
      simp only [List.set_cons_succ, List.sum_cons]
      omega

/-- There are as many numbers as before. -/
theorem Drifts.length {ns' : List ℕ} (h : Drifts ns ns') : ns'.length = ns.length := by
  cases h with
  | stay => rfl
  | change _ _ _ => exact List.length_set

/-- Before the first number the estimate is the total. -/
theorem estimate_zero (ns : List ℕ) : estimate 0 0 ns = ns.sum := by
  simp [estimate]

/-- Adding the next number keeps the estimate. -/
theorem estimate_visit (h : ns[i]? = some a) :
    estimate (sum + a) (i + 1) ns = estimate sum i ns := by
  obtain ⟨hi, rfl⟩ := List.getElem?_eq_some_iff.mp h
  unfold estimate
  rw [List.drop_eq_getElem_cons hi, List.sum_cons]
  omega

/-- Behind the last number the estimate is the result. -/
theorem estimate_length (sum : ℕ) (ns : List ℕ) : estimate sum ns.length ns = sum := by
  simp [estimate]

/-- The estimate changes as the total does if the number is still to be added, and stays if
it has been added. -/
theorem estimate_set (h : ns[j]? = some a) (b : ℕ) :
    estimate sum i (ns.set j b) = estimate sum i ns ∨
    estimate sum i (ns.set j b) + a = estimate sum i ns + b := by
  unfold estimate
  rw [List.drop_set]
  by_cases hj : j < i
  · rw [if_pos hj]
    exact .inl rfl
  · rw [if_neg hj]
    have hget : (ns.drop i)[j - i]? = some a := by
      rw [List.getElem?_drop, Nat.add_sub_cancel' (Nat.le_of_not_lt hj)]
      exact h
    have hset := sum_set_add hget b
    right
    omega

end Estimates

/-! ## Totals that go in one direction -/

/-- The directions in which a total may go. -/
inductive Direction where
  | up
  | down

/-- The second number is as far in the direction as the first, or farther. -/
def Direction.le : Direction → ℕ → ℕ → Prop
  | .up, a, b => a ≤ b
  | .down, a, b => b ≤ a

/-- The estimate has not overtaken the total, and whatever is between the two has been
seen. -/
structure Trails (d : Direction) (seen : ℕ → Prop) (est total : ℕ) : Prop where
  le : d.le est total
  seen : ∀ v, d.le est v → d.le v total → seen v

section Tracking

variable {d : Direction} {seen seen' : ℕ → Prop} {ns ns' : List ℕ} {sum i est total : ℕ}

theorem Direction.refl (d : Direction) (a : ℕ) : d.le a a := by
  cases d <;> exact Nat.le_refl a

theorem Direction.antisymm {a b : ℕ} (h : d.le a b) (h' : d.le b a) : a = b := by
  cases d with
  | up => exact Nat.le_antisymm h h'
  | down => exact Nat.le_antisymm h' h

/-- An estimate that is the total. -/
theorem trails_self (h : seen total) : Trails d seen total total :=
  ⟨d.refl total, fun _ hle hle' => d.antisymm hle hle' ▸ h⟩

/-- What has been seen stays seen. -/
theorem Trails.mono (hseen : ∀ v, seen v → seen' v) (h : Trails d seen est total) :
    Trails d seen' est total :=
  ⟨h.le, fun v hle hle' => hseen v (h.seen v hle hle')⟩

/-- The estimate itself has been seen. -/
theorem Trails.found (h : Trails d seen est total) : seen est :=
  h.seen est (d.refl est) h.le

/-- The estimate follows a total that goes in the direction. -/
theorem Trails.drift (h : Trails d seen (estimate sum i ns) ns.sum) (hdrift : Drifts ns ns')
    (hle : d.le ns.sum ns'.sum) (hseen : seen ns'.sum) :
    Trails d seen (estimate sum i ns') ns'.sum := by
  cases hdrift with
  | stay => exact h
  | @change j a b hget hab hba =>
    have htotal := sum_set_add hget b
    have hest : estimate sum i (ns.set j b) = estimate sum i ns ∨
        estimate sum i (ns.set j b) + a = estimate sum i ns + b := estimate_set hget b
    have hold := h.le
    -- a number between the new estimate and the new total is the new total or was seen before
    constructor
    · cases d <;> simp only [Direction.le] at * <;> omega
    · intro v hv hv'
      by_cases heq : v = (ns.set j b).sum
      · rw [heq]
        exact hseen
      · refine h.seen v ?_ ?_
        · cases d <;> simp only [Direction.le] at * <;> omega
        · cases d <;> simp only [Direction.le] at * <;> omega

end Tracking

end Concurrency
