import Mathlib.Data.List.Nodup
import Mathlib.Data.List.Perm.Basic

/-!
# Things that are in one place

Numbered things are held in places, each place holding a list of them. In good custody
(`Custody`) every thing issued so far is held exactly once, in one place (`HeldOnce`), and no
other thing is held at all. Issuing a new thing keeps custody, and so does handing some of the
things of one place over to another, wherever they stood in the one and come to stand in the
other.
-/

set_option autoImplicit false

namespace Concurrency

variable {K : Type} {f f' : K → List ℕ} {n : ℕ}

/-- The place `k` holds `x`, once, and no other place holds it. -/
def HeldAt (f : K → List ℕ) (x : ℕ) (k : K) : Prop :=
  (f k).count x = 1 ∧ ∀ j, j ≠ k → x ∉ f j

/-- Exactly one place holds `x`, and only once. -/
def HeldOnce (f : K → List ℕ) (x : ℕ) : Prop :=
  ∃ k, HeldAt f x k

/-- The things `0` to `n-1` are held exactly once, and no others are held. -/
structure Custody (f : K → List ℕ) (n : ℕ) : Prop where
  held : ∀ x, x < n → HeldOnce f x
  issued : ∀ x k, x ∈ f k → x < n

theorem HeldAt.mem {x : ℕ} {k : K} (h : HeldAt f x k) : x ∈ f k :=
  List.count_pos_iff.mp (by rw [h.1]; exact Nat.one_pos)

/-- A thing is held in one place only. -/
theorem HeldAt.unique {x : ℕ} {k j : K} (h : HeldAt f x k) (hj : x ∈ f j) : j = k := by
  by_contra hne
  exact h.2 j hne hj

/-- No place holds a thing twice. -/
theorem Custody.nodup (h : Custody f n) (k : K) : (f k).Nodup := by
  rw [List.nodup_iff_count_le_one]
  intro x
  by_cases hx : x ∈ f k
  · obtain ⟨j, hj⟩ := h.held x (h.issued x k hx)
    obtain rfl := hj.unique hx
    exact Nat.le_of_eq hj.1
  · rw [List.count_eq_zero_of_not_mem hx]
    exact Nat.zero_le 1

theorem Custody.congr (h : Custody f n) (hf : ∀ k, f' k = f k) : Custody f' n := by
  obtain rfl : f' = f := funext hf
  exact h

theorem custody_empty (hf : ∀ k, f k = []) : Custody f 0 where
  held x hx := absurd hx (Nat.not_lt_zero x)
  issued x k hx := by
    rw [hf k] at hx
    cases hx

/-- A new thing comes to the place `k`. -/
theorem Custody.issue (h : Custody f n) {k : K} (hk : (f' k).Perm (n :: f k))
    (hother : ∀ j, j ≠ k → f' j = f j) : Custody f' (n + 1) where
  held x hx := by
    rcases Nat.lt_succ_iff_lt_or_eq.mp hx with hlt | rfl
    · obtain ⟨i, hi, hnone⟩ := h.held x hlt
      have hcount : (f' k).count x = (f k).count x := by
        rw [hk.count_eq, List.count_cons_of_ne (Nat.ne_of_gt hlt)]
      refine ⟨i, ?_, fun j hj => ?_⟩
      · by_cases hik : i = k
        · subst hik
          rw [hcount, hi]
        · rw [hother i hik, hi]
      · by_cases hjk : j = k
        · subst hjk
          rw [← List.count_eq_zero, hcount, List.count_eq_zero]
          exact hnone j hj
        · rw [hother j hjk]
          exact hnone j hj
    · have hfresh : ∀ j, x ∉ f j := fun j hx => Nat.lt_irrefl x (h.issued x j hx)
      refine ⟨k, ?_, fun j hj => ?_⟩
      · rw [hk.count_eq, List.count_cons_self, List.count_eq_zero_of_not_mem (hfresh k)]
      · rw [hother j hj]
        exact hfresh j
  issued x j hx := by
    by_cases hjk : j = k
    · subst hjk
      rcases List.mem_cons.mp (hk.mem_iff.mp hx) with rfl | hx
      · exact Nat.lt_succ_self x
      · exact Nat.lt_succ_of_lt (h.issued x j hx)
    · rw [hother j hjk] at hx
      exact Nat.lt_succ_of_lt (h.issued x j hx)

/-- The place `k` hands the things `ys` over to the place `k'`. -/
theorem Custody.handOver (h : Custody f n) (k k' : K) (ys : List ℕ) (hne : k ≠ k')
    (hfrom : (f k).Perm (ys ++ f' k)) (hto : (f' k').Perm (ys ++ f k'))
    (hother : ∀ j, j ≠ k → j ≠ k' → f' j = f j) : Custody f' n := by
  have hmem : ∀ x j, x ∈ f' j → ∃ i, x ∈ f i := by
    intro x j hx
    by_cases hjk : j = k
    · subst hjk
      exact ⟨j, hfrom.mem_iff.mpr (List.mem_append_right _ hx)⟩
    · by_cases hjk' : j = k'
      · subst hjk'
        rcases List.mem_append.mp (hto.mem_iff.mp hx) with hy | hx
        · exact ⟨k, hfrom.mem_iff.mpr (List.mem_append_left _ hy)⟩
        · exact ⟨j, hx⟩
      · exact ⟨j, hother j hjk hjk' ▸ hx⟩
  refine ⟨fun x hx => ?_, fun x j hx => ?_⟩
  · obtain ⟨i, hi, hnone⟩ := h.held x hx
    have hk : (f k).count x = ys.count x + (f' k).count x := by
      rw [hfrom.count_eq, List.count_append]
    have hk' : (f' k').count x = ys.count x + (f k').count x := by
      rw [hto.count_eq, List.count_append]
    have hzero : ∀ j, j ≠ i → (f j).count x = 0 := fun j hj =>
      List.count_eq_zero_of_not_mem (hnone j hj)
    by_cases hys : x ∈ ys
    · -- `x` is handed over: it was at `k`, so it is at `k'` now
      have hpos : 0 < ys.count x := List.count_pos_iff.mpr hys
      obtain rfl : k = i := by
        by_contra hki
        have := hzero k hki
        omega
      have hzero' := hzero k' (Ne.symm hne)
      refine ⟨k', by omega, fun j hj => ?_⟩
      by_cases hjk : j = k
      · subst hjk
        exact List.count_eq_zero.mp (by omega)
      · rw [hother j hjk hj]
        exact hnone j hjk
    · have hcount : ∀ j, (f' j).count x = (f j).count x := by
        intro j
        have hy : ys.count x = 0 := List.count_eq_zero_of_not_mem hys
        by_cases hjk : j = k
        · subst hjk
          omega
        · by_cases hjk' : j = k'
          · subst hjk'
            omega
          · rw [hother j hjk hjk']
      refine ⟨i, (hcount i).trans hi, fun j hj => ?_⟩
      rw [← List.count_eq_zero, hcount j]
      exact hzero j hj
  · obtain ⟨i, hi⟩ := hmem x j hx
    exact h.issued x i hi

end Concurrency
