import Mathlib.LinearAlgebra.Matrix.Charpoly.Coeff
import Mathlib.Algebra.Polynomial.Derivative

/-!
# The method of Faddeev and Le Verrier

The adjugate of `X - A` is a polynomial in `X` with matrix coefficients (`adjCoeff`). From
`(X - A) * adj (X - A) = χ` each coefficient is `A` times the next one plus a coefficient of
the characteristic polynomial `χ` (`adjCoeff_eq`), and since the trace of the adjugate is the
derivative of `χ`, the coefficients of `χ` can be computed from traces
(`trace_mul_adjCoeff`) and `A` can be inverted from the last matrix (`mul_adjCoeff_zero`).
-/

set_option autoImplicit false

namespace Matrices

open Matrix Polynomial

variable {n R : Type} [Fintype n] [DecidableEq n] [CommRing R]

/-! ## The derivative of a determinant -/

/-- The derivative of a determinant, one column after another. -/
theorem derivative_det (M : Matrix n n R[X]) :
    derivative M.det = ∑ i, (M.updateCol i fun j => derivative (M j i)).det := by
  have hcol : ∀ (i : n) (σ : Equiv.Perm n),
      ∏ k, (M.updateCol i fun j => derivative (M j i)) (σ k) k =
        (∏ k ∈ Finset.univ.erase i, M (σ k) k) * derivative (M (σ i) i) := by
    intro i σ
    rw [← Finset.mul_prod_erase _ _ (Finset.mem_univ i), updateCol_self, mul_comm]
    congr 1
    apply Finset.prod_congr rfl
    intro k hk
    exact updateCol_ne (Finset.ne_of_mem_erase hk)
  have hterm : ∀ σ : Equiv.Perm n,
      derivative (((Equiv.Perm.sign σ : ℤ) : R[X]) * ∏ k, M (σ k) k) =
        ∑ i, ((Equiv.Perm.sign σ : ℤ) : R[X]) *
          ∏ k, (M.updateCol i fun j => derivative (M j i)) (σ k) k := by
    intro σ
    rw [derivative_intCast_mul, derivative_prod_finset, Finset.mul_sum]
    exact Finset.sum_congr rfl fun i _ => by rw [hcol i σ]
  calc derivative M.det
      = ∑ σ : Equiv.Perm n, derivative (((Equiv.Perm.sign σ : ℤ) : R[X]) * ∏ k, M (σ k) k) := by
        rw [det_apply', derivative_sum]
    _ = ∑ σ : Equiv.Perm n, ∑ i, ((Equiv.Perm.sign σ : ℤ) : R[X]) *
          ∏ k, (M.updateCol i fun j => derivative (M j i)) (σ k) k :=
        Finset.sum_congr rfl fun σ _ => hterm σ
    _ = ∑ i, ∑ σ : Equiv.Perm n, ((Equiv.Perm.sign σ : ℤ) : R[X]) *
          ∏ k, (M.updateCol i fun j => derivative (M j i)) (σ k) k := Finset.sum_comm
    _ = ∑ i, (M.updateCol i fun j => derivative (M j i)).det :=
        Finset.sum_congr rfl fun i _ => (det_apply' _).symm

/-- The derivative of the characteristic polynomial is the trace of the adjugate. -/
theorem derivative_charpoly (A : Matrix n n R) :
    derivative A.charpoly = (adjugate (charmatrix A)).trace := by
  unfold Matrix.charpoly Matrix.trace
  rw [derivative_det]
  apply Finset.sum_congr rfl
  intro i _
  have hcol : (fun j => derivative (charmatrix A j i)) = Pi.single i 1 := by
    funext j
    by_cases h : j = i
    · subst h
      rw [charmatrix_apply_eq, derivative_sub, derivative_X, derivative_C, sub_zero,
        Pi.single_eq_same]
    · rw [charmatrix_apply_ne _ _ _ h, derivative_neg, derivative_C, neg_zero,
        Pi.single_eq_of_ne h]
  rw [hcol, ← cramer_apply, cramer_eq_adjugate_mulVec, mulVec_single_one]
  rfl

/-! ## The coefficients of the adjugate -/

/-- The matrix that stands at `X ^ k` in the adjugate of `X - A`. -/
noncomputable def adjCoeff (A : Matrix n n R) (k : ℕ) : Matrix n n R :=
  of fun i j => (adjugate (charmatrix A) i j).coeff k

/-- INTERNAL: an entry of `(X - A) * adj (X - A) = χ`. -/
theorem charmatrix_mul_adjugate_apply (A : Matrix n n R) (i j : n) :
    X * adjugate (charmatrix A) i j - ∑ m, C (A i m) * adjugate (charmatrix A) m j =
      if i = j then A.charpoly else 0 := by
  have h := congrFun (congrFun (mul_adjugate (charmatrix A)) i) j
  rw [mul_apply, Matrix.smul_apply, one_apply, smul_eq_mul, mul_ite, mul_one, mul_zero] at h
  rw [← Matrix.charpoly] at h
  rw [← h]
  have hterm : ∀ m, charmatrix A i m * adjugate (charmatrix A) m j =
      (if i = m then X * adjugate (charmatrix A) m j else 0) -
        C (A i m) * adjugate (charmatrix A) m j := by
    intro m
    by_cases him : i = m
    · subst him
      rw [charmatrix_apply_eq, if_pos rfl, sub_mul]
    · rw [charmatrix_apply_ne _ _ _ him, if_neg him, zero_sub, neg_mul]
  rw [Finset.sum_congr rfl fun m _ => hterm m, Finset.sum_sub_distrib]
  rw [Finset.sum_ite_eq Finset.univ i, if_pos (Finset.mem_univ i)]

/-- **The step of the method.** Each coefficient of the adjugate is `A` times the next one
plus a coefficient of the characteristic polynomial. -/
theorem adjCoeff_eq (A : Matrix n n R) (k : ℕ) :
    adjCoeff A k = A * adjCoeff A (k + 1) + A.charpoly.coeff (k + 1) • (1 : Matrix n n R) := by
  ext i j
  have h := congrArg (fun p => p.coeff (k + 1)) (charmatrix_mul_adjugate_apply A i j)
  simp only [coeff_sub, coeff_X_mul, finsetSum_coeff, coeff_C_mul] at h
  rw [Matrix.add_apply, mul_apply, Matrix.smul_apply, one_apply, smul_eq_mul, mul_ite, mul_one,
    mul_zero]
  show (adjugate (charmatrix A) i j).coeff k = (∑ m, A i m *
    (adjugate (charmatrix A) m j).coeff (k + 1)) + _
  rw [sub_eq_iff_eq_add'.mp h]
  congr 1
  split <;> simp

/-- **The inverse.** `A` times the last coefficient is the constant term. -/
theorem mul_adjCoeff_zero (A : Matrix n n R) :
    A * adjCoeff A 0 = -(A.charpoly.coeff 0 • (1 : Matrix n n R)) := by
  ext i j
  have h := congrArg (fun p => p.coeff 0) (charmatrix_mul_adjugate_apply A i j)
  simp only [coeff_sub, coeff_X_mul_zero, finsetSum_coeff, coeff_C_mul, zero_sub] at h
  rw [mul_apply, Matrix.neg_apply, Matrix.smul_apply, one_apply, smul_eq_mul, mul_ite, mul_one,
    mul_zero]
  show (∑ m, A i m * (adjugate (charmatrix A) m j).coeff 0) = _
  rw [← neg_eq_iff_eq_neg, h]
  split <;> simp

/-- The trace of a coefficient of the adjugate is one of the derivative. -/
theorem trace_adjCoeff (A : Matrix n n R) (k : ℕ) :
    (adjCoeff A k).trace = A.charpoly.coeff (k + 1) * (k + 1) := by
  have h := congrArg (fun p => p.coeff k) (derivative_charpoly A)
  simp only [coeff_derivative] at h
  rw [h]
  unfold Matrix.trace
  rw [finsetSum_coeff]
  rfl

/-- **The coefficients from traces.** -/
theorem trace_mul_adjCoeff (A : Matrix n n R) (k : ℕ) :
    (A * adjCoeff A k).trace = (k - Fintype.card n) * A.charpoly.coeff k := by
  cases k with
  | zero =>
    rw [mul_adjCoeff_zero, trace_neg, trace_smul, trace_one, smul_eq_mul, Nat.cast_zero]
    ring
  | succ k =>
    have h := congrArg Matrix.trace (adjCoeff_eq A k)
    rw [trace_add, trace_smul, trace_one, trace_adjCoeff, smul_eq_mul] at h
    rw [Nat.cast_succ]
    linear_combination -h

/-- INTERNAL: far enough up all coefficients are zero. -/
theorem exists_adjCoeff_eq_zero (A : Matrix n n R) :
    ∃ d, ∀ k, d ≤ k → adjCoeff A k = 0 := by
  refine ⟨∑ i, ∑ j, ((adjugate (charmatrix A) i j).natDegree + 1), ?_⟩
  intro k hk
  ext i j
  show (adjugate (charmatrix A) i j).coeff k = 0
  apply coeff_eq_zero_of_natDegree_lt
  have hrow := Finset.single_le_sum
    (f := fun i => ∑ j, ((adjugate (charmatrix A) i j).natDegree + 1))
    (fun _ _ => Nat.zero_le _) (Finset.mem_univ i)
  have hentry := Finset.single_le_sum
    (f := fun j => (adjugate (charmatrix A) i j).natDegree + 1)
    (fun _ _ => Nat.zero_le _) (Finset.mem_univ j)
  omega

/-- From the degree of the characteristic polynomial on, the coefficients are zero. -/
theorem adjCoeff_of_card_le [Nontrivial R] (A : Matrix n n R) {k : ℕ}
    (hk : Fintype.card n ≤ k) : adjCoeff A k = 0 := by
  obtain ⟨d, hd⟩ := exists_adjCoeff_eq_zero A
  -- downwards from where they are known to be zero
  have hdown : ∀ m k, Fintype.card n ≤ k → d ≤ k + m → adjCoeff A k = 0 := by
    intro m
    induction m with
    | zero => exact fun k _ hkd => hd k hkd
    | succ m ih =>
      intro k hk hkd
      have hcoeff : A.charpoly.coeff (k + 1) = 0 := by
        apply coeff_eq_zero_of_natDegree_lt
        rw [charpoly_natDegree_eq_dim]
        omega
      rw [adjCoeff_eq, ih (k + 1) (by omega) (by omega), hcoeff, mul_zero, zero_smul, add_zero]
  exact hdown d k hk (by omega)

/-- The method starts with the unit matrix. -/
theorem adjCoeff_last [Nontrivial R] (A : Matrix n n R) {k : ℕ} (hk : k + 1 = Fintype.card n) :
    adjCoeff A k = 1 := by
  have hmonic : A.charpoly.coeff (k + 1) = 1 := by
    have h := A.charpoly_monic.coeff_natDegree
    rw [charpoly_natDegree_eq_dim, ← hk] at h
    exact h
  rw [adjCoeff_eq, adjCoeff_of_card_le A hk.ge, hmonic, mul_zero, zero_add, one_smul]

end Matrices
