import Mathlib.LinearAlgebra.Matrix.Invertible
import Mathlib.LinearAlgebra.Matrix.NonsingularInverse
import Mathlib.Tactic.FieldSimp
import Mathlib.Tactic.FinCases
import Mathlib.Tactic.LinearCombination
import UbuntuProjects.Matrices.FaddeevLeVerrier
import UbuntuProjects.Model.Matrix4x4

/-!
# What `inverse4x4` computes

The coefficients `p1` to `p4` are those of the characteristic polynomial of the source
(`coefficients_eq_charpoly`), so the sum of the powers that the second loop takes is the
adjugate up to its sign. The routine tells a singular matrix by the flag ZE, which stays set
once it is set: behind a singular matrix every other one is singular to it too
(matrix4x4.asm:238-240).
-/

set_option autoImplicit false

namespace UbuntuProjects.Matrix4x4

open Matrix Polynomial X86 Matrices

variable (high : ℚ → ℚ) (ze : Bool) (source : Rows)

/-! ## The two routines -/

/-- `multi4x4` multiplies. -/
theorem multi4x4_rows (A B : Rows) : of (multi4x4 A B).rows = of A * of B := by
  ext i j
  rw [mul_apply, Fin.sum_univ_four]
  unfold multi4x4 Products.rows
  rw [show List.finRange 4 = [0, 1, 2, 3] from rfl]
  simp only [List.foldl_cons, List.foldl_nil, multiTurn, of_apply]
  fin_cases i <;> simp <;> ring

/-- `vtrace` returns the trace in the low lane. -/
theorem vtrace_zero (m : Rows) : vtrace m 0 = (of m).trace := by
  have hlane : vtrace m 0 = m 2 2 + m 3 3 + (m 0 0 + m 1 1) := rfl
  unfold Matrix.trace
  rw [hlane, Fin.sum_univ_four]
  simp only [diag_apply, of_apply]
  ring

/-! ## The coefficients -/

section Charpoly

variable (A : Matrix (Fin 4) (Fin 4) ℚ)

/-- INTERNAL: the method, from the unit matrix down. -/
theorem adjCoeff_three : adjCoeff A 3 = 1 := by
  apply adjCoeff_last
  rw [Fintype.card_fin]

theorem adjCoeff_two : adjCoeff A 2 = A + A.charpoly.coeff 3 • (1 : Matrix _ _ ℚ) := by
  rw [adjCoeff_eq, adjCoeff_three, mul_one]

theorem adjCoeff_one : adjCoeff A 1 =
    A * A + A.charpoly.coeff 3 • A + A.charpoly.coeff 2 • (1 : Matrix _ _ ℚ) := by
  rw [adjCoeff_eq, adjCoeff_two, mul_add, mul_smul_comm, mul_one]

theorem adjCoeff_zero : adjCoeff A 0 =
    A * (A * A) + A.charpoly.coeff 3 • (A * A) + A.charpoly.coeff 2 • A +
      A.charpoly.coeff 1 • (1 : Matrix _ _ ℚ) := by
  rw [adjCoeff_eq, adjCoeff_one, mul_add, mul_add, mul_smul_comm, mul_smul_comm, mul_one]

/-- INTERNAL: the coefficients from the traces of the powers. -/
theorem charpoly_coeff_three : A.charpoly.coeff 3 = -A.trace := by
  have h := trace_mul_adjCoeff A 3
  rw [adjCoeff_three, mul_one, Fintype.card_fin] at h
  push_cast at h
  linear_combination h

theorem charpoly_coeff_two :
    A.charpoly.coeff 2 = -(A.trace * A.charpoly.coeff 3 + (A * A).trace) / 2 := by
  have h := trace_mul_adjCoeff A 2
  rw [adjCoeff_two, mul_add, mul_smul_comm, mul_one, trace_add, trace_smul, smul_eq_mul,
    Fintype.card_fin] at h
  push_cast at h
  linear_combination h / 2

theorem charpoly_coeff_one : A.charpoly.coeff 1 =
    -(A.charpoly.coeff 2 * A.trace +
      ((A * A).trace * A.charpoly.coeff 3 + (A * (A * A)).trace)) / 3 := by
  have h := trace_mul_adjCoeff A 1
  rw [adjCoeff_one, mul_add, mul_add, mul_smul_comm, mul_smul_comm, mul_one, trace_add,
    trace_add, trace_smul, trace_smul, smul_eq_mul, smul_eq_mul, Fintype.card_fin] at h
  push_cast at h
  linear_combination h / 3

theorem charpoly_coeff_zero : A.charpoly.coeff 0 =
    -(A.charpoly.coeff 1 * A.trace + (A.charpoly.coeff 2 * (A * A).trace +
      ((A * (A * A)).trace * A.charpoly.coeff 3 + (A * (A * (A * A))).trace))) / 4 := by
  have h := trace_mul_adjCoeff A 0
  rw [adjCoeff_zero, mul_add, mul_add, mul_add, mul_smul_comm, mul_smul_comm, mul_smul_comm,
    mul_one, trace_add, trace_add, trace_add, trace_smul, trace_smul, trace_smul, smul_eq_mul,
    smul_eq_mul, smul_eq_mul, Fintype.card_fin] at h
  push_cast at h
  linear_combination h / 4

/-- INTERNAL: the constant term of a 4x4 matrix. -/
theorem charpoly_coeff_zero_eq_det : A.charpoly.coeff 0 = A.det := by
  rw [det_eq_sign_charpoly_coeff, Fintype.card_fin]
  norm_num

end Charpoly

/-- INTERNAL: the divisors are not zero, so ZE is not set here. -/
theorem coefficients_ze (p : Products) (xmm8 xmm9 xmm10 xmm11 : Ymm ℚ) :
    (coefficients high p ze xmm8 xmm9 xmm10 xmm11).ze = ze := by
  unfold coefficients
  dsimp only
  rw [zeroDivide_of_ne_zero (by norm_num), zeroDivide_of_ne_zero (by norm_num),
    zeroDivide_of_ne_zero (by norm_num), Bool.or_false, Bool.or_false, Bool.or_false]

/-- **The coefficients are those of the characteristic polynomial.** -/
theorem coefficients_eq_charpoly (A : Matrix (Fin 4) (Fin 4) ℚ) (p : Products)
    {xmm8 xmm9 xmm10 xmm11 : Ymm ℚ} (h8 : xmm8 0 = A.trace) (h9 : xmm9 0 = (A * A).trace)
    (h10 : xmm10 0 = (A * (A * A)).trace) (h11 : xmm11 0 = (A * (A * (A * A))).trace) :
    (coefficients high p ze xmm8 xmm9 xmm10 xmm11).xmm12 0 = A.charpoly.coeff 3 ∧
      (coefficients high p ze xmm8 xmm9 xmm10 xmm11).xmm13 0 = A.charpoly.coeff 2 ∧
      (coefficients high p ze xmm8 xmm9 xmm10 xmm11).xmm14 0 = A.charpoly.coeff 1 ∧
      (coefficients high p ze xmm8 xmm9 xmm10 xmm11).xmm15 0 = A.charpoly.coeff 0 := by
  have h12 : (coefficients high p ze xmm8 xmm9 xmm10 xmm11).xmm12 0 = A.charpoly.coeff 3 := by
    rw [charpoly_coeff_three, ← h8]
    rfl
  have h13 : (coefficients high p ze xmm8 xmm9 xmm10 xmm11).xmm13 0 = A.charpoly.coeff 2 := by
    rw [charpoly_coeff_two, ← h8, ← h9, ← h12]
    rfl
  have h14 : (coefficients high p ze xmm8 xmm9 xmm10 xmm11).xmm14 0 = A.charpoly.coeff 1 := by
    rw [charpoly_coeff_one, ← h8, ← h9, ← h10, ← h12, ← h13]
    rfl
  refine ⟨h12, h13, h14, ?_⟩
  rw [charpoly_coeff_zero, ← h8, ← h9, ← h10, ← h11, ← h12, ← h13, ← h14]
  rfl

/-! ## One call -/

/-- INTERNAL: a non-singular matrix has an inverse, from the last matrix of the method. -/
theorem inv_eq_adjCoeff (A : Matrix (Fin 4) (Fin 4) ℚ) (hdet : A.det ≠ 0) :
    A⁻¹ = -(1 / A.det) • adjCoeff A 0 := by
  apply inv_eq_right_inv
  rw [mul_smul_comm, mul_adjCoeff_zero, charpoly_coeff_zero_eq_det, smul_neg, neg_smul, neg_neg,
    smul_smul, one_div_mul_cancel hdet, one_smul]

/-- INTERNAL: an element of the matrix that the second loop stores. -/
theorem inversed_apply {source matrix2 matrix3 : Rows} (hdet : (of source).det ≠ 0)
    (hsquare : of matrix2 = of source * of source)
    (hcube : of matrix3 = of source * (of source * of source)) (i j : Fin 4) :
    (source i j * (of source).charpoly.coeff 2 + matrix2 i j * (of source).charpoly.coeff 3 +
      matrix3 i j + identity i j * (of source).charpoly.coeff 1) * -(1 / (of source).det) =
        (of source)⁻¹ i j := by
  have hidentity : of identity = (1 : Matrix (Fin 4) (Fin 4) ℚ) := by
    ext i j
    fin_cases i <;> fin_cases j <;> rfl
  have hinv := inv_eq_adjCoeff _ hdet
  rw [adjCoeff_zero, ← hcube, ← hsquare, ← hidentity] at hinv
  rw [hinv]
  simp only [Matrix.smul_apply, Matrix.add_apply, of_apply, smul_eq_mul]
  ring

/-- **One call.** With ZE clear a call finds out whether the matrix is singular and stores the
inverse if it is not; with ZE set every matrix is singular to it. -/
theorem inverse4x4_eq : inverse4x4 high ze source =
    if ze = true ∨ (of source).det = 0 then ⟨1, none, true⟩
    else ⟨0, some fun i j => (of source)⁻¹ i j, false⟩ := by
  unfold inverse4x4
  dsimp only
  -- the powers, as the products store them
  have hsquare := multi4x4_rows source source
  generalize (multi4x4 source source).rows = matrix2 at hsquare ⊢
  have hcube := multi4x4_rows source matrix2
  generalize (multi4x4 source matrix2).rows = matrix3 at hcube ⊢
  have hfourth := multi4x4_rows source matrix3
  generalize multi4x4 source matrix3 = last at hfourth ⊢
  rw [hsquare] at hcube
  rw [hcube] at hfourth
  -- their traces
  have h8 : (movsd 0 (vtrace source) : Ymm ℚ) 0 = (of source).trace := vtrace_zero source
  have h9 : (movsd 0 (vtrace matrix2) : Ymm ℚ) 0 = (of source * of source).trace := by
    rw [movsd_zero, vtrace_zero, hsquare]
  have h10 : (movsd 0 (vtrace matrix3) : Ymm ℚ) 0 =
      (of source * (of source * of source)).trace := by
    rw [movsd_zero, vtrace_zero, hcube]
  have h11 : (movsd 0 (vtrace last.rows) : Ymm ℚ) 0 =
      (of source * (of source * (of source * of source))).trace := by
    rw [movsd_zero, vtrace_zero, hfourth]
  obtain ⟨h12, h13, h14, h15⟩ :=
    coefficients_eq_charpoly high ze (of source) last h8 h9 h10 h11
  rw [charpoly_coeff_zero_eq_det] at h15
  rw [coefficients_ze, h12, h13, h14, h15, movsdLoad_zero]
  by_cases h : ze = true ∨ (of source).det = 0
  · have hflag : (ze || zeroDivide 1 (of source).det) = true := by
      rw [Bool.or_eq_true]
      exact h.imp_right fun hdet => decide_eq_true ⟨one_ne_zero, hdet⟩
    rw [if_pos h, hflag, if_pos rfl]
  · have hdet : (of source).det ≠ 0 := fun hdet => h (Or.inr hdet)
    have hflag : (ze || zeroDivide 1 (of source).det) = false := by
      rw [zeroDivide_of_ne_zero hdet, Bool.or_false]
      exact Bool.eq_false_of_not_eq_true fun hze => h (Or.inl hze)
    rw [if_neg h, hflag, if_neg Bool.false_ne_true]
    congr 2
    funext i j
    simp only [vmulpd_apply, vaddpd_apply, vbroadcastsd_apply, vxorpdSign_zero, vdivsd_zero,
      movsdLoad_zero, h15]
    exact inversed_apply hdet hsquare hcube i j

/-- INTERNAL: a call on a singular matrix, whatever ZE was. -/
theorem inverse4x4_singular (hdet : (of source).det = 0) :
    inverse4x4 high ze source = ⟨1, none, true⟩ := by
  rw [inverse4x4_eq]
  exact if_pos (Or.inr hdet)

/-- INTERNAL: a call on another matrix with ZE clear. -/
theorem inverse4x4_nonsingular (hdet : (of source).det ≠ 0) :
    inverse4x4 high false source = ⟨0, some fun i j => (of source)⁻¹ i j, false⟩ := by
  rw [inverse4x4_eq]
  apply if_neg
  rintro (hze | h)
  · exact absurd hze Bool.false_ne_true
  · exact hdet h

/-- **`inverse4x4` is matrix inversion.** -/
theorem inverse4x4_inverts :
    ((inverse4x4 high false source).rax = 1 ↔ (of source).det = 0) ∧
      ((of source).det ≠ 0 → (inverse4x4 high false source).rax = 0 ∧
        ∃ inversed : Rows, (inverse4x4 high false source).stored = some inversed ∧
          of source * of inversed = 1 ∧ of inversed * of source = 1) := by
  by_cases hdet : (of source).det = 0
  · rw [inverse4x4_singular high false source hdet]
    exact ⟨⟨fun _ => hdet, fun _ => rfl⟩, fun h => absurd hdet h⟩
  · have hunit : IsUnit (of source).det := isUnit_iff_ne_zero.mpr hdet
    rw [inverse4x4_nonsingular high source hdet]
    refine ⟨⟨fun h => absurd h Nat.zero_ne_one, fun h => absurd h hdet⟩, fun _ => ⟨rfl, ?_⟩⟩
    exact ⟨fun i j => (of source)⁻¹ i j, rfl, mul_nonsing_inv _ hunit,
      nonsing_inv_mul _ hunit⟩

/-! ## Many calls -/

/-- INTERNAL: with ZE set, every call returns 1. -/
theorem calls_of_ze (sources : List Rows) :
    (calls high true sources).map Inverse.result = sources.map fun _ => (1, none) := by
  induction sources with
  | nil => rfl
  | cons source rest ih =>
    unfold calls
    rw [inverse4x4_eq, if_pos (Or.inl rfl), List.map_cons, List.map_cons, ih]
    rfl

/-- INTERNAL: the result of a first call shows whether its matrix is singular. -/
theorem result_eq_singular_iff :
    (inverse4x4 high false source).result = (1, none) ↔ (of source).det = 0 := by
  constructor
  · intro h
    exact (inverse4x4_inverts high source).1.mp (congrArg Prod.fst h)
  · intro hdet
    rw [inverse4x4_singular high false source hdet]
    rfl

/-- **What a call remembers.** In a run of calls each one has the result that it has as the
first call exactly when no matrix that is not singular comes behind a singular one. -/
theorem calls_fresh_iff (sources : List Rows) :
    (calls high false sources).map Inverse.result =
        sources.map (fun source => (inverse4x4 high false source).result) ↔
      sources.Pairwise fun A B => (of A).det = 0 → (of B).det = 0 := by
  induction sources with
  | nil => exact ⟨fun _ => List.Pairwise.nil, fun _ => rfl⟩
  | cons source rest ih =>
    rw [List.pairwise_cons]
    unfold calls
    rw [List.map_cons, List.map_cons, List.cons_eq_cons]
    by_cases hdet : (of source).det = 0
    · -- from here on ZE is set, so every first call has to find a singular matrix
      rw [inverse4x4_singular high false source hdet, calls_of_ze, List.map_inj_left]
      constructor
      · rintro ⟨-, hrest⟩
        have hsingular : ∀ B ∈ rest, (of B).det = 0 := by
          intro B hB
          apply (result_eq_singular_iff high B).mp
          exact (hrest B hB).symm
        refine ⟨fun B hB _ => hsingular B hB, ?_⟩
        exact List.pairwise_of_forall_mem_list fun A _ B hB _ => hsingular B hB
      · rintro ⟨hrest, -⟩
        refine ⟨rfl, ?_⟩
        intro B hB
        apply Eq.symm
        apply (result_eq_singular_iff high B).mpr
        exact hrest B hB hdet
    · rw [inverse4x4_nonsingular high source hdet, ih]
      exact ⟨fun h => ⟨fun _ _ h0 => absurd h0 hdet, h.2⟩, fun h => ⟨rfl, h.2⟩⟩

/-- Behind the singular matrix of the program its other matrix is reported as singular. -/
theorem calls_after_singular :
    ¬ ((calls (fun x => x) false [matrixS, matrixC]).map Inverse.result =
      [matrixS, matrixC].map fun source => (inverse4x4 (fun x => x) false source).result) := by
  decide +kernel

end UbuntuProjects.Matrix4x4
