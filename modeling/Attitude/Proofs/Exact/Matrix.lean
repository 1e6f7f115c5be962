import Mathlib.LinearAlgebra.Matrix.Adjugate
import Mathlib.LinearAlgebra.Matrix.NonsingularInverse
import Attitude.Proofs.Exact

/-!
# Stored matrices as matrices

`Mat.toMatrix` forgets how a matrix is stored. Over the real numbers it carries every operation of
`Mat` to the operation of Mathlib, so the algebra of the filter can be done there, and the inverse
by cofactors is the inverse.
-/

namespace Attitude.Mat
open Matrix
variable {m k n : ℕ}

/-- The entries of a stored matrix. -/
def toMatrix {α : Type} (a : Mat m n α) : Matrix (Fin m) (Fin n) α := Matrix.of a.get

@[simp] theorem toMatrix_apply {α : Type} (a : Mat m n α) (i : Fin m) (j : Fin n) :
    a.toMatrix i j = a i j := rfl

theorem toMatrix_injective {α : Type} :
    Function.Injective (toMatrix : Mat m n α → Matrix (Fin m) (Fin n) α) := fun _ _ h =>
  Mat.ext fun i j => congrFun (congrFun h i) j

@[simp] theorem toMatrix_transpose {α : Type} (a : Mat m n α) :
    a.transpose.toMatrix = a.toMatrixᵀ := by
  ext i j
  simp

/-- Adding the terms from the first to the last gives their sum. -/
theorem foldl_terms_eq_sum (f : Fin k → ℝ) (x : ℝ) :
    Fin.foldl k (fun sum i => f i + sum) x = x + ∑ i, f i := by
  induction k generalizing x with
  | zero => simp
  | succ k ih => rw [Fin.foldl_succ, ih, Fin.sum_univ_succ]; ring

/-- The exact dot product is the sum of the products. -/
theorem dot_eq_sum (a b : Fin k → ℝ) : dot a b = ∑ i, a i * b i := by
  cases k with
  | zero => norm_num [dot]
  | succ k => rw [dot, foldl_terms_eq_sum (fun i => a i.succ * b i.succ), Fin.sum_univ_succ]

@[simp] theorem toMatrix_mul (a : Mat m k ℝ) (b : Mat k n ℝ) :
    (a * b).toMatrix = a.toMatrix * b.toMatrix := by
  ext i j
  simp [dot_eq_sum, Matrix.mul_apply]

@[simp] theorem toMatrix_mulTranspose (a : Mat m k ℝ) (b : Mat n k ℝ) :
    (a.mulTranspose b).toMatrix = a.toMatrix * b.toMatrixᵀ := by simp [mulTranspose]

@[simp] theorem toMatrix_sub (a b : Mat m n ℝ) : (a - b).toMatrix = a.toMatrix - b.toMatrix := by
  ext i j
  simp

@[simp] theorem toMatrix_identity : (identity : Mat n n ℝ).toMatrix = 1 := by
  ext i j
  norm_num [Matrix.one_apply]

@[simp] theorem toMatrix_addDiagonal (a : Mat n n ℝ) (d : Fin n → ℝ) :
    (a.addDiagonal d).toMatrix = a.toMatrix + Matrix.diagonal d := by
  ext i j
  by_cases h : i = j <;> simp [h]

theorem toMatrix_blockDiagonal (a b : ℝ) :
    (blockDiagonal a b).toMatrix = Matrix.diagonal ![a, a, a, b, b, b] := by
  ext i j
  fin_cases i <;> fin_cases j <;> simp [blockDiagonal, Scalar.zero_real]

/-! ## The inverse -/

theorem det_toMatrix (a : Mat 3 3 ℝ) : a.toMatrix.det = a.det := by
  rw [Matrix.det_fin_three]
  simp only [toMatrix_apply, det]
  ring

theorem toMatrix_ofRows {α : Type} (r₀ r₁ r₂ : Vec3 α) : (ofRows r₀ r₁ r₂).toMatrix =
    !![r₀.x, r₀.y, r₀.z; r₁.x, r₁.y, r₁.z; r₂.x, r₂.y, r₂.z] := by
  ext i j
  fin_cases i <;> fin_cases j <;> rfl

/-- The transposed cofactors are the adjugate. -/
theorem toMatrix_cofactors (a : Mat 3 3 ℝ) :
    a.cofactors.transpose.toMatrix = a.toMatrix.adjugate := by
  rw [toMatrix_transpose, cofactors, toMatrix_ofRows, Matrix.adjugate_fin_three]
  ext i j
  fin_cases i <;> fin_cases j <;> simp <;> ring

theorem leastDet_pos : (0 : ℝ) < leastDet := by norm_num [leastDet]

/-- An exact inverse is refused only for a determinant below the least one. -/
theorem inverse?_eq_none_iff (a : Mat 3 3 ℝ) : a.inverse? = none ↔ |a.det| < leastDet := by
  simp [inverse?]

theorem det_ne_zero {a : Mat 3 3 ℝ} (h : ¬ |a.det| < leastDet) : a.det ≠ 0 := by
  intro h0
  rw [h0, abs_zero] at h
  exact h leastDet_pos

/-- An inverse that is handed out is the inverse, and the matrix has one. -/
theorem inverse?_eq_some {a b : Mat 3 3 ℝ} (h : a.inverse? = some b) :
    a.toMatrix.det ≠ 0 ∧ b.toMatrix = a.toMatrix⁻¹ := by
  have hd : ¬ |a.det| < leastDet := by
    intro hd
    simp [(inverse?_eq_none_iff a).mpr hd] at h
  have hb : b = a.cofactors.transpose * (1.0 / a.det) := by
    simpa [inverse?, hd] using h.symm
  refine ⟨by rw [det_toMatrix]; exact det_ne_zero hd, ?_⟩
  rw [Matrix.inv_def, Ring.inverse_eq_inv', det_toMatrix, ← toMatrix_cofactors, hb]
  ext i j
  simp only [toMatrix_apply, get_scale, Matrix.smul_apply, smul_eq_mul]
  norm_num
  ring

end Attitude.Mat
