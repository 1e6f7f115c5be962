import Attitude.Proofs.Exact.Matrix

/-!
# The exact inverse

Over exact arithmetic an inverse that is handed out is one from both sides, and the size of the
determinant alone decides whether it is. Inverting commutes with transposing: a cofactor at the
place of another one would show here, while a symmetric matrix hides it.

## Main definitions

* `Mat.Inversion`: what `Mat.inverse?` answers for a matrix
-/

namespace Attitude.Mat
open Matrix

variable {m a : Mat 3 3 ℝ}

/-- A determinant that reaches the least one is inverted. -/
theorem exists_inverse? (h : leastDet ≤ |m.det|) : ∃ a, m.inverse? = some a := by
  rw [← Option.ne_none_iff_exists', ne_eq, inverse?_eq_none_iff]
  exact not_lt.mpr h

theorem mul_inverse? (h : m.inverse? = some a) : m * a = identity := by
  obtain ⟨hdet, ha⟩ := inverse?_eq_some h
  apply toMatrix_injective
  rw [toMatrix_mul, toMatrix_identity, ha, Matrix.mul_nonsing_inv _ (isUnit_iff_ne_zero.mpr hdet)]

theorem inverse?_mul (h : m.inverse? = some a) : a * m = identity := by
  obtain ⟨hdet, ha⟩ := inverse?_eq_some h
  apply toMatrix_injective
  rw [toMatrix_mul, toMatrix_identity, ha, Matrix.nonsing_inv_mul _ (isUnit_iff_ne_zero.mpr hdet)]

theorem transpose_det (m : Mat 3 3 ℝ) : m.transpose.det = m.det := by
  rw [← det_toMatrix, toMatrix_transpose, Matrix.det_transpose, det_toMatrix]

/-- A matrix and its transpose are inverted alike. -/
theorem inverse?_transpose (m : Mat 3 3 ℝ) :
    m.transpose.inverse? = m.inverse?.map transpose := by
  cases h : m.inverse? with
  | none =>
    rw [inverse?_eq_none_iff] at h
    rw [Option.map_none, inverse?_eq_none_iff, transpose_det]
    exact h
  | some a =>
    have hdet : leastDet ≤ |m.transpose.det| := by
      rw [transpose_det, ← not_lt, ← inverse?_eq_none_iff, h]
      exact Option.some_ne_none a
    obtain ⟨b, hb⟩ := exists_inverse? hdet
    have hba : b = a.transpose := by
      apply toMatrix_injective
      rw [(inverse?_eq_some hb).2, toMatrix_transpose, toMatrix_transpose,
        (inverse?_eq_some h).2, Matrix.transpose_nonsing_inv]
    rw [hb, hba, Option.map_some]

/-- What inverting a matrix answers. -/
structure Inversion (m : Mat 3 3 ℝ) : Prop where
  /-- Nothing, if and only if the determinant is below the least one. -/
  refuses : m.inverse? = none ↔ |m.toMatrix.det| < leastDet
  /-- Otherwise an inverse from both sides. -/
  inverts : leastDet ≤ |m.toMatrix.det| →
    ∃ a, m.inverse? = some a ∧ m * a = identity ∧ a * m = identity
  /-- For the transpose, the transpose. -/
  transposes : m.transpose.inverse? = m.inverse?.map transpose
  symmetric : m.transpose = m → ∀ a, m.inverse? = some a → a.transpose = a

/-- **The inverse by cofactors is the inverse.** It is handed out for every matrix whose determinant
reaches the least one, from both sides, and for no other matrix. -/
theorem inversion_by_cofactors (m : Mat 3 3 ℝ) : m.Inversion where
  refuses := by rw [inverse?_eq_none_iff, det_toMatrix]
  inverts := by
    intro hdet
    rw [det_toMatrix] at hdet
    obtain ⟨a, ha⟩ := exists_inverse? hdet
    exact ⟨a, ha, mul_inverse? ha, inverse?_mul ha⟩
  transposes := inverse?_transpose m
  symmetric := by
    intro hsymm a ha
    have htranspose := inverse?_transpose m
    rw [hsymm, ha, Option.map_some] at htranspose
    exact (Option.some.inj htranspose).symm

end Attitude.Mat
