import Attitude.Proofs.Exact.Rotation

/-!
# Folding over exact arithmetic

A pending correction has the scalar part two, so its norm is at least two and folding never divides
by zero. With a unit reference the norm of the product is that of the correction alone: the folded
reference is a unit quaternion again, and it predicts a vector by turning the old prediction once
more. How far a turn by any quaternion moves a vector is a polynomial in its parts, up to the squared
norm.

## Main statements

* `Quat.toFrame_normalize_sub`: how far a turn moves a vector
* `Estimator.toFrame_fold`: the prediction after a fold
-/

namespace Attitude

namespace Quat

theorem normSq_nonneg (q : Quat ℝ) : 0 ≤ q.normSq :=
  add_nonneg (add_nonneg (mul_self_nonneg q.i) (mul_self_nonneg q.k))
    (add_nonneg (mul_self_nonneg q.j) (mul_self_nonneg q.w))

theorem norm_mul_self (q : Quat ℝ) : q.norm * q.norm = q.normSq := Real.mul_self_sqrt q.normSq_nonneg

/-- A rotation keeps the norm of what it is multiplied with. -/
theorem norm_mul_of_unit {q : Quat ℝ} (hq : q.normSq = 1) (r : Quat ℝ) : (q * r).norm = r.norm := by
  change √(q * r).normSq = √r.normSq
  rw [normSq_mul, hq, one_mul]

/-- The quotient of a quaternion by a number, part by part. -/
theorem div_eq (q : Quat ℝ) (n : ℝ) : q / n = ⟨q.w / n, q.i / n, q.j / n, q.k / n⟩ := rfl

theorem normalize_mul_of_unit {q : Quat ℝ} (hq : q.normSq = 1) (r : Quat ℝ) :
    (q * r).normalize = q * r.normalize := by
  rw [normalize, norm_mul_of_unit hq, normalize, div_eq, div_eq]
  ext <;> simp only [w_mul, i_mul, j_mul, k_mul] <;> ring

/-- What can be normalized becomes a unit quaternion. -/
theorem normSq_normalize {r : Quat ℝ} (hr : r.norm ≠ 0) : r.normalize.normSq = 1 := by
  have hquotient : r.normalize.normSq = r.normSq / (r.norm * r.norm) := by
    rw [normalize, div_eq, normSq, normSq]
    ring
  rw [hquotient, ← norm_mul_self, div_self (mul_self_ne_zero.mpr hr)]

/-- A vector seen through two frames in turn. -/
theorem toFrame_toFrame {p r : Quat ℝ} (hp : p.normSq = 1) (hr : r.normSq = 1) (v : Vec3 ℝ) :
    r.toFrame (p.toFrame v) = (p * r).toFrame v := by
  have hpr : (p * r).normSq = 1 := by rw [normSq_mul, hp, hr, one_mul]
  apply Vec3.component_injective
  rw [component_toFrame hr, component_toFrame hp, component_toFrame hpr, toMat_mul,
    Matrix.mulVec_mulVec, Mat.toMatrix_transpose, Mat.toMatrix_transpose, Mat.toMatrix_transpose,
    Mat.toMatrix_mul, Matrix.transpose_mul]

/-- How far a turn moves a vector: to first order by a cross product with the vector part. -/
theorem toFrame_normalize_sub {r : Quat ℝ} (hr : r.norm ≠ 0) (b : Vec3 ℝ) :
    (r.normalize.toFrame b - b) * r.normSq =
      b.cross r.vec * (2 * r.w) + r.vec.cross (r.vec.cross b) * (2 : ℝ) := by
  have hn : r.normSq = r.norm * r.norm := (norm_mul_self r).symm
  rw [hn, normalize, div_eq]
  simp only [toFrame, conj, vec, Scalar.two_real]
  ext <;> simp [Vec3.cross] <;> field_simp <;> ring

/-- A turn moves a vector along the cross product of the vector part with the mean of the old and the
new vector. -/
theorem toFrame_normalize_sub_mul {r : Quat ℝ} (hr : r.norm ≠ 0) (b : Vec3 ℝ) :
    (r.normalize.toFrame b - b) * r.w = (r.normalize.toFrame b + b).cross r.vec := by
  have hne : r.normSq ≠ 0 := by
    rw [← norm_mul_self]
    exact mul_self_ne_zero.mpr hr
  have hnorm : r.normSq = r.i * r.i + r.k * r.k + (r.j * r.j + r.w * r.w) := rfl
  have hmove := toFrame_normalize_sub hr b
  generalize r.normalize.toFrame b = b' at hmove ⊢
  have hx := congrArg Vec3.x hmove
  have hy := congrArg Vec3.y hmove
  have hz := congrArg Vec3.z hmove
  simp only [Vec3.cross, vec, Vec3.x_add, Vec3.y_add, Vec3.z_add, Vec3.x_sub, Vec3.y_sub,
    Vec3.z_sub, Vec3.x_mul, Vec3.y_mul, Vec3.z_mul] at hx hy hz
  ext <;> apply mul_right_cancel₀ hne <;>
    simp only [Vec3.cross, vec, Vec3.x_add, Vec3.y_add, Vec3.z_add, Vec3.x_sub, Vec3.y_sub,
      Vec3.z_sub, Vec3.x_mul, Vec3.y_mul, Vec3.z_mul]
  · linear_combination r.w * hx - r.k * hy + r.j * hz - 2 * (b.y * r.k - b.z * r.j) * hnorm
  · linear_combination r.w * hy - r.i * hz + r.k * hx - 2 * (b.z * r.i - b.x * r.k) * hnorm
  · linear_combination r.w * hz - r.j * hx + r.i * hy - 2 * (b.x * r.j - b.y * r.i) * hnorm

end Quat

namespace Estimator

/-- The correction that a fold multiplies the reference with. -/
def pending {α : Type} [Scalar α] (f : Estimator α) : Quat α :=
  { f.correction with w := correctionScalar }

variable {f : Estimator ℝ}

theorem normSq_pending (f : Estimator ℝ) : f.pending.normSq = 4 + f.correction.vec.normSq := by
  simp only [pending, Quat.normSq, Quat.vec, Vec3.normSq, correctionScalar, Scalar.two_real]
  ring

/-- A pending correction is far from zero. -/
theorem two_le_norm_pending (f : Estimator ℝ) : 2 ≤ f.pending.norm := by
  apply Real.le_sqrt_of_sq_le
  rw [normSq_pending]
  linarith [Vec3.normSq_nonneg f.correction.vec]

/-- Folding turns a unit reference by the direction of the pending correction. -/
theorem attitude_fold (hf : f.attitude.normSq = 1) :
    f.fold.attitude = f.attitude * f.pending.normalize := Quat.normalize_mul_of_unit hf f.pending

theorem norm_pending_ne_zero (f : Estimator ℝ) : f.pending.norm ≠ 0 :=
  (two_pos.trans_le (two_le_norm_pending f)).ne'

/-- Folding keeps a unit reference. -/
theorem normSq_fold (hf : f.attitude.normSq = 1) : f.fold.attitude.normSq = 1 := by
  rw [attitude_fold hf, Quat.normSq_mul, hf, Quat.normSq_normalize (norm_pending_ne_zero f), one_mul]

/-- The prediction after a fold is the old one, turned once more. -/
theorem toFrame_fold (hf : f.attitude.normSq = 1) (v : Vec3 ℝ) :
    f.fold.attitude.toFrame v = f.pending.normalize.toFrame (f.attitude.toFrame v) := by
  rw [attitude_fold hf, Quat.toFrame_toFrame hf (Quat.normSq_normalize (norm_pending_ne_zero f))]

theorem normalize_noCorrection : (noCorrection : Quat ℝ).normalize = ⟨1, 0, 0, 0⟩ := by
  have hnorm : (noCorrection : Quat ℝ).norm = 2 := by
    change √(noCorrection : Quat ℝ).normSq = 2
    rw [Real.sqrt_eq_iff_mul_self_eq_of_pos two_pos]
    norm_num [Quat.normSq, noCorrection, correctionScalar]
  rw [Quat.normalize, hnorm, Quat.div_eq]
  norm_num [noCorrection, correctionScalar]

/-- The correction that changes nothing leaves a unit quaternion alone. -/
theorem normalize_mul_noCorrection {q : Quat ℝ} (hq : q.norm = 1) :
    (q * (noCorrection : Quat ℝ)).normalize = q := by
  rw [Quat.normalize_mul_of_unit (Quat.norm_eq_one_iff.mp hq), normalize_noCorrection]
  ext <;> simp

end Estimator
end Attitude
