import Attitude.Proofs.Exact.Fold

/-!
# The two representations of a mounting

A mounting turns attitudes with its quaternion and rates with a matrix that is stored beside it, one
through a conjugate and the other through a transpose. Over exact arithmetic they describe one
rotation: attitude and rates of the body are told in one frame, and nothing is lost on the way into
it. A mounting with a symmetric matrix, such as a half turn, would not show a wrong direction; the
statements here are for every unit quaternion.

## Main definitions

* `Mounting.OneRotation`: what the two representations have to do with each other
-/

namespace Attitude
open Matrix

/-- A matrix applied to a vector. -/
theorem Vec3.component_mul_column (a : Mat 3 3 ℝ) (v : Vec3 ℝ) :
    (a * Mat.column v).toVec3.component = a.toMatrix *ᵥ v.component := by
  ext i
  fin_cases i <;> exact get_mul_column a v _

/-- What a unit quaternion has turned back comes forth again. -/
theorem Quat.mul_conj_mul {m : Quat ℝ} (hm : m.normSq = 1) (q : Quat ℝ) :
    q * m.conj * m = q := by
  rw [normSq] at hm
  ext <;> simp
  · linear_combination q.w * hm
  · linear_combination q.i * hm
  · linear_combination q.j * hm
  · linear_combination q.k * hm

namespace Mounting
variable {m : Quat ℝ}

/-- The matrix shows a vector of the body from the sensors. -/
theorem mat_mul_column (hm : m.normSq = 1) (v : Vec3 ℝ) :
    ((ofQuat m).mat * Mat.column v).toVec3 = m.toFrame v := by
  apply Vec3.component_injective
  rw [Vec3.component_mul_column, Quat.component_toFrame hm, Mat.toMatrix_transpose]
  exact congrArg (· *ᵥ v.component) (Quat.toMatrix_toMat_conj m)

/-- The transpose shows a vector of the sensors from the body. -/
theorem transpose_mul_column (hm : m.normSq = 1) (v : Vec3 ℝ) :
    ((ofQuat m).mat.transpose * Mat.column v).toVec3 = m.conj.toFrame v := by
  have hconj : m.conj.normSq = 1 := by rw [Quat.normSq_conj, hm]
  apply Vec3.component_injective
  rw [Vec3.component_mul_column, Quat.component_toFrame hconj]
  rfl

/-- From the body and back to the sensors. -/
theorem toFrame_toFrame_conj (hm : m.normSq = 1) (v : Vec3 ℝ) :
    m.toFrame (m.conj.toFrame v) = v := by
  have hconj : m.conj.normSq = 1 := by rw [Quat.normSq_conj, hm]
  apply Vec3.component_injective
  rw [Quat.component_toFrame hm, Quat.component_toFrame hconj, Mat.toMatrix_transpose,
    Mat.toMatrix_transpose, Quat.toMatrix_toMat_conj, transpose_transpose, mulVec_mulVec,
    (Quat.isRotation_toMat hm).transpose_mul, one_mulVec]

/-- The quaternion and the matrix of a mounting describe one rotation, and projecting into the body
applies it to attitude and rates alike. -/
structure OneRotation (m : Mounting ℝ) : Prop where
  /-- Matrix and quaternion show a vector of the body from the sensors in the same way. -/
  agree : ∀ v, (m.mat * Mat.column v).toVec3 = m.quat.toFrame v
  orthogonal : m.mat.transpose * m.mat = .identity
  /-- The attitude of the sensors comes back from that of the body. -/
  attitude : ∀ q w, (m.project q w).attitude * m.quat = q
  /-- So do their rates. -/
  rates : ∀ q w, m.quat.toFrame (m.project q w).rates = w
  norm_rates : ∀ q w, (m.project q w).rates.norm = w.norm
  /-- Seen through the attitude of the body, a vector is what the matrix makes of the one that is
  seen through the attitude of the sensors: rates and attitude are told in one frame. -/
  frame : ∀ q w v, q.norm = 1 →
    (m.project q w).attitude.toFrame v = (m.mat.transpose * Mat.column (q.toFrame v)).toVec3

/-- **A unit quaternion makes a mounting that is one rotation.** -/
theorem oneRotation_ofQuat (hm : m.norm = 1) : (ofQuat m).OneRotation := by
  have hm : m.normSq = 1 := Quat.norm_eq_one_iff.mp hm
  have hconj : m.conj.normSq = 1 := by rw [Quat.normSq_conj, hm]
  have hrates (q : Quat ℝ) (w : Vec3 ℝ) : ((ofQuat m).project q w).rates = m.conj.toFrame w :=
    transpose_mul_column hm w
  exact
    { agree := mat_mul_column hm
      orthogonal := by
        apply Mat.toMatrix_injective
        rw [Mat.toMatrix_mul, Mat.toMatrix_transpose, Mat.toMatrix_identity]
        exact (Quat.isRotation_toMat hconj).transpose_mul
      attitude := fun q _ => Quat.mul_conj_mul hm q
      rates := by
        intro q w
        rw [hrates]
        exact toFrame_toFrame_conj hm w
      norm_rates := by
        intro q w
        rw [hrates]
        exact congrArg Real.sqrt (Quat.normSq_toFrame hconj w)
      frame := by
        intro q w v hq
        rw [transpose_mul_column hm]
        exact (Quat.toFrame_toFrame (Quat.norm_eq_one_iff.mp hq) hconj v).symm }

/-- Sensors turned by a third of a turn about the diagonal: each of their axes is the next one of the
body, and the matrix is not symmetric. -/
theorem oneRotation_ofQuat_thirdTurn :
    let m : Quat ℝ := ⟨1 / 2, 1 / 2, 1 / 2, 1 / 2⟩
    m.norm = 1 ∧ (ofQuat m).OneRotation ∧
      ((ofQuat m).project ⟨1, 0, 0, 0⟩ ⟨1, 2, 3⟩).rates = ⟨3, 1, 2⟩ := by
  intro m
  have hsq : m.normSq = 1 := by norm_num [m, Quat.normSq]
  have hm : m.norm = 1 := Quat.norm_eq_one_iff.mpr hsq
  refine ⟨hm, oneRotation_ofQuat hm, (transpose_mul_column hsq _).trans ?_⟩
  ext <;> norm_num [m, Quat.toFrame, Quat.vec, Vec3.cross]

end Mounting
end Attitude
