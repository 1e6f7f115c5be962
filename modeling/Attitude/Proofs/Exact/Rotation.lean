import Mathlib.LinearAlgebra.UnitaryGroup
import Attitude.Proofs.Exact.Vector
import Attitude.Quat.Rotation

/-!
# Rotations over exact arithmetic

A rotation is a matrix of the special orthogonal group. The matrix of a unit quaternion is one,
products go to products, and two unit quaternions with one matrix differ at most in sign.

`Quat.ofMat` reads a rotation back on four branches. Only the first one needs an argument: the
products of two components of a quaternion can be read off its matrix, and where the scalar part
does not vanish they determine the quaternion. Each other branch is the first one after half a turn
about the axis that leads, so it reads `m * u.toMat` for a half turn `u` and takes `u` back. The
tests on the trace and the diagonal choose a half turn for which no divisor vanishes.

## Main definitions

* `Mat.IsRotation`
* `Mat.pivot`: four times the square of the scalar part of a rotation
* `Quat.Reads`: the products of two components of a quaternion are those that a matrix shows

## Main statements

* `Quat.toMat_ofMat` and `Quat.normSq_ofMat`: every rotation is read as a unit quaternion that it is
  the matrix of
* `Quat.eq_or_eq_neg_of_toMat_eq`: the reading is unique up to its sign
* `Quat.component_toFrame`: a vector seen from the other frame
-/

namespace Attitude
open Matrix

/-! ## Rotation matrices -/

namespace Mat

/-- An orthogonal matrix that keeps the hand of a frame. -/
def IsRotation (m : Mat 3 3 ℝ) : Prop := m.toMatrix ∈ specialOrthogonalGroup (Fin 3) ℝ

/-- An orthonormal pair and its product are the rows of a rotation. -/
theorem isRotation_ofRows {a b : Vec3 ℝ} (ha : a.normSq = 1) (hb : b.normSq = 1)
    (hab : a.component ⬝ᵥ b.component = 0) : (ofRows a b (a.cross b)).IsRotation := by
  rw [Vec3.normSq_eq_dotProduct] at ha hb
  have hba : b.component ⬝ᵥ a.component = 0 := by rw [dotProduct_comm, hab]
  have hcc : (a.component ⨯₃ b.component) ⬝ᵥ (a.component ⨯₃ b.component) = 1 := by
    rw [cross_dot_cross, ha, hb, hab, hba, mul_one, mul_zero, sub_zero]
  rw [IsRotation, Vec3.toMatrix_ofRows, Vec3.component_cross, mem_specialOrthogonalGroup_iff,
    mem_orthogonalGroup_iff]
  constructor
  · ext i j
    change ![a.component, b.component, a.component ⨯₃ b.component] i ⬝ᵥ
      ![a.component, b.component, a.component ⨯₃ b.component] j = _
    fin_cases i <;> fin_cases j <;>
      simp [ha, hb, hab, hba, hcc, dotProduct_comm (a.component ⨯₃ b.component)]
  · exact (triple_product_eq_det _ _ _).symm.trans
      ((triple_product_permutation _ _ _).symm.trans hcc)

/-- A cross product of images is the image of the cross product under the cofactors. -/
theorem cross_mulVec (a : Mat 3 3 ℝ) (v w : Fin 3 → ℝ) :
    (a.toMatrix *ᵥ v) ⨯₃ (a.toMatrix *ᵥ w) = a.cofactors.toMatrix *ᵥ (v ⨯₃ w) := by
  rw [cross_apply, cross_apply, cofactors, toMatrix_ofRows]
  ext i
  fin_cases i <;> simp [mulVec, dotProduct, Fin.sum_univ_three] <;> ring

namespace IsRotation
variable {m : Mat 3 3 ℝ}

theorem mul_transpose (h : m.IsRotation) : m.toMatrix * m.toMatrixᵀ = 1 :=
  (mem_orthogonalGroup_iff (Fin 3) ℝ).mp (mem_specialOrthogonalGroup_iff.mp h).1

theorem transpose_mul (h : m.IsRotation) : m.toMatrixᵀ * m.toMatrix = 1 :=
  (mem_orthogonalGroup_iff' (Fin 3) ℝ).mp (mem_specialOrthogonalGroup_iff.mp h).1

theorem det_eq_one (h : m.IsRotation) : m.toMatrix.det = 1 :=
  (mem_specialOrthogonalGroup_iff.mp h).2

theorem mul {n : Mat 3 3 ℝ} (hm : m.IsRotation) (hn : n.IsRotation) : (m * n).IsRotation := by
  rw [IsRotation, toMatrix_mul]
  exact mul_mem hm hn

theorem transpose (h : m.IsRotation) : m.transpose.IsRotation := by
  rw [IsRotation, toMatrix_transpose, mem_specialOrthogonalGroup_iff, mem_orthogonalGroup_iff,
    transpose_transpose, det_transpose]
  exact ⟨h.transpose_mul, h.det_eq_one⟩

theorem mulTranspose {n : Mat 3 3 ℝ} (hm : m.IsRotation) (hn : n.IsRotation) :
    (m.mulTranspose n).IsRotation := hm.mul hn.transpose

theorem eq_of_mul_eq_mul (h : m.IsRotation) {a b : Matrix (Fin 3) (Fin 3) ℝ}
    (hab : a * m.toMatrix = b * m.toMatrix) : a = b :=
  calc a = a * m.toMatrix * m.toMatrixᵀ := by
        rw [Matrix.mul_assoc, h.mul_transpose, Matrix.mul_one]
    _ = b := by rw [hab, Matrix.mul_assoc, h.mul_transpose, Matrix.mul_one]

/-- A rotation is the matrix of its own cofactors. -/
theorem cofactors_eq (h : m.IsRotation) : m.cofactors = m := by
  have hadjugate : m.toMatrix.adjugate = m.toMatrixᵀ :=
    calc m.toMatrix.adjugate = m.toMatrix.adjugate * (m.toMatrix * m.toMatrixᵀ) := by
          rw [h.mul_transpose, Matrix.mul_one]
      _ = m.toMatrixᵀ := by
          rw [← Matrix.mul_assoc, adjugate_mul, h.det_eq_one, one_smul, Matrix.one_mul]
  apply toMatrix_injective
  rw [← transpose_inj, ← hadjugate, ← toMatrix_cofactors, toMatrix_transpose]

theorem cofactor (h : m.IsRotation) (i j : Fin 3) : m.cofactors i j = m i j := by
  rw [h.cofactors_eq]

theorem mulVec_cross (h : m.IsRotation) (v w : Fin 3 → ℝ) :
    m.toMatrix *ᵥ (v ⨯₃ w) = (m.toMatrix *ᵥ v) ⨯₃ (m.toMatrix *ᵥ w) := by
  rw [cross_mulVec, h.cofactors_eq]

theorem dotProduct_mulVec_self (h : m.IsRotation) (v : Fin 3 → ℝ) :
    (m.toMatrix *ᵥ v) ⬝ᵥ (m.toMatrix *ᵥ v) = v ⬝ᵥ v := by
  rw [dotProduct_mulVec, vecMul_mulVec, h.transpose_mul, vecMul_one]

theorem row_normSq (h : m.IsRotation) (i : Fin 3) :
    m i 0 * m i 0 + m i 1 * m i 1 + m i 2 * m i 2 = 1 := by
  simpa [Matrix.mul_apply, Fin.sum_univ_three] using congrFun (congrFun h.mul_transpose i) i

theorem row_dot (h : m.IsRotation) {i j : Fin 3} (hij : i ≠ j) :
    m i 0 * m j 0 + m i 1 * m j 1 + m i 2 * m j 2 = 0 := by
  simpa [Matrix.mul_apply, Fin.sum_univ_three, hij] using congrFun (congrFun h.mul_transpose i) j

theorem column_normSq (h : m.IsRotation) (i : Fin 3) :
    m 0 i * m 0 i + m 1 i * m 1 i + m 2 i * m 2 i = 1 := by
  simpa using h.transpose.row_normSq i

theorem column_dot (h : m.IsRotation) {i j : Fin 3} (hij : i ≠ j) :
    m 0 i * m 0 j + m 1 i * m 1 j + m 2 i * m 2 j = 0 := by
  simpa using h.transpose.row_dot hij

end IsRotation

/-! ## The products that a rotation shows

Behind a rotation stands a quaternion, and four times the product of two of its components is a
linear form of the entries. The forms must then satisfy what such products satisfy; the two lemmas
below say so for the pairs that contain the scalar part. -/

/-- One more than the trace: four times the square of the scalar part of a rotation. -/
def pivot (m : Mat 3 3 ℝ) : ℝ := m.xx + m.yy + m.zz + 1

namespace IsRotation
variable {m : Mat 3 3 ℝ}

theorem pivot_mul_squares (h : m.IsRotation) :
    m.pivot * (1 + m.xx - m.yy - m.zz) = (m.zy - m.yz) * (m.zy - m.yz) ∧
    m.pivot * (1 - m.xx + m.yy - m.zz) = (m.xz - m.zx) * (m.xz - m.zx) ∧
    m.pivot * (1 - m.xx - m.yy + m.zz) = (m.yx - m.xy) * (m.yx - m.xy) := by
  have hx : m.yy * m.zz - m.yz * m.zy = m.xx := h.cofactor 0 0
  have hy : m.xx * m.zz - m.xz * m.zx = m.yy := h.cofactor 1 1
  have hz : m.xx * m.yy - m.xy * m.yx = m.zz := h.cofactor 2 2
  rw [pivot]
  refine ⟨?_, ?_, ?_⟩
  · linear_combination h.column_normSq 0 - h.row_normSq 1 - h.row_normSq 2 - 2 * hx
  · linear_combination h.column_normSq 1 - h.row_normSq 0 - h.row_normSq 2 - 2 * hy
  · linear_combination h.column_normSq 2 - h.row_normSq 0 - h.row_normSq 1 - 2 * hz

theorem pivot_mul_products (h : m.IsRotation) :
    m.pivot * (m.xy + m.yx) = (m.zy - m.yz) * (m.xz - m.zx) ∧
    m.pivot * (m.xz + m.zx) = (m.zy - m.yz) * (m.yx - m.xy) ∧
    m.pivot * (m.yz + m.zy) = (m.xz - m.zx) * (m.yx - m.xy) := by
  have hxy : m.yz * m.zx - m.yx * m.zz = m.xy := h.cofactor 0 1
  have hyx : m.xz * m.zy - m.xy * m.zz = m.yx := h.cofactor 1 0
  have hxz : m.yx * m.zy - m.yy * m.zx = m.xz := h.cofactor 0 2
  have hzx : m.xy * m.yz - m.xz * m.yy = m.zx := h.cofactor 2 0
  have hyz : m.xy * m.zx - m.xx * m.zy = m.yz := h.cofactor 1 2
  have hzy : m.xz * m.yx - m.xx * m.yz = m.zy := h.cofactor 2 1
  have rowXY := h.row_dot (show (0 : Fin 3) ≠ 1 by decide)
  have rowXZ := h.row_dot (show (0 : Fin 3) ≠ 2 by decide)
  have rowYZ := h.row_dot (show (1 : Fin 3) ≠ 2 by decide)
  have columnXY := h.column_dot (show (0 : Fin 3) ≠ 1 by decide)
  have columnXZ := h.column_dot (show (0 : Fin 3) ≠ 2 by decide)
  have columnYZ := h.column_dot (show (1 : Fin 3) ≠ 2 by decide)
  rw [pivot]
  refine ⟨?_, ?_, ?_⟩
  · linear_combination rowXY + columnXY - hxy - hyx
  · linear_combination rowXZ + columnXZ - hxz - hzx
  · linear_combination rowYZ + columnYZ - hyz - hzy

end IsRotation
end Mat

namespace Quat

/-! ## The matrix of a quaternion -/

theorem toMatrix_toMat (q : Quat ℝ) : q.toMat.toMatrix =
    !![q.w ^ 2 + q.i ^ 2 - q.j ^ 2 - q.k ^ 2, 2 * (q.i * q.j - q.w * q.k),
        2 * (q.i * q.k + q.w * q.j);
      2 * (q.i * q.j + q.w * q.k), q.w ^ 2 - q.i ^ 2 + q.j ^ 2 - q.k ^ 2,
        2 * (q.j * q.k - q.w * q.i);
      2 * (q.i * q.k - q.w * q.j), 2 * (q.j * q.k + q.w * q.i),
        q.w ^ 2 - q.i ^ 2 - q.j ^ 2 + q.k ^ 2] := by
  rw [toMat, Mat.toMatrix_ofRows, Scalar.two_real]
  ext i j
  fin_cases i <;> fin_cases j <;> simp <;> ring

/-- Composing two rotations multiplies their matrices. -/
theorem toMat_mul (p q : Quat ℝ) : (p * q).toMat = p.toMat * q.toMat := by
  apply Mat.toMatrix_injective
  rw [Mat.toMatrix_mul]
  simp only [toMatrix_toMat, w_mul, i_mul, j_mul, k_mul]
  ext i j
  fin_cases i <;> fin_cases j <;> simp [Matrix.mul_apply, Fin.sum_univ_three] <;> ring

theorem normSq_mul (p q : Quat ℝ) : (p * q).normSq = p.normSq * q.normSq := by
  simp only [normSq, w_mul, i_mul, j_mul, k_mul]
  ring

theorem normSq_conj (q : Quat ℝ) : q.conj.normSq = q.normSq := by
  simp [normSq]

theorem toMatrix_toMat_conj (q : Quat ℝ) : q.conj.toMat.toMatrix = q.toMat.toMatrixᵀ := by
  simp only [toMatrix_toMat, w_conj, i_conj, j_conj, k_conj]
  ext i j
  fin_cases i <;> fin_cases j <;> simp <;> ring

theorem toMatrix_mul_transpose (q : Quat ℝ) :
    q.toMat.toMatrix * q.toMat.toMatrixᵀ = q.normSq ^ 2 • 1 := by
  rw [← toMatrix_toMat_conj, ← Mat.toMatrix_mul, ← toMat_mul, toMatrix_toMat]
  simp only [normSq, w_conj, i_conj, j_conj, k_conj, w_mul, i_mul, j_mul, k_mul]
  ext i j
  fin_cases i <;> fin_cases j <;> simp <;> ring

theorem det_toMat (q : Quat ℝ) : q.toMat.toMatrix.det = q.normSq ^ 3 := by
  rw [toMatrix_toMat, det_fin_three, normSq]
  simp
  ring

theorem isRotation_toMat {q : Quat ℝ} (hq : q.normSq = 1) : q.toMat.IsRotation := by
  rw [Mat.IsRotation, mem_specialOrthogonalGroup_iff, mem_orthogonalGroup_iff,
    toMatrix_mul_transpose, det_toMat, hq, one_pow, one_pow, one_smul]
  exact ⟨rfl, rfl⟩

theorem norm_eq_one_iff {q : Quat ℝ} : q.norm = 1 ↔ q.normSq = 1 := Real.sqrt_eq_one

/-! ## Vectors seen from the other frame -/

/-- A vector seen from the frame that a unit quaternion leads to is turned by the transpose. -/
theorem component_toFrame {q : Quat ℝ} (hq : q.normSq = 1) (v : Vec3 ℝ) :
    (q.toFrame v).component = q.toMat.transpose.toMatrix *ᵥ v.component := by
  rw [normSq] at hq
  rw [Mat.toMatrix_transpose, toMatrix_toMat]
  simp only [toFrame, vec, i_conj, j_conj, k_conj, Scalar.two_real]
  -- The vector itself is added, where the matrix has its product with the squared norm.
  ext i
  fin_cases i <;>
    simp [Vec3.cross, Vec3.component, mulVec, dotProduct, Fin.sum_univ_three]
  · linear_combination (-v.x) * hq
  · linear_combination (-v.y) * hq
  · linear_combination (-v.z) * hq

theorem toFrame_mul (q : Quat ℝ) (v : Vec3 ℝ) (a : ℝ) : q.toFrame (v * a) = q.toFrame v * a := by
  simp only [toFrame, Scalar.two_real]
  ext <;> simp [vec, Vec3.cross] <;> ring

theorem toFrame_cross {q : Quat ℝ} (hq : q.normSq = 1) (v w : Vec3 ℝ) :
    q.toFrame (v.cross w) = (q.toFrame v).cross (q.toFrame w) := by
  apply Vec3.component_injective
  rw [Vec3.component_cross, component_toFrame hq, component_toFrame hq, component_toFrame hq,
    Vec3.component_cross, (isRotation_toMat hq).transpose.mulVec_cross]

theorem normSq_toFrame {q : Quat ℝ} (hq : q.normSq = 1) (v : Vec3 ℝ) :
    (q.toFrame v).normSq = v.normSq := by
  rw [Vec3.normSq_eq_dotProduct, Vec3.normSq_eq_dotProduct, component_toFrame hq,
    (isRotation_toMat hq).transpose.dotProduct_mulVec_self]

theorem toFrame_direction {q : Quat ℝ} (hq : q.normSq = 1) (v : Vec3 ℝ) :
    q.toFrame v.direction = (q.toFrame v).direction := by
  have hnorm : (q.toFrame v).norm = v.norm := congrArg Real.sqrt (normSq_toFrame hq v)
  rw [Vec3.direction_eq_mul, Vec3.direction_eq_mul, hnorm, toFrame_mul]

/-- Turning a frame turns its three axes. -/
theorem transpose_mul_ofColumns {q : Quat ℝ} (hq : q.normSq = 1) (a b c : Vec3 ℝ) :
    q.toMat.transpose.toMatrix * (Mat.ofColumns a b c).toMatrix =
      (Mat.ofColumns (q.toFrame a) (q.toFrame b) (q.toFrame c)).toMatrix := by
  rw [Vec3.toMatrix_ofColumns, Vec3.toMatrix_ofColumns]
  ext i j
  simp only [component_toFrame hq]
  fin_cases j <;> rfl

/-! ## The quaternions of one matrix -/

/-- The other unit quaternion of the same rotation. -/
instance : Neg (Quat ℝ) := ⟨fun q => ⟨-q.w, -q.i, -q.j, -q.k⟩⟩

theorem neg_def (q : Quat ℝ) : -q = ⟨-q.w, -q.i, -q.j, -q.k⟩ := rfl

theorem toFrame_neg (q : Quat ℝ) (v : Vec3 ℝ) : (-q).toFrame v = q.toFrame v := by
  simp only [toFrame, neg_def, Scalar.two_real]
  ext <;> simp [vec, Vec3.cross] <;> ring

/-- A unit quaternion that moves nothing is real. -/
theorem eq_of_toMatrix_eq_one {r : Quat ℝ} (hr : r.normSq = 1) (h : r.toMat.toMatrix = 1) :
    r = ⟨1, 0, 0, 0⟩ ∨ r = ⟨-1, 0, 0, 0⟩ := by
  rw [toMatrix_toMat] at h
  rw [normSq] at hr
  have hx : r.w ^ 2 + r.i ^ 2 - r.j ^ 2 - r.k ^ 2 = 1 := by simpa using congrFun (congrFun h 0) 0
  have hy : r.w ^ 2 - r.i ^ 2 + r.j ^ 2 - r.k ^ 2 = 1 := by simpa using congrFun (congrFun h 1) 1
  have hz : r.w ^ 2 - r.i ^ 2 - r.j ^ 2 + r.k ^ 2 = 1 := by simpa using congrFun (congrFun h 2) 2
  have hi : r.i = 0 := sq_eq_zero_iff.mp (by linarith)
  have hj : r.j = 0 := sq_eq_zero_iff.mp (by linarith)
  have hk : r.k = 0 := sq_eq_zero_iff.mp (by linarith)
  have hw : r.w ^ 2 = 1 := by simpa [hi, hj, hk] using hx
  rcases sq_eq_one_iff.mp hw with hw | hw
  · exact .inl (Quat.ext hw hi hj hk)
  · exact .inr (Quat.ext hw hi hj hk)

/-- **A rotation has two unit quaternions**, which differ in sign. -/
theorem eq_or_eq_neg_of_toMat_eq {p q : Quat ℝ} (hp : p.normSq = 1) (hq : q.normSq = 1)
    (h : p.toMat = q.toMat) : p = q ∨ p = -q := by
  -- The quotient of the two moves nothing.
  have hquotient : (q.conj * p).toMat.toMatrix = 1 := by
    rw [toMat_mul, Mat.toMatrix_mul, toMatrix_toMat_conj, h, (isRotation_toMat hq).transpose_mul]
  have hunit : (q.conj * p).normSq = 1 := by
    rw [normSq_mul, normSq_conj, hp, hq, mul_one]
  have hp' : p = q * (q.conj * p) := by
    rw [normSq] at hq
    ext <;> simp
    · linear_combination (-p.w) * hq
    · linear_combination (-p.i) * hq
    · linear_combination (-p.j) * hq
    · linear_combination (-p.k) * hq
  rcases eq_of_toMatrix_eq_one hunit hquotient with h | h <;> rw [hp', h]
  · left
    ext <;> simp
  · right
    ext <;> simp [neg_def]

/-! ## Reading a rotation -/

/-- A quaternion whose products of two components are those that a matrix shows. -/
structure Reads (q : Quat ℝ) (m : Mat 3 3 ℝ) : Prop where
  ww : 4 * (q.w * q.w) = m.pivot
  ii : 4 * (q.i * q.i) = 1 + m.xx - m.yy - m.zz
  jj : 4 * (q.j * q.j) = 1 - m.xx + m.yy - m.zz
  kk : 4 * (q.k * q.k) = 1 - m.xx - m.yy + m.zz
  wi : 4 * (q.w * q.i) = m.zy - m.yz
  wj : 4 * (q.w * q.j) = m.xz - m.zx
  wk : 4 * (q.w * q.k) = m.yx - m.xy
  ij : 4 * (q.i * q.j) = m.xy + m.yx
  ik : 4 * (q.i * q.k) = m.xz + m.zx
  jk : 4 * (q.j * q.k) = m.yz + m.zy

theorem Reads.normSq_eq_one {q : Quat ℝ} {m : Mat 3 3 ℝ} (h : q.Reads m) : q.normSq = 1 := by
  obtain ⟨ww, ii, jj, kk, -⟩ := h
  rw [Mat.pivot] at ww
  rw [normSq]
  linear_combination (ww + ii + jj + kk) / 4

theorem Reads.toMat_eq {q : Quat ℝ} {m : Mat 3 3 ℝ} (h : q.Reads m) : q.toMat = m := by
  obtain ⟨ww, ii, jj, kk, wi, wj, wk, ij, ik, jk⟩ := h
  rw [Mat.pivot] at ww
  apply Mat.toMatrix_injective
  rw [toMatrix_toMat]
  ext a b
  fin_cases a <;> fin_cases b <;> simp
  · linear_combination (ww + ii - jj - kk) / 4
  · linear_combination (ij - wk) / 2
  · linear_combination (ik + wj) / 2
  · linear_combination (ij + wk) / 2
  · linear_combination (ww - ii + jj - kk) / 4
  · linear_combination (jk - wi) / 2
  · linear_combination (ik - wj) / 2
  · linear_combination (jk + wi) / 2
  · linear_combination (ww - ii - jj + kk) / 4

/-- The reading of a matrix in which the scalar part leads. -/
def scalarLed {α : Type} [Scalar α] (m : Mat 3 3 α) : Quat α :=
  let d := Scalar.sqrt (m.xx + m.yy + m.zz + 1.0) * 2.0
  ⟨0.25 * d, (m.zy - m.yz) / d, (m.xz - m.zx) / d, (m.yx - m.xy) / d⟩

theorem scalarLed_eq (m : Mat 3 3 ℝ) : scalarLed m =
    ⟨√m.pivot / 2, (m.zy - m.yz) / (√m.pivot * 2), (m.xz - m.zx) / (√m.pivot * 2),
      (m.yx - m.xy) / (√m.pivot * 2)⟩ := by
  have hd : Scalar.sqrt (m.xx + m.yy + m.zz + 1) = √m.pivot := rfl
  simp only [scalarLed, Scalar.one_real, Scalar.two_real, hd, mk.injEq, and_true]
  ring

/-- A rotation with a positive pivot is read correctly. -/
theorem reads_scalarLed {m : Mat 3 3 ℝ} (h : m.IsRotation) (hpivot : 0 < m.pivot) :
    (scalarLed m).Reads m := by
  obtain ⟨hii, hjj, hkk⟩ := h.pivot_mul_squares
  obtain ⟨hij, hik, hjk⟩ := h.pivot_mul_products
  have hsqrt : √m.pivot * √m.pivot = m.pivot := Real.mul_self_sqrt hpivot.le
  have hne : √m.pivot ≠ 0 := (Real.sqrt_pos.mpr hpivot).ne'
  have hscalar (x : ℝ) : 4 * (√m.pivot / 2 * (x / (√m.pivot * 2))) = x := by
    field_simp
    norm_num
  have hvector {x y a : ℝ} (ha : m.pivot * a = x * y) :
      4 * (x / (√m.pivot * 2) * (y / (√m.pivot * 2))) = a := by
    rw [div_mul_div_comm, mul_mul_mul_comm, hsqrt, ← ha]
    field_simp
    ring
  rw [scalarLed_eq]
  exact
    { ww := by linear_combination hsqrt
      ii := hvector hii
      jj := hvector hjj
      kk := hvector hkk
      wi := hscalar _
      wj := hscalar _
      wk := hscalar _
      ij := hvector hij
      ik := hvector hik
      jk := hvector hjk }

/-- No turn, and half a turn about each axis. -/
noncomputable def halfTurns : List (Quat ℝ) :=
  [⟨1, 0, 0, 0⟩, ⟨0, 1, 0, 0⟩, ⟨0, 0, 1, 0⟩, ⟨0, 0, 0, 1⟩]

/-- The diagonal of the matrix of a half turn. -/
def signs (u : Quat ℝ) : Vec3 ℝ where
  x := u.w ^ 2 + u.i ^ 2 - u.j ^ 2 - u.k ^ 2
  y := u.w ^ 2 - u.i ^ 2 + u.j ^ 2 - u.k ^ 2
  z := u.w ^ 2 - u.i ^ 2 - u.j ^ 2 + u.k ^ 2

section HalfTurn
variable {u : Quat ℝ}

theorem normSq_halfTurn (hu : u ∈ halfTurns) : u.normSq = 1 := by
  simp only [halfTurns, List.mem_cons, List.not_mem_nil, or_false] at hu
  rcases hu with rfl | rfl | rfl | rfl <;> simp [normSq]

/-- A half turn gives signs to the columns. -/
theorem get_mul_halfTurn (hu : u ∈ halfTurns) (m : Mat 3 3 ℝ) (i j : Fin 3) :
    (m * u.toMat) i j = m i j * u.signs.component j := by
  have hproduct := congrFun (congrFun (Mat.toMatrix_mul m u.toMat) i) j
  rw [Mat.toMatrix_apply] at hproduct
  rw [hproduct, toMatrix_toMat, Matrix.mul_apply, Fin.sum_univ_three]
  simp only [halfTurns, List.mem_cons, List.not_mem_nil, or_false] at hu
  rcases hu with rfl | rfl | rfl | rfl <;> fin_cases j <;> simp [signs, Vec3.component]

theorem pivot_mul_halfTurn (hu : u ∈ halfTurns) (m : Mat 3 3 ℝ) :
    (m * u.toMat).pivot = m.xx * u.signs.x + m.yy * u.signs.y + m.zz * u.signs.z + 1 := by
  simp only [Mat.pivot, get_mul_halfTurn hu, Vec3.component]

/-- Two half turns about one axis are no turn. -/
theorem toMatrix_halfTurn_mul_self (hu : u ∈ halfTurns) :
    u.toMat.toMatrix * u.toMat.toMatrix = 1 := by
  simp only [halfTurns, List.mem_cons, List.not_mem_nil, or_false] at hu
  rcases hu with rfl | rfl | rfl | rfl <;> rw [toMatrix_toMat] <;> ext i j <;>
    fin_cases i <;> fin_cases j <;> simp

end HalfTurn

/-- **Every branch of the reading is the first one after a half turn**, and the divisor of the
branch that is taken does not vanish. -/
theorem ofMat_eq_scalarLed (m : Mat 3 3 ℝ) :
    ∃ u ∈ halfTurns, 0 < (m * u.toMat).pivot ∧ ofMat m = scalarLed (m * u.toMat) * u := by
  simp only [ofMat, Scalar.zero_real, Scalar.one_real, Scalar.two_real]
  split_ifs with htrace hx hy
  · have hu : (⟨1, 0, 0, 0⟩ : Quat ℝ) ∈ halfTurns := by simp [halfTurns]
    have hpivot : (m * (⟨1, 0, 0, 0⟩ : Quat ℝ).toMat).pivot = m.xx + m.yy + m.zz + 1 := by
      simp [pivot_mul_halfTurn hu, signs]
    refine ⟨_, hu, by linarith, ?_⟩
    rw [scalarLed_eq, hpivot]
    ext <;> simp [get_mul_halfTurn hu, signs, Vec3.component, Scalar.sqrt, -Mat.get_mul]
    ring
  · have hu : (⟨0, 1, 0, 0⟩ : Quat ℝ) ∈ halfTurns := by simp [halfTurns]
    have hpivot : (m * (⟨0, 1, 0, 0⟩ : Quat ℝ).toMat).pivot = 1 + m.xx - m.yy - m.zz := by
      simp [pivot_mul_halfTurn hu, signs]
      ring
    refine ⟨_, hu, by linarith, ?_⟩
    rw [scalarLed_eq, hpivot]
    ext <;> simp [get_mul_halfTurn hu, signs, Vec3.component, Scalar.sqrt, -Mat.get_mul] <;> ring
  · have hu : (⟨0, 0, 1, 0⟩ : Quat ℝ) ∈ halfTurns := by simp [halfTurns]
    have hpivot : (m * (⟨0, 0, 1, 0⟩ : Quat ℝ).toMat).pivot = 1 + m.yy - m.xx - m.zz := by
      simp [pivot_mul_halfTurn hu, signs]
      ring
    have hxy : m.xx ≤ m.yy := le_of_not_gt fun h => hx ⟨h, hy.trans h⟩
    refine ⟨_, hu, by linarith, ?_⟩
    rw [scalarLed_eq, hpivot]
    ext <;> simp [get_mul_halfTurn hu, signs, Vec3.component, Scalar.sqrt, -Mat.get_mul] <;> ring
  · have hu : (⟨0, 0, 0, 1⟩ : Quat ℝ) ∈ halfTurns := by simp [halfTurns]
    have hpivot : (m * (⟨0, 0, 0, 1⟩ : Quat ℝ).toMat).pivot = 1 + m.zz - m.xx - m.yy := by
      simp [pivot_mul_halfTurn hu, signs]
      ring
    have hxz : m.xx ≤ m.zz := le_of_not_gt fun h => hx ⟨(not_lt.mp hy).trans_lt h, h⟩
    refine ⟨_, hu, by linarith, ?_⟩
    rw [scalarLed_eq, hpivot]
    ext <;> simp [get_mul_halfTurn hu, signs, Vec3.component, Scalar.sqrt, -Mat.get_mul] <;> ring

section Reading
variable {m : Mat 3 3 ℝ}

/-- A rotation is read as a unit quaternion. -/
theorem normSq_ofMat (h : m.IsRotation) : (ofMat m).normSq = 1 := by
  obtain ⟨u, hu, hpivot, heq⟩ := ofMat_eq_scalarLed m
  have hreads := reads_scalarLed (h.mul (isRotation_toMat (normSq_halfTurn hu))) hpivot
  rw [heq, normSq_mul, hreads.normSq_eq_one, normSq_halfTurn hu, mul_one]

/-- **A rotation is the matrix of its reading.** -/
theorem toMat_ofMat (h : m.IsRotation) : (ofMat m).toMat = m := by
  obtain ⟨u, hu, hpivot, heq⟩ := ofMat_eq_scalarLed m
  have hreads := reads_scalarLed (h.mul (isRotation_toMat (normSq_halfTurn hu))) hpivot
  apply Mat.toMatrix_injective
  rw [heq, toMat_mul, hreads.toMat_eq, Mat.toMatrix_mul, Mat.toMatrix_mul, Matrix.mul_assoc,
    toMatrix_halfTurn_mul_self hu, Matrix.mul_one]

end Reading

end Quat
end Attitude
