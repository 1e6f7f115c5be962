import Attitude.Proofs.Binary32.Arithmetic
import Attitude.Proofs.Exact

/-!
# The exact reading of machine numbers

Every binary32 number that is finite is a real number. Reading the numbers of a vector, of a matrix
or of a configuration in this way gives the data of the exact algorithm that the running one starts
from.
-/

namespace Attitude
open Binary32

/-- The vector of the values of its components. -/
noncomputable def Vec3.exact (v : Vec3 Float32) : Vec3 ℝ := ⟨toReal v.x, toReal v.y, toReal v.z⟩

@[simp] theorem Vec3.x_exact (v : Vec3 Float32) : v.exact.x = toReal v.x := rfl
@[simp] theorem Vec3.y_exact (v : Vec3 Float32) : v.exact.y = toReal v.y := rfl
@[simp] theorem Vec3.z_exact (v : Vec3 Float32) : v.exact.z = toReal v.z := rfl

theorem Vec3.component_exact (v : Vec3 Float32) (i : Fin 3) :
    v.exact.component i = toReal (v.component i) := by
  fin_cases i <;> rfl

/-- The quaternion of the values of its components. -/
noncomputable def Quat.exact (q : Quat Float32) : Quat ℝ :=
  ⟨toReal q.w, toReal q.i, toReal q.j, toReal q.k⟩

@[simp] theorem Quat.w_exact (q : Quat Float32) : q.exact.w = toReal q.w := rfl
@[simp] theorem Quat.i_exact (q : Quat Float32) : q.exact.i = toReal q.i := rfl
@[simp] theorem Quat.j_exact (q : Quat Float32) : q.exact.j = toReal q.j := rfl
@[simp] theorem Quat.k_exact (q : Quat Float32) : q.exact.k = toReal q.k := rfl

/-- The matrix of the values of its entries. -/
noncomputable def Mat.exact {m n : ℕ} (a : Mat m n Float32) : Mat m n ℝ :=
  .ofFn fun i j => toReal (a i j)

@[simp] theorem Mat.get_exact {m n : ℕ} (a : Mat m n Float32) (i : Fin m) (j : Fin n) :
    a.exact i j = toReal (a i j) := get_ofFn _ i j

namespace Estimator

noncomputable def RateSmoothing.exact : RateSmoothing Float32 → RateSmoothing ℝ
  | direct => direct
  | lowPass weight => lowPass (toReal weight)

/-- The configuration with the same values. -/
noncomputable def Config.exact (c : Config Float32) : Config ℝ where
  field := c.field.exact
  fieldNoise := c.fieldNoise.exact
  smoothing := c.smoothing.exact
  attitudeNoise := toReal c.attitudeNoise
  biasNoise := toReal c.biasNoise

end Estimator
end Attitude
