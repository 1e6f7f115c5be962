import Mathlib
import Attitude.Estimator.Correction
import Attitude.Estimator.Propagation

/-!
# The exact estimator

The real numbers are scalars, so every definition of the estimator has an exact reading: nothing
rounds, and every number is finite. The instance takes each operation from Mathlib. A constant such
as `1e-9` is then the rational number that is written, not its binary neighbour.
-/

namespace Attitude

/-- Exact arithmetic. The conversion to a word keeps the integer part and holds it in range. -/
noncomputable instance Scalar.real : Scalar ℝ where
  decidableLT := Real.decidableLT
  decidableLE := Real.decidableLE
  abs x := |x|
  sqrt := Real.sqrt
  sin := Real.sin
  cos := Real.cos
  arcsin := Real.arcsin
  arctan2 y x := Complex.arg ⟨x, y⟩
  quarterTurn := Real.pi / 2.0
  isFinite _ := true
  ofWord w := w.toNat
  toWord x := .ofNat (min ⌊x⌋₊ 0xffffffffffffffff)

theorem Scalar.zero_real : (0.0 : ℝ) = 0 := by norm_num

theorem Scalar.one_real : (1.0 : ℝ) = 1 := by norm_num

theorem Scalar.two_real : (2.0 : ℝ) = 2 := by norm_num

@[simp] theorem Scalar.isFinite_real (x : ℝ) : Scalar.isFinite x = true := rfl

/-- Every exact vector is finite. -/
@[simp] theorem Vec3.isFinite_real (v : Vec3 ℝ) : v.isFinite = true := rfl

@[simp] theorem Scalar.abs_real (x : ℝ) : Scalar.abs x = |x| := rfl

end Attitude
