import Mathlib
import Attitude.Params
import Attitude.Proofs.Binary32.Sine
import Attitude.Proofs.Validity

/-!
# Mountings from angles

A mounting that is given by angles takes the sines and cosines of three half angles from a library,
and multiplies them out. Here the two functions are parameters. As long as they are off by at most
`2 ^ (-20)` at the three half angles, the quaternion of the mounting is nearly a unit: over exact
arithmetic the sum of its squares is a product of three sums `cos² + sin²`.

## Main definitions

* `Mounting.ofEulerBy`: the mounting that given functions for sine and cosine lead to

## Main results

* `Mounting.nearUnit_ofEulerBy`
-/

namespace Attitude
open Binary32

namespace Binary32

/-- Binary32 with other functions for sine and cosine. -/
@[reducible] def scalarWith (sin cos : Float32 → Float32) : Scalar Float32 :=
  { instScalarFloat32 with sin, cos }

/-- A product of three accurate factors. -/
theorem Approx.mul_three {f g k : Float32} {x y z : ℝ} (hf : Approx f x (1 / 2 ^ 20) 1)
    (hg : Approx g y (1 / 2 ^ 20) 1) (hk : Approx k z (1 / 2 ^ 20) 1) :
    Approx (f * g * k) (x * y * z) (7 / 2 ^ 20) 1 :=
  ((hf.mul hg (by norm_num)).mul hk (by norm_num)).mono (by norm_num) (by norm_num)

end Binary32

/-- The half angles of successive rotations. -/
def EulerAngles.halves (e : EulerAngles Float32) : List Float32 :=
  [e.roll * 0.5, e.pitch * 0.5, e.yaw * 0.5]

namespace Mounting
variable {sin cos : Float32 → Float32}

/-- The mounting that given functions for sine and cosine lead to. -/
def ofEulerBy (sin cos : Float32 → Float32) (e : EulerAngles Float32) : Mounting Float32 :=
  @ofEuler Float32 (scalarWith sin cos) e

theorem ofEulerBy_sin_cos (e : EulerAngles Float32) :
    ofEulerBy Scalar.sin Scalar.cos e = ofEuler e := rfl

/-- Over exact arithmetic, the quaternion of three half angles has the norm one. -/
theorem sum_sq_halves (a b c : ℝ) :
    (Real.cos a * Real.cos b * Real.cos c + Real.sin a * Real.sin b * Real.sin c) ^ 2
      + (Real.sin a * Real.cos b * Real.cos c - Real.cos a * Real.sin b * Real.sin c) ^ 2
      + (Real.cos a * Real.sin b * Real.cos c + Real.sin a * Real.cos b * Real.sin c) ^ 2
      + (Real.cos a * Real.cos b * Real.sin c - Real.sin a * Real.sin b * Real.cos c) ^ 2 = 1 := by
  calc _ = (Real.cos a ^ 2 + Real.sin a ^ 2) * (Real.cos b ^ 2 + Real.sin b ^ 2)
        * (Real.cos c ^ 2 + Real.sin c ^ 2) := by ring
    _ = 1 := by simp only [Real.cos_sq_add_sin_sq, mul_one]

/-- **A mounting from angles is nearly a unit.** -/
theorem nearUnit_ofEulerBy {e : EulerAngles Float32} (h : ∀ x ∈ e.halves, AccurateAt sin cos x) :
    (ofEulerBy sin cos e).quat.NearUnit (1 / 200) := by
  obtain ⟨hsr, hcr⟩ := (h (e.roll * 0.5) (by simp [EulerAngles.halves])).approx
  obtain ⟨hsp, hcp⟩ := (h (e.pitch * 0.5) (by simp [EulerAngles.halves])).approx
  obtain ⟨hsy, hcy⟩ := (h (e.yaw * 0.5) (by simp [EulerAngles.halves])).approx
  have hadd {f g : Float32} {x y : ℝ} (hf : Approx f x (7 / 2 ^ 20) 1)
      (hg : Approx g y (7 / 2 ^ 20) 1) : Approx (f + g) (x + y) (1 / 2 ^ 16) 2 :=
    (hf.add hg (by norm_num)).mono (by norm_num) (by norm_num)
  have hsub {f g : Float32} {x y : ℝ} (hf : Approx f x (7 / 2 ^ 20) 1)
      (hg : Approx g y (7 / 2 ^ 20) 1) : Approx (f - g) (x - y) (1 / 2 ^ 16) 2 :=
    (hf.sub hg (by norm_num)).mono (by norm_num) (by norm_num)
  have hw := hadd (hcr.mul_three hcp hcy) (hsr.mul_three hsp hsy)
  have hi := hsub (hsr.mul_three hcp hcy) (hcr.mul_three hsp hsy)
  have hj := hadd (hcr.mul_three hsp hcy) (hsr.mul_three hcp hsy)
  have hk := hsub (hcr.mul_three hcp hsy) (hsr.mul_three hsp hcy)
  refine ⟨(Quat.isFinite_iff _).mpr ⟨hw.finite, hi.finite, hj.finite, hk.finite⟩, ?_⟩
  have hone := sum_sq_halves (toReal (e.roll * 0.5)) (toReal (e.pitch * 0.5)) (toReal (e.yaw * 0.5))
  have hchange := Quat.abs_sum_sq_sub_le hw.error hi.error hj.error hk.error (by norm_num)
    (by rw [hone]; norm_num)
  rw [hone] at hchange
  rw [Quat.normSq_eq]
  exact hchange.trans (by norm_num)

end Mounting
end Attitude
