import Mathlib.Analysis.Calculus.FDeriv.Add
import Mathlib.Analysis.Calculus.FDeriv.Linear
import Mathlib.Topology.Algebra.Module.FiniteDimension
import Attitude.Proofs.Covariance
import Attitude.Proofs.Exact.Fold

/-!
# The observation is a derivative

A correction is computed to first order: the predicted vector moves with the error as the observation
says. It is folded in exactly, through a product of quaternions and a normalization. Over the real
numbers the two fit together for every unit reference: the observation is the derivative of the
prediction that is left when an error has been absorbed and folded, and the rest is of second order.
So sign, side of multiplication and the factor two agree between the three places that choose them.

## Main definitions

* `Estimator.predictionAfter`: the prediction of a vector as a function of the error
* `Estimator.Linearizes`: what folding does to the prediction of a vector
-/

namespace Attitude
open Matrix

namespace Vec3

/-- The mean of two vectors of one length is not longer. -/
theorem normSq_mean_le {b b' : Vec3 ℝ} (h : b'.normSq = b.normSq) :
    ((b' + b) * (1 / 2 : ℝ)).normSq ≤ b.normSq := by
  -- The identity of the parallelogram, where the second diagonal is dropped.
  have hdiagonals : ((b' + b) * (1 / 2 : ℝ)).normSq + ((b' - b) * (1 / 2 : ℝ)).normSq =
      (b'.normSq + b.normSq) / 2 := by
    simp only [normSq, x_add, y_add, z_add, x_sub, y_sub, z_sub, x_mul, y_mul, z_mul]
    ring
  linarith [normSq_nonneg ((b' - b) * (1 / 2 : ℝ))]

/-- A vector that becomes one of the same length by the cross product of their mean with `g` has moved
by its own cross product with `g`, up to second order. -/
theorem normSq_turn_sub_cross_le {b b' g : Vec3 ℝ} (hlength : b'.normSq = b.normSq)
    (hturn : b' - b = ((b' + b) * (1 / 2 : ℝ)).cross g) :
    (b' - b - b.cross g).normSq ≤ (b.norm / 2 * g.normSq) ^ 2 := by
  have hrest : b' - b - b.cross g = ((b' - b) * (1 / 2 : ℝ)).cross g := by
    calc b' - b - b.cross g = ((b' + b) * (1 / 2 : ℝ)).cross g - b.cross g := by rw [← hturn]
      _ = ((b' - b) * (1 / 2 : ℝ)).cross g := by
        ext <;> simp only [cross, x_add, y_add, z_add, x_sub, y_sub, z_sub, x_mul, y_mul, z_mul] <;>
          ring
  have hmove : (b' - b).normSq ≤ b.normSq * g.normSq := by
    rw [hturn]
    calc (((b' + b) * (1 / 2 : ℝ)).cross g).normSq
        ≤ ((b' + b) * (1 / 2 : ℝ)).normSq * g.normSq := normSq_cross_le _ _
      _ ≤ b.normSq * g.normSq :=
          mul_le_mul_of_nonneg_right (normSq_mean_le hlength) g.normSq_nonneg
  have hhalf : ((b' - b) * (1 / 2 : ℝ)).normSq = (b' - b).normSq / 4 := by
    simp only [normSq, x_mul, y_mul, z_mul]
    ring
  calc (b' - b - b.cross g).normSq
      ≤ ((b' - b) * (1 / 2 : ℝ)).normSq * g.normSq := by
        rw [hrest]
        exact normSq_cross_le _ _
    _ ≤ b.normSq * g.normSq / 4 * g.normSq := by
        rw [hhalf]
        exact mul_le_mul_of_nonneg_right (by linarith) g.normSq_nonneg
    _ = (b.norm / 2 * g.normSq) ^ 2 := by
        rw [← norm_mul_self]
        ring

end Vec3

namespace Estimator

/-- The matrix of the cross product takes the product. -/
theorem skew_mul_column (b g : Vec3 ℝ) : (Mat.skew b * Mat.column g).toVec3 = b.cross g := by
  ext <;> simp only [Mat.toVec3, Vec3.get_mul_column] <;>
    simp [mulVec, dotProduct, Fin.sum_univ_three, get_skew, Vec3.component, Vec3.cross] <;> ring

/-- The attitude part of an error. -/
def turnOf (e : Fin 6 → ℝ) : Vec3 ℝ := ⟨e 0, e 1, e 2⟩

/-- The observation reads the attitude part of an error alone. -/
theorem observation_mulVec (b : Vec3 ℝ) (e : Fin 6 → ℝ) :
    (observation b).toMatrix *ᵥ e = (b.cross (turnOf e)).component := by
  rw [toMatrix_observation, observationMatrix]
  ext i
  fin_cases i <;> simp [mulVec, dotProduct, Fin.sum_univ_six, Vec3.component, Vec3.cross, turnOf] <;>
    ring

theorem normSq_turnOf_le (e : Fin 6 → ℝ) : (turnOf e).normSq ≤ 3 * ‖e‖ ^ 2 := by
  apply Vec3.normSq_le_of_component
  intro i
  fin_cases i
  · exact norm_le_pi_norm e 0
  · exact norm_le_pi_norm e 1
  · exact norm_le_pi_norm e 2

/-- An estimator with an error absorbed and nothing else pending. -/
noncomputable def holding (f : Estimator ℝ) (e : Fin 6 → ℝ) : Estimator ℝ :=
  { f with correction := noCorrection }.absorb (Mat.ofFn fun i _ => e i)

/-- The prediction of a vector by an estimator, once an error has been absorbed and folded. -/
noncomputable def predictionAfter (f : Estimator ℝ) (v : Vec3 ℝ) (e : Fin 6 → ℝ) : Fin 3 → ℝ :=
  ((f.holding e).fold.attitude.toFrame v).component

variable {f : Estimator ℝ}

theorem vec_correction_holding (f : Estimator ℝ) (e : Fin 6 → ℝ) :
    (f.holding e).correction.vec = turnOf e := by
  ext <;> simp [holding, absorb, noCorrection, Quat.vec, turnOf, Mat.toVec3, Scalar.zero_real]

theorem w_pending (f : Estimator ℝ) : f.pending.w = 2 := Scalar.two_real

/-- A fold moves the prediction along the cross product of the correction with the mean of the old
and the new prediction. -/
theorem toFrame_fold_sub (hf : f.attitude.normSq = 1) (v : Vec3 ℝ) :
    f.fold.attitude.toFrame v - f.attitude.toFrame v =
      ((f.fold.attitude.toFrame v + f.attitude.toFrame v) * (1 / 2 : ℝ)).cross f.correction.vec := by
  have hcayley := Quat.toFrame_normalize_sub_mul (norm_pending_ne_zero f) (f.attitude.toFrame v)
  rw [← toFrame_fold hf, w_pending] at hcayley
  rw [Vec3.cross_mul_left]
  change _ = (f.fold.attitude.toFrame v + f.attitude.toFrame v).cross f.pending.vec * (1 / 2 : ℝ)
  rw [← hcayley]
  ext <;> simp

/-- What a fold moves a prediction by is linear in the correction, up to second order. -/
theorem normSq_toFrame_fold_sub_le (hf : f.attitude.normSq = 1) (v : Vec3 ℝ) :
    (f.fold.attitude.toFrame v - f.attitude.toFrame v
        - (f.attitude.toFrame v).cross f.correction.vec).normSq
      ≤ ((f.attitude.toFrame v).norm / 2 * f.correction.vec.normSq) ^ 2 := by
  apply Vec3.normSq_turn_sub_cross_le
  · rw [Quat.normSq_toFrame (normSq_fold hf), Quat.normSq_toFrame hf]
  · exact toFrame_fold_sub hf v

/-- The prediction after an error differs from the linear one in second order. -/
theorem norm_predictionAfter_sub_le (hf : f.attitude.normSq = 1) (v : Vec3 ℝ) (e : Fin 6 → ℝ) :
    ‖f.predictionAfter v e - (f.attitude.toFrame v).component
        - (observation (f.attitude.toFrame v)).toMatrix *ᵥ e‖
      ≤ (f.attitude.toFrame v).norm / 2 * (3 * ‖e‖ ^ 2) := by
  have hsq := normSq_toFrame_fold_sub_le (f := f.holding e) hf v
  rw [vec_correction_holding] at hsq
  change (_ - f.attitude.toFrame v - (f.attitude.toFrame v).cross _).normSq
    ≤ ((f.attitude.toFrame v).norm / 2 * _) ^ 2 at hsq
  have hnorm : 0 ≤ (f.attitude.toFrame v).norm / 2 := div_nonneg (Real.sqrt_nonneg _) two_pos.le
  have hcomponent := Vec3.abs_component_le (mul_nonneg hnorm (turnOf e).normSq_nonneg) hsq
  have hturn : (f.attitude.toFrame v).norm / 2 * (turnOf e).normSq
      ≤ (f.attitude.toFrame v).norm / 2 * (3 * ‖e‖ ^ 2) :=
    mul_le_mul_of_nonneg_left (normSq_turnOf_le e) hnorm
  rw [observation_mulVec, pi_norm_le_iff_of_nonneg (by positivity)]
  intro i
  have hi := (hcomponent i).trans hturn
  rwa [Vec3.component_sub, Vec3.component_sub] at hi

/-- The observation is the derivative of the prediction. -/
theorem hasFDerivAt_predictionAfter (hf : f.attitude.normSq = 1) (v : Vec3 ℝ) :
    HasFDerivAt (f.predictionAfter v)
      (observation (f.attitude.toFrame v)).toMatrix.mulVecLin.toContinuousLinearMap 0 := by
  have hrest := norm_predictionAfter_sub_le hf v
  have hzero : f.predictionAfter v 0 = (f.attitude.toFrame v).component := by
    simpa [sub_eq_zero] using hrest 0
  rw [hasFDerivAt_iff_isLittleO_nhds_zero]
  have hsecond : (fun e => f.predictionAfter v (0 + e) - f.predictionAfter v 0
      - (observation (f.attitude.toFrame v)).toMatrix.mulVecLin.toContinuousLinearMap e)
        =O[nhds 0] fun e : Fin 6 → ℝ => ‖e‖ ^ 2 := by
    apply Asymptotics.IsBigO.of_bound ((f.attitude.toFrame v).norm / 2 * 3)
    apply Filter.Eventually.of_forall
    intro e
    rw [zero_add, hzero]
    simpa [mul_assoc] using hrest e
  exact hsecond.trans_isLittleO (Asymptotics.isLittleO_norm_pow_id one_lt_two)

/-! ## One fold -/

/-- What a fold does to the prediction of a vector. -/
structure Linearizes (f : Estimator ℝ) (v : Vec3 ℝ) : Prop where
  /-- The norm that the fold divides by is far from zero. -/
  divisor : 2 ≤ (f.attitude * f.pending).norm
  unit : f.fold.attitude.norm = 1
  /-- The prediction moves by a polynomial in the correction, up to the squared norm. -/
  moved : (f.fold.attitude.toFrame v - f.attitude.toFrame v) * (4 + f.correction.vec.normSq) =
    (Mat.skew (f.attitude.toFrame v) * Mat.column f.correction.vec).toVec3 * (4 : ℝ)
      + f.correction.vec.cross (f.correction.vec.cross (f.attitude.toFrame v)) * (2 : ℝ)
  /-- To first order the prediction moves as the observation says. -/
  derivative : HasFDerivAt (f.predictionAfter v)
    (observation (f.attitude.toFrame v)).toMatrix.mulVecLin.toContinuousLinearMap 0

/-- **The observation linearizes the correction that is folded in**, for every unit reference, every
pending correction and every vector. -/
theorem linearizes_fold (hf : f.attitude.norm = 1) (v : Vec3 ℝ) : f.Linearizes v := by
  have hunit := Quat.norm_eq_one_iff.mp hf
  refine ⟨?_, ?_, ?_, hasFDerivAt_predictionAfter hunit v⟩
  · rw [Quat.norm_mul_of_unit hunit]
    exact two_le_norm_pending f
  · exact Quat.norm_eq_one_iff.mpr (normSq_fold hunit)
  · have hmove := Quat.toFrame_normalize_sub (norm_pending_ne_zero f) (f.attitude.toFrame v)
    rw [← toFrame_fold hunit, normSq_pending, w_pending] at hmove
    rw [skew_mul_column, hmove]
    norm_num [pending, Quat.vec]

/-- A reference far from the local frame, with a large correction pending. -/
theorem linearizes_fold_turned :
    (⟨3 / 5, 0, 4 / 5, 0⟩ : Quat ℝ).norm = 1 ∧
    Linearizes { Estimator.new Config.default Mounting.aligned with
      attitude := ⟨3 / 5, 0, 4 / 5, 0⟩, correction := ⟨2, 1, -3, 2⟩ } ⟨0, 0, 1⟩ := by
  have hunit : (⟨3 / 5, 0, 4 / 5, 0⟩ : Quat ℝ).norm = 1 := by
    rw [Quat.norm_eq_one_iff]
    norm_num [Quat.normSq]
  exact ⟨hunit, linearizes_fold hunit _⟩

end Estimator
end Attitude
