import Attitude.Proofs.Covariance
import Attitude.Proofs.Exact.Vector

/-!
# A correction adds information

The update of an estimator is written with a gain and an inverse by cofactors. Over the real numbers it
is the Bayesian update of a linear model: when it is not refused, the inverse of the covariance grows
by the information of the measurement, the error it adds is the difference between measurement and
prediction weighed by that information, and of the difference it leaves the part that the noise
explains.

## Main definitions

* `Estimator.errorTo`: the error that an update adds
* `Estimator.IsBayesian`: an update that adds information
-/

namespace Attitude
namespace Estimator
open Matrix

/-- The error that takes an estimator `f` to `g`: the attitude part is pending, the rest is bias. -/
noncomputable def errorTo (f g : Estimator ℝ) : Fin 6 → ℝ :=
  ![g.correction.i - f.correction.i, g.correction.j - f.correction.j, g.correction.k - f.correction.k,
    g.bias.x - f.bias.x, g.bias.y - f.bias.y, g.bias.z - f.bias.z]

theorem errorTo_absorb (f : Estimator ℝ) (p : Mat 6 6 ℝ) (error : Mat 6 1 ℝ) :
    f.errorTo ({ f with covariance := p }.absorb error) = fun i => error i 0 := by
  ext i
  fin_cases i <;> simp [errorTo, absorb, Mat.toVec3]

/-- The covariance that an update leaves and the error that it adds, as the linear update. -/
theorem observe_spec {f : Estimator ℝ} {expected measured noise : Vec3 ℝ}
    (haccepted : (f.observe expected measured noise).2 = true) :
    (f.observe expected measured noise).1.covariance.toMatrix =
      Update.posterior f.covariance.toMatrix (observationMatrix (f.attitude.toFrame expected))
        (Matrix.diagonal noise.component) ∧
    f.errorTo (f.observe expected measured noise).1 =
      Update.gain f.covariance.toMatrix (observationMatrix (f.attitude.toFrame expected))
        (Matrix.diagonal noise.component) *ᵥ
          (measured - f.attitude.toFrame expected).component := by
  obtain ⟨inverse, hi, hg⟩ := observe_accepted haccepted
  rw [hg, errorTo_absorb, ← toMatrix_observation, ← toMatrix_gain hi]
  exact ⟨toMatrix_posterior hi, funext fun i => Vec3.get_mul_column _ _ i⟩

/-- What an update of `f` to `g` does, for an observation `h`, a noise `r` and a difference `e` between
measurement and prediction. -/
structure IsBayesian (f g : Estimator ℝ) (h : Matrix (Fin 3) (Fin 6) ℝ)
    (r : Matrix (Fin 3) (Fin 3) ℝ) (e : Fin 3 → ℝ) : Prop where
  /-- The information of the measurement is added to that of the prior. -/
  information : g.covariance.toMatrix * (f.covariance.toMatrix⁻¹ + hᵀ * r⁻¹ * h) = 1
  /-- The added error is the difference weighed by its information. -/
  increment : f.errorTo g = (g.covariance.toMatrix * hᵀ * r⁻¹) *ᵥ e
  /-- The noise explains what is left of the difference. -/
  residual : e - h *ᵥ f.errorTo g = (r * (h * f.covariance.toMatrix * hᵀ + r)⁻¹) *ᵥ e
  /-- Nothing but the covariance, the pending correction and the bias is touched. -/
  frame : { g with covariance := f.covariance, correction := f.correction, bias := f.bias } = f

variable {f : Estimator ℝ} {expected measured noise : Vec3 ℝ}

/-- **An update that is not refused is the Bayesian one**, for every definite covariance, every
prediction and every measurement with noise along each axis. -/
theorem isBayesian_observe (hf : f.covariance.toMatrix.PosDef)
    (hnoise : ∀ i, 0 < noise.component i)
    (haccepted : (f.observe expected measured noise).2 = true) :
    f.IsBayesian (f.observe expected measured noise).1
      (observationMatrix (f.attitude.toFrame expected)) (Matrix.diagonal noise.component)
      (measured - f.attitude.toFrame expected).component := by
  obtain ⟨hposterior, hincrement⟩ := observe_spec haccepted
  have hP := hf.det_pos.ne'
  have hR : (Matrix.diagonal noise.component).det ≠ 0 := (Matrix.PosDef.diagonal hnoise).det_pos.ne'
  have hS := (Update.posDef_innovation
    (H := observationMatrix (f.attitude.toFrame expected)) hf.posSemidef hnoise).det_pos.ne'
  refine ⟨?_, ?_, ?_, ?_⟩
  · rw [hposterior]
    exact Update.posterior_mul_information hP hS hR
  · rw [hincrement, hposterior, Update.gain_eq_posterior_mul hS hR]
  · rw [hincrement, Matrix.mulVec_mulVec, ← Update.innovation, ← Update.one_sub_mul_gain hS,
      Matrix.sub_mulVec, Matrix.one_mulVec]
  · obtain ⟨inverse, -, hg⟩ := observe_accepted haccepted
    rw [hg]
    rfl

/-- Noise whose product is large enough keeps an update from being refused. -/
theorem observe_accepted_of_noise (hf : f.covariance.toMatrix.PosSemidef)
    (hnoise : ∀ i, 0 ≤ noise.component i)
    (hleast : Mat.leastDet ≤ noise.component 0 * noise.component 1 * noise.component 2) :
    (f.observe expected measured noise).2 = true := by
  simp only [observe]
  split
  · rename_i hnone
    rw [Mat.inverse?_eq_none_iff, ← Mat.det_toMatrix, toMatrix_innovation] at hnone
    have hdet := Update.prod_le_det_add_diagonal (Update.posSemidef_congruence hf
      (observation (f.attitude.toFrame expected)).toMatrix) hnoise
    exact absurd hnone (not_lt.mpr (hleast.trans (hdet.trans (le_abs_self _))))
  · rfl

/-- A new estimator in the default configuration. -/
noncomputable def fresh : Estimator ℝ := new Config.default Mounting.aligned

/-- The first update of a new estimator, with a different noise along each axis. -/
theorem isBayesian_observe_fresh :
    fresh.covariance.toMatrix.PosDef ∧ (∀ i, (0 : ℝ) < (⟨1, 2, 3⟩ : Vec3 ℝ).component i) ∧
    (fresh.observe ⟨1, 2, -2⟩ ⟨0, 4, 1⟩ ⟨1, 2, 3⟩).2 = true ∧
    fresh.IsBayesian (fresh.observe ⟨1, 2, -2⟩ ⟨0, 4, 1⟩ ⟨1, 2, 3⟩).1
      (observationMatrix (fresh.attitude.toFrame ⟨1, 2, -2⟩))
      (Matrix.diagonal (⟨1, 2, 3⟩ : Vec3 ℝ).component)
      ((⟨0, 4, 1⟩ : Vec3 ℝ) - fresh.attitude.toFrame ⟨1, 2, -2⟩).component := by
  have hcovariance : fresh.covariance.toMatrix.PosDef := posDef_initial
  have hnoise : ∀ i, (0 : ℝ) < (⟨1, 2, 3⟩ : Vec3 ℝ).component i := by
    intro i
    fin_cases i <;> norm_num [Vec3.component]
  have haccepted : (fresh.observe ⟨1, 2, -2⟩ ⟨0, 4, 1⟩ ⟨1, 2, 3⟩).2 = true := by
    apply observe_accepted_of_noise hcovariance.posSemidef (fun i => (hnoise i).le)
    norm_num [Mat.leastDet, Vec3.component]
  exact ⟨hcovariance, hnoise, haccepted, isBayesian_observe hcovariance hnoise haccepted⟩

end Estimator
end Attitude
