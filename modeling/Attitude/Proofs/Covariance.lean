import Mathlib.Algebra.Order.Star.Real
import Attitude.Proofs.Exact.Matrix
import Attitude.Proofs.Exact.Update
import Attitude.Proofs.Process
import Attitude.Proofs.Request

/-!
# The covariance over exact arithmetic

Over the real numbers the covariance of an estimator is symmetric and positive semidefinite after
every list of requests, and no correction enlarges it. The variance of a specific force is at least
one, so the determinant of its innovation is at least one as well, and no correction by gravity is
ever refused.

The invariant is `Estimator.Sound`. The short form of the update shows none of it, so the stored
matrices are carried to `Attitude.Update`, where the symmetric form is available.
-/

namespace Attitude
namespace Estimator
open Matrix

/-- No variance of a configuration is negative. -/
structure Config.HasVariances (c : Config ℝ) : Prop where
  field : ∀ i, 0 ≤ c.fieldNoise.component i
  attitude : 0 ≤ c.attitudeNoise
  bias : 0 ≤ c.biasNoise

/-- The invariant of every run. -/
structure Sound (f : Estimator ℝ) : Prop where
  variances : f.config.HasVariances
  posSemidef : f.covariance.toMatrix.PosSemidef

/-! ## One correction -/

theorem get_skew (m : Vec3 ℝ) (i j : Fin 3) :
    Mat.skew m i j = !![0, -m.z, m.y; m.z, 0, -m.x; -m.y, m.x, 0] i j := by
  rw [← Mat.toMatrix_apply, Mat.skew, Mat.toMatrix_ofRows, Scalar.zero_real]

/-- What a measurement shows of the error, when `m` is predicted: the cross product of `m` and the
attitude part, and nothing of the bias. -/
def observationMatrix (m : Vec3 ℝ) : Matrix (Fin 3) (Fin 6) ℝ :=
  !![0, -m.z, m.y, 0, 0, 0; m.z, 0, -m.x, 0, 0, 0; -m.y, m.x, 0, 0, 0, 0]

theorem toMatrix_observation (m : Vec3 ℝ) : (observation m).toMatrix = observationMatrix m := by
  ext i j
  fin_cases i <;> fin_cases j <;>
    simp [observation, observationMatrix, Mat.beside, get_skew, Scalar.zero_real]

theorem toMatrix_innovation (h : Mat 3 6 ℝ) (p : Mat 6 6 ℝ) (noise : Vec3 ℝ) :
    (innovation h p noise).toMatrix =
      Update.innovation p.toMatrix h.toMatrix (Matrix.diagonal noise.component) := by
  simp [innovation, Update.innovation]

/-- The stored gain is the gain, once the innovation has been inverted. -/
theorem toMatrix_gain {h : Mat 3 6 ℝ} {p : Mat 6 6 ℝ} {noise : Vec3 ℝ} {inverse : Mat 3 3 ℝ}
    (hi : (innovation h p noise).inverse? = some inverse) :
    (gain h p inverse).toMatrix =
      Update.gain p.toMatrix h.toMatrix (Matrix.diagonal noise.component) := by
  have hinv := (Mat.inverse?_eq_some hi).2
  rw [toMatrix_innovation] at hinv
  simp [gain, Update.gain, hinv]

/-- The stored update is the linear update, once the innovation has been inverted. -/
theorem toMatrix_posterior {h : Mat 3 6 ℝ} {p : Mat 6 6 ℝ} {noise : Vec3 ℝ} {inverse : Mat 3 3 ℝ}
    (hi : (innovation h p noise).inverse? = some inverse) :
    (posterior (gain h p inverse) h p).toMatrix =
      Update.posterior p.toMatrix h.toMatrix (Matrix.diagonal noise.component) := by
  simp [posterior, Update.posterior, toMatrix_gain hi]

/-- A correction keeps the covariance positive semidefinite and does not enlarge it. -/
theorem correct_posSemidef {f : Estimator ℝ} (hf : f.covariance.toMatrix.PosSemidef)
    (expected measured : Vec3 ℝ) {noise : Vec3 ℝ} (hnoise : ∀ i, 0 ≤ noise.component i) :
    (f.correct expected measured noise).1.covariance.toMatrix.PosSemidef ∧
      (f.covariance.toMatrix
        - (f.correct expected measured noise).1.covariance.toMatrix).PosSemidef := by
  have hR : (Matrix.diagonal noise.component).PosSemidef := Matrix.PosSemidef.diagonal hnoise
  cases haccepted : (f.correct expected measured noise).2 with
  | false =>
    rw [(correct_refused haccepted).2, sub_self]
    exact ⟨hf, Matrix.PosSemidef.zero⟩
  | true =>
    obtain ⟨inverse, hi, hp⟩ := correct_accepted haccepted
    have hdet := (Mat.inverse?_eq_some hi).1
    rw [toMatrix_innovation] at hdet
    rw [hp, toMatrix_posterior hi]
    exact ⟨Update.posSemidef_posterior hf hR hdet, Update.posterior_le hf hR⟩

/-- The variance of a specific force is at least one. -/
theorem one_le_gravityNoise (deviation : ℝ) (i : Fin 3) :
    1 ≤ (gravityNoise deviation).component i := by
  have h : (1 : ℝ) ≤ 1.0 + deviationGain * |deviation| := by
    have := abs_nonneg deviation
    norm_num [deviationGain]
  fin_cases i <;> exact h

/-- The innovation of a specific force has a determinant of at least one. -/
theorem one_le_det_gravity {f : Estimator ℝ} (hf : f.covariance.toMatrix.PosSemidef)
    (h : Mat 3 6 ℝ) (deviation : ℝ) :
    1 ≤ (innovation h f.covariance (gravityNoise deviation)).det := by
  have hnoise : (gravityNoise deviation).component =
      fun _ => (gravityNoise deviation).component 0 := by
    funext i
    fin_cases i <;> rfl
  rw [← Mat.det_toMatrix, toMatrix_innovation, Update.innovation, hnoise]
  exact Update.one_le_det_add_isotropic (Update.posSemidef_congruence hf _)
    (one_le_gravityNoise deviation 0)

theorem leastDet_lt_one : (Mat.leastDet : ℝ) < 1 := by norm_num [Mat.leastDet]

/-- A correction by gravity is accepted. -/
theorem correctGravity_accepted {f : Estimator ℝ} (hf : f.covariance.toMatrix.PosSemidef)
    (force : Vec3 ℝ) : (f.correctGravity force).2 = true := by
  by_contra hrefused
  have hnone := (correct_refused (Bool.not_eq_true _ ▸ hrefused)).1
  rw [Mat.inverse?_eq_none_iff] at hnone
  have hdet := one_le_det_gravity hf
    (observation (f.attitude.toFrame gravityReference)) (f.nextDeviation force)
  exact absurd hnone (not_lt.mpr (leastDet_lt_one.le.trans (hdet.trans (le_abs_self _))))

/-! ## One propagation -/

/-- Process noise is not negative. -/
theorem processNoise_nonneg {c : Config ℝ} (hc : c.HasVariances) (dt : ℝ) (i : Fin 6) :
    0 ≤ processNoise c dt i := by
  unfold processNoise
  split
  · exact mul_nonneg (mul_self_nonneg dt) hc.attitude
  · exact mul_nonneg (mul_self_nonneg dt) hc.bias

/-- A propagation keeps the covariance positive semidefinite. -/
theorem propagateCovariance_posSemidef {f : Estimator ℝ} (hf : f.Sound) (dt : ℝ) :
    (f.propagateCovariance dt).covariance.toMatrix.PosSemidef := by
  simp only [propagateCovariance, Mat.toMatrix_addDiagonal, Mat.toMatrix_mulTranspose,
    Mat.toMatrix_mul]
  exact (Update.posSemidef_congruence hf.posSemidef _).add
    (Matrix.PosSemidef.diagonal (processNoise_nonneg hf.variances dt))

/-! ## Runs -/

/-- The covariance of a new estimator is definite. -/
theorem posDef_initial : (Mat.blockDiagonal initialAttitudeVariance initialBiasVariance :
    Mat 6 6 ℝ).toMatrix.PosDef := by
  rw [Mat.toMatrix_blockDiagonal]
  apply Matrix.PosDef.diagonal
  intro i
  fin_cases i <;> norm_num [initialAttitudeVariance, initialBiasVariance]

/-- A new estimator is sound. -/
theorem sound_new {c : Config ℝ} (hc : c.HasVariances) (m : Mounting ℝ) : (new c m).Sound :=
  ⟨hc, posDef_initial.posSemidef⟩

/-- Every request keeps an estimator sound. -/
theorem sound_serve {f : Estimator ℝ} (hf : f.Sound) (r : Request ℝ) : (f.serve r).1.Sound := by
  refine ⟨by rw [config_serve]; exact hf.variances, ?_⟩
  cases r with
  | align readings =>
    rw [(f.alignKeeps_serve readings).covariance]
    exact hf.posSemidef
  | propagate gyro dt =>
    simp only [serve, propagate?]
    split
    · exact propagateCovariance_posSemidef (f := f.propagateReference gyro dt)
        ⟨hf.variances, hf.posSemidef⟩ dt
    · exact hf.posSemidef
  | correctGravity force =>
    exact (correct_posSemidef (f := { f with deviation := f.nextDeviation force }) hf.posSemidef
      gravityReference force
      (fun i => zero_le_one.trans (one_le_gravityNoise _ i))).1
  | correctField field =>
    exact (correct_posSemidef hf.posSemidef f.config.field field hf.variances.field).1

theorem sound_run {c : Config ℝ} (hc : c.HasVariances) (m : Mounting ℝ) (rs : List (Request ℝ)) :
    (process.run (new c m) rs).1.Sound :=
  process.run_invariant Sound (fun _ r hf => sound_serve hf r) (sound_new hc m) rs

/-- What soundness means for the covariance and for the next correction. -/
structure Consistent (f : Estimator ℝ) : Prop where
  isSymm : f.covariance.toMatrix.IsSymm
  posSemidef : f.covariance.toMatrix.PosSemidef
  /-- No correction by gravity enlarges the covariance in any direction. -/
  gravity_le : ∀ (force : Vec3 ℝ) (z : Fin 6 → ℝ),
    z ⬝ᵥ (f.correctGravity force).1.covariance.toMatrix *ᵥ z ≤ z ⬝ᵥ f.covariance.toMatrix *ᵥ z
  /-- Neither does one by a measured field. -/
  field_le : ∀ (field : Vec3 ℝ) (z : Fin 6 → ℝ),
    z ⬝ᵥ (f.correctField field).1.covariance.toMatrix *ᵥ z ≤ z ⬝ᵥ f.covariance.toMatrix *ᵥ z
  /-- The innovation of a specific force is far from singular. -/
  det_gravity : ∀ force : Vec3 ℝ, Mat.leastDet < (1 : ℝ) ∧
    1 ≤ (innovation (observation (f.attitude.toFrame gravityReference)) f.covariance
      (gravityNoise (f.nextDeviation force))).det
  gravity_accepted : ∀ force : Vec3 ℝ, (f.correctGravity force).2 = true

/-- **The covariance is consistent after every list of requests.** -/
theorem consistent_run {c : Config ℝ} (hc : c.HasVariances) (m : Mounting ℝ)
    (rs : List (Request ℝ)) : (process.run (new c m) rs).1.Consistent := by
  have hf := sound_run hc m rs
  generalize (process.run (new c m) rs).1 = f at hf
  refine ⟨Update.isSymm_of_posSemidef hf.posSemidef, hf.posSemidef, ?_, ?_, ?_, ?_⟩
  · intro force z
    apply Update.dotProduct_mulVec_le
    exact (correct_posSemidef (f := { f with deviation := f.nextDeviation force }) hf.posSemidef
      gravityReference force
      (fun i => zero_le_one.trans (one_le_gravityNoise _ i))).2
  · intro field z
    apply Update.dotProduct_mulVec_le
    exact (correct_posSemidef hf.posSemidef f.config.field field hf.variances.field).2
  · intro force
    exact ⟨leastDet_lt_one, one_le_det_gravity hf.posSemidef _ _⟩
  · exact correctGravity_accepted hf.posSemidef

/-- A run that uses every operation on the covariance, from the default configuration. -/
theorem consistent_run_default : (Config.default : Config ℝ).HasVariances ∧
    (process.run (new Config.default Mounting.aligned)
      [.propagate ⟨3, -2, 1⟩ 5, .correctGravity ⟨0, 0, -9⟩, .correctField ⟨1, 0, 2⟩]).1.Consistent := by
  have hc : (Config.default : Config ℝ).HasVariances := by
    refine ⟨?_, ?_, ?_⟩
    · intro i
      fin_cases i <;>
        norm_num [Config.default, defaultFieldNoise, Vec3.replicate, Vec3.component]
    · norm_num [Config.default]
    · norm_num [Config.default]
  exact ⟨hc, consistent_run hc Mounting.aligned _⟩

end Estimator
end Attitude
