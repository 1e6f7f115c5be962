import Attitude.Proofs.Information

/-!
# An accelerometer in motion is trusted less

The variance of a specific force grows with the smoothed excess over gravity, whatever its sign. Of
two estimators that differ in the excess alone, the one that has seen more of it learns less from
the same specific force: more covariance is left, in every direction, and what the estimated error
predicts of the measurement is shorter. When it has seen strictly more, both are strict, of all that
the specific force tells anything about.

Neither statement holds component by component. The first one is the monotonicity of the update in
its noise; the second one needs besides that the noise is the same along all axes.

## Main definitions

* `Estimator.gravityError`: the error that a specific force adds
* `Estimator.LearnsMore`, `Estimator.LearnsStrictlyMore`: two corrections by the same force, compared
-/

namespace Attitude
namespace Estimator
open Matrix

variable {f g : Estimator ℝ}

/-! ## One correction by gravity -/

/-- What a specific force of a vehicle at rest shows of the error. -/
noncomputable def gravityObservation (f : Estimator ℝ) : Matrix (Fin 3) (Fin 6) ℝ :=
  observationMatrix (f.attitude.toFrame gravityReference)

/-- The noise of a specific force, as a matrix. -/
noncomputable def gravityNoiseMatrix (deviation : ℝ) : Matrix (Fin 3) (Fin 3) ℝ :=
  Matrix.diagonal fun _ => 1 + 250 * |deviation|

/-- The estimator whose excess has advanced and whose error has been estimated, but not folded yet.
-/
noncomputable def estimateGravity (f : Estimator ℝ) (force : Vec3 ℝ) : Estimator ℝ × Bool :=
  { f with deviation := f.nextDeviation force }.observe gravityReference force
    (gravityNoise (f.nextDeviation force))

/-- A correction by gravity folds the estimated error. -/
theorem correctGravity_eq_fold (f : Estimator ℝ) (force : Vec3 ℝ) :
    f.correctGravity force = ((f.estimateGravity force).1.fold, (f.estimateGravity force).2) := rfl

/-- The error that a specific force adds: the attitude part is pending before it is folded, the rest
goes to the bias. -/
noncomputable def gravityError (f : Estimator ℝ) (force : Vec3 ℝ) : Fin 6 → ℝ :=
  f.errorTo (f.estimateGravity force).1

theorem diagonal_gravityNoise (deviation : ℝ) :
    Matrix.diagonal (gravityNoise deviation).component = gravityNoiseMatrix deviation := by
  rw [gravityNoiseMatrix]
  congr 1
  funext i
  have hvariance : (1.0 + deviationGain * |deviation| : ℝ) = 1 + 250 * |deviation| := by
    norm_num [deviationGain]
  fin_cases i <;> exact hvariance

theorem posDef_gravityNoiseMatrix (deviation : ℝ) : (gravityNoiseMatrix deviation).PosDef :=
  Matrix.PosDef.diagonal fun _ => by positivity

theorem gravityNoiseMatrix_sub (d e : ℝ) : gravityNoiseMatrix d - gravityNoiseMatrix e =
    Matrix.diagonal fun _ => 250 * (|d| - |e|) := by
  rw [gravityNoiseMatrix, gravityNoiseMatrix, Matrix.diagonal_sub]
  congr 1
  funext
  ring

theorem det_gravityInnovation_ne_zero (hf : f.covariance.toMatrix.PosSemidef) (deviation : ℝ) :
    (Update.innovation f.covariance.toMatrix f.gravityObservation
      (gravityNoiseMatrix deviation)).det ≠ 0 :=
  (Update.posDef_innovation hf fun _ => by positivity).det_pos.ne'

/-- The covariance and the error that a specific force leaves. -/
theorem correctGravity_spec (hf : f.covariance.toMatrix.PosSemidef) (force : Vec3 ℝ) :
    (f.correctGravity force).1.covariance.toMatrix =
      Update.posterior f.covariance.toMatrix f.gravityObservation
        (gravityNoiseMatrix (f.nextDeviation force)) ∧
    f.gravityError force =
      Update.gain f.covariance.toMatrix f.gravityObservation
        (gravityNoiseMatrix (f.nextDeviation force)) *ᵥ
          (force - f.attitude.toFrame gravityReference).component := by
  have haccepted := correctGravity_accepted hf force
  rw [correctGravity_eq_fold] at haccepted ⊢
  rw [← diagonal_gravityNoise]
  exact observe_spec (f := { f with deviation := f.nextDeviation force }) haccepted

/-! ## Two corrections -/

/-- The correction of `f` by a specific force learns more than that of `g`, which has the same
attitude. -/
structure LearnsMore (f g : Estimator ℝ) (force : Vec3 ℝ) : Prop where
  accepted : (f.correctGravity force).2 = true ∧ (g.correctGravity force).2 = true
  /-- Less covariance is left, in every direction. -/
  covariance : ∀ z : Fin 6 → ℝ, z ⬝ᵥ (f.correctGravity force).1.covariance.toMatrix *ᵥ z ≤
    z ⬝ᵥ (g.correctGravity force).1.covariance.toMatrix *ᵥ z
  /-- The estimated error predicts a larger change of the measurement. -/
  prediction : ‖WithLp.toLp 2 (f.gravityObservation *ᵥ g.gravityError force)‖ ≤
    ‖WithLp.toLp 2 (f.gravityObservation *ᵥ f.gravityError force)‖

/-- The correction of `f` by a specific force learns strictly more than that of `g`, of all that the
force tells anything about. -/
structure LearnsStrictlyMore (f g : Estimator ℝ) (force : Vec3 ℝ) : Prop where
  /-- In a direction that the measurement depends on, strictly less covariance is left. -/
  covariance : ∀ z : Fin 6 → ℝ, f.gravityObservation *ᵥ (f.covariance.toMatrix *ᵥ z) ≠ 0 →
    z ⬝ᵥ (f.correctGravity force).1.covariance.toMatrix *ᵥ z <
      z ⬝ᵥ (g.correctGravity force).1.covariance.toMatrix *ᵥ z
  /-- Of a difference that the covariance explains in part, strictly more is predicted. -/
  prediction : (f.gravityObservation * f.covariance.toMatrix * f.gravityObservationᵀ) *ᵥ
      (force - f.attitude.toFrame gravityReference).component ≠ 0 →
    ‖WithLp.toLp 2 (f.gravityObservation *ᵥ g.gravityError force)‖ <
      ‖WithLp.toLp 2 (f.gravityObservation *ᵥ f.gravityError force)‖

section
variable (hsame : { g with deviation := f.deviation } = f) (hf : f.covariance.toMatrix.PosSemidef)
  (force : Vec3 ℝ)
include hsame hf

/-- What a specific force leaves in an estimator that differs from `f` in the deviation alone. -/
theorem correctGravity_spec_of_same :
    (g.correctGravity force).1.covariance.toMatrix =
      Update.posterior f.covariance.toMatrix f.gravityObservation
        (gravityNoiseMatrix (g.nextDeviation force)) ∧
    f.gravityObservation *ᵥ g.gravityError force =
      (f.gravityObservation * f.covariance.toMatrix * f.gravityObservationᵀ *
        (f.gravityObservation * f.covariance.toMatrix * f.gravityObservationᵀ +
          (1 + 250 * |g.nextDeviation force|) • 1)⁻¹) *ᵥ
            (force - f.attitude.toFrame gravityReference).component := by
  have hcovariance : g.covariance = f.covariance := by rw [← hsame]
  have hattitude : g.attitude = f.attitude := by rw [← hsame]
  have hobservation : g.gravityObservation = f.gravityObservation := by
    rw [gravityObservation, hattitude, gravityObservation]
  obtain ⟨hposterior, herror⟩ := correctGravity_spec (f := g) (hcovariance ▸ hf) force
  rw [hcovariance, hobservation] at hposterior herror
  refine ⟨hposterior, ?_⟩
  rw [herror, hattitude, Matrix.mulVec_mulVec, Update.gain, Update.innovation, gravityNoiseMatrix,
    ← Matrix.smul_one_eq_diagonal, ← Matrix.mul_assoc, ← Matrix.mul_assoc]

end

/-- **The more the vehicle accelerates, the less is learned from a specific force**, for every
covariance and every sample, and strictly less when it accelerates strictly more. -/
theorem learnsMore_of_deviation (hsame : { g with deviation := f.deviation } = f)
    (hf : f.covariance.toMatrix.PosSemidef) (force : Vec3 ℝ)
    (hle : |(f.correctGravity force).1.deviation| ≤ |(g.correctGravity force).1.deviation|) :
    f.LearnsMore g force ∧
    (|(f.correctGravity force).1.deviation| < |(g.correctGravity force).1.deviation| →
      f.LearnsStrictlyMore g force) := by
  have hcovariance : g.covariance = f.covariance := by rw [← hsame]
  have hg : g.covariance.toMatrix.PosSemidef := hcovariance ▸ hf
  obtain ⟨hposterior, herror⟩ := correctGravity_spec_of_same (g := f) rfl hf force
  obtain ⟨hposterior', herror'⟩ := correctGravity_spec_of_same hsame hf force
  rw [deviation_correctGravity, deviation_correctGravity] at hle ⊢
  have hP := Update.posSemidef_congruence hf f.gravityObservation
  have hR := (posDef_gravityNoiseMatrix (f.nextDeviation force)).posSemidef
  have hS := det_gravityInnovation_ne_zero hf
  refine ⟨⟨⟨correctGravity_accepted hf force, correctGravity_accepted hg force⟩, ?_, ?_⟩, ?_⟩
  · intro z
    rw [hposterior, hposterior']
    refine Update.dotProduct_mulVec_le (Update.posterior_mono hf hR ?_ (hS _) (hS _)) z
    rw [gravityNoiseMatrix_sub]
    exact Matrix.PosSemidef.diagonal fun _ => mul_nonneg (by norm_num) (sub_nonneg.mpr hle)
  · rw [herror, herror']
    exact Update.norm_predicted_le hP (by positivity) (by linarith) _
  · intro hlt
    constructor
    · intro z hz
      rw [hposterior, hposterior']
      refine Update.posterior_strictMono hf hR ?_ (hS _) (hS _) hz
      rw [gravityNoiseMatrix_sub]
      exact Matrix.PosDef.diagonal fun _ => mul_pos (by norm_num) (sub_pos.mpr hlt)
    · intro hne
      rw [herror, herror']
      exact Update.norm_predicted_lt hP (by positivity) (by linarith) hne

/-- A new estimator, except that it has seen an excess of one. -/
noncomputable def shaken : Estimator ℝ := { fresh with deviation := 1 }

/-- A specific force of norm ten, which a new estimator does not predict: part of it is explained by
an error of the attitude. -/
theorem learnsMore_of_deviation_shaken :
    { shaken with deviation := fresh.deviation } = fresh ∧
    fresh.covariance.toMatrix.PosSemidef ∧
    |(fresh.correctGravity ⟨6, 0, -8⟩).1.deviation| <
      |(shaken.correctGravity ⟨6, 0, -8⟩).1.deviation| ∧
    fresh.LearnsMore shaken ⟨6, 0, -8⟩ ∧
    ‖WithLp.toLp 2 (fresh.gravityObservation *ᵥ shaken.gravityError ⟨6, 0, -8⟩)‖ <
      ‖WithLp.toLp 2 (fresh.gravityObservation *ᵥ fresh.gravityError ⟨6, 0, -8⟩)‖ := by
  have hsame : { shaken with deviation := fresh.deviation } = fresh := rfl
  have hcovariance : fresh.covariance.toMatrix.PosSemidef := posDef_initial.posSemidef
  have hnorm : (⟨6, 0, -8⟩ : Vec3 ℝ).norm = 10 := by
    change √(⟨6, 0, -8⟩ : Vec3 ℝ).normSq = 10
    rw [Real.sqrt_eq_iff_mul_self_eq_of_pos (by norm_num)]
    norm_num [Vec3.normSq]
  have hlt : |(fresh.correctGravity ⟨6, 0, -8⟩).1.deviation| <
      |(shaken.correctGravity ⟨6, 0, -8⟩).1.deviation| := by
    rw [deviation_correctGravity, deviation_correctGravity, nextDeviation, nextDeviation, hnorm]
    norm_num [fresh, shaken, new, project, deviationWeight, gravity, abs_of_pos]
  obtain ⟨hmore, hstrict⟩ := learnsMore_of_deviation hsame hcovariance ⟨6, 0, -8⟩ hlt.le
  refine ⟨hsame, hcovariance, hlt, hmore, (hstrict hlt).prediction ?_⟩
  have hpredicted : fresh.attitude.toFrame gravityReference = ⟨0, 0, -gravity⟩ := by
    ext <;> norm_num [fresh, new, project, Mounting.aligned, Quat.identity, Quat.toFrame, Quat.vec,
      Vec3.cross, gravityReference]
  have hinitial : fresh.covariance.toMatrix = Matrix.diagonal ![initialAttitudeVariance,
      initialAttitudeVariance, initialAttitudeVariance, initialBiasVariance, initialBiasVariance,
      initialBiasVariance] := Mat.toMatrix_blockDiagonal _ _
  intro hzero
  have hfirst := congrFun hzero 0
  rw [hinitial, gravityObservation, hpredicted, observationMatrix] at hfirst
  norm_num [Matrix.mul_apply, Matrix.mulVec, dotProduct, Fin.sum_univ_succ, Vec3.component, gravity,
    Matrix.vecMul_diagonal, initialAttitudeVariance] at hfirst

end Estimator
end Attitude
