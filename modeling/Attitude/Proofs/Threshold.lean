import Attitude.Params
import Attitude.Proofs.Agreement
import Attitude.Proofs.Covariance
import Attitude.Proofs.Duration
import Attitude.Proofs.Exact.Reading

/-!
# When validated parameters let the field correct

Validation asks of the field noise that every variance is positive. Over exact arithmetic that makes
the covariance of every field innovation positive definite, hence invertible. But an inverse is
refused by the size of the determinant, and the determinant of three small variances is small,
however well the matrix is conditioned. So validation alone does not keep the field correction
alive: the product of the variances has to reach the least determinant as well, and no weaker bound
will do.

## Main definitions

* `Estimator.fieldInnovation`: the covariance of the innovation of a field measurement
* `Params.FieldCorrection`: what validated parameters say of field corrections
-/

namespace Attitude
open Binary32 Matrix

namespace Estimator

/-- The covariance of the innovation of a field measurement. -/
def fieldInnovation {α : Type} [Scalar α] (f : Estimator α) : Mat 3 3 α :=
  innovation (observation (f.attitude.toFrame f.config.field)) f.covariance f.config.fieldNoise

section
variable {f : Estimator ℝ}

/-- A field is refused by the determinant of its innovation, whatever it is. -/
theorem correctField_accepted_iff (f : Estimator ℝ) (mag : Vec3 ℝ) :
    (f.correctField mag).2 = true ↔ Mat.leastDet ≤ |f.fieldInnovation.det| := by
  rw [← not_lt, ← Mat.inverse?_eq_none_iff]
  cases haccepted : (f.correctField mag).2 with
  | false =>
    have hnone : f.fieldInnovation.inverse? = none := (correct_refused haccepted).1
    simp [hnone]
  | true =>
    obtain ⟨inverse, hinverse, -⟩ := correct_accepted haccepted
    have hsome : f.fieldInnovation.inverse? = some inverse := hinverse
    simp [hsome]

theorem toMatrix_fieldInnovation (f : Estimator ℝ) : f.fieldInnovation.toMatrix =
    Update.innovation f.covariance.toMatrix
      (observation (f.attitude.toFrame f.config.field)).toMatrix
      (Matrix.diagonal f.config.fieldNoise.component) := toMatrix_innovation _ _ _

/-- The product of the three variances is at most the determinant of the innovation. -/
theorem prod_le_det_fieldInnovation (hf : f.covariance.toMatrix.PosSemidef)
    (hnoise : ∀ i, 0 < f.config.fieldNoise.component i) :
    f.config.fieldNoise.x * f.config.fieldNoise.y * f.config.fieldNoise.z ≤
      f.fieldInnovation.det := by
  rw [← Mat.det_toMatrix, toMatrix_fieldInnovation]
  exact Update.prod_le_det_add_diagonal (Update.posSemidef_congruence hf _) fun i => (hnoise i).le

/-- Without uncertainty of the state the innovation is the noise. -/
theorem det_fieldInnovation_of_zero (hf : f.covariance.toMatrix = 0) :
    f.fieldInnovation.det =
      f.config.fieldNoise.x * f.config.fieldNoise.y * f.config.fieldNoise.z := by
  rw [← Mat.det_toMatrix, toMatrix_fieldInnovation, hf, Update.innovation, Matrix.mul_zero,
    Matrix.zero_mul, zero_add, Matrix.det_diagonal, Fin.prod_univ_three]
  rfl

/-! ### Right after an alignment -/

/-- With the initial covariance and the same variance `r` along each axis, two directions share the
uncertainty of the attitude, and the third one, along the field, has the noise alone. -/
theorem det_fieldInnovation_of_initial (hq : f.attitude.normSq = 1)
    (hf : f.covariance = .blockDiagonal initialAttitudeVariance initialBiasVariance) {r : ℝ}
    (hr : f.config.fieldNoise = .replicate r) :
    f.fieldInnovation.det = r * (r + f.config.field.normSq) ^ 2 := by
  rw [← Quat.normSq_toFrame hq, ← Mat.det_toMatrix, toMatrix_fieldInnovation, hf, hr,
    Mat.toMatrix_blockDiagonal, toMatrix_observation, observationMatrix, Update.innovation,
    Matrix.det_fin_three]
  generalize f.attitude.toFrame f.config.field = m
  have hentry (H : Matrix (Fin 3) (Fin 6) ℝ) (d : Fin 6 → ℝ) (i j : Fin 3) :
      (H * Matrix.diagonal d * Hᵀ) i j = ∑ k, H i k * d k * H j k := by
    rw [Matrix.mul_apply]
    simp only [Matrix.mul_diagonal, Matrix.transpose_apply]
  simp only [Matrix.add_apply, hentry, Fin.sum_univ_six]
  simp [initialAttitudeVariance, Scalar.one_real, Vec3.normSq, Vec3.replicate, Vec3.component]
  ring

end
end Estimator

/-! ## Validated parameters -/

namespace Params
variable {p : Params}

theorem isUsable_of_validate (h : p.validate = .ok ()) : p.isUsable = true := by
  by_contra hunusable
  rw [validate, if_neg hunusable] at h
  cases h

/-- A validated variance is a positive number. -/
theorem noise_pos_of_validate (h : p.validate = .ok ()) (i : Fin 3) :
    0 < p.fieldNoise.exact.component i := by
  have husable := isUsable_of_validate h
  simp only [isUsable, isNoise, Vec3.isFinite, Vec3.toList, allFinite_cons, List.all_cons,
    Bool.and_eq_true, Bool.not_eq_true', decide_eq_false_iff_not] at husable
  obtain ⟨⟨⟨⟨⟨-, ⟨hx, hy, hz, -⟩, hx0, hy0, hz0, -⟩, -⟩, -⟩, -⟩, -⟩ := husable
  have hpos {n : Float32} (hn : n.isFinite = true) (hn0 : ¬ n ≤ 0.0) : 0 < toReal n := by
    rw [Binary32.le_iff hn isFinite_zero, toReal_zero] at hn0
    exact not_le.mp hn0
  fin_cases i
  · exact hpos hx hx0
  · exact hpos hy hy0
  · exact hpos hz hz0

/-- The product of the three variances of the field. -/
noncomputable def noiseProduct (p : Params) : ℝ :=
  toReal p.fieldNoise.x * toReal p.fieldNoise.y * toReal p.fieldNoise.z

/-- What validated parameters say of the corrections by a field, over exact arithmetic. -/
structure FieldCorrection (p : Params) : Prop where
  /-- In every state whose covariance is positive semidefinite the innovation is positive definite,
  and its determinant alone decides whether a field is accepted. -/
  state : ∀ f : Estimator ℝ, f.config = p.estimatorConfig.exact →
    f.covariance.toMatrix.PosSemidef →
      f.fieldInnovation.toMatrix.PosDef ∧ 0 < p.noiseProduct ∧
        p.noiseProduct ≤ f.fieldInnovation.det ∧
        ∀ mag, (f.correctField mag).2 = true ↔ Mat.leastDet ≤ f.fieldInnovation.det
  /-- Every field is accepted in all these states if and only if the product of the variances
  reaches the least determinant. -/
  every : (∀ f : Estimator ℝ, f.config = p.estimatorConfig.exact →
      f.covariance.toMatrix.PosSemidef → f.attitude.normSq = 1 →
        ∀ mag, (f.correctField mag).2 = true) ↔ Mat.leastDet ≤ p.noiseProduct
  /-- Right after an alignment the magnitude of the reference field counts as well. Here it does for
  equal variances. -/
  aligned : ∀ r, p.fieldNoise = .replicate r → ∀ (m : Mounting ℝ) (readings : Readings ℝ) (f),
    (Estimator.new p.estimatorConfig.exact m).align readings = .ok f → ∀ mag,
      ((f.correctField mag).2 = true ↔
        Mat.leastDet ≤ toReal r * (toReal r + p.field.exact.normSq) ^ 2)

theorem fieldInnovation_of_validate (h : p.validate = .ok ()) {f : Estimator ℝ}
    (hconfig : f.config = p.estimatorConfig.exact) (hf : f.covariance.toMatrix.PosSemidef) :
    f.fieldInnovation.toMatrix.PosDef ∧ 0 < p.noiseProduct ∧
      p.noiseProduct ≤ f.fieldInnovation.det ∧
      ∀ mag, (f.correctField mag).2 = true ↔ Mat.leastDet ≤ f.fieldInnovation.det := by
  have hnoise : ∀ i, 0 < f.config.fieldNoise.component i := by
    rw [hconfig]
    exact noise_pos_of_validate h
  have hproduct : p.noiseProduct ≤ f.fieldInnovation.det := by
    have hle := Estimator.prod_le_det_fieldInnovation hf hnoise
    rw [hconfig] at hle
    exact hle
  have hpos : 0 < p.noiseProduct :=
    mul_pos (mul_pos (noise_pos_of_validate h 0) (noise_pos_of_validate h 1))
      (noise_pos_of_validate h 2)
  refine ⟨?_, hpos, hproduct, ?_⟩
  · rw [Estimator.toMatrix_fieldInnovation]
    exact Update.posDef_innovation hf hnoise
  · intro mag
    rw [Estimator.correctField_accepted_iff, abs_of_pos (hpos.trans_le hproduct)]

/-- An estimator that knows its state for sure. -/
noncomputable def certain (p : Params) : Estimator ℝ :=
  { Estimator.new p.estimatorConfig.exact .aligned with attitude := .identity, covariance := .zero }

theorem covariance_certain (p : Params) : p.certain.covariance.toMatrix = 0 := by
  ext i j
  simp [certain, Scalar.zero_real]

/-- **When validated parameters let the field correct.** -/
theorem fieldCorrection_of_validate (h : p.validate = .ok ()) : p.FieldCorrection where
  state f hconfig hf := fieldInnovation_of_validate h hconfig hf
  every := by
    constructor
    · intro hevery
      have hzero := covariance_certain p
      have hsemidef : p.certain.covariance.toMatrix.PosSemidef := by
        rw [hzero]
        exact Matrix.PosSemidef.zero
      have hunit : p.certain.attitude.normSq = 1 := by
        norm_num [certain, Quat.identity, Quat.normSq]
      have haccepted := hevery p.certain rfl hsemidef hunit p.field.exact
      rw [(fieldInnovation_of_validate h rfl hsemidef).2.2.2,
        Estimator.det_fieldInnovation_of_zero hzero] at haccepted
      exact haccepted
    · intro hleast f hconfig hf _ mag
      obtain ⟨-, -, hproduct, hiff⟩ := fieldInnovation_of_validate h hconfig hf
      exact (hiff mag).mpr (hleast.trans hproduct)
  aligned r hr m readings f halign mag := by
    obtain ⟨q, hq, hf⟩ := Estimator.align_eq_ok halign
    have hconfig : f.config = p.estimatorConfig.exact := by rw [hf]; rfl
    have hcovariance : f.covariance =
        .blockDiagonal Estimator.initialAttitudeVariance Estimator.initialBiasVariance := by
      rw [hf]
      rfl
    have hsemidef : f.covariance.toMatrix.PosSemidef := by
      rw [hcovariance]
      exact Estimator.posDef_initial.posSemidef
    have hunit : f.attitude.normSq = 1 := by
      rw [hf]
      exact Quat.norm_eq_one_iff.mp (explains_attitudeOf? hq).norm_eq_one
    have hnoise : f.config.fieldNoise = .replicate (toReal r) := by
      rw [hconfig]
      change p.fieldNoise.exact = _
      rw [hr]
      rfl
    rw [(fieldInnovation_of_validate h hconfig hsemidef).2.2.2,
      Estimator.det_fieldInnovation_of_initial hunit hcovariance hnoise, hconfig]
    rfl

/-- The default variances are far above the threshold. -/
theorem fieldCorrection_of_validate_default : Params.default.validate = .ok () ∧
    ∀ f : Estimator ℝ, f.config = Params.default.estimatorConfig.exact →
      f.covariance.toMatrix.PosSemidef → f.attitude.normSq = 1 →
        ∀ mag, (f.correctField mag).2 = true := by
  have hvalid : Params.default.validate = .ok () := by
    rw [validate, if_pos (by decide +kernel)]
  have hnoise : toReal (Estimator.defaultFieldNoise : Float32) = 13421773 * 2 ^ (-26 : ℤ) := by
    have hunpack : unpack Estimator.defaultFieldNoise =
        .finite .positive 13421773 (-26) (by norm_num) := rfl
    rw [toReal, hunpack]
    exact one_mul _
  have hproduct : Mat.leastDet ≤ Params.default.noiseProduct := by
    have hdefault : Params.default.noiseProduct =
        toReal Estimator.defaultFieldNoise * toReal Estimator.defaultFieldNoise
          * toReal Estimator.defaultFieldNoise := rfl
    rw [hdefault, hnoise]
    norm_num [Mat.leastDet]
  exact ⟨hvalid, (fieldCorrection_of_validate hvalid).every.mpr hproduct⟩

/-- Variances of a ten-thousandth, for a normalized field that points north. The first field after
the alignment is accepted, and leaves a covariance without correlations. The second one, which is
exactly as predicted again, is refused. -/
theorem validated_noise_is_refused :
    let p : Params :=
      { Params.default with field := ⟨1.0, 0.0, 0.0⟩, fieldNoise := .replicate 1e-4 }
    let start := Estimator.new p.estimatorConfig p.mounting
    let past : List (Estimator.Request Float32) :=
      [.align ⟨.zero, gravityReference, p.field⟩, .correctField p.field]
    let f := (Estimator.process.run start past).1
    p.validate = .ok () ∧ (Estimator.process.run start past).2 = [true, true] ∧
    (∀ i j, if i = j then 0.0 < f.covariance i j else (f.covariance i j == 0.0) = true) ∧
    (f.attitude.w == 1.0 && f.attitude.vec.toList.all (· == 0.0)) = true ∧
    p.field.isFinite = true ∧ (f.correctField p.field).2 = false := by
  refine ⟨?_, ?_⟩
  · rw [validate, if_pos (by decide +kernel)]
  · decide +kernel

end Params
end Attitude
