import Attitude.Proofs.Normalize
import Attitude.Proofs.Request

/-!
# What one sample does to a finite estimator

The estimator guards the interval of a propagation and the determinant of an innovation, and no
sample. A specific force enters through its norm into the variance of its own measurement, so one
that is not finite is refused. A field enters only through the difference from its prediction: it is
accepted whatever it is, and one that is not finite ends in the attitude and in the bias. A rate that
is not finite ends in the attitude.

`isHealthy_propagate_iff` and `isHealthy_correct_iff` state exactly when attitude, bias and covariance
stay finite.
-/

namespace Attitude
open Binary32

/-- A rotation vector that gives a finite quaternion is finite, whatever sine and cosine do. -/
theorem Quat.isFinite_of_ofRotationVector {v : Vec3 Float32}
    (h : (ofRotationVector v).isFinite = true) : v.isFinite = true := by
  have hhalf : (v / (2.0 : Float32)).isFinite = true → v.isFinite = true := by
    rw [Vec3.isFinite_iff, Vec3.isFinite_iff]
    rintro ⟨hx, hy, hz⟩
    exact ⟨(isFinite_of_div hx).1, (isFinite_of_div hy).1, (isFinite_of_div hz).1⟩
  apply hhalf
  simp only [ofRotationVector] at h
  split at h
  · rename_i hsmall
    have hnonneg : NotNegative (v / (2.0 : Float32)).normSq :=
      notNegative_add (notNegative_add (notNegative_mul_self _) (notNegative_mul_self _))
        (notNegative_mul_self _)
    exact Vec3.isFinite_of_normSq (isFinite_of_le hnonneg rfl hsmall)
  · -- Each component of the axis is a component of the half vector times one factor.
    obtain ⟨-, hx, hy, hz⟩ := (isFinite_iff _).mp h
    rw [Vec3.isFinite_iff]
    exact ⟨(Binary32.isFinite_of_mul hx).1, (Binary32.isFinite_of_mul hy).1,
      (Binary32.isFinite_of_mul hz).1⟩

namespace Estimator

/-- Attitude, bias and covariance are finite. -/
def isHealthy {α : Type} [Scalar α] (f : Estimator α) : Bool :=
  f.attitude.isFinite && f.bias.isFinite && f.covariance.isFinite

theorem isHealthy_iff {α : Type} [Scalar α] (f : Estimator α) : f.isHealthy = true ↔
    f.attitude.isFinite = true ∧ f.bias.isFinite = true ∧ f.covariance.isFinite = true := by
  simp only [isHealthy, Bool.and_eq_true, and_assoc]

variable {f : Estimator Float32}

/-! ## Propagation -/

theorem isFinite_of_nextRate {gyro : Vec3 Float32} (h : (f.nextRate gyro).isFinite = true) :
    gyro.isFinite = true := by
  simp only [nextRate] at h
  split at h
  · exact (Vec3.isFinite_of_sub h).1
  · exact (Vec3.isFinite_of_sub (Vec3.isFinite_of_scale (Vec3.isFinite_of_add h).2).1).1

/-- The reference after a gyro sample, before it is normalized. -/
def turned (f : Estimator Float32) (gyro : Vec3 Float32) (dt : Float32) : Quat Float32 :=
  f.attitude * .ofRotationVector (f.nextRate gyro * dt)

/-- A gyro sample is finite and can be integrated without leaving the finite numbers. -/
structure Integrates (f : Estimator Float32) (gyro : Vec3 Float32) (dt : Float32) : Prop where
  sample : gyro.isFinite = true
  turned : (f.turned gyro dt).isFinite = true
  norm : 0.0 < (f.turned gyro dt).norm
  covariance :
    ((f.propagateReference gyro dt).propagateCovariance dt).covariance.isFinite = true

theorem isHealthy_propagate_iff (hf : f.isHealthy = true) (gyro : Vec3 Float32) (dt : Float32) :
    ((f.propagate? gyro dt).getD f).isHealthy = true ↔
      (isDuration dt = true → f.Integrates gyro dt) := by
  by_cases hdt : isDuration dt = true
  · have hpropagate : (f.propagate? gyro dt).getD f =
        ((f.propagateReference gyro dt).propagateCovariance dt).project := by
      rw [propagate?, if_pos hdt, Option.getD_some]
    have hbias := ((isHealthy_iff f).mp hf).2.1
    rw [hpropagate, isHealthy_iff]
    constructor
    · rintro ⟨hattitude, -, hcovariance⟩ -
      obtain ⟨hturned, hnorm⟩ := (Quat.isFinite_normalize_iff (f.turned gyro dt)).mp hattitude
      have hrotation := Quat.isFinite_of_ofRotationVector (Quat.isFinite_of_mul hturned).2
      exact ⟨isFinite_of_nextRate (Vec3.isFinite_of_scale hrotation).1, hturned, hnorm,
        hcovariance⟩
    · intro h
      have h := h hdt
      exact ⟨(Quat.isFinite_normalize_iff (f.turned gyro dt)).mpr ⟨h.turned, h.norm⟩, hbias,
        h.covariance⟩
  · have hpropagate : (f.propagate? gyro dt).getD f = f := by
      rw [propagate?, if_neg hdt, Option.getD_none]
    rw [hpropagate]
    exact iff_of_true hf (fun h => absurd h hdt)

/-! ## Correction -/

/-- The reference with the pending correction, before it is normalized. -/
def folded (f : Estimator Float32) : Quat Float32 :=
  f.attitude * { f.correction with w := correctionScalar }

/-- A measured vector is refused, or is finite, and in either case the numbers that the correction
computes stay finite. -/
structure Corrects (f : Estimator Float32) (expected measured noise : Vec3 Float32) : Prop where
  sample : (f.observe expected measured noise).2 = true → measured.isFinite = true
  folded : (f.observe expected measured noise).1.folded.isFinite = true
  norm : 0.0 < (f.observe expected measured noise).1.folded.norm
  bias : (f.observe expected measured noise).1.bias.isFinite = true
  covariance : (f.observe expected measured noise).1.covariance.isFinite = true

/-- A measurement that is accepted and leaves a finite bias is finite. -/
theorem isFinite_of_observe {expected measured noise : Vec3 Float32}
    (haccepted : (f.observe expected measured noise).2 = true)
    (hbias : (f.observe expected measured noise).1.bias.isFinite = true) :
    measured.isFinite = true := by
  simp only [observe] at haccepted hbias
  split at haccepted
  · cases haccepted
  · rename_i inverse hinverse
    rw [hinverse] at hbias
    -- The first component of the bias error is a dot product that reads the whole difference.
    have herror := ((Vec3.isFinite_iff _).mp (Vec3.isFinite_of_add hbias).2).1
    have hdot : Scalar.isFinite (Mat.dot (gain (observation (f.attitude.toFrame expected))
        f.covariance inverse 3) fun l =>
          (Mat.column (measured - f.attitude.toFrame expected)) l 0) = true := by
      rw [← Mat.get_mul]
      simpa [Mat.toVec3] using herror
    have hdifference : (measured - f.attitude.toFrame expected).isFinite = true := by
      rw [Vec3.isFinite_iff]
      exact ⟨(Mat.isFinite_of_dot hdot 0).2, (Mat.isFinite_of_dot hdot 1).2,
        (Mat.isFinite_of_dot hdot 2).2⟩
    exact (Vec3.isFinite_of_sub hdifference).1

theorem isHealthy_correct_iff (expected measured noise : Vec3 Float32) :
    (f.correct expected measured noise).1.isHealthy = true ↔
      f.Corrects expected measured noise := by
  have hcorrect : (f.correct expected measured noise).1 =
      (f.observe expected measured noise).1.fold := rfl
  rw [hcorrect, isHealthy_iff]
  constructor
  · rintro ⟨hattitude, hbias, hcovariance⟩
    obtain ⟨hfolded, hnorm⟩ := (Quat.isFinite_normalize_iff (folded _)).mp hattitude
    exact ⟨fun h => isFinite_of_observe h hbias, hfolded, hnorm, hbias, hcovariance⟩
  · intro h
    exact ⟨(Quat.isFinite_normalize_iff (folded _)).mpr ⟨h.folded, h.norm⟩, h.bias,
      h.covariance⟩

/-- Neither the answer of a correction nor the covariance it leaves depends on what was measured. -/
theorem correct_other (expected measured other noise : Vec3 Float32) :
    (f.correct expected measured noise).2 = (f.correct expected other noise).2 ∧
    (f.correct expected measured noise).1.covariance =
      (f.correct expected other noise).1.covariance := by
  have hanswer : (f.correct expected measured noise).2 = (f.correct expected other noise).2 := by
    simp only [correct, observe]
    split <;> rfl
  refine ⟨hanswer, ?_⟩
  cases h : (f.correct expected measured noise).2 with
  | false =>
    rw [h] at hanswer
    rw [(correct_refused h).2, (correct_refused hanswer.symm).2]
  | true =>
    rw [h] at hanswer
    obtain ⟨inverse, hinverse, hmeasured⟩ := correct_accepted h
    obtain ⟨inverse', hinverse', hother⟩ := correct_accepted hanswer.symm
    obtain rfl : inverse = inverse' := Option.some.inj (hinverse.symm.trans hinverse')
    rw [hmeasured, hother]

/-- A specific force that is accepted leaves a finite excess: the excess is in the noise, and the
noise is on the diagonal of the innovation. -/
theorem isFinite_nextDeviation_of_accepted {force : Vec3 Float32}
    (h : (f.correctGravity force).2 = true) : (f.nextDeviation force).isFinite = true := by
  obtain ⟨inverse, hinverse, -⟩ := correct_accepted h
  have hinnovation := (Mat.isFinite_iff _).mp (Mat.isFinite_of_inverse? hinverse) 0 0
  rw [innovation, Mat.get_addDiagonal, if_pos rfl] at hinnovation
  have hnoise : (1.0 + deviationGain * Scalar.abs (f.nextDeviation force)).isFinite = true :=
    (isFinite_of_add hinnovation).2
  have habs : (f.nextDeviation force).abs.isFinite = true :=
    (isFinite_of_mul (isFinite_of_add hnoise).2).2
  rwa [isFinite_abs] at habs

/-- A finite excess comes from a finite one and a finite norm. -/
theorem isFinite_of_nextDeviation {force : Vec3 Float32}
    (h : (f.nextDeviation force).isFinite = true) :
    f.deviation.isFinite = true ∧ force.norm.isFinite = true := by
  obtain ⟨hpast, hpresent⟩ := isFinite_of_add h
  exact ⟨(isFinite_of_mul hpast).2, (isFinite_of_sub (isFinite_of_mul hpresent).2).1⟩

/-- A specific force that is accepted is finite: its norm is in the excess. -/
theorem isFinite_of_correctGravity {force : Vec3 Float32}
    (h : (f.correctGravity force).2 = true) : force.isFinite = true :=
  Vec3.isFinite_of_norm (isFinite_of_nextDeviation (isFinite_nextDeviation_of_accepted h)).2

/-! ## An estimator at rest -/

/-- The estimator of the default configuration, once it is aligned at rest. -/
def atRest : Estimator Float32 :=
  ((new .default .aligned).serve (.align ⟨.zero, gravityReference, defaultField⟩)).1

/-- A sample whose first component is no number. -/
def noNumber : Vec3 Float32 := ⟨.ofBits 0x7fc00000, 0.0, 0.0⟩

end Estimator
end Attitude
