import Attitude.Proofs.Agreement
import Attitude.Proofs.Exact.Checked

/-!
# The reference stays a unit quaternion

With a mounting of norm one, the reference and the attitude of the body have the norm one after
every list of requests over exact arithmetic. A propagation multiplies by the exponential of a
rotation, a fold divides by the norm of a product with the scalar part two, and an alignment reads a
rotation matrix.

The code divides by these norms without looking at them. Over checked numbers a quotient by zero is
undefined, and a run over them has the same states and answers as the run over the real numbers: no
request ever divides by zero, in a normalization or elsewhere.

## Main definitions

* `Estimator.IsUnit`: the invariant of a request
* `Estimator.checked`, `Estimator.Request.checked`: the same numbers, checked
* `Estimator.StaysUnit`: what every run has

## Main results

* `Estimator.isUnit_serve`, `Estimator.serve_checked`: one request
* `Estimator.staysUnit_run`: every run
-/

namespace Attitude

namespace Quat

/-- The exponential of a rotation has the norm one, on both branches. -/
theorem normSq_ofRotationVector (v : Vec3 ℝ) : (ofRotationVector v).normSq = 1 := by
  simp only [ofRotationVector]
  generalize v / (2.0 : ℝ) = u
  split
  · norm_num [identity, normSq]
  · rename_i hlarge
    have hne : u.norm ≠ 0 := Vec3.norm_ne_zero (lt_trans (by norm_num) (not_le.mp hlarge))
    have haxis : (u * (Scalar.sin u.norm / u.norm)).normSq = Scalar.sin u.norm ^ 2 := by
      rw [Vec3.normSq_scale, ← u.norm_mul_self]
      field_simp
    have hparts (a : ℝ) (w : Vec3 ℝ) :
        (⟨a, w.x, w.y, w.z⟩ : Quat ℝ).normSq = w.normSq + a ^ 2 := by
      simp only [normSq, Vec3.normSq]
      ring
    rw [hparts, haxis]
    exact Real.sin_sq_add_cos_sq u.norm

end Quat

namespace Estimator

variable {f : Estimator ℝ}

/-! ## The invariant -/

/-- Mounting, reference and body have quaternions of norm one. -/
structure IsUnit (f : Estimator ℝ) : Prop where
  mounting : f.mounting.quat.normSq = 1
  attitude : f.attitude.normSq = 1
  body : f.body.attitude.normSq = 1

/-- A unit reference is projected to a unit attitude of the body. -/
theorem isUnit_project (hmounting : f.mounting.quat.normSq = 1)
    (hattitude : f.attitude.normSq = 1) : f.project.IsUnit := by
  refine ⟨hmounting, hattitude, ?_⟩
  change (f.attitude * f.mounting.quat.conj).normSq = 1
  rw [Quat.normSq_mul, Quat.normSq_conj, hattitude, hmounting, one_mul]

theorem isUnit_new (c : Config ℝ) {m : Mounting ℝ} (hm : m.quat.normSq = 1) : (new c m).IsUnit :=
  isUnit_project hm hm

/-- The quaternion that a propagation normalizes has the norm one already. -/
theorem norm_turned (hf : f.attitude.normSq = 1) (v : Vec3 ℝ) :
    (f.attitude * .ofRotationVector v).norm = 1 := by
  rw [Quat.norm_mul_of_unit hf, Quat.norm_eq_one_iff, Quat.normSq_ofRotationVector]

/-- The quaternion that a fold normalizes has a norm of at least two. -/
theorem norm_folded_ne_zero (hf : f.attitude.normSq = 1) : (f.attitude * f.pending).norm ≠ 0 := by
  rw [Quat.norm_mul_of_unit hf]
  exact norm_pending_ne_zero f

theorem isUnit_propagate? (hf : f.IsUnit) {gyro : Vec3 ℝ} {dt : ℝ} {g : Estimator ℝ}
    (hg : f.propagate? gyro dt = some g) : g.IsUnit := by
  rw [propagate?] at hg
  split at hg
  · obtain rfl := Option.some.inj hg
    have hturned := norm_turned hf.attitude (f.nextRate gyro * dt)
    exact isUnit_project hf.mounting (Quat.normSq_normalize (by rw [hturned]; exact one_ne_zero))
  · cases hg

/-- An update leaves the reference to the fold. -/
theorem observe_frame (f : Estimator ℝ) (expected measured noise : Vec3 ℝ) :
    (f.observe expected measured noise).1.mounting = f.mounting ∧
    (f.observe expected measured noise).1.attitude = f.attitude ∧
    (f.observe expected measured noise).1.body = f.body := by
  simp only [observe]
  split <;> exact ⟨rfl, rfl, rfl⟩

theorem isUnit_correct (hf : f.IsUnit) (expected measured noise : Vec3 ℝ) :
    (f.correct expected measured noise).1.IsUnit := by
  obtain ⟨hmounting, hattitude, hbody⟩ := f.observe_frame expected measured noise
  have hunit : (f.observe expected measured noise).1.attitude.normSq = 1 := by
    rw [hattitude]
    exact hf.attitude
  refine ⟨?_, normSq_fold hunit, ?_⟩
  · exact (congrArg (·.quat.normSq) hmounting).trans hf.mounting
  · exact (congrArg (·.attitude.normSq) hbody).trans hf.body

/-- **Every request keeps the reference a unit quaternion.** -/
theorem isUnit_serve (hf : f.IsUnit) (r : Request ℝ) : (f.serve r).1.IsUnit := by
  cases r with
  | align readings =>
    simp only [serve]
    split
    · rename_i g hg
      obtain ⟨q, hq, rfl⟩ := align_eq_ok hg
      have hunit := Quat.norm_eq_one_iff.mp (explains_attitudeOf? hq).norm_eq_one
      obtain ⟨-, hattitude, hbody⟩ :=
        isUnit_project (f := { f with attitude := q }) hf.mounting hunit
      exact ⟨hf.mounting, hattitude, hbody⟩
    · exact hf
  | propagate gyro dt =>
    simp only [serve]
    cases hg : f.propagate? gyro dt with
    | none => exact hf
    | some g => exact isUnit_propagate? hf hg
  | correctGravity force =>
    exact isUnit_correct (f := { f with deviation := f.nextDeviation force })
      ⟨hf.mounting, hf.attitude, hf.body⟩ _ _ _
  | correctField field => exact isUnit_correct hf _ _ _

end Estimator

/-! ## The same data over checked numbers -/

open Checked

namespace Mounting

def checked (m : Mounting ℝ) : Mounting Checked := ⟨m.quat.checked, m.mat.checked⟩

theorem project_checked (m : Mounting ℝ) (attitude : Quat ℝ) (rates : Vec3 ℝ) :
    m.checked.project attitude.checked rates.checked =
      ⟨(m.project attitude rates).attitude.checked, (m.project attitude rates).rates.checked⟩ := by
  refine Body.ext rfl ?_
  change (m.mat.checked.transpose * Mat.column rates.checked).toVec3 = _
  rw [Mat.transpose_checked, Mat.column_checked, Mat.mul_checked, Mat.toVec3_checked]
  rfl

end Mounting

def Readings.checked (r : Readings ℝ) : Readings Checked :=
  ⟨r.gyro.checked, r.accel.checked, r.mag.checked⟩

namespace Estimator

def RateSmoothing.checked : RateSmoothing ℝ → RateSmoothing Checked
  | .direct => .direct
  | .lowPass weight => .lowPass (number weight)

def Config.checked (c : Config ℝ) : Config Checked where
  field := c.field.checked
  fieldNoise := c.fieldNoise.checked
  smoothing := c.smoothing.checked
  attitudeNoise := number c.attitudeNoise
  biasNoise := number c.biasNoise

/-- The estimator with the same numbers, from now on checked. -/
def checked (f : Estimator ℝ) : Estimator Checked where
  config := f.config.checked
  mounting := f.mounting.checked
  phase := f.phase
  attitude := f.attitude.checked
  rate := f.rate.checked
  bias := f.bias.checked
  covariance := f.covariance.checked
  correction := f.correction.checked
  deviation := number f.deviation
  body := ⟨f.body.attitude.checked, f.body.rates.checked⟩
  rejected := f.rejected

/-- The request with the same numbers. -/
def Request.checked : Request ℝ → Request Checked
  | .align readings => .align readings.checked
  | .propagate gyro dt => .propagate gyro.checked (number dt)
  | .correctGravity force => .correctGravity force.checked
  | .correctField field => .correctField field.checked

variable {f : Estimator ℝ}

/-! ## Propagation over checked numbers -/

theorem project_checked (f : Estimator ℝ) : f.checked.project = f.project.checked := by
  simp only [project]
  exact congrArg (fun b => { f.checked with body := b }) (f.mounting.project_checked _ _)

theorem new_checked (c : Config ℝ) (m : Mounting ℝ) :
    new c.checked m.checked = (new c m).checked := by
  rw [new, new, ← project_checked]
  refine congrArg project ?_
  simp only [checked, ← Mat.blockDiagonal_checked]
  rfl

theorem nextRate_checked (f : Estimator ℝ) (gyro : Vec3 ℝ) :
    f.checked.nextRate gyro.checked = (f.nextRate gyro).checked := by
  have hsmoothing : f.checked.config.smoothing = f.config.smoothing.checked := rfl
  rw [nextRate, nextRate, hsmoothing]
  cases f.config.smoothing <;> rfl

theorem propagateReference_checked (hf : f.attitude.normSq = 1) (gyro : Vec3 ℝ) (dt : ℝ) :
    f.checked.propagateReference gyro.checked (number dt) =
      (f.propagateReference gyro dt).checked := by
  have hne : (f.attitude * .ofRotationVector (f.nextRate gyro * dt)).norm ≠ 0 := by
    rw [norm_turned hf]
    exact one_ne_zero
  have hturn : f.checked.attitude * .ofRotationVector ((f.nextRate gyro).checked * number dt) =
      (f.attitude * .ofRotationVector (f.nextRate gyro * dt)).checked := by
    rw [← Quat.mul_checked, ← Quat.ofRotationVector_checked]
    rfl
  simp only [propagateReference, nextRate_checked, hturn, Quat.normalize_checked hne]
  rfl

theorem transition_checked (rate : Vec3 ℝ) (dt : ℝ) :
    transition rate.checked (number dt) = (transition rate dt).checked := by
  have hturn : (.identity - .skew (rate.checked * number dt) : Mat 3 3 Checked) =
      (.identity - .skew (rate * dt) : Mat 3 3 ℝ).checked := by
    rw [← Mat.sub_checked, ← Mat.identity_checked, ← Mat.skew_checked]
    rfl
  have hdrift : (Mat.identity : Mat 3 3 Checked) * (-number dt) =
      ((Mat.identity : Mat 3 3 ℝ) * (-dt)).checked := by
    rw [← Mat.scale_checked, ← Mat.identity_checked]
    rfl
  rw [transition, transition, hturn, hdrift, Mat.zero_checked, Mat.identity_checked,
    Mat.beside_checked, Mat.beside_checked, Mat.above_checked]

theorem processNoise_checked (c : Config ℝ) (dt : ℝ) :
    processNoise c.checked (number dt) = fun i => number (processNoise c dt i) := by
  funext i
  simp only [processNoise]
  split <;> rfl

theorem propagateCovariance_checked (f : Estimator ℝ) (dt : ℝ) :
    f.checked.propagateCovariance (number dt) = (f.propagateCovariance dt).checked := by
  have hcovariance : ((transition f.checked.rate (number dt) * f.checked.covariance).mulTranspose
      (transition f.checked.rate (number dt))).addDiagonal
        (processNoise f.checked.config (number dt)) =
      (((transition f.rate dt * f.covariance).mulTranspose (transition f.rate dt)).addDiagonal
        (processNoise f.config dt)).checked := by
    change ((transition f.rate.checked (number dt) * f.covariance.checked).mulTranspose
      (transition f.rate.checked (number dt))).addDiagonal
        (processNoise f.config.checked (number dt)) = _
    rw [transition_checked, processNoise_checked, Mat.mul_checked, Mat.mulTranspose_checked,
      Mat.addDiagonal_checked]
  simp only [propagateCovariance, hcovariance]
  rfl

theorem isDuration_checked (dt : ℝ) : isDuration (number dt) = isDuration dt := by
  have hzero : number dt ≤ (0.0 : Checked) ↔ dt ≤ 0.0 := number_le_number
  simp only [isDuration, isFinite_number, Scalar.isFinite_real, hzero]

theorem propagate?_checked (hf : f.attitude.normSq = 1) (gyro : Vec3 ℝ) (dt : ℝ) :
    f.checked.propagate? gyro.checked (number dt) = (f.propagate? gyro dt).map checked := by
  simp only [propagate?, isDuration_checked, propagateReference_checked hf,
    propagateCovariance_checked, project_checked]
  split <;> rfl

/-! ## Corrections over checked numbers -/

theorem observation_checked (predicted : Vec3 ℝ) :
    observation predicted.checked = (observation predicted).checked := by
  rw [observation, observation, Mat.skew_checked, Mat.zero_checked, Mat.beside_checked]

theorem innovation_checked (predicted : Vec3 ℝ) (p : Mat 6 6 ℝ) (noise : Vec3 ℝ) :
    innovation (observation predicted.checked) p.checked noise.checked =
      (innovation (observation predicted) p noise).checked := by
  have hnoise : noise.checked.component = fun i => number (noise.component i) := by
    funext i
    fin_cases i <;> rfl
  rw [innovation, innovation, observation_checked, hnoise, Mat.mul_checked,
    Mat.mulTranspose_checked, Mat.addDiagonal_checked]

theorem gain_checked (h : Mat 3 6 ℝ) (p : Mat 6 6 ℝ) (inverse : Mat 3 3 ℝ) :
    gain h.checked p.checked inverse.checked = (gain h p inverse).checked := by
  rw [gain, gain, Mat.mulTranspose_checked, Mat.mul_checked]

theorem posterior_checked (k : Mat 6 3 ℝ) (h : Mat 3 6 ℝ) (p : Mat 6 6 ℝ) :
    posterior k.checked h.checked p.checked = (posterior k h p).checked := by
  rw [posterior, posterior, Mat.mul_checked, Mat.identity_checked, Mat.sub_checked, Mat.mul_checked]

theorem absorb_checked (f : Estimator ℝ) (error : Mat 6 1 ℝ) :
    f.checked.absorb error.checked = (f.absorb error).checked := by
  simp only [absorb, Mat.upper_checked, Mat.lower_checked, Mat.toVec3_checked]
  rfl

theorem observe_checked (f : Estimator ℝ) (expected measured noise : Vec3 ℝ) :
    f.checked.observe expected.checked measured.checked noise.checked =
      ((f.observe expected measured noise).1.checked, (f.observe expected measured noise).2) := by
  have hpredicted : f.checked.attitude.toFrame expected.checked =
      (f.attitude.toFrame expected).checked := Quat.toFrame_checked _ _
  have hcovariance : f.checked.covariance = f.covariance.checked := rfl
  simp only [observe, hpredicted, hcovariance, innovation_checked, Mat.inverse?_checked]
  cases (innovation (observation (f.attitude.toFrame expected)) f.covariance noise).inverse? with
  | none => rfl
  | some inverse =>
    have hdifference : measured.checked - (f.attitude.toFrame expected).checked =
        (measured - f.attitude.toFrame expected).checked := rfl
    simp only [Option.map_some, observation_checked, gain_checked, posterior_checked, hdifference,
      Mat.column_checked, Mat.mul_checked, ← absorb_checked]
    rfl

theorem fold_checked (hf : f.attitude.normSq = 1) : f.checked.fold = f.fold.checked := by
  have hproduct : f.checked.attitude * { f.checked.correction with w := correctionScalar } =
      (f.attitude * f.pending).checked := Quat.mul_checked f.attitude f.pending
  simp only [fold, hproduct, Quat.normalize_checked (norm_folded_ne_zero hf)]
  rfl

theorem correct_checked (hf : f.attitude.normSq = 1) (expected measured noise : Vec3 ℝ) :
    f.checked.correct expected.checked measured.checked noise.checked =
      ((f.correct expected measured noise).1.checked, (f.correct expected measured noise).2) := by
  have hunit : (f.observe expected measured noise).1.attitude.normSq = 1 := by
    rw [(f.observe_frame expected measured noise).2.1]
    exact hf
  simp only [correct, observe_checked, fold_checked hunit]

theorem nextDeviation_checked (f : Estimator ℝ) (force : Vec3 ℝ) :
    f.checked.nextDeviation force.checked = number (f.nextDeviation force) := by
  rw [nextDeviation, Vec3.norm_checked]
  rfl

theorem correctGravity_checked (hf : f.attitude.normSq = 1) (force : Vec3 ℝ) :
    f.checked.correctGravity force.checked =
      ((f.correctGravity force).1.checked, (f.correctGravity force).2) := by
  have hdeviation : ({ f.checked with deviation := number (f.nextDeviation force) } :
      Estimator Checked) =
        ({ f with deviation := f.nextDeviation force } : Estimator ℝ).checked := rfl
  have hhf : ({ f with deviation := f.nextDeviation force } : Estimator ℝ).attitude.normSq = 1 := hf
  simp only [correctGravity, nextDeviation_checked, hdeviation]
  exact correct_checked hhf gravityReference force (gravityNoise (f.nextDeviation force))

theorem correctField_checked (hf : f.attitude.normSq = 1) (field : Vec3 ℝ) :
    f.checked.correctField field.checked =
      ((f.correctField field).1.checked, (f.correctField field).2) :=
  correct_checked hf f.config.field field f.config.fieldNoise

/-! ## Alignment over checked numbers -/

theorem triad?_checked (primary secondary : Vec3 ℝ) :
    triad? primary.checked secondary.checked = (triad? primary secondary).map Mat.checked := by
  have hleast : (leastDirection : Checked) = number leastDirection := rfl
  simp only [triad?, hleast, Vec3.direction?_checked _ leastDirection_pos.le]
  cases primary.direction? leastDirection with
  | none => rfl
  | some first =>
    have hcross : first.checked.cross secondary.checked = (first.cross secondary).checked := rfl
    simp only [Option.map_some, Option.bind_eq_bind, Option.bind_some, hcross,
      Vec3.direction?_checked _ leastDirection_pos.le]
    cases (first.cross secondary).direction? leastDirection with
    | none => rfl
    | some second =>
      have hthird : first.checked.cross second.checked = (first.cross second).checked := rfl
      simp only [Option.map_some, Option.bind_some, Option.pure_def, hthird, Mat.ofColumns,
        Mat.ofRows_checked, Mat.transpose_checked]

theorem attitudeOf?_checked (accel mag reference : Vec3 ℝ) :
    attitudeOf? accel.checked mag.checked reference.checked =
      (attitudeOf? accel mag reference).map Quat.checked := by
  have hup : (gravityReference : Vec3 Checked) = (gravityReference : Vec3 ℝ).checked := rfl
  simp only [attitudeOf?, hup, triad?_checked, Vec3.isFinite_checked, Vec3.isFinite_real]
  cases triad? gravityReference reference with
  | none => rfl
  | some known =>
    cases triad? accel mag with
    | none => rfl
    | some measured =>
      simp only [Option.map_some, Option.bind_eq_bind, Option.bind_some, Option.pure_def,
        Mat.mulTranspose_checked, Quat.ofMat_checked, Bool.and_self, if_true]

theorem align_checked (f : Estimator ℝ) (readings : Readings ℝ) :
    f.checked.align readings.checked = (f.align readings).map checked := by
  have hrunning : f.checked.isRunning = f.isRunning := rfl
  have hattitude : attitudeOf? readings.checked.accel readings.checked.mag f.checked.config.field =
      (attitudeOf? readings.accel readings.mag f.config.field).map Quat.checked :=
    attitudeOf?_checked _ _ _
  have hgyro : readings.checked.gyro.isFinite = readings.gyro.isFinite := rfl
  simp only [align, hrunning, hgyro, hattitude]
  cases f.isRunning with
  | true => rfl
  | false =>
    cases attitudeOf? readings.accel readings.mag f.config.field with
    | none => rfl
    | some q =>
      have hproject : ({ f.checked with attitude := q.checked } : Estimator Checked).project =
          ({ f with attitude := q } : Estimator ℝ).project.checked :=
        project_checked { f with attitude := q }
      simp only [Option.map_some, hproject]
      rfl

/-! ## Requests and runs -/

theorem serve_checked (hf : f.IsUnit) (r : Request ℝ) :
    f.checked.serve r.checked = ((f.serve r).1.checked, (f.serve r).2) := by
  cases r with
  | align readings =>
    simp only [serve, Request.checked, align_checked]
    cases f.align readings <;> rfl
  | propagate gyro dt =>
    simp only [serve, Request.checked, propagate?_checked hf.attitude, isDuration_checked]
    cases f.propagate? gyro dt <;> rfl
  | correctGravity force => exact correctGravity_checked hf.attitude force
  | correctField field => exact correctField_checked hf.attitude field

theorem run_checked (hf : f.IsUnit) (rs : List (Request ℝ)) :
    process.run f.checked (rs.map Request.checked) =
      ((process.run f rs).1.checked, (process.run f rs).2) := by
  induction rs generalizing f with
  | nil => rfl
  | cons r rs ih =>
    have hstep : process f.checked r.checked = ((process f r).1.checked, (process f r).2) := by
      simp only [process, serve_checked hf]
    have hrest : process.run (process f r).1.checked (rs.map Request.checked) =
        ((process.run (process f r).1 rs).1.checked, (process.run (process f r).1 rs).2) :=
      ih (isUnit_serve hf r)
    simp only [List.map_cons, Process.run_cons, hstep, hrest]

theorem isUnit_run (hf : f.IsUnit) (rs : List (Request ℝ)) : (process.run f rs).1.IsUnit :=
  process.run_invariant IsUnit (fun _ r hg => isUnit_serve hg r) hf rs

/-- What a list of requests leaves of an estimator, and that it divides by zero nowhere. -/
structure StaysUnit (c : Config ℝ) (m : Mounting ℝ) (rs : List (Request ℝ)) : Prop where
  attitude : (process.run (new c m) rs).1.attitude.norm = 1
  body : (process.run (new c m) rs).1.body.attitude.norm = 1
  /-- Where quotients by zero are undefined, state and answers are the same numbers. -/
  defined : process.run (new c.checked m.checked) (rs.map Request.checked) =
    ((process.run (new c m) rs).1.checked, (process.run (new c m) rs).2)

/-- **With a unit mounting, the reference and the body keep the norm one over every list of
requests, and no request divides by zero.** -/
theorem staysUnit_run (c : Config ℝ) {m : Mounting ℝ} (hm : m.quat.norm = 1)
    (rs : List (Request ℝ)) : StaysUnit c m rs := by
  have hnew : (new c m).IsUnit := isUnit_new c (Quat.norm_eq_one_iff.mp hm)
  have hrun := isUnit_run hnew rs
  exact
    { attitude := Quat.norm_eq_one_iff.mpr hrun.attitude
      body := Quat.norm_eq_one_iff.mpr hrun.body
      defined := by rw [new_checked, run_checked hnew] }

/-- Sensors upside down, with rates that the smoothing exaggerates: a propagation, an alignment, and
both corrections. -/
theorem staysUnit_run_upsideDown :
    (Mounting.ofQuat (⟨0, 1, 0, 0⟩ : Quat ℝ)).quat.norm = 1 ∧
    StaysUnit { Config.default with smoothing := .lowPass 3 } (.ofQuat ⟨0, 1, 0, 0⟩)
      [.propagate ⟨1, 2, 3⟩ 1, .align ⟨.zero, ⟨0, 0, 10⟩, ⟨1, 0, 1⟩⟩, .correctGravity ⟨3, 4, 0⟩,
        .correctField ⟨0, 1, 1⟩] := by
  have hm : (Mounting.ofQuat (⟨0, 1, 0, 0⟩ : Quat ℝ)).quat.norm = 1 := by
    rw [Quat.norm_eq_one_iff]
    norm_num [Mounting.ofQuat, Quat.normSq]
  exact ⟨hm, staysUnit_run _ hm _⟩

end Estimator
end Attitude
