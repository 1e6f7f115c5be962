import Mathlib
import Attitude.Proofs.Covariance
import Attitude.Proofs.Schedule
import Attitude.Proofs.UnitAttitude
import Attitude.Proofs.Validity

/-!
# What a propagation computes

Over exact arithmetic a propagation multiplies the reference by the exponential of half the rotation
that the gyro describes, and divides by the norm. The exponential is that of the quaternions as a
normed algebra. Rotations by at most `2 ^ (-22)` are skipped, so the factor is the exponential up to
`2 ^ (-23)`. The covariance is carried along by the linear map of the error, `F P Fᵀ + Q`.

Unit quaternions keep distances, so over a run the skipped rotations add up and are not amplified:
after `n` samples the reference is within `n * 2 ^ (-23)` of the product of all exponentials. At a
constant rate that product is the exponential of the whole rotation, however the time is divided.

## Main definitions

* `Vec3.generator`: the quaternion whose exponential is a rotation
* `Estimator.Propagates`: what one propagation computes
* `Estimator.turns`: the rotations of a list of gyro samples

## Main results

* `Estimator.propagates_propagated`: one propagation
* `Estimator.norm_attitude_run_sub_le`, `Estimator.norm_attitude_constant_sub_le`: runs
-/

namespace Attitude
open NormedSpace Matrix Quaternion

theorem norm_sq_quaternion (q : ℍ[ℝ]) :
    ‖q‖ ^ 2 = q.re ^ 2 + q.imI ^ 2 + q.imJ ^ 2 + q.imK ^ 2 := by
  rw [sq, ← Quaternion.normSq_eq_norm_mul_self, Quaternion.normSq_def']

/-- A small rotation moves little: its exponential is not farther from one than its generator is
long. -/
theorem norm_exp_sub_one_le {q : ℍ[ℝ]} (hq : q.re = 0) : ‖exp q - 1‖ ≤ ‖q‖ := by
  have hsine : Real.sin ‖q‖ / ‖q‖ * ‖q‖ = Real.sin ‖q‖ :=
    div_mul_cancel_of_imp (fun h => by rw [h, Real.sin_zero])
  have hnorm := norm_sq_quaternion q
  rw [hq] at hnorm
  have hsq : ‖exp q - 1‖ ^ 2 = (Real.cos ‖q‖ - 1) ^ 2 + (Real.sin ‖q‖ / ‖q‖ * ‖q‖) ^ 2 := by
    rw [norm_sq_quaternion, Quaternion.exp_of_re_eq_zero q hq, mul_pow, hnorm]
    simp [hq]
    ring
  rw [← sq_le_sq₀ (norm_nonneg _) (norm_nonneg _), hsq, hsine]
  linarith [Real.sin_sq_add_cos_sq ‖q‖, Real.one_sub_sq_div_two_le_cos (x := ‖q‖)]

namespace Vec3

/-- The quaternion whose exponential rotates by the norm of `v` about the direction of `v`. -/
noncomputable def generator (v : Vec3 ℝ) : ℍ[ℝ] := ⟨0, v.x / 2.0, v.y / 2.0, v.z / 2.0⟩

section
variable (v : Vec3 ℝ)

@[simp] theorem re_generator : v.generator.re = 0 := rfl
@[simp] theorem imI_generator : v.generator.imI = v.x / 2 := congrArg (v.x / ·) Scalar.two_real
@[simp] theorem imJ_generator : v.generator.imJ = v.y / 2 := congrArg (v.y / ·) Scalar.two_real
@[simp] theorem imK_generator : v.generator.imK = v.z / 2 := congrArg (v.z / ·) Scalar.two_real

theorem generator_mul (a : ℝ) : (v * a).generator = a • v.generator := by
  ext <;> simp <;> ring

theorem norm_generator : ‖v.generator‖ = (v / (2.0 : ℝ)).norm := by
  change _ = √(v / (2.0 : ℝ)).normSq
  rw [← Real.sqrt_sq (norm_nonneg v.generator), norm_sq_quaternion, Scalar.two_real]
  simp [normSq, sq]

/-- The exponential of a rotation is a unit quaternion. -/
theorem norm_exp_generator : ‖exp v.generator‖ = 1 := by
  rw [Quaternion.norm_exp, re_generator, exp_zero, norm_one]

end
end Vec3

namespace Quat

/-- The same quaternion, in the normed algebra. -/
def toQuaternion (q : Quat ℝ) : ℍ[ℝ] := ⟨q.w, q.i, q.j, q.k⟩

section
variable (p q : Quat ℝ)

@[simp] theorem re_toQuaternion : q.toQuaternion.re = q.w := rfl
@[simp] theorem imI_toQuaternion : q.toQuaternion.imI = q.i := rfl
@[simp] theorem imJ_toQuaternion : q.toQuaternion.imJ = q.j := rfl
@[simp] theorem imK_toQuaternion : q.toQuaternion.imK = q.k := rfl

theorem toQuaternion_identity : (identity : Quat ℝ).toQuaternion = 1 := by
  ext <;> norm_num [identity]

theorem toQuaternion_mul : (p * q).toQuaternion = p.toQuaternion * q.toQuaternion := by
  ext <;> simp

theorem norm_toQuaternion : ‖q.toQuaternion‖ = q.norm := by
  change _ = √q.normSq
  rw [← Real.sqrt_sq (norm_nonneg q.toQuaternion), norm_sq_quaternion, normSq_eq]
  rfl

theorem toQuaternion_normalize :
    q.normalize.toQuaternion = ‖q.toQuaternion‖⁻¹ • q.toQuaternion := by
  rw [norm_toQuaternion, normalize, div_eq]
  ext <;> simp <;> ring

/-- A rotation vector is exponentiated, unless its half is at most `2 ^ (-23)` long. -/
theorem toQuaternion_ofRotationVector (v : Vec3 ℝ) : (ofRotationVector v).toQuaternion =
    if ‖v.generator‖ ≤ 2 ^ (-23 : ℤ) then 1 else exp v.generator := by
  have hsmall : (v / (2.0 : ℝ)).normSq ≤ 1.1920928955078125e-7 * 1.1920928955078125e-7 ↔
      ‖v.generator‖ ≤ 2 ^ (-23 : ℤ) := by
    rw [← sq_le_sq₀ (norm_nonneg _) (by positivity), Vec3.norm_generator, sq, Vec3.norm_mul_self]
    norm_num
  simp only [ofRotationVector, hsmall]
  split_ifs
  · exact toQuaternion_identity
  · rw [Quaternion.exp_of_re_eq_zero _ v.re_generator, Vec3.norm_generator]
    generalize (v / (2.0 : ℝ)).norm = n
    have hsin : Scalar.sin n = Real.sin n := rfl
    have hcos : Scalar.cos n = Real.cos n := rfl
    ext <;> simp [hsin, hcos, Scalar.two_real] <;> ring

theorem norm_toQuaternion_ofRotationVector (v : Vec3 ℝ) :
    ‖(ofRotationVector v).toQuaternion‖ = 1 := by
  rw [norm_toQuaternion, norm_eq_one_iff]
  exact normSq_ofRotationVector v

/-- The quaternion of a turn is its exponential, up to `2 ^ (-23)`. -/
theorem norm_ofRotationVector_sub_exp_le (v : Vec3 ℝ) :
    ‖(ofRotationVector v).toQuaternion - exp v.generator‖ ≤ 2 ^ (-23 : ℤ) := by
  rw [toQuaternion_ofRotationVector]
  split_ifs with hsmall
  · rw [norm_sub_rev]
    exact (norm_exp_sub_one_le v.re_generator).trans hsmall
  · rw [sub_self, norm_zero]
    positivity

end
end Quat

namespace Estimator
variable {f : Estimator ℝ} {gyro : Vec3 ℝ} {dt : ℝ}

/-! ## One propagation -/

/-- The linear map of the error over `dt` seconds at the rate `w`: the attitude error turns against
the rotation and drifts with the bias error, which stays. -/
def transitionMatrix (w : Vec3 ℝ) (dt : ℝ) : Matrix (Fin 6) (Fin 6) ℝ :=
  !![1, w.z * dt, -(w.y * dt), -dt, 0, 0;
     -(w.z * dt), 1, w.x * dt, 0, -dt, 0;
     w.y * dt, -(w.x * dt), 1, 0, 0, -dt;
     0, 0, 0, 1, 0, 0;
     0, 0, 0, 0, 1, 0;
     0, 0, 0, 0, 0, 1]

/-- The noise that an interval adds to the error. -/
def noiseMatrix (c : Config ℝ) (dt : ℝ) : Matrix (Fin 6) (Fin 6) ℝ :=
  dt ^ 2 • Matrix.diagonal ![c.attitudeNoise, c.attitudeNoise, c.attitudeNoise, c.biasNoise,
    c.biasNoise, c.biasNoise]

theorem toMatrix_transition (w : Vec3 ℝ) (dt : ℝ) :
    (transition w dt).toMatrix = transitionMatrix w dt := by
  ext i j
  fin_cases i <;> fin_cases j <;>
    simp [transition, transitionMatrix, Mat.above, Mat.beside, get_skew, Scalar.zero_real,
      Mat.get_identity, Scalar.one_real]

theorem diagonal_processNoise (c : Config ℝ) (dt : ℝ) :
    Matrix.diagonal (processNoise c dt) = noiseMatrix c dt := by
  rw [noiseMatrix, ← Matrix.diagonal_smul]
  congr 1
  funext i
  fin_cases i <;> simp [processNoise, sq]

/-- What an estimator `f` becomes when it is propagated by a gyro sample over `dt` seconds. -/
structure Propagates (f : Estimator ℝ) (gyro : Vec3 ℝ) (dt : ℝ) (g : Estimator ℝ) : Prop where
  rate : g.rate = f.nextRate gyro
  /-- The normalized product with the exponential, as soon as the rotation is not skipped. -/
  attitude : 2 ^ (-23 : ℤ) < ‖(f.nextRate gyro * dt).generator‖ → g.attitude.toQuaternion =
    ‖f.attitude.toQuaternion‖⁻¹ •
      (f.attitude.toQuaternion * exp (f.nextRate gyro * dt).generator)
  /-- It is near in any case. -/
  near : ‖g.attitude.toQuaternion - ‖f.attitude.toQuaternion‖⁻¹ •
    (f.attitude.toQuaternion * exp (f.nextRate gyro * dt).generator)‖ ≤ 2 ^ (-23 : ℤ)
  covariance : g.covariance.toMatrix = transitionMatrix (f.nextRate gyro) dt *
    f.covariance.toMatrix * (transitionMatrix (f.nextRate gyro) dt)ᵀ + noiseMatrix f.config dt
  body : g.body = f.mounting.project g.attitude g.rate
  /-- Nothing else changes. -/
  frame : g = { f with
    rate := g.rate, attitude := g.attitude, covariance := g.covariance, body := g.body }

/-- The quaternion of a turn is a unit, so that normalizing only divides by the norm of the
reference. -/
theorem toQuaternion_attitude_propagated (f : Estimator ℝ) (gyro : Vec3 ℝ) (dt : ℝ) :
    (Session.propagated f gyro dt).attitude.toQuaternion = ‖f.attitude.toQuaternion‖⁻¹ •
      (f.attitude.toQuaternion * (Quat.ofRotationVector (f.nextRate gyro * dt)).toQuaternion) := by
  have hnormalized : (Session.propagated f gyro dt).attitude =
      (f.attitude * .ofRotationVector (f.nextRate gyro * dt)).normalize := rfl
  rw [hnormalized, Quat.toQuaternion_normalize, Quat.toQuaternion_mul, norm_mul,
    Quat.norm_toQuaternion_ofRotationVector, mul_one]

theorem norm_attitude_propagated (hf : ‖f.attitude.toQuaternion‖ = 1) (gyro : Vec3 ℝ) (dt : ℝ) :
    ‖(Session.propagated f gyro dt).attitude.toQuaternion‖ = 1 := by
  rw [toQuaternion_attitude_propagated, hf, inv_one, one_smul, norm_mul, hf, one_mul,
    Quat.norm_toQuaternion_ofRotationVector]

/-- The reference is near to the normalized product with the exponential. -/
theorem norm_attitude_propagated_sub_le (f : Estimator ℝ) (gyro : Vec3 ℝ) (dt : ℝ) :
    ‖(Session.propagated f gyro dt).attitude.toQuaternion - ‖f.attitude.toQuaternion‖⁻¹ •
      (f.attitude.toQuaternion * exp (f.nextRate gyro * dt).generator)‖ ≤ 2 ^ (-23 : ℤ) := by
  rw [toQuaternion_attitude_propagated, ← smul_sub, ← mul_sub, norm_smul, norm_mul, norm_inv,
    norm_norm, ← mul_assoc]
  have hshrinks : ‖f.attitude.toQuaternion‖⁻¹ * ‖f.attitude.toQuaternion‖ ≤ 1 :=
    inv_mul_le_one
  calc _ ≤ 1 * ‖(Quat.ofRotationVector (f.nextRate gyro * dt)).toQuaternion -
        exp (f.nextRate gyro * dt).generator‖ :=
        mul_le_mul_of_nonneg_right hshrinks (norm_nonneg _)
    _ ≤ 2 ^ (-23 : ℤ) := by
        rw [one_mul]
        exact Quat.norm_ofRotationVector_sub_exp_le _

/-- **What one propagation computes.** -/
theorem propagates_propagated (f : Estimator ℝ) (gyro : Vec3 ℝ) (dt : ℝ) :
    f.Propagates gyro dt (Session.propagated f gyro dt) where
  rate := rfl
  attitude := by
    intro hlarge
    rw [toQuaternion_attitude_propagated, Quat.toQuaternion_ofRotationVector,
      if_neg (not_le.mpr hlarge)]
  near := norm_attitude_propagated_sub_le f gyro dt
  covariance := by
    have hstored : (Session.propagated f gyro dt).covariance =
        ((transition (f.nextRate gyro) dt * f.covariance).mulTranspose
          (transition (f.nextRate gyro) dt)).addDiagonal (processNoise f.config dt) := rfl
    rw [hstored, Mat.toMatrix_addDiagonal, Mat.toMatrix_mulTranspose, Mat.toMatrix_mul,
      toMatrix_transition, diagonal_processNoise]
  body := rfl
  frame := rfl

/-- An interval is propagated over when it is positive. -/
theorem propagate?_eq_propagated (f : Estimator ℝ) (gyro : Vec3 ℝ) (dt : ℝ) :
    f.propagate? gyro dt = if 0 < dt then some (Session.propagated f gyro dt) else none := by
  have hduration : isDuration dt = true ↔ 0 < dt := by
    simp [isDuration, Scalar.zero_real]
  simp only [propagate?, hduration]
  rfl

/-! ## Runs -/

/-- The rotations that a list of gyro samples describes, one after another. -/
noncomputable def turns (f : Estimator ℝ) : List (Vec3 ℝ × ℝ) → List ℍ[ℝ]
  | [] => []
  | (gyro, dt) :: samples =>
    exp (f.nextRate gyro * dt).generator :: turns { f with rate := f.nextRate gyro } samples

/-- The rotations depend on the smoothing, the last rate and the bias only. -/
theorem turns_congr {f g : Estimator ℝ} (hconfig : g.config = f.config) (hrate : g.rate = f.rate)
    (hbias : g.bias = f.bias) (samples : List (Vec3 ℝ × ℝ)) :
    g.turns samples = f.turns samples := by
  induction samples generalizing f g with
  | nil => rfl
  | cons sample samples ih =>
    have hnext : g.nextRate sample.1 = f.nextRate sample.1 := by
      simp only [nextRate, hconfig, hrate, hbias]
    rw [turns, turns, hnext]
    congr 1
    exact ih hconfig rfl hbias

theorem norm_prod_turns (f : Estimator ℝ) (samples : List (Vec3 ℝ × ℝ)) :
    ‖(f.turns samples).prod‖ = 1 := by
  induction samples generalizing f with
  | nil => exact norm_one
  | cons sample samples ih =>
    rw [turns, List.prod_cons, norm_mul, Vec3.norm_exp_generator, ih, mul_one]

/-- A request to propagate by each sample of a list. -/
def propagations (samples : List (Vec3 ℝ × ℝ)) : List (Request ℝ) :=
  samples.map fun (gyro, dt) => .propagate gyro dt

/-- **Skipped rotations add up and are not amplified.** -/
theorem norm_attitude_run_sub_le (hf : ‖f.attitude.toQuaternion‖ = 1)
    (samples : List (Vec3 ℝ × ℝ)) (hsamples : ∀ sample ∈ samples, 0 < sample.2) :
    ‖(process.run f (propagations samples)).1.attitude.toQuaternion -
      f.attitude.toQuaternion * (f.turns samples).prod‖ ≤ samples.length * 2 ^ (-23 : ℤ) := by
  induction samples generalizing f with
  | nil => simp [propagations, turns]
  | cons sample samples ih =>
    obtain ⟨gyro, dt⟩ := sample
    obtain ⟨hdt, hlater⟩ := List.forall_mem_cons.mp hsamples
    have hstep : (process f (.propagate gyro dt)).1 = Session.propagated f gyro dt := by
      simp only [process, serve, propagate?_eq_propagated, if_pos hdt, Option.getD_some]
    have hturn := norm_attitude_propagated_sub_le f gyro dt
    rw [hf, inv_one, one_smul] at hturn
    have hrest := ih (norm_attitude_propagated hf gyro dt) hlater
    have hlast : (Session.propagated f gyro dt).turns samples =
        turns { f with rate := f.nextRate gyro } samples := by
      apply turns_congr <;> rfl
    have hrun : (process.run f (propagations ((gyro, dt) :: samples))).1 =
        (process.run (Session.propagated f gyro dt) (propagations samples)).1 := by
      rw [propagations, List.map_cons, Process.run_cons, hstep, propagations]
    rw [hrun, turns, List.prod_cons, ← hlast, ← mul_assoc, List.length_cons, Nat.cast_add_one,
      add_one_mul]
    -- The rest of the run is the same turn of the new reference and of the exact one.
    have hsame : ‖(Session.propagated f gyro dt).attitude.toQuaternion *
          ((Session.propagated f gyro dt).turns samples).prod -
        f.attitude.toQuaternion * exp (f.nextRate gyro * dt).generator *
          ((Session.propagated f gyro dt).turns samples).prod‖ ≤ 2 ^ (-23 : ℤ) := by
      rw [← sub_mul, norm_mul, norm_prod_turns, mul_one]
      exact hturn
    exact (norm_sub_le_norm_sub_add_norm_sub _ _ _).trans (add_le_add hrest hsame)

/-- Without smoothing, a constant rate describes the same rotation in every interval. -/
theorem turns_constant (hsmoothing : f.config.smoothing = .direct) (gyro : Vec3 ℝ) (dt : ℝ)
    (n : ℕ) : f.turns (List.replicate n (gyro, dt)) =
      List.replicate n (exp ((gyro - f.bias) * dt).generator) := by
  induction n generalizing f with
  | zero => rfl
  | succ n ih =>
    have hnext : f.nextRate gyro = gyro - f.bias := by
      rw [nextRate, hsmoothing]
    have hlater := ih (f := { f with rate := f.nextRate gyro }) hsmoothing
    rw [List.replicate_succ, List.replicate_succ, turns, hlater, hnext]

/-- However the time is divided, it is one rotation. -/
theorem prod_turns_constant (hsmoothing : f.config.smoothing = .direct) (gyro : Vec3 ℝ) (dt : ℝ)
    (n : ℕ) : (f.turns (List.replicate n (gyro, dt))).prod =
      exp ((gyro - f.bias) * ((n : ℝ) * dt)).generator := by
  let +nondep : NormedAlgebra ℚ ℍ[ℝ] := .restrictScalars ℚ ℝ ℍ[ℝ]
  rw [turns_constant hsmoothing, List.prod_replicate, ← NormedSpace.exp_nsmul,
    Vec3.generator_mul, Vec3.generator_mul, mul_smul, Nat.cast_smul_eq_nsmul]

/-- **At a constant rate the reference turns by the rate times the whole time.** -/
theorem norm_attitude_constant_sub_le (hf : ‖f.attitude.toQuaternion‖ = 1)
    (hsmoothing : f.config.smoothing = .direct) (gyro : Vec3 ℝ) (hdt : 0 < dt) (n : ℕ) :
    ‖(process.run f (propagations (List.replicate n (gyro, dt)))).1.attitude.toQuaternion -
      f.attitude.toQuaternion * exp ((gyro - f.bias) * ((n : ℝ) * dt)).generator‖ ≤
      n * 2 ^ (-23 : ℤ) := by
  have h := norm_attitude_run_sub_le hf (List.replicate n (gyro, dt)) fun sample hsample => by
    rw [List.eq_of_mem_replicate hsample]
    exact hdt
  rwa [prod_turns_constant hsmoothing, List.length_replicate] at h

end Estimator
end Attitude
