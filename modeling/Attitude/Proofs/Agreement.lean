import Attitude.Proofs.Exact.Fold
import Attitude.Proofs.Process
import Attitude.Proofs.Request

/-!
# Alignment agrees with the measurement model

Alignment builds a matrix from two frames and reads a quaternion off it; a correction predicts a
measurement with `Quat.toFrame`. Over the real numbers the two agree on frames and handedness for
every attitude: the quaternion of an alignment predicts the direction of the measured force exactly,
and the normal of force and field. It is the only one that does, up to its sign. An estimator that
has been aligned with the readings of some attitude therefore has nothing to learn from the same
readings, and corrections by them leave it where it is.

## Main definitions

* `frameOf`: the frame of two directions, wherever it exists
* `Quat.Explains`: a quaternion predicts what has been measured
* `Estimator.RestsAfter`: corrections by the readings of an alignment change nothing
* `Agreement`: all of this for one alignment
-/

namespace Attitude
open Matrix

/-! ## The frame of two directions -/

/-- The primary direction, the normal of both, and the product of these two. -/
noncomputable def frameOf (primary secondary : Vec3 ℝ) : Mat 3 3 ℝ :=
  .ofColumns primary.direction (primary.cross secondary).direction
    (primary.direction.cross (primary.cross secondary).direction)

theorem isRotation_frameOf {primary secondary : Vec3 ℝ} (hprimary : 0 < primary.norm)
    (hnormal : 0 < (primary.cross secondary).norm) : (frameOf primary secondary).IsRotation :=
  (Mat.isRotation_ofRows (Vec3.normSq_direction hprimary) (Vec3.normSq_direction hnormal)
    (Vec3.direction_dotProduct_cross primary secondary)).transpose

theorem leastDirection_pos : (0 : ℝ) < leastDirection := by norm_num [leastDirection]

/-- A frame is handed out when the primary direction and the normal to it are long enough. -/
theorem triad?_eq_some_iff {primary secondary : Vec3 ℝ} {m : Mat 3 3 ℝ} :
    triad? primary secondary = some m ↔
      leastDirection < primary.norm ∧ leastDirection < (primary.direction.cross secondary).norm ∧
        frameOf primary secondary = m := by
  have hnormal (h : leastDirection < primary.norm) :
      (primary.direction.cross secondary).direction = (primary.cross secondary).direction := by
    rw [Vec3.direction_eq_mul primary, Vec3.cross_mul_left,
      Vec3.direction_mul _ (inv_pos.mpr (leastDirection_pos.trans h))]
  simp only [triad?, Option.bind_eq_bind, Option.bind_eq_some_iff, Vec3.direction?_eq_some_iff]
  constructor
  · rintro ⟨_, ⟨hprimary, rfl⟩, _, ⟨hcross, rfl⟩, h⟩
    rw [hnormal hprimary] at h
    exact ⟨hprimary, hcross, Option.some.inj h⟩
  · rintro ⟨hprimary, hcross, rfl⟩
    refine ⟨_, ⟨hprimary, rfl⟩, _, ⟨hcross, rfl⟩, ?_⟩
    rw [hnormal hprimary]
    rfl

/-! ## The attitude of two readings -/

theorem gravityReference_eq_mul :
    (gravityReference : Vec3 ℝ) = (⟨0, 0, -1⟩ : Vec3 ℝ) * (9.81 : ℝ) := by
  ext <;> norm_num [gravityReference, gravity]

theorem norm_up : (⟨0, 0, -1⟩ : Vec3 ℝ).norm = 1 := by
  simp [Vec3.norm, Vec3.normSq, Scalar.sqrt]

theorem norm_gravityReference : (gravityReference : Vec3 ℝ).norm = 9.81 := by
  rw [gravityReference_eq_mul, Vec3.norm_mul _ (by norm_num), norm_up, one_mul]

theorem direction_gravityReference : (gravityReference : Vec3 ℝ).direction = ⟨0, 0, -1⟩ := by
  rw [gravityReference_eq_mul, Vec3.direction_mul _ (by norm_num), Vec3.direction, norm_up]
  ext <;> simp

theorem gravityReference_pos : 0 < (gravityReference : Vec3 ℝ).norm := by
  norm_num [norm_gravityReference]

section Alignment
variable {accel mag reference : Vec3 ℝ} {q : Quat ℝ}

/-- An attitude is handed out when the force, and the parts of both fields across the vertical, are
long enough. -/
theorem attitudeOf?_eq_some_iff : attitudeOf? accel mag reference = some q ↔
    (leastDirection < (gravityReference.direction.cross reference).norm ∧
      leastDirection < accel.norm ∧ leastDirection < (accel.direction.cross mag).norm) ∧
    .ofMat ((frameOf gravityReference reference).mulTranspose (frameOf accel mag)) = q := by
  have hgravity : leastDirection < (gravityReference : Vec3 ℝ).norm := by
    norm_num [norm_gravityReference, leastDirection]
  rw [attitudeOf?]
  simp only [Vec3.isFinite_real, Bool.and_self, if_true, Option.bind_eq_bind, Option.bind_eq_some_iff,
    triad?_eq_some_iff]
  constructor
  · rintro ⟨_, ⟨-, hreference, rfl⟩, _, ⟨haccel, hmag, rfl⟩, h⟩
    exact ⟨⟨hreference, haccel, hmag⟩, Option.some.inj h⟩
  · rintro ⟨⟨hreference, haccel, hmag⟩, rfl⟩
    exact ⟨_, ⟨hgravity, hreference, rfl⟩, _, ⟨haccel, hmag, rfl⟩, rfl⟩

/-- A normal that is long enough does not vanish. -/
theorem cross_pos_of_direction {v w : Vec3 ℝ} (hv : 0 < v.norm)
    (h : leastDirection < (v.direction.cross w).norm) : 0 < (v.cross w).norm := by
  have hinv : 0 ≤ v.norm⁻¹ := (inv_pos.mpr hv).le
  rw [Vec3.direction_eq_mul, Vec3.cross_mul_left, Vec3.norm_mul _ hinv] at h
  exact pos_of_mul_pos_left (leastDirection_pos.trans h) hinv

/-- Neither the force nor the two normals behind an attitude vanish. -/
theorem pos_of_attitudeOf? (h : attitudeOf? accel mag reference = some q) :
    0 < (gravityReference.cross reference).norm ∧ 0 < accel.norm ∧ 0 < (accel.cross mag).norm := by
  obtain ⟨⟨hreference, haccel, hmag⟩, -⟩ := attitudeOf?_eq_some_iff.mp h
  exact ⟨cross_pos_of_direction gravityReference_pos hreference, leastDirection_pos.trans haccel,
    cross_pos_of_direction (leastDirection_pos.trans haccel) hmag⟩

/-- A unit quaternion that predicts the direction of a measured force, and the normal of the force
and a measured field. -/
structure Quat.Explains (q : Quat ℝ) (accel mag reference : Vec3 ℝ) : Prop where
  norm_eq_one : q.norm = 1
  up : q.toFrame ⟨0, 0, -1⟩ = accel.direction
  normal : q.toFrame (gravityReference.cross reference).direction = (accel.cross mag).direction

/-- The attitude of an alignment explains the readings. -/
theorem explains_attitudeOf? (h : attitudeOf? accel mag reference = some q) :
    q.Explains accel mag reference := by
  obtain ⟨hreference, haccel, hmag⟩ := pos_of_attitudeOf? h
  obtain ⟨-, hq⟩ := attitudeOf?_eq_some_iff.mp h
  have hknown := isRotation_frameOf gravityReference_pos hreference
  have hturn := hknown.mulTranspose (isRotation_frameOf haccel hmag)
  have hunit : q.normSq = 1 := by rw [← hq, Quat.normSq_ofMat hturn]
  have hmatrix :
      q.toMat = (frameOf gravityReference reference).mulTranspose (frameOf accel mag) := by
    rw [← hq, Quat.toMat_ofMat hturn]
  -- The axes of the known frame are turned into those of the measured one.
  have haxes : q.toMat.transpose.toMatrix * (frameOf gravityReference reference).toMatrix =
      (frameOf accel mag).toMatrix := by
    rw [hmatrix, Mat.toMatrix_transpose, Mat.toMatrix_mulTranspose, Matrix.transpose_mul,
      transpose_transpose, Matrix.mul_assoc, hknown.transpose_mul, Matrix.mul_one]
  rw [frameOf, Quat.transpose_mul_ofColumns hunit, direction_gravityReference] at haxes
  obtain ⟨hup, hnormal, -⟩ := Vec3.eq_of_ofColumns_eq haxes
  exact ⟨Quat.norm_eq_one_iff.mpr hunit, hup, hnormal⟩

/-- Two quaternions that explain the same readings are equal up to the sign. -/
theorem Quat.Explains.eq_or_eq_neg {p : Quat ℝ} (hp : p.Explains accel mag reference)
    (hq : q.Explains accel mag reference)
    (hreference : 0 < (gravityReference.cross reference).norm) : p = q ∨ p = -q := by
  have hp1 := norm_eq_one_iff.mp hp.norm_eq_one
  have hq1 := norm_eq_one_iff.mp hq.norm_eq_one
  have hknown := isRotation_frameOf gravityReference_pos hreference
  have haxes : p.toMat.transpose.toMatrix * (frameOf gravityReference reference).toMatrix =
      q.toMat.transpose.toMatrix * (frameOf gravityReference reference).toMatrix := by
    rw [frameOf, transpose_mul_ofColumns hp1, transpose_mul_ofColumns hq1, toFrame_cross hp1,
      toFrame_cross hq1, direction_gravityReference, hp.up, hq.up, hp.normal, hq.normal]
  have hmatrix := hknown.eq_of_mul_eq_mul haxes
  rw [Mat.toMatrix_transpose, Mat.toMatrix_transpose, transpose_inj] at hmatrix
  exact eq_or_eq_neg_of_toMat_eq hp1 hq1 (Mat.toMatrix_injective hmatrix)

/-- A quaternion explains the readings that it predicts, whatever their magnitudes. -/
theorem Quat.explains_toFrame (hq : q.norm = 1) (reference : Vec3 ℝ) {c d : ℝ} (hc : 0 < c)
    (hd : 0 < d) :
    q.Explains (q.toFrame gravityReference * c) (q.toFrame reference * d) reference where
  norm_eq_one := hq
  up := by
    rw [← direction_gravityReference, toFrame_direction (norm_eq_one_iff.mp hq),
      Vec3.direction_mul _ hc]
  normal := by
    have hq1 := norm_eq_one_iff.mp hq
    rw [toFrame_direction hq1, toFrame_cross hq1, Vec3.cross_mul_mul,
      Vec3.direction_mul _ (mul_pos hc hd)]

end Alignment

/-! ## Corrections that confirm the reference -/

namespace Estimator

theorem mul_column_zero (k : Mat 6 3 ℝ) :
    k * Mat.column (⟨0, 0, 0⟩ : Vec3 ℝ) = Mat.ofFn fun _ _ => 0 := by
  ext i j
  rw [Mat.get_mul, Mat.dot_eq_sum, Mat.get_ofFn]
  refine Finset.sum_eq_zero fun l _ => ?_
  fin_cases j
  fin_cases l <;> exact mul_zero _

theorem absorb_zero (f : Estimator ℝ) : f.absorb (Mat.ofFn fun _ _ => 0) = f := by
  simp only [absorb, Mat.toVec3, Mat.get_upper, Mat.get_lower, Mat.get_ofFn, add_zero,
    Vec3.add_zero]

/-- An estimator with nothing pending: what a correction that confirms the reference keeps. -/
structure Settled (f : Estimator ℝ) (q : Quat ℝ) (bias reference : Vec3 ℝ) : Prop where
  attitude : f.attitude = q
  bias : f.bias = bias
  correction : f.correction = noCorrection
  field : f.config.field = reference

namespace Settled
variable {f : Estimator ℝ} {q : Quat ℝ} {bias reference : Vec3 ℝ}

/-- An exact prediction leaves no error, whether or not the innovation can be inverted. -/
theorem observe (hf : f.Settled q bias reference) (expected noise : Vec3 ℝ) :
    (f.observe expected (q.toFrame expected) noise).1.Settled q bias reference := by
  obtain ⟨rfl, rfl, hcorrection, rfl⟩ := hf
  rw [Estimator.observe]
  split
  · exact ⟨rfl, rfl, hcorrection, rfl⟩
  · dsimp only
    rw [Vec3.sub_self, mul_column_zero, absorb_zero]
    exact ⟨rfl, rfl, hcorrection, rfl⟩

theorem fold (hf : f.Settled q bias reference) (hq : q.norm = 1) :
    f.fold.Settled q bias reference := by
  refine ⟨?_, hf.bias, rfl, hf.field⟩
  rw [Estimator.fold, hf.attitude, hf.correction]
  exact normalize_mul_noCorrection hq

theorem correct (hf : f.Settled q bias reference) (hq : q.norm = 1) (expected noise : Vec3 ℝ) :
    (f.correct expected (q.toFrame expected) noise).1.Settled q bias reference :=
  (hf.observe expected noise).fold hq

theorem correctGravity (hf : f.Settled q bias reference) (hq : q.norm = 1) :
    (f.correctGravity (q.toFrame gravityReference)).1.Settled q bias reference :=
  -- Only the smoothed excess advances before the correction.
  have hadvanced : Settled
      { f with deviation := f.nextDeviation (q.toFrame gravityReference) } q bias reference :=
    ⟨hf.attitude, hf.bias, hf.correction, hf.field⟩
  hadvanced.correct hq gravityReference _

theorem correctField (hf : f.Settled q bias reference) (hq : q.norm = 1) :
    (f.correctField (q.toFrame reference)).1.Settled q bias reference := by
  have hcorrect := hf.correct hq reference f.config.fieldNoise
  rwa [← hf.field] at hcorrect ⊢

end Settled

/-- A correction by one of the samples that an estimator has been aligned with. -/
def Request.Repeats (readings : Readings ℝ) (r : Request ℝ) : Prop :=
  r = .correctGravity readings.accel ∨ r = .correctField readings.mag

/-- Corrections by exact predictions keep an estimator settled. -/
theorem Settled.run {g : Estimator ℝ} {q : Quat ℝ} {readings : Readings ℝ} {reference : Vec3 ℝ}
    (hg : g.Settled q readings.gyro reference) (hq : q.norm = 1)
    (haccel : readings.accel = q.toFrame gravityReference)
    (hmag : readings.mag = q.toFrame reference) (rs : List (Request ℝ))
    (hrs : ∀ r ∈ rs, r.Repeats readings) :
    (process.run g rs).1.Settled q readings.gyro reference := by
  induction rs generalizing g with
  | nil => exact hg
  | cons r rs ih =>
    rw [Process.run_cons]
    refine ih ?_ fun r hr => hrs r (List.mem_cons_of_mem _ hr)
    rcases hrs r List.mem_cons_self with rfl | rfl
    · rw [haccel]
      exact hg.correctGravity hq
    · rw [hmag]
      exact hg.correctField hq

/-- Alignment with the readings succeeds, and after it corrections by the same samples leave
attitude and bias alone. -/
def RestsAfter (f : Estimator ℝ) (readings : Readings ℝ) (q : Quat ℝ) : Prop :=
  ∃ g, f.align readings = .ok g ∧ g.attitude = q ∧ g.bias = readings.gyro ∧
    ∀ rs : List (Request ℝ), (∀ r ∈ rs, r.Repeats readings) →
      (process.run g rs).1.attitude = q ∧ (process.run g rs).1.bias = readings.gyro

/-- An estimator that has not been aligned yet accepts readings that have an attitude. -/
theorem align_eq_ok_of_attitudeOf? {f : Estimator ℝ} (hf : f.isRunning = false)
    {readings : Readings ℝ} {q : Quat ℝ}
    (h : attitudeOf? readings.accel readings.mag f.config.field = some q) :
    f.align readings =
      .ok { project { f with attitude := q } with bias := readings.gyro, phase := .running } := by
  simp [align, hf, h]

/-- Readings that an attitude predicts exactly leave nothing to correct. -/
theorem restsAfter_of_predicted {f : Estimator ℝ} (hf : f.isRunning = false)
    (hcorrection : f.correction = noCorrection) {readings : Readings ℝ} {q : Quat ℝ}
    (hq : q.norm = 1)
    (h : attitudeOf? readings.accel readings.mag f.config.field = some q)
    (haccel : readings.accel = q.toFrame gravityReference)
    (hmag : readings.mag = q.toFrame f.config.field) : f.RestsAfter readings q := by
  refine ⟨_, align_eq_ok_of_attitudeOf? hf h, rfl, rfl, fun rs hrs => ?_⟩
  have haligned : Settled
      { project { f with attitude := q } with bias := readings.gyro, phase := .running } q
      readings.gyro f.config.field := ⟨rfl, rfl, hcorrection, rfl⟩
  have hsettled := haligned.run hq haccel hmag rs hrs
  exact ⟨hsettled.attitude, hsettled.bias⟩

end Estimator

/-! ## The agreement -/

open Estimator

/-- What an alignment and the measurement model agree on, where `q` is the attitude of the readings
and `reference` the field in the local frame. -/
structure Agreement (accel mag reference : Vec3 ℝ) (q : Quat ℝ) : Prop where
  /-- The directions that `q` explains are those of vectors that do not vanish. -/
  pos : 0 < (gravityReference.cross reference).norm ∧ 0 < accel.norm ∧ 0 < (accel.cross mag).norm
  explains : q.Explains accel mag reference
  /-- Readings of a vehicle with the attitude `q₀`, in whatever units, give this attitude back. -/
  unique : ∀ q₀ : Quat ℝ, q₀.norm = 1 → ∀ c d : ℝ, 0 < c → 0 < d →
    accel = q₀.toFrame gravityReference * c → mag = q₀.toFrame reference * d → q = q₀ ∨ q = -q₀
  /-- In the units of the references, an estimator in whatever state before its alignment takes the
  attitude from the readings, and keeps it under corrections by them. -/
  rests : ∀ q₀ : Quat ℝ, q₀.norm = 1 →
    accel = q₀.toFrame gravityReference → mag = q₀.toFrame reference →
    ∀ (c : Config ℝ) (m : Mounting ℝ) (rs : List (Request ℝ)) (gyro : Vec3 ℝ),
      c.field = reference → (process.run (new c m) rs).1.isRunning = false →
      (process.run (new c m) rs).1.RestsAfter ⟨gyro, accel, mag⟩ q

/-- **Alignment agrees with the measurement model**, for all readings that have an attitude. -/
theorem agreement_of_readings {accel mag reference : Vec3 ℝ} {q : Quat ℝ}
    (h : attitudeOf? accel mag reference = some q) : Agreement accel mag reference q := by
  have hpos := pos_of_attitudeOf? h
  have hexplains := explains_attitudeOf? h
  have hunique (q₀ : Quat ℝ) (hq₀ : q₀.norm = 1) (c d : ℝ) (hc : 0 < c) (hd : 0 < d)
      (haccel : accel = q₀.toFrame gravityReference * c) (hmag : mag = q₀.toFrame reference * d) :
      q = q₀ ∨ q = -q₀ := by
    have hexplains₀ := Quat.explains_toFrame hq₀ reference hc hd
    rw [← haccel, ← hmag] at hexplains₀
    exact hexplains.eq_or_eq_neg hexplains₀ hpos.1
  refine ⟨hpos, hexplains, hunique, ?_⟩
  intro q₀ hq₀ haccel hmag c m rs gyro hfield hrunning
  have hsign := hunique q₀ hq₀ 1 1 one_pos one_pos (by rw [Vec3.mul_one, haccel])
    (by rw [Vec3.mul_one, hmag])
  -- Both signs predict the same measurements.
  have hpredict (v : Vec3 ℝ) : q.toFrame v = q₀.toFrame v := by
    rcases hsign with rfl | rfl
    · rfl
    · exact q₀.toFrame_neg v
  have hconfig : (process.run (new c m) rs).1.config.field = reference := by
    rw [config_run]
    exact hfield
  apply restsAfter_of_predicted hrunning (correction_run rfl rs) hexplains.norm_eq_one
  · rwa [hconfig]
  · rw [hpredict]
    exact haccel
  · rw [hpredict, hconfig]
    exact hmag

/-- Upside down and facing north: the readings are those of half a turn about the first axis, where
the trace is negative and the scalar part vanishes. -/
theorem agreement_of_readings_halfTurn : ∃ q : Quat ℝ,
    attitudeOf? ⟨0, 0, 9.81⟩ ⟨1, 0, -1⟩ ⟨1, 0, 1⟩ = some q ∧
    (q = ⟨0, 1, 0, 0⟩ ∨ q = -⟨0, 1, 0, 0⟩) ∧
    (new { (Config.default : Config ℝ) with field := ⟨1, 0, 1⟩ } Mounting.aligned).RestsAfter
      ⟨⟨3, -2, 1⟩, ⟨0, 0, 9.81⟩, ⟨1, 0, -1⟩⟩ q := by
  have hforce : (⟨0, 0, 9.81⟩ : Vec3 ℝ) = (⟨0, 0, 1⟩ : Vec3 ℝ) * (9.81 : ℝ) := by
    ext <;> norm_num
  have hup : (⟨0, 0, 1⟩ : Vec3 ℝ).norm = 1 := by simp [Vec3.norm, Vec3.normSq, Scalar.sqrt]
  have hdirection : (⟨0, 0, 9.81⟩ : Vec3 ℝ).direction = ⟨0, 0, 1⟩ := by
    rw [hforce, Vec3.direction_mul _ (by norm_num), Vec3.direction, hup]
    ext <;> simp
  obtain ⟨q, hq⟩ : ∃ q : Quat ℝ, attitudeOf? ⟨0, 0, 9.81⟩ ⟨1, 0, -1⟩ ⟨1, 0, 1⟩ = some q := by
    refine ⟨_, attitudeOf?_eq_some_iff.mpr ⟨⟨?_, ?_, ?_⟩, rfl⟩⟩
    · rw [direction_gravityReference]
      norm_num [Vec3.norm, Vec3.normSq, Vec3.cross, Scalar.sqrt, leastDirection]
    · rw [hforce, Vec3.norm_mul _ (by norm_num), hup]
      norm_num [leastDirection]
    · rw [hdirection]
      norm_num [Vec3.norm, Vec3.normSq, Vec3.cross, Scalar.sqrt, leastDirection]
  have hagreement := agreement_of_readings hq
  have hunit : (⟨0, 1, 0, 0⟩ : Quat ℝ).norm = 1 := by
    simp [Quat.norm_eq_one_iff, Quat.normSq]
  have haccel : (⟨0, 0, 9.81⟩ : Vec3 ℝ) = (⟨0, 1, 0, 0⟩ : Quat ℝ).toFrame gravityReference := by
    ext <;> norm_num [Quat.toFrame, Quat.vec, Vec3.cross, gravityReference, gravity]
  have hmag : (⟨1, 0, -1⟩ : Vec3 ℝ) = (⟨0, 1, 0, 0⟩ : Quat ℝ).toFrame ⟨1, 0, 1⟩ := by
    ext <;> norm_num [Quat.toFrame, Quat.vec, Vec3.cross]
  exact ⟨q, hq,
    hagreement.unique _ hunit 1 1 one_pos one_pos (by rw [Vec3.mul_one, haccel])
      (by rw [Vec3.mul_one, hmag]),
    hagreement.rests _ hunit haccel hmag _ _ [] _ rfl rfl⟩

end Attitude
