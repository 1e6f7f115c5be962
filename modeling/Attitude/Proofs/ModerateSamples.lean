import Mathlib
import Attitude.Proofs.Deviation
import Attitude.Proofs.Magnitudes

/-!
# Samples of moderate size

A sample destroys a finite estimator in two ways: it is not finite itself, or some number on the way
overflows. The second way is closed by sizes. Rates that turn the vehicle by at most one radian
about each axis over the interval are integrated, and a measurement of at most `2 ^ 13` is corrected
with, as long as the estimator is of moderate size as well.

The budget of a correction is spent on the inverse of the innovation. A determinant of `2 ^ (-30)`
is still inverted, and nothing in the numbers says that the gain is less than its factors allow.
`Estimator.isHealthy_after` states for each call exactly when attitude, bias and covariance stay
finite, and that samples of moderate size leave them so.

## Main definitions

* `Estimator.IsModerate`: the size that an estimator has in operation
* `Estimator.IsGentle`: rates that are not too fast for the interval

## Main results

* `Estimator.integrates_of_isGentle`
* `Estimator.corrects_of_isModerate`
* `Estimator.isHealthy_after`
-/

namespace Attitude
open Binary32

namespace Estimator
variable {f : Estimator Float32}

/-- The numbers of an estimator and of its configuration have the size that they have in operation,
and nothing is pending. -/
structure IsModerate (f : Estimator Float32) : Prop where
  attitude : f.attitude.NearUnit (1 / 200)
  pending : f.correction = noCorrection
  bias : f.bias.ComponentsWithin 16
  covariance : f.covariance.EntriesWithin 8
  deviation : Within f.deviation (2 ^ 19)
  field : f.config.field.ComponentsWithin 16
  fieldNoise : f.config.fieldNoise.ComponentsWithin (2 ^ 27)
  attitudeNoise : Within f.config.attitudeNoise 1
  biasNoise : Within f.config.biasNoise 1
  weight : ∀ w, f.config.smoothing = .lowPass w → Within w 1 ∧ 0 ≤ toReal w

/-! ## Propagation -/

/-- Half the angle of the turn that a gyro sample describes. -/
def halfAngle (f : Estimator Float32) (gyro : Vec3 Float32) (dt : Float32) : Float32 :=
  (f.nextRate gyro * dt / (2.0 : Float32)).norm

/-- Rates of at most `2 ^ k`, over at most `2 ^ (-k - 2)` seconds. -/
structure IsGentle (f : Estimator Float32) (gyro : Vec3 Float32) (dt : Float32) (k : ℤ) :
    Prop where
  range : -20 ≤ k ∧ k ≤ 20
  sample : gyro.ComponentsWithin (2 ^ k)
  bias : f.bias.ComponentsWithin (2 ^ k)
  rate : f.rate.ComponentsWithin (2 ^ k)
  interval : Within dt (2 ^ (-k - 2))

section
variable {gyro : Vec3 Float32} {dt : Float32} {k : ℤ}

theorem componentsWithin_nextRate (hf : f.IsModerate) (h : f.IsGentle gyro dt k) :
    (f.nextRate gyro).ComponentsWithin (2 ^ (k + 2)) := by
  obtain ⟨hlow, hhigh⟩ := h.range
  have hdouble : (2 : ℝ) ^ (k + 1) = 2 ^ k * 2 := zpow_add_one₀ two_ne_zero k
  have hagain : (2 : ℝ) ^ (k + 2) = 2 ^ (k + 1) * 2 := by
    rw [← zpow_add_one₀ two_ne_zero]
    ring_nf
  have hpos : (0 : ℝ) < 2 ^ k := by positivity
  have hunbiased : (gyro - f.bias).ComponentsWithin (2 ^ (k + 1)) :=
    h.sample.sub h.bias (onGrid_two_zpow (by omega)) (by linarith) (two_zpow_lt (by omega))
  rw [nextRate]
  split
  · exact hunbiased.mono (by linarith)
  · rename_i weight hsmoothing
    obtain ⟨hweight, hnonneg⟩ := hf.weight weight hsmoothing
    have hrest : Within (1.0 - weight) 1 := by
      refine (rounds_sub approx_one.finite hweight.finite).within
        (by exact_mod_cast onGrid_natCast (m := 1) (by norm_num)) ?_ (by norm_num)
      rw [toReal_one, abs_le]
      constructor <;> linarith [(abs_le.mp hweight.abs_le).2]
    have hold : (f.rate * (1.0 - weight)).ComponentsWithin (2 ^ k) :=
      h.rate.scale hrest (onGrid_two_zpow (by omega)) (mul_one _).le (two_zpow_lt (by omega))
    have hnew : ((gyro - f.bias) * weight).ComponentsWithin (2 ^ (k + 1)) :=
      hunbiased.scale hweight (onGrid_two_zpow (by omega)) (mul_one _).le (two_zpow_lt (by omega))
    exact hold.add hnew (onGrid_two_zpow (by omega)) (by linarith) (two_zpow_lt (by omega))

/-- The turn of an interval is bounded by the product of rate and interval. -/
theorem componentsWithin_turn (hf : f.IsModerate) (h : f.IsGentle gyro dt k) {n : ℤ}
    (hn : 0 ≤ n ∧ n ≤ 100) (hdt : Within dt (2 ^ (-k - 2 - n))) :
    (f.nextRate gyro * dt).ComponentsWithin (2 ^ (-n)) := by
  refine (componentsWithin_nextRate hf h).scale hdt (onGrid_two_zpow (by omega)) ?_
    (two_zpow_lt (by omega))
  rw [← zpow_add₀ two_ne_zero]
  exact zpow_le_zpow_right₀ one_le_two (by omega)

/-- It is at most one radian about each axis. -/
theorem componentsWithin_turn_one (hf : f.IsModerate) (h : f.IsGentle gyro dt k) :
    (f.nextRate gyro * dt).ComponentsWithin 1 := by
  have hturn := componentsWithin_turn hf h (n := 0) (by norm_num) (by simpa using h.interval)
  rwa [neg_zero, zpow_zero] at hturn

theorem IsGentle.within_interval (h : f.IsGentle gyro dt k) : Within dt (2 ^ (18 : ℤ)) :=
  h.interval.mono (zpow_le_zpow_right₀ one_le_two (by linarith [h.range.1]))

theorem entriesWithin_transition (hf : f.IsModerate) (h : f.IsGentle gyro dt k) :
    (transition (f.nextRate gyro) dt).EntriesWithin (2 ^ (18 : ℤ)) := by
  have hidentity : (Mat.identity : Mat 3 3 Float32).EntriesWithin 1 :=
    Mat.entriesWithin_identity le_rfl
  have hupper : (Mat.identity - Mat.skew (f.nextRate gyro * dt)).EntriesWithin (2 ^ (18 : ℤ)) :=
    hidentity.sub (Mat.entriesWithin_skew (componentsWithin_turn_one hf h)) (by norm_num)
      (by norm_num) (by norm_num)
  have hdrift : ((Mat.identity : Mat 3 3 Float32) * (-dt)).EntriesWithin (2 ^ (18 : ℤ)) :=
    hidentity.scale h.within_interval.neg (by norm_num) (by norm_num) (by norm_num)
  exact (hupper.beside hdrift).above ((Mat.entriesWithin_zero (by norm_num)).beside
    (Mat.entriesWithin_identity (by norm_num)))

theorem within_processNoise (hf : f.IsModerate) (hdt : Within dt (2 ^ (18 : ℤ))) (i : Fin 6) :
    Within (processNoise f.config dt i) (2 ^ (36 : ℤ)) := by
  have hsquare : Within (dt * dt) (2 ^ (36 : ℤ)) :=
    hdt.mul hdt (onGrid_two_zpow (by norm_num)) (by norm_num) (by norm_num)
  rw [processNoise]
  split
  · exact hsquare.mul hf.attitudeNoise (onGrid_two_zpow (by norm_num)) (by norm_num) (by norm_num)
  · exact hsquare.mul hf.biasNoise (onGrid_two_zpow (by norm_num)) (by norm_num) (by norm_num)

/-- **A moderate estimator integrates a gentle turn**, where sine and cosine are accurate. -/
theorem integrates_of_isGentle (hf : f.IsModerate) (h : f.IsGentle gyro dt k)
    (hangle : AccurateAt Scalar.sin Scalar.cos (f.halfAngle gyro dt)) : f.Integrates gyro dt := by
  obtain ⟨hparts, hscalar⟩ :=
    Quat.within_ofRotationVector (componentsWithin_turn_one hf h) hangle
  obtain ⟨hturned, hnorm⟩ := Quat.norm_mul_pos hf.attitude hparts hscalar
  have ht := entriesWithin_transition hf h
  have hleft := ht.mul hf.covariance (e := 21) (by norm_num) (by norm_num) (by norm_num)
    (by norm_num)
  have hboth := hleft.mulTranspose ht (e := 42) (by norm_num) (by norm_num) (by norm_num)
    (by norm_num)
  have hcovariance := hboth.addDiagonal (within_processNoise hf h.within_interval) (e := 46) (by norm_num)
    (by norm_num) (by norm_num)
  exact ⟨h.sample.isFinite, hturned, hnorm, hcovariance.isFinite⟩

/-- Sine and cosine are accurate at the half angle of a turn that is `2 ^ 12` times shorter. -/
theorem accurateAt_halfAngle (hf : f.IsModerate) (h : f.IsGentle gyro dt k)
    (hshort : Within dt (2 ^ (-k - 14))) :
    AccurateAt Scalar.sin Scalar.cos (f.halfAngle gyro dt) := by
  have hturn := componentsWithin_turn hf h (n := 12) (by norm_num)
    (by rw [sub_sub]; exact hshort)
  have hhalf : (f.nextRate gyro * dt / (2.0 : Float32)).ComponentsWithin (2 ^ (-13 : ℤ)) :=
    hturn.div approx_two.finite (b := 2) (by norm_num) (by rw [toReal_two]; norm_num)
      (onGrid_two_zpow (by norm_num)) (by norm_num) (by norm_num)
  have hnorm := hhalf.norm (by norm_num) (by norm_num)
  refine accurateAt_of_small hnorm.finite (hnorm.abs_le.trans_lt ?_)
  norm_num

end

/-! ## Correction -/

section
variable {expected measured noise : Vec3 Float32} (hf : f.IsModerate)
  (hexpected : expected.ComponentsWithin 16)
include hf hexpected

theorem entriesWithin_observation :
    (observation (f.attitude.toFrame expected)).EntriesWithin (2 ^ (9 : ℤ)) :=
  (Mat.entriesWithin_skew (Quat.componentsWithin_toFrame (hf.attitude.mono (by norm_num)).short
    hexpected)).beside (Mat.entriesWithin_zero (by norm_num))

theorem entriesWithin_innovation (hnoise : noise.ComponentsWithin (2 ^ 27)) :
    (innovation (observation (f.attitude.toFrame expected)) f.covariance noise).EntriesWithin
      (2 ^ (28 : ℤ)) := by
  have hh := entriesWithin_observation hf hexpected
  have hleft := hh.mul hf.covariance (e := 12) (by norm_num) (by norm_num) (by norm_num)
    (by norm_num)
  have hboth := hleft.mulTranspose hh (e := 24) (by norm_num) (by norm_num) (by norm_num)
    (by norm_num)
  exact hboth.addDiagonal hnoise (by norm_num) (by norm_num) (by norm_num)

/-- The gain has the size of the inverse, which is the largest number of a correction. -/
theorem entriesWithin_gain (hnoise : noise.ComponentsWithin (2 ^ 27)) {inverse : Mat 3 3 Float32}
    (hinverse : (innovation (observation (f.attitude.toFrame expected)) f.covariance
      noise).inverse? = some inverse) :
    (gain (observation (f.attitude.toFrame expected)) f.covariance inverse).EntriesWithin
      (2 ^ (105 : ℤ)) := by
  have hh := entriesWithin_observation hf hexpected
  have hi := Mat.entriesWithin_of_inverse? hinverse (by norm_num) (by norm_num)
    (entriesWithin_innovation hf hexpected hnoise)
  have hproduct := hf.covariance.mulTranspose hh (e := 12) (by norm_num) (by norm_num)
    (by norm_num) (by norm_num)
  exact hproduct.mul hi (e := 102) (by norm_num) (by norm_num) (by norm_num) (by norm_num)

/-- What is left of a moderate estimator after a measurement of moderate size: its attitude, and
numbers that are not close to overflow. -/
theorem observe_of_isModerate (hmeasured : measured.ComponentsWithin (2 ^ 14))
    (hnoise : noise.ComponentsWithin (2 ^ 27)) :
    (f.observe expected measured noise).1.attitude = f.attitude ∧
    (f.observe expected measured noise).1.correction.vec.ComponentsWithin (2 ^ (124 : ℤ)) ∧
    (f.observe expected measured noise).1.bias.ComponentsWithin (2 ^ (124 : ℤ)) ∧
    (f.observe expected measured noise).1.covariance.EntriesWithin (2 ^ (124 : ℤ)) := by
  have hpending : f.correction.vec.ComponentsWithin 0 := by
    rw [hf.pending]
    intro i
    fin_cases i <;> exact within_zero le_rfl
  rw [observe]
  dsimp only
  split
  · exact ⟨rfl, hpending.mono (by norm_num), hf.bias.mono (by norm_num),
      fun i j => (hf.covariance i j).mono (by norm_num)⟩
  · rename_i inverse hinverse
    have hgain := entriesWithin_gain hf hexpected hnoise hinverse
    have hh := entriesWithin_observation hf hexpected
    have hpredicted :=
      Quat.componentsWithin_toFrame (hf.attitude.mono (by norm_num)).short hexpected
    have hdifference : (measured - f.attitude.toFrame expected).ComponentsWithin (2 ^ (15 : ℤ)) :=
      hmeasured.sub hpredicted (onGrid_two_zpow (by norm_num)) (by norm_num) (by norm_num)
    have herror := hgain.mul (Mat.entriesWithin_column hdifference) (e := 120) (by norm_num)
      (by norm_num) (by norm_num) (by norm_num)
    have hidentity : (Mat.identity : Mat 6 6 Float32).EntriesWithin 1 :=
      Mat.entriesWithin_identity le_rfl
    have hkh := hgain.mul hh (e := 114) (by norm_num) (by norm_num) (by norm_num) (by norm_num)
    have hrest := hidentity.sub hkh (e := 118) (by norm_num) (by norm_num) (by norm_num)
    refine ⟨rfl, ?_, ?_, hrest.mul hf.covariance (e := 121) (by norm_num) (by norm_num)
      (by norm_num) (by norm_num)⟩
    · exact hpending.add herror.upper.toVec3 (onGrid_two_zpow (by norm_num)) (by norm_num)
        (by norm_num)
    · exact hf.bias.add herror.lower.toVec3 (onGrid_two_zpow (by norm_num)) (by norm_num)
        (by norm_num)

/-- **A measurement of moderate size is corrected with.** -/
theorem corrects_of_isModerate (hmeasured : measured.ComponentsWithin (2 ^ 14))
    (hnoise : noise.ComponentsWithin (2 ^ 27)) : f.Corrects expected measured noise := by
  obtain ⟨hattitude, hcorrection, hbias, hcovariance⟩ :=
    observe_of_isModerate hf hexpected hmeasured hnoise
  have htwo : toReal correctionScalar = 2 := toReal_two
  have hparts : ∀ c ∈ { (f.observe expected measured noise).1.correction with
      w := correctionScalar }.toList, Within c (2 ^ 124) := by
    simp only [Quat.toList, List.forall_mem_cons]
    exact ⟨approx_two.within (by norm_num), (hcorrection 0).mono (by norm_num),
      (hcorrection 1).mono (by norm_num), (hcorrection 2).mono (by norm_num), by simp⟩
  have hfolded := Quat.norm_mul_pos hf.attitude hparts (by rw [htwo]; norm_num)
  rw [← hattitude] at hfolded
  exact ⟨fun _ => hmeasured.isFinite, hfolded.1, hfolded.2, hbias.isFinite, hcovariance.isFinite⟩

end

section
variable {force : Vec3 Float32}

/-- The excess keeps its size: what smoothing takes off is more than a specific force adds. -/
theorem within_nextDeviation (hf : f.IsModerate) (hforce : force.ComponentsWithin (2 ^ 13)) :
    Within (f.nextDeviation force) (2 ^ 19) := by
  have hnorm : Within force.norm (7 * 2 ^ (11 : ℤ)) :=
    Vec3.ComponentsWithin.norm (e := 13) hforce (by norm_num) (by norm_num)
  have hexcess : Within (force.norm - gravity) (2 ^ (14 : ℤ)) :=
    hnorm.sub within_gravity (onGrid_two_zpow (by norm_num)) (by norm_num) (by norm_num)
  have hpast : Within (deviationWeight * f.deviation) ((15 : ℕ) * 2 ^ (15 : ℤ)) :=
    within_deviationWeight.mul hf.deviation (onGrid_natCast_mul (by norm_num) (by norm_num))
      (by norm_num) (by norm_num)
  have hpresent : Within ((1.0 - deviationWeight) * (force.norm - gravity)) (2 ^ (15 : ℤ)) :=
    within_presentWeight.mul hexcess (onGrid_two_zpow (by norm_num)) (by norm_num) (by norm_num)
  exact hpast.add hpresent (by exact_mod_cast onGrid_two_zpow (e := 19) (by norm_num))
    (by norm_num) (by norm_num)

theorem IsModerate.withDeviation (hf : f.IsModerate) (hforce : force.ComponentsWithin (2 ^ 13)) :
    { f with deviation := f.nextDeviation force }.IsModerate :=
  { hf with deviation := within_nextDeviation hf hforce }

/-- The variance of a measured force has room for the largest excess. -/
theorem componentsWithin_gravityNoise {deviation : Float32} (h : Within deviation (2 ^ 19)) :
    (gravityNoise deviation).ComponentsWithin (2 ^ 27) := by
  have hunpack : unpack deviationGain = .finite .positive 16384000 (-16) (by norm_num) := rfl
  have hgain : Within deviationGain 250 := .of_unpack hunpack (by norm_num)
  have hgrown : Within (deviationGain * deviation.abs) ((250 : ℕ) * 2 ^ (19 : ℤ)) :=
    hgain.mul h.abs (onGrid_natCast_mul (by norm_num) (by norm_num)) (by norm_num) (by norm_num)
  have hvariance : Within (1.0 + deviationGain * deviation.abs) (2 ^ (27 : ℤ)) :=
    (within_one le_rfl).add hgrown (onGrid_two_zpow (by norm_num)) (by norm_num) (by norm_num)
  intro i
  fin_cases i <;> exact hvariance.mono (by norm_num)

theorem componentsWithin_gravityReference :
    (gravityReference : Vec3 Float32).ComponentsWithin 16 := by
  intro i
  fin_cases i
  exacts [within_zero (by norm_num), within_zero (by norm_num), within_gravity.neg]

end

/-! ## Every call -/

/-- **When a sample leaves a finite estimator finite.** A propagation does if and only if its
interval is no duration or its sample can be integrated; a correction does if and only if its sample
is refused or finite, and its numbers stay finite. A specific force that is not finite is refused; a
field is never refused for what it is, and the covariance never shows it. A moderate estimator
integrates every gentle turn and stays finite after every force and every field of at most
`2 ^ 13`. -/
theorem isHealthy_after (f : Estimator Float32) (hf : f.isHealthy = true) :
    (∀ gyro dt, ((f.propagate? gyro dt).getD f).isHealthy = true ↔
      (isDuration dt = true → f.Integrates gyro dt)) ∧
    (∀ force, ((f.correctGravity force).1.isHealthy = true ↔
        { f with deviation := f.nextDeviation force }.Corrects gravityReference force
          (gravityNoise (f.nextDeviation force))) ∧
      (force.isFinite = false → (f.correctGravity force).2 = false)) ∧
    (∀ field, ((f.correctField field).1.isHealthy = true ↔
        f.Corrects f.config.field field f.config.fieldNoise) ∧
      ∀ other, (f.correctField field).2 = (f.correctField other).2 ∧
        (f.correctField field).1.covariance = (f.correctField other).1.covariance) ∧
    (f.IsModerate →
      (∀ gyro dt k, f.IsGentle gyro dt k →
        AccurateAt Scalar.sin Scalar.cos (f.halfAngle gyro dt) → f.Integrates gyro dt) ∧
      (∀ force : Vec3 Float32, force.ComponentsWithin (2 ^ 13) →
        { f with deviation := f.nextDeviation force }.Corrects gravityReference force
          (gravityNoise (f.nextDeviation force))) ∧
      ∀ field : Vec3 Float32, field.ComponentsWithin (2 ^ 13) →
        f.Corrects f.config.field field f.config.fieldNoise) := by
  refine ⟨isHealthy_propagate_iff hf, ?_, ?_, ?_⟩
  · intro force
    refine ⟨isHealthy_correct_iff _ _ _, ?_⟩
    intro hforce
    by_contra haccepted
    rw [Bool.not_eq_false] at haccepted
    rw [isFinite_of_correctGravity haccepted] at hforce
    cases hforce
  · intro field
    exact ⟨isHealthy_correct_iff _ _ _, fun other => correct_other _ _ _ _⟩
  · intro hmoderate
    refine ⟨fun _ _ _ => integrates_of_isGentle hmoderate, ?_, ?_⟩
    · intro force hforce
      have hdeviation := within_nextDeviation hmoderate hforce
      exact corrects_of_isModerate (hmoderate.withDeviation hforce)
        componentsWithin_gravityReference (hforce.mono (by norm_num))
        (componentsWithin_gravityNoise hdeviation)
    · intro field hfield
      exact corrects_of_isModerate hmoderate hmoderate.field (hfield.mono (by norm_num))
        hmoderate.fieldNoise

/-- Apart from attitude and bias it is the estimator before the alignment. -/
theorem alignKeeps_atRest : (new .default .aligned : Estimator Float32).AlignKeeps atRest :=
  alignKeeps_serve _ _

theorem attitude_atRest : atRest.attitude = .identity := by
  have hparts : atRest.attitude.w = 1.0 ∧ atRest.attitude.i = 0.0 ∧ atRest.attitude.j = 0.0 ∧
      atRest.attitude.k = 0.0 := by decide +kernel
  obtain ⟨hw, hi, hj, hk⟩ := hparts
  ext
  exacts [hw, hi, hj, hk]

theorem bias_atRest : atRest.bias = .zero := by
  have hparts : atRest.bias.x = 0.0 ∧ atRest.bias.y = 0.0 ∧ atRest.bias.z = 0.0 := by
    decide +kernel
  obtain ⟨hx, hy, hz⟩ := hparts
  ext
  exacts [hx, hy, hz]

theorem isModerate_atRest : atRest.IsModerate := by
  have hconfig : atRest.config = .default := alignKeeps_atRest.config
  have hcovariance : atRest.covariance = .blockDiagonal 1.0 1e-4 := alignKeeps_atRest.covariance
  have hdeviation : atRest.deviation = 0.0 := alignKeeps_atRest.deviation
  have hfieldNoise : unpack 0.2 = .finite .positive 13421773 (-26) (by norm_num) := rfl
  have hattitudeNoise : unpack 1e-2 = .finite .positive 10737418 (-30) (by norm_num) := rfl
  have hbiasNoise : unpack 9e-6 = .finite .positive 9895605 (-40) (by norm_num) := rfl
  have hbiasVariance : unpack 1e-4 = .finite .positive 13743895 (-37) (by norm_num) := rfl
  constructor
  case attitude =>
    rw [attitude_atRest]
    exact Quat.nearUnit_identity
  case pending => exact alignKeeps_atRest.correction
  case bias =>
    rw [bias_atRest]
    intro i
    fin_cases i <;> exact within_zero (by norm_num)
  case covariance =>
    rw [hcovariance]
    intro i j
    rw [Mat.blockDiagonal, Mat.get_ofFn]
    split_ifs
    exacts [within_one (by norm_num), .of_unpack hbiasVariance (by norm_num),
      within_zero (by norm_num)]
  case deviation =>
    rw [hdeviation]
    exact within_zero (by norm_num)
  case field =>
    rw [hconfig]
    intro i
    fin_cases i
    exacts [.of_unpack unpack_defaultField_x (by norm_num),
      .of_unpack unpack_defaultField_y (by norm_num),
      .of_unpack unpack_defaultField_z (by norm_num)]
  case fieldNoise =>
    rw [hconfig]
    intro i
    fin_cases i <;> exact .of_unpack hfieldNoise (by norm_num)
  case attitudeNoise =>
    rw [hconfig]
    exact .of_unpack hattitudeNoise (by norm_num)
  case biasNoise =>
    rw [hconfig]
    exact .of_unpack hbiasNoise (by norm_num)
  case weight =>
    rw [hconfig]
    intro w hsmoothing
    cases hsmoothing

/-- Three degrees in a second. -/
def slowTurn : Vec3 Float32 := ⟨0.05, 0.0, 0.0⟩

/-- A slow turn at a thousand samples in a second. -/
theorem isGentle_slowTurn : atRest.IsGentle slowTurn 0.0009765625 (-4) := by
  have hrate : atRest.rate = .zero := alignKeeps_atRest.rate
  have hturn : unpack 0.05 = .finite .positive 13421773 (-28) (by norm_num) := rfl
  have hinterval : unpack 0.0009765625 = .finite .positive 8388608 (-33) (by norm_num) := rfl
  have hzero : (Vec3.zero : Vec3 Float32).ComponentsWithin (2 ^ (-4 : ℤ)) := by
    intro i
    fin_cases i <;> exact within_zero (by norm_num)
  constructor
  case range => norm_num
  case sample =>
    intro i
    fin_cases i
    exacts [.of_unpack hturn (by norm_num), within_zero (by norm_num), within_zero (by norm_num)]
  case bias => rwa [bias_atRest]
  case rate => rwa [hrate]
  case interval => exact .of_unpack hinterval (by norm_num)

theorem isHealthy_after_alignment : atRest.isHealthy = true ∧ atRest.IsModerate ∧
    (∀ field, ((atRest.correctField field).1.isHealthy = true ↔
        atRest.Corrects atRest.config.field field atRest.config.fieldNoise) ∧
      ∀ other, (atRest.correctField field).2 = (atRest.correctField other).2 ∧
        (atRest.correctField field).1.covariance = (atRest.correctField other).1.covariance) ∧
    atRest.Integrates slowTurn 0.0009765625 ∧
    { atRest with deviation := atRest.nextDeviation gravityReference }.Corrects gravityReference
      gravityReference (gravityNoise (atRest.nextDeviation gravityReference)) ∧
    atRest.Corrects atRest.config.field atRest.config.field atRest.config.fieldNoise := by
  have hhealthy : atRest.isHealthy = true := by decide +kernel
  obtain ⟨-, -, hfield, hmoderate⟩ := isHealthy_after atRest hhealthy
  obtain ⟨hturns, hforces, hfields⟩ := hmoderate isModerate_atRest
  have hinterval : unpack 0.0009765625 = .finite .positive 8388608 (-33) (by norm_num) := rfl
  have hangle := accurateAt_halfAngle isModerate_atRest isGentle_slowTurn
    (.of_unpack hinterval (by norm_num))
  refine ⟨hhealthy, isModerate_atRest, hfield, ?_, ?_, ?_⟩
  · exact hturns _ _ _ isGentle_slowTurn hangle
  · exact hforces _ (componentsWithin_gravityReference.mono (by norm_num))
  · exact hfields _ (isModerate_atRest.field.mono (by norm_num))

/-- A field that is no number is accepted by a healthy running estimator, and destroys it. -/
theorem field_not_a_number_is_accepted :
    atRest.isRunning = true ∧ atRest.isHealthy = true ∧
    (atRest.correctField ⟨.ofBits 0x7fc00000, 0.0, 0.0⟩).2 = true ∧
    (atRest.correctField ⟨.ofBits 0x7fc00000, 0.0, 0.0⟩).1.isHealthy = false := by
  decide +kernel

end Estimator
end Attitude
