import Mathlib
import Attitude.Proofs.Duration
import Attitude.Proofs.Exact.Rotation
import Attitude.Proofs.Readout
import Attitude.Proofs.Request

/-!
# Valid attitudes after alignment

A report is valid when the norm of its quaternion is one, within a hundredth. Alignment tests that
its readings are finite and that neither frame vanishes, and this is not enough. Of two parallel
readings the cross product leaves rounding errors, which are long enough to have a direction, and a
component beyond `2 ^ 63` has a square that overflows, so the direction vanishes. Both frames are
then no frames, and what is read off their product is no rotation.

Short of overflow the attitude is finite whatever the readings are. It is valid when the sines of
the angles between the two measured and between the two known directions are at least `2 ^ (-12)`.

## Main definitions

* `Quat.Reportable`: finite, and valid in every report
* `ModerateReadings`, `FixHeading`: the readings that an alignment needs

## Main results

* `reportable_of_alignment`: the attitude after alignment, and what is published
* `parallel_readings_are_accepted`: neither condition is checked
-/

namespace Attitude
open Binary32

namespace Quat
variable {p q : Quat Float32}

/-- Finite, and valid in every report. -/
def Reportable (q : Quat Float32) : Prop :=
  q.isFinite = true ∧ ∀ r : Report Float32, r.quat = q → r.isValid = true

/-! ## The norm -/

theorem normSq_eq (q : Quat ℝ) : q.normSq = q.w ^ 2 + q.i ^ 2 + q.j ^ 2 + q.k ^ 2 := by
  rw [normSq]
  ring

theorem NearUnit.mono {d e : ℝ} (h : q.NearUnit d) (hle : d ≤ e) : q.NearUnit e :=
  ⟨h.finite, h.norm.trans hle⟩

theorem nearUnit_identity : (identity : Quat Float32).NearUnit (1 / 200) := by
  have hexact : (identity : Quat Float32).exact = ⟨1, 0, 0, 0⟩ := by
    ext
    exacts [toReal_one, toReal_zero, toReal_zero, toReal_zero]
  refine ⟨by decide +kernel, ?_⟩
  rw [hexact]
  norm_num [normSq]

/-- A quaternion of finite components that is hardly longer than a unit. -/
structure Short (q : Quat Float32) : Prop where
  finite : q.isFinite = true
  length : q.exact.normSq ≤ 1 + 1 / 64

theorem NearUnit.short (h : q.NearUnit (1 / 64)) : q.Short :=
  ⟨h.finite, by linarith [(abs_le.mp h.norm).2]⟩

theorem Short.approx_parts (h : q.Short) :
    Approx q.w q.exact.w 0 (9 / 8) ∧ Approx q.i q.exact.i 0 (9 / 8) ∧
    Approx q.j q.exact.j 0 (9 / 8) ∧ Approx q.k q.exact.k 0 (9 / 8) := by
  obtain ⟨hw, hi, hj, hk⟩ := (isFinite_iff q).mp h.finite
  have hupper := h.length
  rw [normSq_eq, w_exact, i_exact, j_exact, k_exact] at hupper
  have hle {z : ℝ} (hz : z ^ 2 ≤ 1 + 1 / 64) : |z| ≤ 9 / 8 :=
    abs_le_of_sq_le_sq (hz.trans (by norm_num)) (by norm_num)
  have w2 := sq_nonneg (toReal q.w)
  have i2 := sq_nonneg (toReal q.i)
  have j2 := sq_nonneg (toReal q.j)
  have k2 := sq_nonneg (toReal q.k)
  exact ⟨approx_toReal hw (hle (by linarith)), approx_toReal hi (hle (by linarith)),
    approx_toReal hj (hle (by linarith)), approx_toReal hk (hle (by linarith))⟩

theorem Short.approx_normSq (h : q.Short) : Approx q.normSq q.exact.normSq (7 / 2 ^ 20) 6 := by
  obtain ⟨hw, hi, hj, hk⟩ := h.approx_parts
  have hik := (hi.mul hi (by norm_num)).add (hk.mul hk (by norm_num)) (by norm_num)
  have hjw := (hj.mul hj (by norm_num)).add (hw.mul hw (by norm_num)) (by norm_num)
  exact (hik.add hjw (by norm_num)).mono (by norm_num) (by norm_num)

/-- The rounded norm of a quaternion that is nearly a unit. -/
theorem NearUnit.approx_norm (h : q.NearUnit (1 / 64)) :
    Approx q.norm √q.exact.normSq (1 / 2 ^ 17) 2 := by
  obtain ⟨hlower, hupper⟩ := abs_le.mp h.norm
  have hroot : √q.exact.normSq ≤ 2 := Real.sqrt_le_iff.mpr ⟨by norm_num, by linarith⟩
  exact (h.short.approx_normSq.sqrt (by linarith) (by norm_num) hroot (by norm_num)).mono
    (by norm_num) le_rfl

theorem toReal_tolerance : 99 / 10000 ≤ toReal 0.01 := by
  have hunpack : unpack 0.01 = .finite .positive 10737418 (-30) (by norm_num) := rfl
  rw [toReal, hunpack]
  norm_num [value, signFactor]

/-- **A quaternion that is nearly a unit is valid in every report.** -/
theorem NearUnit.reportable (h : q.NearUnit (1 / 64)) : q.Reportable := by
  refine ⟨h.finite, ?_⟩
  rintro r rfl
  have hexcess := h.approx_norm.sub approx_one (by norm_num)
  obtain ⟨hlower, hupper⟩ := abs_le.mp h.norm
  have hroot : |√r.quat.exact.normSq - 1| ≤ 1 / 125 := by
    have hge : 1 - 1 / 125 ≤ √r.quat.exact.normSq := Real.le_sqrt_of_sq_le (by linarith)
    have hle : √r.quat.exact.normSq ≤ 1 + 1 / 125 :=
      Real.sqrt_le_iff.mpr ⟨by norm_num, by linarith⟩
    rw [abs_le]
    constructor <;> linarith
  rw [Report.isValid, decide_eq_true_iff]
  change (r.quat.norm - 1.0).abs < 0.01
  rw [lt_iff (by rw [isFinite_abs]; exact hexcess.finite) (by rfl), toReal_abs]
  have hnear := abs_le_of_near hexcess.error
  linarith [toReal_tolerance]

/-! ## Products -/

theorem NearUnit.conj {e : ℝ} (h : q.NearUnit e) : q.conj.NearUnit e := by
  constructor
  · obtain ⟨hw, hi, hj, hk⟩ := (isFinite_iff q).mp h.finite
    exact (isFinite_iff _).mpr ⟨hw, (isFinite_neg _).trans hi, (isFinite_neg _).trans hj,
      (isFinite_neg _).trans hk⟩
  · have hsame : q.conj.exact.normSq = q.exact.normSq := by
      have hneg (x : Float32) : toReal (-x) ^ 2 = toReal x ^ 2 := by rw [toReal_neg, neg_sq]
      rw [normSq_exact_eq_sum, normSq_exact_eq_sum]
      change (List.map _ [q.w, -q.i, -q.j, -q.k]).sum = (List.map _ [q.w, q.i, q.j, q.k]).sum
      simp only [List.map_cons, List.map_nil, List.sum_cons, hneg]
    rw [hsame]
    exact h.norm

theorem abs_normSq_mul_sub_one_le (hp : p.NearUnit (1 / 100)) (hq : q.NearUnit (1 / 200)) :
    |(p.exact * q.exact).normSq - 1| ≤ 1 / 66 := by
  have hsplit : (p.exact * q.exact).normSq - 1 =
      (q.exact.normSq - 1) * p.exact.normSq + (p.exact.normSq - 1) := by
    rw [normSq_mul]
    ring
  rw [hsplit]
  have hscaled := abs_mul_le_of_near_one hq.norm hp.norm
  exact (abs_add_le _ _).trans (by linarith [hp.norm])

/-- Each part of a rounded product is off by seven roundings. -/
theorem approx_mul (hp : p.Short) (hq : q.Short) :
    Approx (p * q).w (p.exact * q.exact).w (1 / 2 ^ 17) 6 ∧
    Approx (p * q).i (p.exact * q.exact).i (1 / 2 ^ 17) 6 ∧
    Approx (p * q).j (p.exact * q.exact).j (1 / 2 ^ 17) 6 ∧
    Approx (p * q).k (p.exact * q.exact).k (1 / 2 ^ 17) 6 := by
  obtain ⟨pw, pi, pj, pk⟩ := hp.approx_parts
  obtain ⟨qw, qi, qj, qk⟩ := hq.approx_parts
  have hmul {x y : Float32} {a b : ℝ} (hx : Approx x a 0 (9 / 8)) (hy : Approx y b 0 (9 / 8)) :
      Approx (x * y) (a * b) (1 / 2 ^ 20) (13 / 10) :=
    (hx.mul hy (by norm_num)).mono (by norm_num) (by norm_num)
  refine ⟨?_, ?_, ?_, ?_⟩
  · exact ((((hmul pw qw).sub (hmul pi qi) (by norm_num)).sub (hmul pj qj) (by norm_num)).sub
      (hmul pk qk) (by norm_num)).mono (by norm_num) (by norm_num)
  · exact ((((hmul pw qi).add (hmul pi qw) (by norm_num)).add (hmul pj qk) (by norm_num)).sub
      (hmul pk qj) (by norm_num)).mono (by norm_num) (by norm_num)
  · exact ((((hmul pw qj).sub (hmul pi qk) (by norm_num)).add (hmul pj qw) (by norm_num)).add
      (hmul pk qi) (by norm_num)).mono (by norm_num) (by norm_num)
  · exact ((((hmul pw qk).add (hmul pi qj) (by norm_num)).sub (hmul pj qi) (by norm_num)).add
      (hmul pk qw) (by norm_num)).mono (by norm_num) (by norm_num)

/-- **A product of two quaternions that are nearly units is nearly a unit.** -/
theorem NearUnit.mul (hp : p.NearUnit (1 / 100)) (hq : q.NearUnit (1 / 200)) :
    (p * q).NearUnit (1 / 64) := by
  obtain ⟨hw, hi, hj, hk⟩ :=
    approx_mul (hp.mono (by norm_num)).short (hq.mono (by norm_num)).short
  refine ⟨(isFinite_iff _).mpr ⟨hw.finite, hi.finite, hj.finite, hk.finite⟩, ?_⟩
  have hexact := abs_le.mp (abs_normSq_mul_sub_one_le hp hq)
  rw [normSq_eq] at hexact
  have hchange := abs_le.mp
    (abs_sum_sq_sub_le hw.error hi.error hj.error hk.error (by norm_num) (by linarith))
  rw [normSq_eq, w_exact, i_exact, j_exact, k_exact, abs_le]
  constructor <;> linarith [hexact.1, hexact.2, hchange.1, hchange.2]

end Quat

/-! ## Alignment -/

/-- No reading is near to overflow. -/
structure ModerateReadings (accel mag reference : Vec3 Float32) : Prop where
  accel : accel.IsModerate
  mag : mag.IsModerate
  reference : reference.IsModerate

/-- The field fixes the heading, as measured and as known. -/
structure FixHeading (accel mag reference : Vec3 Float32) : Prop where
  measured : Vec3.Apart accel.exact mag.exact
  known : Vec3.Apart (gravityReference : Vec3 Float32).exact reference.exact

theorem isModerate_gravityReference : (gravityReference : Vec3 Float32).IsModerate := by
  have hzero : Within 0.0 (2 ^ 62 : ℕ) := ⟨isFinite_zero, by rw [toReal_zero]; norm_num⟩
  have hup : Within (-gravity) (2 ^ 62 : ℕ) := by
    refine ⟨(isFinite_neg _).trans Estimator.within_gravity.finite, ?_⟩
    rw [toReal_neg, abs_neg]
    exact Estimator.within_gravity.abs_le.trans (by norm_num)
  intro c hc
  simp only [Vec3.toList, gravityReference, List.mem_cons, List.not_mem_nil, or_false] at hc
  rcases hc with rfl | rfl | rfl
  exacts [hzero, hzero, hup]

section
variable {accel mag reference : Vec3 Float32}

/-- The attitude is read off the product of two rounded frames. -/
theorem nearUnit_of_attitudeOf? {q : Quat Float32} (h : ModerateReadings accel mag reference)
    (hq : attitudeOf? accel mag reference = some q) :
    q.isFinite = true ∧ (FixHeading accel mag reference → q.NearUnit (1 / 100)) := by
  rw [attitudeOf?] at hq
  split at hq
  · simp only [Option.bind_eq_bind, Option.bind_eq_some_iff] at hq
    obtain ⟨known, hknown, measured, hmeasured, hread⟩ := hq
    obtain rfl := Option.some.inj hread
    obtain ⟨a, b, hframe, rfl, hnearly⟩ :=
      frames_of_triad? isModerate_gravityReference h.reference hknown
    obtain ⟨a', b', hframe', rfl, hnearly'⟩ := frames_of_triad? h.accel h.mag hmeasured
    have hbounded := hframe.isBounded hframe'
    refine ⟨Quat.isFinite_ofMat hbounded, fun hheading => ?_⟩
    exact Quat.nearUnit_ofMat hbounded
      (hframe.nearlyRotates hframe' (hnearly hheading.known) (hnearly' hheading.measured))
  · cases hq

/-- **The attitude of an alignment.** Short of overflow it is finite. When the field fixes the
heading it is valid, and so is what a mounting of norm one publishes. -/
theorem reportable_of_alignment (h : ModerateReadings accel mag reference) :
    (∀ q, attitudeOf? accel mag reference = some q →
      q.isFinite = true ∧ (FixHeading accel mag reference → q.Reportable)) ∧
    ∀ (f g : Estimator Float32) (gyro : Vec3 Float32), f.config.field = reference →
      f.align ⟨gyro, accel, mag⟩ = .ok g →
        g.attitude.isFinite = true ∧
        (FixHeading accel mag reference → g.attitude.Reportable ∧
          (f.mounting.quat.NearUnit (1 / 200) →
            ∀ stamp, ∃ r, g.report stamp = .ok r ∧ r.quat.isFinite = true ∧ r.isValid = true)) := by
  refine ⟨?_, ?_⟩
  · intro q hq
    obtain ⟨hfinite, hunit⟩ := nearUnit_of_attitudeOf? h hq
    exact ⟨hfinite, fun hheading => ((hunit hheading).mono (by norm_num)).reportable⟩
  · intro f g gyro hfield hok
    obtain ⟨q, hq, rfl⟩ := Estimator.align_eq_ok hok
    rw [hfield] at hq
    obtain ⟨hfinite, hunit⟩ := nearUnit_of_attitudeOf? h hq
    refine ⟨hfinite, fun hheading => ⟨((hunit hheading).mono (by norm_num)).reportable, ?_⟩⟩
    intro hmounting stamp
    obtain ⟨hbody, hvalid⟩ := ((hunit hheading).mul hmounting.conj).reportable
    exact ⟨_, rfl, hbody, hvalid _ rfl⟩

end

/-! ### The default configuration -/

theorem unpack_defaultField_x :
    unpack 0.5138 = .finite .positive 8620134 (-24) (by norm_num) := rfl

theorem unpack_defaultField_y :
    unpack 0.00019 = .finite .positive 13056701 (-36) (by norm_num) := rfl

theorem unpack_defaultField_z :
    unpack 0.8578 = .finite .positive 14391496 (-24) (by norm_num) := rfl

theorem isModerate_defaultField : (Estimator.defaultField : Vec3 Float32).IsModerate := by
  intro c hc
  simp only [Vec3.toList, Estimator.defaultField, List.mem_cons, List.not_mem_nil, or_false] at hc
  rcases hc with rfl | rfl | rfl
  · exact .of_unpack unpack_defaultField_x (by norm_num)
  · exact .of_unpack unpack_defaultField_y (by norm_num)
  · exact .of_unpack unpack_defaultField_z (by norm_num)

theorem fixHeading_defaultField :
    FixHeading gravityReference Estimator.defaultField Estimator.defaultField := by
  have hx : 1 / 4 ≤ toReal 0.5138 ^ 2 := by
    rw [toReal, unpack_defaultField_x]
    norm_num [value, signFactor]
  have hz : toReal 0.8578 ^ 2 ≤ 1 := by
    rw [toReal, unpack_defaultField_z]
    norm_num [value, signFactor]
  have hapart : Vec3.Apart (gravityReference : Vec3 Float32).exact
      (Estimator.defaultField : Vec3 Float32).exact := by
    have hup : (gravityReference : Vec3 Float32).exact = ⟨0, 0, -toReal gravity⟩ := by
      ext
      exacts [toReal_zero, toReal_zero, toReal_neg gravity]
    have hfield : (Estimator.defaultField : Vec3 Float32).exact =
        ⟨toReal 0.5138, toReal 0.00019, toReal 0.8578⟩ := rfl
    constructor
    rw [hup, hfield]
    simp only [Vec3.normSq, Vec3.cross]
    have hproduct : toReal gravity ^ 2 * (toReal 0.8578 ^ 2) ≤
        toReal gravity ^ 2 * (4 * toReal 0.5138 ^ 2) :=
      mul_le_mul_of_nonneg_left (by linarith) (sq_nonneg _)
    nlinarith [sq_nonneg (toReal gravity * toReal 0.5138),
      sq_nonneg (toReal gravity * toReal 0.00019)]
  exact ⟨hapart, hapart⟩

/-- Alignment at rest with the default configuration. -/
theorem reportable_of_alignment_default :
    ModerateReadings gravityReference Estimator.defaultField Estimator.defaultField ∧
    FixHeading gravityReference Estimator.defaultField Estimator.defaultField ∧
    ∃ g, (Estimator.new .default .aligned).align
        ⟨.zero, gravityReference, Estimator.defaultField⟩ = .ok g ∧
      g.attitude.Reportable ∧
      ∃ r, g.report 0 = .ok r ∧ r.quat.isFinite = true ∧ r.isValid = true := by
  have hmoderate : ModerateReadings gravityReference Estimator.defaultField
      Estimator.defaultField :=
    ⟨isModerate_gravityReference, isModerate_defaultField, isModerate_defaultField⟩
  have haccepted : ((Estimator.new .default .aligned : Estimator Float32).align
      ⟨.zero, gravityReference, Estimator.defaultField⟩).toOption.isSome = true := by
    decide +kernel
  have hmounting : (Mounting.aligned : Mounting Float32).quat.NearUnit (1 / 200) :=
    Quat.nearUnit_identity
  refine ⟨hmoderate, fixHeading_defaultField, ?_⟩
  cases halign : (Estimator.new .default .aligned : Estimator Float32).align
      ⟨.zero, gravityReference, Estimator.defaultField⟩ with
  | error why =>
    rw [halign] at haccepted
    cases haccepted
  | ok g =>
    obtain ⟨-, hvalid⟩ := (reportable_of_alignment hmoderate).2 _ g .zero rfl halign
    obtain ⟨hreportable, hpublished⟩ := hvalid fixHeading_defaultField
    exact ⟨g, rfl, hreportable, hpublished hmounting 0⟩

/-- A field that is four times the specific force leaves the heading open, and a large field
overflows. Both are accepted, and neither attitude is valid, in the estimator or as published. -/
theorem parallel_readings_are_accepted :
    let accel : Vec3 Float32 := ⟨3.6, 5.7, -7.1⟩
    let mag : Vec3 Float32 := ⟨14.4, 22.8, -28.4⟩
    let reference : Vec3 Float32 := ⟨20.0, 0.0, 45.0⟩
    let large : Vec3 Float32 := ⟨1e20, 0.0, 1e20⟩
    let report (q : Quat Float32) : Report Float32 := { Report.unhealthy with quat := q }
    let f : Estimator Float32 := .new { Estimator.Config.default with field := reference } .aligned
    mag = accel * (4.0 : Float32) ∧
    (attitudeOf? accel mag reference).map (fun q => (q.isFinite, (report q).isValid)) =
      some (true, false) ∧
    (attitudeOf? gravityReference large reference).map (fun q => (report q).isValid) =
      some false ∧
    (f.align ⟨.zero, accel, mag⟩).toOption.bind
      (fun g => (g.report 0).toOption.map (·.isValid)) = some false := by
  refine ⟨?_, by decide +kernel, by decide +kernel, by decide +kernel⟩
  ext <;> rfl

end Attitude
