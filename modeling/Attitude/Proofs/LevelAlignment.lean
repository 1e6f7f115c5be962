import Mathlib
import Attitude.Proofs.MountingAngles
import Attitude.Proofs.Overflow
import Attitude.Proofs.Threshold

/-!
# Which validated parameters can be aligned

Validation asks of the reference field that it is finite and does not vanish. A level vehicle at
rest measures that field and the reference of gravity, and aligns with the frame of both. Gravity
points along an axis, so the second direction of the frame is that of the horizontal part of the
field, and no rounding comes between: alignment depends on the norm of that part alone. If it is
too short, no readings whatever are accepted. If its square overflows, the direction vanishes, and
the attitude that is published has the norm `√(1 / 2)`. Validation tests neither.

## Main definitions

* `Params.heading`: the norm of the horizontal part of the field
* `Params.LevelAlignment`: what becomes of the readings of a level vehicle

## Main results

* `Params.levelAlignment_of_validate`
* `Params.vertical_field_is_validated`: validated parameters that refuse every alignment
-/

namespace Attitude
open Binary32

/-! ## The horizontal part of a field -/

namespace Vec3
variable {w b : Vec3 Float32}

/-- The direction of the specific force on a level vehicle at rest. -/
def up : Vec3 Float32 := ⟨0.0, 0.0, -1.0⟩

theorem direction?_gravityReference :
    (gravityReference : Vec3 Float32).direction? leastDirection = some up := by
  rw [direction?, if_neg (by decide +kernel)]
  refine congrArg some (Vec3.ext ?_ ?_ ?_) <;> decide +kernel

theorem exact_up : up.exact = ⟨0, 0, -1⟩ := by
  have hneg : toReal (-1.0) = -1 := by rw [toReal_neg, toReal_one]
  ext
  exacts [toReal_zero, toReal_zero, hneg]

/-- Zero times a finite number is zero. -/
theorem exact_zero_mul {x : Float32} (h : x.isFinite = true) :
    (0.0 * x).isFinite = true ∧ toReal (0.0 * x) = 0 := by
  have hrounds := rounds_mul isFinite_zero h
  rw [toReal_zero, zero_mul] at hrounds
  exact hrounds.exact onGrid_zero (by norm_num)

/-- The opposite of a finite number can be stored. -/
theorem exact_neg_one_mul {x : Float32} (h : x.isFinite = true) :
    (-1.0 * x).isFinite = true ∧ toReal (-1.0 * x) = -toReal x := by
  have hneg : toReal (-1.0) = -1 := congrArg z exact_up
  have hrounds := rounds_mul (x := -1.0) rfl h
  rw [hneg, neg_one_mul] at hrounds
  exact hrounds.exact (onGrid_toReal x).neg (by rw [abs_neg]; exact abs_toReal_lt x)

/-- The product with the upward direction turns the horizontal part by a quarter, without
rounding. -/
theorem exact_up_cross (h : w.isFinite = true) :
    (up.cross w).isFinite = true ∧ (up.cross w).exact = ⟨toReal w.y, -toReal w.x, 0⟩ := by
  have hsub {x y : Float32} {a : ℝ} (hx : x.isFinite = true) (hy : y.isFinite = true)
      (ha : toReal x - toReal y = a) (hgrid : OnGrid a) (hlt : |a| < 2 ^ 128) :
      (x - y).isFinite = true ∧ toReal (x - y) = a := by
    have hrounds := rounds_sub hx hy
    rw [ha] at hrounds
    exact hrounds.exact hgrid hlt
  obtain ⟨hx, hy, hz⟩ := (isFinite_iff w).mp h
  obtain ⟨hx₀, ex₀⟩ := exact_zero_mul hx
  obtain ⟨hy₀, ey₀⟩ := exact_zero_mul hy
  obtain ⟨hz₀, ez₀⟩ := exact_zero_mul hz
  obtain ⟨hx₁, ex₁⟩ := exact_neg_one_mul hx
  obtain ⟨hy₁, ey₁⟩ := exact_neg_one_mul hy
  have h₀ := hsub hz₀ hy₁ (by rw [ez₀, ey₁, sub_neg_eq_add, zero_add]) (onGrid_toReal w.y)
    (abs_toReal_lt w.y)
  have h₁ := hsub hx₁ hz₀ (by rw [ex₁, ez₀, sub_zero]) (onGrid_toReal w.x).neg
    (by rw [abs_neg]; exact abs_toReal_lt w.x)
  have h₂ := hsub hy₀ hx₀ (by rw [ey₀, ex₀, sub_zero]) onGrid_zero (by norm_num)
  refine ⟨(isFinite_iff _).mpr ⟨h₀.1, h₁.1, h₂.1⟩, ?_⟩
  ext
  exacts [h₀.2, h₁.2, h₂.2]

theorem IsModerate.isFinite (h : w.IsModerate) : w.isFinite = true :=
  (isFinite_iff w).mpr ⟨(h w.x (by simp [toList])).finite, (h w.y (by simp [toList])).finite,
    (h w.z (by simp [toList])).finite⟩

theorem isModerate_up_cross (h : w.IsModerate) : (up.cross w).IsModerate := by
  obtain ⟨hfin, hexact⟩ := exact_up_cross h.isFinite
  obtain ⟨hx, hy, hz⟩ := (isFinite_iff _).mp hfin
  have ex : toReal (up.cross w).x = toReal w.y := congrArg Vec3.x hexact
  have ey : toReal (up.cross w).y = -toReal w.x := congrArg Vec3.y hexact
  have ez : toReal (up.cross w).z = 0 := congrArg Vec3.z hexact
  intro c hc
  simp only [toList, List.mem_cons, List.not_mem_nil, or_false] at hc
  rcases hc with rfl | rfl | rfl
  · exact ⟨hx, by rw [ex]; exact (h w.y (by simp [toList])).abs_le⟩
  · exact ⟨hy, by rw [ey, abs_neg]; exact (h w.x (by simp [toList])).abs_le⟩
  · exact ⟨hz, by rw [ez, abs_zero]; positivity⟩

/-- A norm is not smaller than a power of two below a component. -/
theorem two_zpow_le_norm (h : w.norm.isFinite = true) {e : ℤ} (he : -149 ≤ e + e) {i : Fin 3}
    (hi : (2 : ℝ) ^ e ≤ |toReal (w.component i)|) : (2 : ℝ) ^ e ≤ toReal w.norm := by
  have hsum := (isFinite_of_sqrt h).1
  obtain ⟨hxy, hz⟩ := Binary32.isFinite_of_add hsum
  obtain ⟨hx, hy⟩ := Binary32.isFinite_of_add hxy
  have hle := le_toReal_add hsum (notNegative_add (notNegative_mul_self _) (notNegative_mul_self _))
    (notNegative_mul_self _)
  have hle' := le_toReal_add hxy (notNegative_mul_self _) (notNegative_mul_self _)
  refine two_zpow_le_sqrt h (by omega) ?_
  fin_cases i
  · exact (two_zpow_le_sq hx he hi).trans (hle'.1.trans hle.1)
  · exact (two_zpow_le_sq hy he hi).trans (hle'.2.trans hle.1)
  · exact (two_zpow_le_sq hz he hi).trans hle.2

/-! ## The frame of a level vehicle -/

/-- A field with a finite horizontal part that is not too short leads to a frame that is nearly
orthonormal. -/
theorem frames_level (hw : w.isFinite = true)
    (hb : (up.cross w).direction? leastDirection = some b)
    (hfin : (up.cross w).norm.isFinite = true) :
    up.Frames b ∧ NearlyOrthonormal up.exact b.exact := by
  have hdirects := directs_of_direction? hb hfin
  have hup : |up.exact.normSq - 1| ≤ 1 / 2 ^ 18 := by
    rw [exact_up]
    norm_num [normSq]
  -- The cross product has no vertical component, so its direction has almost none.
  have hinner : |inner up.exact b.exact| ≤ 1 / 2 ^ 8 := by
    have hpos : 0 < toReal (up.cross w).norm := lt_of_lt_of_le (by norm_num) hdirects.least
    have hnear := hdirects.near 2
    simp only [(exact_up_cross hw).2, component, sub_zero, abs_mul, abs_of_pos hpos] at hnear
    have hz : |b.exact.z| ≤ 1 / 2 ^ 23 := by
      refine le_of_mul_le_mul_left ?_ hpos
      linarith
    have hsplit : inner up.exact b.exact = -b.exact.z := by
      rw [exact_up]
      simp [inner]
    rw [hsplit, abs_neg]
    linarith
  exact ⟨⟨rfl, hdirects.finite, hup, hdirects.unit⟩, hup, hdirects.unit, hinner⟩

theorem approx_component_up (i : Fin 3) :
    Approx (up.component i) (up.exact.component i) 0 1 := by
  have hsize : |up.exact.component i| ≤ 1 := by
    rw [exact_up]
    fin_cases i <;> norm_num [component]
  have hup : up.isFinite = true := rfl
  rw [component_exact] at hsize ⊢
  exact approx_toReal (isFinite_component hup i) hsize

theorem approx_component_zero (hb : b.isFinite = true) (hzero : b.exact = ⟨0, 0, 0⟩) (i : Fin 3) :
    Approx (b.component i) 0 0 0 := by
  have hi : toReal (b.component i) = 0 := by
    rw [← component_exact, hzero]
    fin_cases i <;> rfl
  exact ⟨isFinite_component hb i, by rw [hi, sub_zero, abs_zero], by rw [abs_zero]⟩

/-- Without a second direction, only the vertical is left of the frame. -/
theorem approx_get_of_vanishing (hb : b.isFinite = true) (hzero : b.exact = ⟨0, 0, 0⟩)
    (i j : Fin 3) :
    Approx ((turnBetween up b up b) i j) (if i = 2 ∧ j = 2 then 1 else 0) (1 / 2 ^ 17) 1 := by
  obtain ⟨hc, hcross⟩ := exact_up_cross hb
  have hthird : (up.cross b).exact = ⟨0, 0, 0⟩ := by
    have hx : toReal b.x = 0 := congrArg x hzero
    have hy : toReal b.y = 0 := congrArg y hzero
    rw [hcross, hx, hy, neg_zero]
  have hproduct {t : Vec3 Float32} (ht : t.isFinite = true) (hexact : t.exact = ⟨0, 0, 0⟩) :
      Approx (t.component i * t.component j) 0 (1 / 2 ^ 20) 0 := by
    have h := (approx_component_zero ht hexact i).mul (approx_component_zero ht hexact j)
      (by norm_num)
    rw [mul_zero] at h
    exact h.mono (by norm_num) (by norm_num)
  have hvertical : up.exact.component i * up.exact.component j =
      if i = 2 ∧ j = 2 then 1 else 0 := by
    rw [exact_up]
    fin_cases i <;> fin_cases j <;> simp [component]
  have hsum := (hproduct hc hthird).add ((hproduct hb hzero).add
    ((approx_component_up i).mul (approx_component_up j) (by norm_num)) (by norm_num)) (by norm_num)
  rw [zero_add, zero_add, hvertical] at hsum
  rw [turnBetween, Mat.get_mulTranspose_ofColumns]
  exact hsum.mono (by norm_num) (by norm_num)

end Vec3

/-! ## Quaternions that are too short -/

namespace Quat
variable {p q : Quat Float32} {b : Vec3 Float32}

/-- A pivot of two makes up half the squared norm, and without numerators nothing else does. -/
theorem Leads.normSq_le {d n₁ n₂ n₃ : Float32} {x y₁ y₂ y₃ : ℝ}
    (h : Leads d n₁ n₂ n₃ x y₁ y₂ y₃) (hq : q.Divides d n₁ n₂ n₃) (hx : |x - 2| ≤ 1 / 2 ^ 10)
    (h₁ : |y₁| ≤ 1 / 2 ^ 10) (h₂ : |y₂| ≤ 1 / 2 ^ 10) (h₃ : |y₃| ≤ 1 / 2 ^ 10) :
    q.exact.normSq ≤ 51 / 100 := by
  rw [abs_le] at hx
  have hsqrt : √x ^ 2 = x := Real.sq_sqrt (by linarith [hx.1])
  have hpivot : (√x / 2) ^ 2 = x / 4 := by
    rw [div_pow, hsqrt]
    norm_num
  have hquotient {y : ℝ} (hy : |y| ≤ 1 / 2 ^ 10) : (y / (√x * 2)) ^ 2 ≤ 1 / 2 ^ 20 := by
    rw [div_pow, mul_pow, hsqrt, div_le_iff₀ (by linarith [hx.1])]
    have hsq : y ^ 2 ≤ (1 / 2 ^ 10) ^ 2 := sq_le_sq.mpr (hy.trans (le_abs_self _))
    linarith [hx.1]
  have hfirst := hquotient h₁
  have hsecond := hquotient h₂
  have hthird := hquotient h₃
  have hchange := (abs_le.mp (h.abs_normSq_sub_le hq (by rw [hpivot]; linarith [hx.2]))).2
  linarith [hx.2]

/-- What is read off the vertical alone has half the squared norm of a rotation. -/
theorem normSq_ofMat_of_vertical {m : Mat 3 3 Float32}
    (h : ∀ i j, Approx (m i j) (if i = 2 ∧ j = 2 then 1 else 0) (1 / 2 ^ 17) 1) :
    (ofMat m).isFinite = true ∧ (ofMat m).exact.normSq ≤ 51 / 100 := by
  have hbounded : m.IsBounded := by
    refine ⟨fun i j => (h i j).finite, fun i j => ?_⟩
    have hle := abs_le_of_near (h i j).error
    linarith [(h i j).size]
  have hentry (i j : Fin 3) : |m.exact i j - if i = 2 ∧ j = 2 then 1 else 0| ≤ 1 / 2 ^ 17 := by
    rw [Mat.get_exact]
    exact (h i j).error
  have htrace : |m.exact.xx + m.exact.yy + m.exact.zz - 1| ≤ 3 / 2 ^ 17 := by
    have hxx : |m.exact.xx - 0| ≤ 1 / 2 ^ 17 := hentry 0 0
    have hyy : |m.exact.yy - 0| ≤ 1 / 2 ^ 17 := hentry 1 1
    have hzz : |m.exact.zz - 1| ≤ 1 / 2 ^ 17 := hentry 2 2
    rw [abs_le] at hxx hyy hzz ⊢
    constructor <;> linarith [hxx.1, hyy.1, hzz.1, hxx.2, hyy.2, hzz.2]
  have hnumerator {i j : Fin 3} (hij : ¬ (i = 2 ∧ j = 2)) (hji : ¬ (j = 2 ∧ i = 2)) :
      |m.exact i j - m.exact j i| ≤ 1 / 2 ^ 10 := by
    have hfirst := hentry i j
    have hsecond := hentry j i
    rw [if_neg hij, sub_zero] at hfirst
    rw [if_neg hji, sub_zero] at hsecond
    exact (abs_sub _ _).trans (by linarith)
  rw [abs_le] at htrace
  -- A trace of one reads the scalar part first, with a pivot of two.
  have hlead : 0.0 < m.xx + m.yy + m.zz := by
    rw [Binary32.lt_iff isFinite_zero hbounded.approx_trace.finite, toReal_zero]
    linarith [(abs_le.mp hbounded.approx_trace.error).1]
  obtain ⟨hleads, hdivides⟩ := leads_of_trace hbounded hlead
  refine ⟨hleads.isFinite hdivides, hleads.normSq_le hdivides ?_
    (hnumerator (by decide) (by decide)) (hnumerator (by decide) (by decide))
    (hnumerator (by decide) (by decide))⟩
  rw [abs_le]
  constructor <;> linarith [htrace.1, htrace.2]

/-- The rounded norm of a quaternion that is clearly shorter than a unit. -/
theorem norm_le_of_normSq_le (hfin : q.isFinite = true) (hlength : q.exact.normSq ≤ 3 / 4) :
    q.norm.isFinite = true ∧ 0 ≤ toReal q.norm ∧ toReal q.norm ≤ 15 / 16 := by
  have hshort : q.Short := ⟨hfin, by linarith⟩
  have hnormSq := hshort.approx_normSq
  have hnonneg : 0 ≤ toReal q.normSq :=
    (notNegative_add (notNegative_add (notNegative_mul_self q.i) (notNegative_mul_self q.k))
      (notNegative_add (notNegative_mul_self q.j) (notNegative_mul_self q.w))).value
  -- Fifteen sixteenths can be stored, so rounding the root does not pass it.
  have hgrid : OnGrid (15 / 16) := by
    have h := onGrid_natCast_mul (m := 15) (e := -4) (by norm_num) (by norm_num)
    norm_num at h
    exact h
  have hroot : √(toReal q.normSq) ≤ 15 / 16 := by
    refine Real.sqrt_le_iff.mpr ⟨by norm_num, ?_⟩
    linarith [(abs_le.mp hnormSq.error).2]
  have hrounds : Rounds √(toReal q.normSq) q.norm := rounds_sqrt hnormSq.finite hnonneg
  have hstored : q.norm.isFinite = true := by
    refine hrounds.isFinite_of_within hgrid ?_ (by norm_num)
    rwa [abs_of_nonneg (Real.sqrt_nonneg _)]
  have hnearest := hrounds.isNearest hstored
  exact ⟨hstored, hnearest.nonneg (Real.sqrt_nonneg _), hnearest.le hgrid hroot⟩

/-- A quaternion that is clearly shorter than a unit is valid in no report. -/
theorem not_valid_of_normSq_le (hfin : q.isFinite = true) (hlength : q.exact.normSq ≤ 3 / 4)
    {r : Report Float32} (hr : r.quat = q) : r.isValid = false := by
  obtain ⟨hnorm, hnonneg, hle⟩ := norm_le_of_normSq_le hfin hlength
  have hrounds := rounds_sub hnorm approx_one.finite
  rw [toReal_one] at hrounds
  have hgrid : OnGrid (-(1 / 16)) := by
    have h := (onGrid_two_zpow (e := -4) (by norm_num)).neg
    norm_num at h
    exact h
  have hstored : (q.norm - 1.0).isFinite = true := by
    refine hrounds.isFinite_of_within (y := 1) ?_ ?_ (by norm_num)
    · exact_mod_cast onGrid_natCast (m := 1) (by norm_num)
    · rw [abs_le]
      constructor <;> linarith
  have hexcess := (hrounds.isNearest hstored).le hgrid (by linarith)
  have htolerance : toReal 0.01 ≤ 1 / 16 := by
    have hunpack : unpack 0.01 = .finite .positive 10737418 (-30) (by norm_num) := rfl
    rw [toReal, hunpack]
    norm_num [value, signFactor]
  rw [Report.isValid, hr, decide_eq_false_iff_not]
  change ¬ (q.norm - 1.0).abs < 0.01
  rw [Binary32.lt_iff (by rw [isFinite_abs]; exact hstored) (by rfl), toReal_abs, not_lt]
  exact htolerance.trans (by linarith [neg_le_abs (toReal (q.norm - 1.0))])

/-- A product with a unit is as short as its other factor. -/
theorem normSq_mul_le (hp : p.isFinite = true) (hlength : p.exact.normSq ≤ 51 / 100)
    (hq : q.NearUnit (1 / 200)) : (p * q).isFinite = true ∧ (p * q).exact.normSq ≤ 3 / 4 := by
  obtain ⟨hw, hi, hj, hk⟩ := approx_mul ⟨hp, by linarith⟩ (hq.mono (by norm_num)).short
  refine ⟨(isFinite_iff _).mpr ⟨hw.finite, hi.finite, hj.finite, hk.finite⟩, ?_⟩
  have hexact : (p.exact * q.exact).normSq ≤ 51 / 100 * (1 + 1 / 200) := by
    rw [normSq_mul]
    have hupper := (abs_le.mp hq.norm).2
    have hnonneg : 0 ≤ q.exact.normSq := by
      rw [normSq_eq]
      positivity
    exact mul_le_mul hlength (by linarith) hnonneg (by norm_num)
  rw [normSq_eq] at hexact
  have hchange := (abs_le.mp
    (abs_sum_sq_sub_le hw.error hi.error hj.error hk.error (by norm_num) (by linarith))).2
  rw [normSq_eq, w_exact, i_exact, j_exact, k_exact]
  linarith

/-- **The attitude of a level vehicle**, as a mounting publishes it. It is finite, and it is valid
if and only if the norm of the horizontal part of the field does not overflow. -/
theorem isValid_level_iff {w : Vec3 Float32} (hw : w.isFinite = true)
    (hb : (Vec3.up.cross w).direction? leastDirection = some b) (hq : q.NearUnit (1 / 200)) :
    (ofMat (turnBetween .up b .up b) * q).isFinite = true ∧
      ∀ r : Report Float32, r.quat = ofMat (turnBetween .up b .up b) * q →
        (r.isValid = true ↔ (Vec3.up.cross w).norm.isFinite = true) := by
  by_cases hfin : (Vec3.up.cross w).norm.isFinite = true
  · obtain ⟨hframes, hnearly⟩ := Vec3.frames_level hw hb hfin
    have hunit := nearUnit_ofMat (hframes.isBounded hframes)
      (hframes.nearlyRotates hframes hnearly hnearly)
    obtain ⟨hfinite, hvalid⟩ := (hunit.mul hq).reportable
    exact ⟨hfinite, fun r hr => iff_of_true (hvalid r hr) hfin⟩
  · have hinf := (Vec3.magnitude_norm (Vec3.exact_up_cross hw).1).overflown_of_not_finite hfin
    obtain ⟨hfinb, hzero⟩ := Vec3.exact_direction_of_overflow (Vec3.exact_up_cross hw).1 hb hinf
    obtain ⟨hfinp, hlength⟩ :=
      normSq_ofMat_of_vertical (Vec3.approx_get_of_vanishing hfinb hzero)
    obtain ⟨hfinite, hshort⟩ := normSq_mul_le hfinp hlength hq
    refine ⟨hfinite, fun r hr => iff_of_false ?_ hfin⟩
    rw [not_valid_of_normSq_le hfinite hshort hr]
    exact Bool.false_ne_true

end Quat

/-! ## Alignment -/

section
variable {w : Vec3 Float32}

/-- A field is a reference only if its horizontal part is not too short. -/
theorem triad?_gravityReference (w : Vec3 Float32) : triad? gravityReference w =
    ((Vec3.up.cross w).direction? leastDirection).map fun b =>
      .ofColumns .up b (Vec3.up.cross b) := by
  rw [triad?, Vec3.direction?_gravityReference, Option.map_eq_bind]
  rfl

theorem attitudeOf?_level (hw : w.isFinite = true) : attitudeOf? gravityReference w w =
    ((Vec3.up.cross w).direction? leastDirection).map fun b =>
      .ofMat (turnBetween .up b .up b) := by
  have hfinite :
      ((gravityReference : Vec3 Float32).isFinite && w.isFinite && w.isFinite) = true := by
    rw [hw]
    rfl
  rw [attitudeOf?, if_pos hfinite, triad?_gravityReference]
  cases (Vec3.up.cross w).direction? leastDirection <;> rfl

theorem attitudeOf?_eq_none_of_short (hw : (Vec3.up.cross w).direction? leastDirection = none)
    (accel mag : Vec3 Float32) : attitudeOf? accel mag w = none := by
  rw [attitudeOf?]
  split
  · rw [triad?_gravityReference, hw]
    rfl
  · rfl

/-- A new estimator refuses nothing but readings without an attitude. -/
theorem Estimator.exists_align_iff (c : Config Float32) (m : Mounting Float32)
    {readings : Readings Float32} (hgyro : readings.gyro.isFinite = true) :
    (∃ g, (Estimator.new c m).align readings = .ok g) ↔
      (attitudeOf? readings.accel readings.mag c.field).isSome = true := by
  constructor
  · rintro ⟨g, hg⟩
    obtain ⟨q, hq, -⟩ := align_eq_ok hg
    exact Option.isSome_of_eq_some hq
  · intro hsome
    obtain ⟨q, hq⟩ := Option.isSome_iff_exists.mp hsome
    have hnew : (Estimator.new c m).isRunning = false := rfl
    have hfield : (Estimator.new c m).config.field = c.field := rfl
    exact ⟨_, by rw [align, hnew, hgyro, hfield, hq]; rfl⟩

end

namespace Params
variable {p : Params}

/-- The norm of the horizontal part of the field. -/
def heading (p : Params) : Float32 := (Vec3.up.cross p.field).norm

/-- What a level vehicle measures at rest. -/
def levelReadings (p : Params) : Readings Float32 := ⟨.zero, gravityReference, p.field⟩

/-- What becomes of the readings of a level vehicle. -/
structure LevelAlignment (p : Params) (m : Mounting Float32) : Prop where
  /-- They are accepted if and only if the horizontal part of the field is not too short. -/
  accepts_iff : (∃ g, (Estimator.new p.estimatorConfig m).align p.levelReadings = .ok g) ↔
    leastDirection < p.heading
  /-- If it is too short, no readings are ever accepted, in whatever state. -/
  refuses : ¬ leastDirection < p.heading → ∀ (f g : Estimator Float32) (readings),
    f.config.field = p.field → f.align readings ≠ .ok g
  /-- What is published is finite, and valid if and only if the norm does not overflow. -/
  valid_iff : ∀ g, (Estimator.new p.estimatorConfig m).align p.levelReadings = .ok g →
    ∀ stamp, ∃ r, g.report stamp = .ok r ∧ r.quat.isFinite = true ∧
      (r.isValid = true ↔ p.heading.isFinite = true)
  /-- Short of overflow, a horizontal component of at least `2 ^ (-19)` is enough for both. -/
  aligns : p.field.IsModerate →
    (2 : ℝ) ^ (-19 : ℤ) ≤ |toReal p.field.x| ∨ (2 : ℝ) ^ (-19 : ℤ) ≤ |toReal p.field.y| →
    ∃ g, (Estimator.new p.estimatorConfig m).align p.levelReadings = .ok g ∧
      ∀ stamp, ∃ r, g.report stamp = .ok r ∧ r.quat.isFinite = true ∧ r.isValid = true

theorem isFinite_field_of_validate (h : p.validate = .ok ()) : p.field.isFinite = true := by
  have husable := isUsable_of_validate h
  simp only [isUsable, isField, Bool.and_eq_true] at husable
  exact husable.1.1.1.1.1.1

/-- The direction of the horizontal part is refused by its norm alone. -/
theorem direction?_eq_none_iff (hfield : p.field.isFinite = true) :
    (Vec3.up.cross p.field).direction? leastDirection = none ↔ ¬ leastDirection < p.heading := by
  have hmagnitude := Vec3.magnitude_norm (Vec3.exact_up_cross hfield).1
  rw [heading, ← hmagnitude.not_le_iff (by rfl), not_not, Vec3.direction?]
  split
  · exact iff_of_true rfl ‹_›
  · exact iff_of_false (Option.some_ne_none _) ‹_›

/-- A field that is neither nearly vertical nor close to overflow. -/
theorem isFinite_heading (hmoderate : p.field.IsModerate)
    (hlarge : (2 : ℝ) ^ (-19 : ℤ) ≤ |toReal p.field.x| ∨
      (2 : ℝ) ^ (-19 : ℤ) ≤ |toReal p.field.y|) :
    p.heading.isFinite = true ∧ leastDirection < p.heading := by
  have hexact := (Vec3.exact_up_cross hmoderate.isFinite).2
  have hnorm : p.heading.isFinite = true :=
    Vec3.isFinite_norm_of_isModerate (Vec3.isModerate_up_cross hmoderate)
  have hlong : (2 : ℝ) ^ (-19 : ℤ) ≤ toReal p.heading := by
    rcases hlarge with hx | hy
    · refine Vec3.two_zpow_le_norm hnorm (i := 1) (by norm_num) ?_
      rwa [← Vec3.component_exact, hexact, Vec3.component, abs_neg]
    · refine Vec3.two_zpow_le_norm hnorm (i := 0) (by norm_num) ?_
      rwa [← Vec3.component_exact, hexact, Vec3.component]
  refine ⟨hnorm, (Binary32.lt_iff (by rfl) hnorm).mpr (lt_of_lt_of_le ?_ hlong)⟩
  have hunpack : unpack leastDirection = .finite .positive 8796093 (-43) (by norm_num) := rfl
  rw [toReal, hunpack]
  norm_num [value, signFactor]

variable {m : Mounting Float32}

theorem exists_align_level_iff (hfield : p.field.isFinite = true) (m : Mounting Float32) :
    (∃ g, (Estimator.new p.estimatorConfig m).align p.levelReadings = .ok g) ↔
      leastDirection < p.heading := by
  have hrest : p.levelReadings.gyro.isFinite = true :=
    (Vec3.isFinite_iff _).mpr ⟨isFinite_zero, isFinite_zero, isFinite_zero⟩
  rw [Estimator.exists_align_iff _ _ hrest]
  change (attitudeOf? gravityReference p.field p.field).isSome = true ↔ _
  rw [attitudeOf?_level hfield, Option.isSome_map, Option.isSome_iff_ne_none, ne_eq,
    direction?_eq_none_iff hfield, not_not]

/-- What a mounting that is nearly a unit publishes after the alignment. -/
theorem published_of_align_level (hfield : p.field.isFinite = true)
    (hmounting : m.quat.NearUnit (1 / 200)) {g : Estimator Float32}
    (hg : (Estimator.new p.estimatorConfig m).align p.levelReadings = .ok g) (stamp : UInt64) :
    ∃ r, g.report stamp = .ok r ∧ r.quat.isFinite = true ∧
      (r.isValid = true ↔ p.heading.isFinite = true) := by
  obtain ⟨q, hq, rfl⟩ := Estimator.align_eq_ok hg
  change attitudeOf? gravityReference p.field p.field = some q at hq
  rw [attitudeOf?_level hfield, Option.map_eq_some_iff] at hq
  obtain ⟨b, hb, rfl⟩ := hq
  obtain ⟨hfinite, hiff⟩ := Quat.isValid_level_iff hfield hb hmounting.conj
  exact ⟨_, rfl, hfinite, hiff _ rfl⟩

/-- A field whose horizontal part is too short is the reference of no alignment. -/
theorem align_ne_ok_of_short (hfield : p.field.isFinite = true)
    (hshort : ¬ leastDirection < p.heading) {f : Estimator Float32} (hf : f.config.field = p.field)
    (readings : Readings Float32) (g : Estimator Float32) : f.align readings ≠ .ok g := by
  intro halign
  obtain ⟨q, hq, -⟩ := Estimator.align_eq_ok halign
  rw [hf, attitudeOf?_eq_none_of_short ((direction?_eq_none_iff hfield).mpr hshort)] at hq
  cases hq

theorem levelAlignment_ofEulerBy {sin cos : Float32 → Float32} (h : p.validate = .ok ())
    (hangles : ∀ x ∈ p.mountingAngles.halves, AccurateAt sin cos x) :
    p.LevelAlignment (.ofEulerBy sin cos p.mountingAngles) := by
  have hfield := isFinite_field_of_validate h
  have hmounting := Mounting.nearUnit_ofEulerBy hangles
  have haccepts := exists_align_level_iff hfield (.ofEulerBy sin cos p.mountingAngles)
  refine ⟨haccepts, ?_, ?_, ?_⟩
  · intro hshort f g readings hf
    exact align_ne_ok_of_short hfield hshort hf readings g
  · intro g hg stamp
    exact published_of_align_level hfield hmounting hg stamp
  · intro hmoderate hlarge
    obtain ⟨hfin, hlong⟩ := isFinite_heading hmoderate hlarge
    obtain ⟨g, hg⟩ := haccepts.mpr hlong
    refine ⟨g, hg, fun stamp => ?_⟩
    obtain ⟨r, hr, hfinite, hiff⟩ := published_of_align_level hfield hmounting hg stamp
    exact ⟨r, hr, hfinite, hiff.mpr hfin⟩

/-- **Which validated parameters can be aligned**, with the mounting that any accurate sine and
cosine lead to, and with their own mounting, when the running sine and cosine are accurate at the
half angles. -/
theorem levelAlignment_of_validate (h : p.validate = .ok ()) :
    (∀ sin cos, (∀ x ∈ p.mountingAngles.halves, AccurateAt sin cos x) →
      p.LevelAlignment (.ofEulerBy sin cos p.mountingAngles)) ∧
    ((∀ x ∈ p.mountingAngles.halves, AccurateAt Scalar.sin Scalar.cos x) →
      p.LevelAlignment p.mounting) := by
  refine ⟨fun sin cos hangles => levelAlignment_ofEulerBy h hangles, ?_⟩
  intro hangles
  rw [mounting, ← Mounting.ofEulerBy_sin_cos]
  exact levelAlignment_ofEulerBy h hangles

/-- The default field, with sensors along the axes of the body. -/
theorem levelAlignment_of_validate_default :
    Params.default.validate = .ok () ∧
    (∀ x ∈ Params.default.mountingAngles.halves, AccurateAt Scalar.sin Scalar.cos x) ∧
    Params.default.field.IsModerate ∧
    (2 : ℝ) ^ (-19 : ℤ) ≤ |toReal Params.default.field.x| ∧
    ∃ g, (Estimator.new Params.default.estimatorConfig Params.default.mounting).align
        Params.default.levelReadings = .ok g ∧
      ∀ stamp, ∃ r, g.report stamp = .ok r ∧ r.quat.isFinite = true ∧ r.isValid = true := by
  have hvalid : Params.default.validate = .ok () := by
    rw [validate, if_pos (by decide +kernel)]
  have hangles : ∀ x ∈ Params.default.mountingAngles.halves,
      AccurateAt Scalar.sin Scalar.cos x := by
    have hsmall : ∀ x ∈ Params.default.mountingAngles.halves, magnitudeBits x < 0x39800000 := by
      decide +kernel
    exact fun x hx => ((magnitudeBits_lt_iff x).mp (hsmall x hx)).elim accurateAt_of_small
  have hnorth : (2 : ℝ) ^ (-19 : ℤ) ≤ |toReal Params.default.field.x| := by
    change _ ≤ |toReal 0.5138|
    rw [toReal, unpack_defaultField_x]
    norm_num [value, signFactor]
  exact ⟨hvalid, hangles, isModerate_defaultField, hnorth,
    ((levelAlignment_of_validate hvalid).2 hangles).aligns isModerate_defaultField (.inl hnorth)⟩

/-- A vertical field is validated, and the readings of a level vehicle are refused. A field of `1e20`
is validated and accepted, and what is published is not valid. -/
theorem vertical_field_is_validated :
    let vertical : Params := { Params.default with field := ⟨0.0, 0.0, 1.0⟩ }
    let large : Params := { Params.default with field := ⟨1e20, 0.0, 1e20⟩ }
    vertical.validate = .ok () ∧
    ((Estimator.new vertical.estimatorConfig vertical.mounting).align
      vertical.levelReadings).toOption.isNone = true ∧
    large.validate = .ok () ∧
    ((Estimator.new large.estimatorConfig large.mounting).align large.levelReadings).toOption.bind
      (fun g => (g.report 0).toOption.map (·.isValid)) = some false := by
  refine ⟨?_, by decide +kernel, ?_, by decide +kernel⟩
  all_goals rw [validate, if_pos (by decide +kernel)]

end Params
end Attitude
