import Mathlib
import Attitude.Proofs.Overflow
import Attitude.Proofs.Request
import Attitude.Proofs.Triad

/-!
# Parallel readings

A force and a field along one line leave the heading open. Alignment finds this out by the cross
product of the rounded direction of the force and the field as it is measured: the product has to be
longer than `leastDirection`. Of parallel readings it is nothing but rounding errors, and these grow
with the field. Each component is off by four roundings of a product, and together they make up at
most `2 ^ (-22) / √3` of the norm of the field.

So parallel readings are refused as long as the norm of the field is at most seven, whatever the
force is, and the errors of a longer field can be taken for a heading. Along an axis of the sensors
nothing is rounded, and no field is too long.

## Main definitions

* `Vec3.OnAxis`: a vector along one of the axes
* `RefusedReadings`: no alignment takes these readings

## Main results

* `refusedReadings_of_parallel`
* `long_parallel_field_is_aligned`: beyond a norm of seven, errors are taken for a heading
-/

namespace Attitude
open Binary32

namespace Vec3
variable {v w t : Vec3 Float32}

/-! ## Vanishing products -/

/-- A product that vanishes is not rounded. -/
theorem exact_mul_of_eq_zero {x y : Float32} (hx : x.isFinite = true) (hy : y.isFinite = true)
    (h : toReal x * toReal y = 0) : (x * y).isFinite = true ∧ toReal (x * y) = 0 := by
  have hrounds := rounds_mul hx hy
  rw [h] at hrounds
  exact hrounds.exact onGrid_zero (by norm_num)

/-- Neither is the difference of two of them. -/
theorem exact_mul_sub_mul_of_eq_zero {p q r s : Float32} (hp : p.isFinite = true)
    (hq : q.isFinite = true) (hr : r.isFinite = true) (hs : s.isFinite = true)
    (hpq : toReal p * toReal q = 0) (hrs : toReal r * toReal s = 0) :
    (p * q - r * s).isFinite = true ∧ toReal (p * q - r * s) = 0 := by
  obtain ⟨hfpq, epq⟩ := exact_mul_of_eq_zero hp hq hpq
  obtain ⟨hfrs, ers⟩ := exact_mul_of_eq_zero hr hs hrs
  have hrounds := rounds_sub hfpq hfrs
  rw [epq, ers, sub_zero] at hrounds
  exact hrounds.exact onGrid_zero (by norm_num)

/-- A cross product whose terms vanish has no rounding errors. -/
theorem exact_cross_of_eq_zero (ht : t.isFinite = true) (hw : w.isFinite = true)
    (h : ∀ i j, i ≠ j → t.exact.component i * w.exact.component j = 0) :
    (t.cross w).isFinite = true ∧ (t.cross w).exact = ⟨0, 0, 0⟩ := by
  obtain ⟨htx, hty, htz⟩ := (isFinite_iff t).mp ht
  obtain ⟨hwx, hwy, hwz⟩ := (isFinite_iff w).mp hw
  have hx := exact_mul_sub_mul_of_eq_zero hty hwz htz hwy (h 1 2 (by decide)) (h 2 1 (by decide))
  have hy := exact_mul_sub_mul_of_eq_zero htz hwx htx hwz (h 2 0 (by decide)) (h 0 2 (by decide))
  have hz := exact_mul_sub_mul_of_eq_zero htx hwy hty hwx (h 0 1 (by decide)) (h 1 0 (by decide))
  refine ⟨(isFinite_iff _).mpr ⟨hx.1, hy.1, hz.1⟩, ?_⟩
  ext
  exacts [hx.2, hy.2, hz.2]

/-! ## Products that cancel -/

/-- The product of a quotient with a number of magnitude at most seven: two roundings. -/
theorem error_div_mul {a d p : Float32} (h : (a / d * p).isFinite = true)
    (hd : d.isFinite = true) (hp : |toReal p| ≤ 7) :
    |toReal (a / d * p) - toReal a / toReal d * toReal p| ≤
      |toReal a / toReal d * toReal p| * (1 / 2 ^ 23 + 1 / 2 ^ 48) + 1 / 2 ^ 146 := by
  obtain ⟨hquotient, hfp⟩ := Binary32.isFinite_of_mul h
  obtain ⟨ha, -, hne⟩ := isFinite_of_div hquotient
  have e₁ := ((rounds_div ha hd (hne hd)).isNearest hquotient).abs_sub_le
  have e₂ := ((rounds_mul hquotient hfp).isNearest h).abs_sub_le
  generalize toReal (a / d * p) = f at *
  generalize toReal (a / d) = u at *
  generalize toReal a / toReal d = x at *
  generalize toReal p = y at *
  have hfactor : |u * y - x * y| ≤ |x * y| / 2 ^ 24 + 7 / 2 ^ 150 := by
    rw [← sub_mul, abs_mul, abs_mul]
    calc |u - x| * |y| ≤ (|x| / 2 ^ 24 + 1 / 2 ^ 150) * |y| := by gcongr
      _ = |x| * |y| / 2 ^ 24 + 1 / 2 ^ 150 * |y| := by ring
      _ ≤ |x| * |y| / 2 ^ 24 + 1 / 2 ^ 150 * 7 := by gcongr
      _ = |x| * |y| / 2 ^ 24 + 7 / 2 ^ 150 := by ring
  have hsize := abs_le_of_near hfactor
  have htri := abs_sub_le f (u * y) (x * y)
  linarith

/-- Two products of equal value cancel up to four roundings. -/
theorem abs_cancel_le {a b d p q : Float32} (h : (a / d * p - b / d * q).isFinite = true)
    (hd : d.isFinite = true) (hp : |toReal p| ≤ 7) (hq : |toReal q| ≤ 7)
    (hsame : toReal a * toReal p = toReal b * toReal q) :
    |toReal (a / d * p - b / d * q)| ≤
      (1 + 1 / 2 ^ 10) / 2 ^ 22 * |toReal a / toReal d * toReal p| + 1 / 2 ^ 140 := by
  obtain ⟨hfirst, hsecond⟩ := Binary32.isFinite_of_sub h
  have e₁ := error_div_mul hfirst hd hp
  have e₂ := error_div_mul hsecond hd hq
  have e := ((rounds_sub hfirst hsecond).isNearest h).abs_sub_le
  have hequal : toReal b / toReal d * toReal q = toReal a / toReal d * toReal p := by
    rw [div_mul_eq_mul_div, div_mul_eq_mul_div, hsame]
  rw [hequal] at e₂
  generalize toReal (a / d * p) = x at *
  generalize toReal (b / d * q) = y at *
  generalize toReal a / toReal d * toReal p = z at *
  have hxy : |x - y| ≤ 2 * (|z| * (1 / 2 ^ 23 + 1 / 2 ^ 48) + 1 / 2 ^ 146) := by
    rw [abs_le] at e₁ e₂ ⊢
    constructor <;> linarith [e₁.1, e₁.2, e₂.1, e₂.2]
  have hsize := abs_le_of_near e
  have hz := abs_nonneg z
  linarith

/-! ## The cross product of parallel vectors -/

theorem cross_mul_self (v : Vec3 ℝ) (a : ℝ) : v.cross (v * a) = ⟨0, 0, 0⟩ := by
  ext <;> simp only [cross, x_mul, y_mul, z_mul] <;> ring

theorem mul_component_comm {v w : Vec3 ℝ} (h : v.cross w = ⟨0, 0, 0⟩) (i j : Fin 3) :
    v.component i * w.component j = v.component j * w.component i := by
  have hx : v.y * w.z = v.z * w.y := sub_eq_zero.mp (congrArg x h)
  have hy : v.z * w.x = v.x * w.z := sub_eq_zero.mp (congrArg y h)
  have hz : v.x * w.y = v.y * w.x := sub_eq_zero.mp (congrArg z h)
  fin_cases i <;> fin_cases j
  exacts [rfl, hz, hy.symm, hz.symm, rfl, hx, hy, hx.symm, rfl]

/-- The terms that cancel in the cross product of two parallel vectors, the first one scaled by `n`.
-/
noncomputable def terms (v w : Vec3 ℝ) (n : ℝ) : Vec3 ℝ :=
  ⟨v.y / n * w.z, v.z / n * w.x, v.x / n * w.y⟩

/-- They make up at most a third of the product of the squared norms. -/
theorem normSq_terms_le {v w : Vec3 ℝ} (h : v.cross w = ⟨0, 0, 0⟩) (n : ℝ) :
    (terms v w n).normSq ≤ v.normSq * w.normSq / 3 / n ^ 2 := by
  have hx : v.y * w.z = v.z * w.y := mul_component_comm h 1 2
  have hy : v.z * w.x = v.x * w.z := mul_component_comm h 2 0
  have hz : v.x * w.y = v.y * w.x := mul_component_comm h 0 1
  -- Every square is the product of two terms of the inner product.
  have hsquares : (v.y * w.z) ^ 2 + (v.z * w.x) ^ 2 + (v.x * w.y) ^ 2 =
      v.y * w.y * (v.z * w.z) + v.z * w.z * (v.x * w.x) + v.x * w.x * (v.y * w.y) := by
    linear_combination v.y * w.z * hx + v.z * w.x * hy + v.x * w.y * hz
  have hthird : v.y * w.y * (v.z * w.z) + v.z * w.z * (v.x * w.x) + v.x * w.x * (v.y * w.y) ≤
      inner v w ^ 2 / 3 := by
    rw [inner]
    nlinarith [sq_nonneg (v.x * w.x - v.y * w.y), sq_nonneg (v.y * w.y - v.z * w.z),
      sq_nonneg (v.z * w.z - v.x * w.x)]
  calc (terms v w n).normSq
      = ((v.y * w.z) ^ 2 + (v.z * w.x) ^ 2 + (v.x * w.y) ^ 2) / n ^ 2 := by
        simp only [terms, normSq]
        ring
    _ ≤ v.normSq * w.normSq / 3 / n ^ 2 := by
        rw [hsquares]
        gcongr
        exact hthird.trans (by gcongr; exact inner_sq_le v w)

/-- Each component of the product of a rounded direction and a parallel vector is four roundings. -/
theorem abs_component_cross_le (hn : v.norm.isFinite = true)
    (hfin : ((v / v.norm).cross w).isFinite = true)
    (hparallel : v.exact.cross w.exact = ⟨0, 0, 0⟩) (hw : w.exact.normSq ≤ 7 ^ 2) (i : Fin 3) :
    |((v / v.norm).cross w).exact.component i| ≤ (1 + 1 / 2 ^ 10) / 2 ^ 22 *
      |(terms v.exact w.exact (toReal v.norm)).component i| + 1 / 2 ^ 140 := by
  have hle := abs_component_le (by norm_num) hw
  obtain ⟨hfx, hfy, hfz⟩ := (isFinite_iff _).mp hfin
  fin_cases i
  · exact abs_cancel_le hfx hn (hle 2) (hle 1) (mul_component_comm hparallel 1 2)
  · exact abs_cancel_le hfy hn (hle 0) (hle 2) (mul_component_comm hparallel 2 0)
  · exact abs_cancel_le hfz hn (hle 1) (hle 0) (mul_component_comm hparallel 0 1)

/-- A vector that is not longer than another one, up to a small error. -/
theorem normSq_le_of_component_le {v w : Vec3 ℝ} {k e : ℝ}
    (h : ∀ i, |v.component i| ≤ k * |w.component i| + e) :
    v.normSq ≤ (1 + 1 / 2 ^ 9) * (k ^ 2 * w.normSq) + (1 + 2 ^ 9) * (3 * e ^ 2) := by
  have hsq (i : Fin 3) : v.component i ^ 2 ≤
      (1 + 1 / 2 ^ 9) * (k ^ 2 * w.component i ^ 2) + (1 + 2 ^ 9) * e ^ 2 := by
    have hle : v.component i ^ 2 ≤ (k * |w.component i| + e) ^ 2 :=
      sq_le_sq.mpr ((h i).trans (le_abs_self _))
    have hsplit : k ^ 2 * w.component i ^ 2 = (k * |w.component i|) ^ 2 := by
      rw [mul_pow, sq_abs]
    rw [hsplit]
    linarith [sq_nonneg (k * |w.component i| - 2 ^ 9 * e)]
  have hx := hsq 0
  have hy := hsq 1
  have hz := hsq 2
  simp only [component, normSq] at hx hy hz ⊢
  linarith

/-- The rounding errors of the product of a direction and a parallel vector of a norm of at most
seven. -/
theorem normSq_cross_direction_le (hn : v.norm.isFinite = true)
    (hleast : 1 / 2 ^ 20 ≤ toReal v.norm)
    (hfin : ((v / v.norm).cross w).isFinite = true)
    (hparallel : v.exact.cross w.exact = ⟨0, 0, 0⟩) (hw : w.exact.normSq ≤ 7 ^ 2) :
    ((v / v.norm).cross w).exact.normSq ≤ 95 / 10 ^ 14 := by
  have hpos : 0 < toReal v.norm := lt_of_lt_of_le (by norm_num) hleast
  have hlength : v.exact.normSq ≤ (1 + 1 / 2 ^ 20) * toReal v.norm ^ 2 := by
    linarith [(abs_le.mp (error_norm hn hleast)).2]
  have hterms : (terms v.exact w.exact (toReal v.norm)).normSq ≤ (1 + 1 / 2 ^ 20) * 7 ^ 2 / 3 := by
    refine (normSq_terms_le hparallel _).trans ?_
    rw [div_le_iff₀ (by positivity)]
    calc v.exact.normSq * w.exact.normSq / 3
        ≤ (1 + 1 / 2 ^ 20) * toReal v.norm ^ 2 * 7 ^ 2 / 3 := by
          gcongr
          exact normSq_nonneg _
      _ = (1 + 1 / 2 ^ 20) * 7 ^ 2 / 3 * toReal v.norm ^ 2 := by ring
  refine (normSq_le_of_component_le
    (abs_component_cross_le hn hfin hparallel hw)).trans ?_
  calc (1 + 1 / 2 ^ 9) * (((1 + 1 / 2 ^ 10) / 2 ^ 22) ^ 2 *
        (terms v.exact w.exact (toReal v.norm)).normSq) + (1 + 2 ^ 9) * (3 * (1 / 2 ^ 140) ^ 2)
      ≤ (1 + 1 / 2 ^ 9) * (((1 + 1 / 2 ^ 10) / 2 ^ 22) ^ 2 * ((1 + 1 / 2 ^ 20) * 7 ^ 2 / 3)) +
          (1 + 2 ^ 9) * (3 * (1 / 2 ^ 140) ^ 2) := by gcongr
    _ ≤ 95 / 10 ^ 14 := by norm_num

/-! ## The least direction -/

theorem toReal_leastDirection_eq : toReal leastDirection = (8796093 : ℕ) * 2 ^ (-43 : ℤ) := by
  have hunpack : unpack leastDirection = .finite .positive 8796093 (-43) (by norm_num) := rfl
  exact (toReal_of_unpack hunpack).trans (one_mul _)

/-- A vector that is short enough has no direction: the root is at most the least norm, which can be
stored, so rounding does not pass it. -/
theorem direction?_eq_none (hfin : v.norm.isFinite = true) (h : v.exact.normSq ≤ 95 / 10 ^ 14) :
    v.direction? leastDirection = none := by
  obtain ⟨hsum, hnonneg⟩ := isFinite_of_sqrt hfin
  have hnormSq : toReal v.normSq ≤ 96 / 10 ^ 14 := by
    have herror := (abs_le.mp (error_normSq hsum)).2
    linarith
  have hroot : √(toReal v.normSq) ≤ toReal leastDirection := by
    rw [toReal_leastDirection_eq]
    exact Real.sqrt_le_iff.mpr ⟨by positivity, hnormSq.trans (by norm_num)⟩
  have hle : toReal v.norm ≤ toReal leastDirection :=
    ((rounds_sqrt hsum hnonneg).isNearest hfin).le (onGrid_toReal leastDirection) hroot
  exact if_pos ((Binary32.le_iff hfin (by rfl)).mpr hle)

/-- Neither has a cross product whose terms vanish. -/
theorem direction?_cross_eq_none (ht : t.isFinite = true) (hw : w.isFinite = true)
    (h : ∀ i j, i ≠ j → t.exact.component i * w.exact.component j = 0) :
    (t.cross w).direction? leastDirection = none := by
  obtain ⟨hfin, hexact⟩ := exact_cross_of_eq_zero ht hw h
  have hzero : (t.cross w).exact.normSq = 0 := by
    rw [hexact]
    norm_num [normSq]
  have hmoderate : (t.cross w).IsModerate := isModerate_of_component_le hfin fun i =>
    (abs_component_le le_rfl (by rw [hzero, zero_pow two_ne_zero]) i).trans (by positivity)
  exact direction?_eq_none (isFinite_norm_of_isModerate hmoderate) (by rw [hzero]; positivity)

/-! ## Vectors along an axis -/

/-- All components but one vanish. -/
def OnAxis (v : Vec3 ℝ) : Prop := ∃ k, ∀ i, i ≠ k → v.component i = 0

/-- What is parallel to a vector along an axis is along the same axis, or one of them vanishes. -/
theorem OnAxis.mul_eq_zero {v w : Vec3 ℝ} (hv : v.OnAxis) (h : v.cross w = ⟨0, 0, 0⟩) {i j : Fin 3}
    (hij : i ≠ j) : v.component i * w.component j = 0 := by
  obtain ⟨k, hk⟩ := hv
  by_cases hi : i = k
  · rw [mul_component_comm h, hk j (hi ▸ hij.symm), zero_mul]
  · rw [hk i hi, zero_mul]

/-- A component that vanishes is not rounded when it is divided. -/
theorem exact_component_div_eq_zero {n : Float32} (hn : n.isFinite = true) (hne : toReal n ≠ 0)
    (hv : v.isFinite = true) {i : Fin 3} (hi : v.exact.component i = 0) :
    (v / n).exact.component i = 0 := by
  have hdiv {c : Float32} (hc : c.isFinite = true) (h0 : toReal c = 0) : toReal (c / n) = 0 := by
    have hrounds := rounds_div hc hn hne
    rw [h0, zero_div] at hrounds
    exact (hrounds.exact onGrid_zero (by norm_num)).2
  obtain ⟨hx, hy, hz⟩ := (isFinite_iff v).mp hv
  fin_cases i
  exacts [hdiv hx hi, hdiv hy hi, hdiv hz hi]

/-! ## Frames -/

/-- A vector of a norm of at most seven has moderate components. -/
theorem isModerate_of_normSq_le (hfin : w.isFinite = true) (hw : w.exact.normSq ≤ 7 ^ 2) :
    w.IsModerate :=
  isModerate_of_component_le hfin fun i =>
    (abs_component_le (by norm_num) hw i).trans (by norm_num)

end Vec3

section
variable {accel mag : Vec3 Float32}

/-- Parallel vectors have no frame, if the second one is short or both are along an axis. -/
theorem triad?_eq_none_of_parallel (haccel : accel.isFinite = true) (hmag : mag.isFinite = true)
    (hparallel : accel.exact.cross mag.exact = ⟨0, 0, 0⟩)
    (hshort : mag.exact.normSq ≤ 7 ^ 2 ∨ accel.exact.OnAxis) : triad? accel mag = none := by
  cases ht : accel.direction? leastDirection with
  | none => simp [triad?, ht]
  | some t =>
    suffices hnormal : (t.cross mag).direction? leastDirection = none by simp [triad?, ht, hnormal]
    by_cases hn : accel.norm.isFinite = true
    · have hdirects := Vec3.directs_of_direction? ht hn
      obtain rfl : t = accel / accel.norm := Vec3.eq_div_norm_of_direction? ht
      rcases hshort with hshort | haxis
      · have hcross := Vec3.isFinite_norm_cross hdirects.finite hdirects.unit
          (Vec3.isModerate_of_normSq_le hmag hshort)
        exact Vec3.direction?_eq_none hcross (Vec3.normSq_cross_direction_le hn hdirects.least
          (Vec3.isFinite_of_norm hcross) hparallel hshort)
      · refine Vec3.direction?_cross_eq_none hdirects.finite hmag fun i j hij => ?_
        have hpos : 0 < toReal accel.norm := lt_of_lt_of_le (by norm_num) hdirects.least
        rcases mul_eq_zero.mp (haxis.mul_eq_zero hparallel hij) with hi | hj
        · rw [Vec3.exact_component_div_eq_zero hn hpos.ne' haccel hi, zero_mul]
        · rw [hj, mul_zero]
    · -- The norm overflows, so the direction and all products vanish.
      have hinf := (Vec3.magnitude_norm haccel).overflown_of_not_finite hn
      obtain ⟨hfin, hexact⟩ := Vec3.exact_direction_of_overflow haccel ht hinf
      refine Vec3.direction?_cross_eq_none hfin hmag fun i j _ => ?_
      have hi : t.exact.component i = 0 := by
        rw [hexact]
        fin_cases i <;> rfl
      rw [hi, zero_mul]

/-! ## Alignment -/

/-- Readings that give no attitude, and that no estimator aligns with: it stays as it is. -/
structure RefusedReadings (accel mag : Vec3 Float32) : Prop where
  attitude : ∀ reference, attitudeOf? accel mag reference = none
  estimator : ∀ (f : Estimator Float32) (gyro : Vec3 Float32),
    f.serve (.align ⟨gyro, accel, mag⟩) = (f, false)

/-- **Parallel readings are refused if the norm of the field is at most seven, or if they are along
an axis of the sensors.** The field in the local frame and the length of the force do not matter. -/
theorem refusedReadings_of_parallel (hparallel : accel.exact.cross mag.exact = ⟨0, 0, 0⟩)
    (hshort : mag.exact.normSq ≤ 7 ^ 2 ∨ accel.exact.OnAxis) : RefusedReadings accel mag := by
  have hnone (reference : Vec3 Float32) : attitudeOf? accel mag reference = none := by
    rw [attitudeOf?]
    split
    · rename_i hfin
      simp only [Bool.and_eq_true] at hfin
      rw [triad?_eq_none_of_parallel hfin.1.1 hfin.1.2 hparallel hshort]
      cases triad? gravityReference reference <;> rfl
    · rfl
  exact ⟨hnone, fun f gyro => Estimator.serve_align_of_eq_none (hnone f.config.field)⟩

end

/-! ## Two fields along one force -/

/-- The specific force on a vehicle at rest that is turned about all axes. -/
def tilted : Vec3 Float32 := ⟨-3.2, 7.0, -6.1⟩

/-- Opposite to the force, and half as long. -/
def shortField : Vec3 Float32 := ⟨1.6, -3.5, 3.05⟩

/-- Opposite to the force, and twice as long. -/
def longField : Vec3 Float32 := ⟨6.4, -14.0, 12.2⟩

theorem exact_tilted : tilted.exact = ⟨-13421773 / 2 ^ 22, 7, -12792627 / 2 ^ 21⟩ := by
  have hx : unpack tilted.x = .finite .negative 13421773 (-22) (by norm_num) := rfl
  have hy : unpack tilted.y = .finite .positive 14680064 (-21) (by norm_num) := rfl
  have hz : unpack tilted.z = .finite .negative 12792627 (-21) (by norm_num) := rfl
  ext
  · norm_num [toReal_of_unpack hx, signFactor]
  · norm_num [toReal_of_unpack hy, signFactor]
  · norm_num [toReal_of_unpack hz, signFactor]

theorem exact_shortField : shortField.exact = tilted.exact * (-1 / 2 : ℝ) := by
  have hx : unpack shortField.x = .finite .positive 13421773 (-23) (by norm_num) := rfl
  have hy : unpack shortField.y = .finite .negative 14680064 (-22) (by norm_num) := rfl
  have hz : unpack shortField.z = .finite .positive 12792627 (-22) (by norm_num) := rfl
  rw [exact_tilted]
  ext
  · norm_num [toReal_of_unpack hx, signFactor]
  · norm_num [toReal_of_unpack hy, signFactor]
  · norm_num [toReal_of_unpack hz, signFactor]

theorem exact_longField : longField.exact = tilted.exact * (-2 : ℝ) := by
  have hx : unpack longField.x = .finite .positive 13421773 (-21) (by norm_num) := rfl
  have hy : unpack longField.y = .finite .negative 14680064 (-20) (by norm_num) := rfl
  have hz : unpack longField.z = .finite .positive 12792627 (-20) (by norm_num) := rfl
  rw [exact_tilted]
  ext
  · norm_num [toReal_of_unpack hx, signFactor]
  · norm_num [toReal_of_unpack hy, signFactor]
  · norm_num [toReal_of_unpack hz, signFactor]

theorem refusedReadings_of_parallel_tilted :
    tilted.exact.cross shortField.exact = ⟨0, 0, 0⟩ ∧ shortField.exact.normSq ≤ 7 ^ 2 ∧
    RefusedReadings tilted shortField := by
  have hparallel : tilted.exact.cross shortField.exact = ⟨0, 0, 0⟩ := by
    rw [exact_shortField, Vec3.cross_mul_self]
  have hshort : shortField.exact.normSq ≤ 7 ^ 2 := by
    rw [exact_shortField, exact_tilted]
    norm_num [Vec3.normSq]
  exact ⟨hparallel, hshort, refusedReadings_of_parallel hparallel (.inl hshort)⟩

/-- The field twice as long as the force, and opposite to it, is finite and leaves the heading open.
It gives an attitude, and an estimator that is not running aligns with it. -/
theorem long_parallel_field_is_aligned :
    tilted.isFinite = true ∧ longField.isFinite = true ∧
    tilted.exact.cross longField.exact = ⟨0, 0, 0⟩ ∧
    (attitudeOf? tilted longField Estimator.defaultField).isSome = true ∧
    (((Estimator.new .default .aligned : Estimator Float32).align
      ⟨.zero, tilted, longField⟩).toOption.map (·.isRunning)) = some true := by
  refine ⟨rfl, rfl, ?_, by decide +kernel, by decide +kernel⟩
  rw [exact_longField, Vec3.cross_mul_self]

end Attitude
