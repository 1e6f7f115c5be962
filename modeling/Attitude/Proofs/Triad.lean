import Mathlib
import Attitude.Proofs.Deviation
import Attitude.Proofs.Direction

/-!
# Rounded frames

The second direction of a frame is that of the cross product of the first one with another vector.
The rounding errors of the cross product are relative to that vector, so they turn the second
direction by little as long as the cross product is not much shorter than the vector: as long as the
two vectors are apart. Then the frame is nearly orthonormal. When they are parallel, what is left of
the cross product is rounding errors, and the second direction is any.

## Main results

* `Vec3.Frames`: the directions of a rounded frame
* `frames_of_triad?`: when a frame is one, and when it is nearly orthonormal
-/

namespace Attitude
open Binary32

namespace Vec3

/-! ## Cross products -/

/-- The error of a difference of two products of a given magnitude. -/
theorem error_mul_sub_mul {p q r s : Float32} (h : (p * q - r * s).isFinite = true) {c : ℝ}
    (hpq : |toReal p * toReal q| ≤ c) (hrs : |toReal r * toReal s| ≤ c) :
    |toReal (p * q - r * s) - (toReal p * toReal q - toReal r * toReal s)| ≤
      5 * c / 2 ^ 24 + 1 / 2 ^ 147 := by
  obtain ⟨hfpq, hfrs⟩ := Binary32.isFinite_of_sub h
  obtain ⟨hp, hq⟩ := Binary32.isFinite_of_mul hfpq
  obtain ⟨hr, hs⟩ := Binary32.isFinite_of_mul hfrs
  have e₁ := ((rounds_mul hp hq).isNearest hfpq).abs_sub_le
  have e₂ := ((rounds_mul hr hs).isNearest hfrs).abs_sub_le
  have e := ((rounds_sub hfpq hfrs).isNearest h).abs_sub_le
  have hc : 0 ≤ c := (abs_nonneg _).trans hpq
  generalize toReal (p * q) = x at *
  generalize toReal (r * s) = y at *
  have e₁' : |x - toReal p * toReal q| ≤ c / 2 ^ 24 + 1 / 2 ^ 150 := e₁.trans (by gcongr)
  have e₂' : |y - toReal r * toReal s| ≤ c / 2 ^ 24 + 1 / 2 ^ 150 := e₂.trans (by gcongr)
  have hxy : |x - y| ≤ 2 * c + 2 * (c / 2 ^ 24 + 1 / 2 ^ 150) := by
    rw [abs_le] at e₁' e₂' hpq hrs ⊢
    constructor <;> linarith [e₁'.1, e₁'.2, e₂'.1, e₂'.2, hpq.1, hpq.2, hrs.1, hrs.2]
  have e' : |toReal (p * q - r * s) - (x - y)| ≤
      (2 * c + 2 * (c / 2 ^ 24 + 1 / 2 ^ 150)) / 2 ^ 24 + 1 / 2 ^ 150 := e.trans (by gcongr)
  rw [abs_le] at e' e₁' e₂' ⊢
  constructor <;> linarith [e'.1, e'.2, e₁'.1, e₁'.2, e₂'.1, e₂'.2]

/-- The components of a direction are hardly larger than one. -/
theorem abs_component_le_of_unit {t : Vec3 ℝ} (h : |t.normSq - 1| ≤ 1 / 2 ^ 18) (i : Fin 3) :
    |t.component i| ≤ 1 + 1 / 2 ^ 10 := by
  refine abs_component_le (by norm_num) ?_ i
  linarith [(abs_le.mp h).2, show (1 : ℝ) + 1 / 2 ^ 18 ≤ (1 + 1 / 2 ^ 10) ^ 2 by norm_num]

/-- The error of the cross product of a direction and a vector of length `c`. -/
theorem error_cross {a w : Vec3 Float32} (h : (a.cross w).isFinite = true)
    (ha : |a.exact.normSq - 1| ≤ 1 / 2 ^ 18) {c : ℝ} (hc : 0 ≤ c) (hw : w.exact.normSq ≤ c ^ 2)
    (i : Fin 3) :
    |(a.cross w).exact.component i - (a.exact.cross w.exact).component i| ≤
      3 * c / 2 ^ 23 + 1 / 2 ^ 147 := by
  have hproduct (j k : Fin 3) :
      |a.exact.component j * w.exact.component k| ≤ (1 + 1 / 2 ^ 10) * c := by
    rw [abs_mul]
    exact mul_le_mul (abs_component_le_of_unit ha j) (abs_component_le hc hw k)
      (abs_nonneg _) (by norm_num)
  have hle : 5 * ((1 + 1 / 2 ^ 10) * c) / 2 ^ 24 + 1 / 2 ^ 147 ≤ 3 * c / 2 ^ 23 + 1 / 2 ^ 147 := by
    linarith
  obtain ⟨hx, hy, hz⟩ := (isFinite_iff _).mp h
  fin_cases i
  · exact (error_mul_sub_mul hx (hproduct 1 2) (hproduct 2 1)).trans hle
  · exact (error_mul_sub_mul hy (hproduct 2 0) (hproduct 0 2)).trans hle
  · exact (error_mul_sub_mul hz (hproduct 0 1) (hproduct 1 0)).trans hle

/-- The cross product of a direction and a moderate vector has a finite norm. -/
theorem isFinite_norm_cross {a w : Vec3 Float32} (hfin : a.isFinite = true)
    (ha : |a.exact.normSq - 1| ≤ 1 / 2 ^ 18) (hw : w.IsModerate) :
    (a.cross w).norm.isFinite = true := by
  obtain ⟨hx, hy, hz⟩ := (isFinite_iff a).mp hfin
  have hcomponent (i : Fin 3) : |a.exact.component i| ≤ (1025 : ℕ) * 2 ^ (-10 : ℤ) :=
    (abs_component_le_of_unit ha i).trans (by norm_num)
  have hax : Within a.x ((1025 : ℕ) * 2 ^ (-10 : ℤ)) := ⟨hx, hcomponent 0⟩
  have hay : Within a.y ((1025 : ℕ) * 2 ^ (-10 : ℤ)) := ⟨hy, hcomponent 1⟩
  have haz : Within a.z ((1025 : ℕ) * 2 ^ (-10 : ℤ)) := ⟨hz, hcomponent 2⟩
  have hwx := hw w.x (by simp [toList])
  have hwy := hw w.y (by simp [toList])
  have hwz := hw w.z (by simp [toList])
  have hdiff {p q r s : Float32} (hp : Within p ((1025 : ℕ) * 2 ^ (-10 : ℤ)))
      (hq : Within q (2 ^ 62 : ℕ)) (hr : Within r ((1025 : ℕ) * 2 ^ (-10 : ℤ)))
      (hs : Within s (2 ^ 62 : ℕ)) : Within (p * q - r * s) ((1025 : ℕ) * 2 ^ (53 : ℤ)) := by
    have hgrid : OnGrid ((1025 : ℕ) * 2 ^ (52 : ℤ)) :=
      onGrid_natCast_mul (by norm_num) (by norm_num)
    exact (hp.mul hq hgrid (by norm_num) (by norm_num)).sub
      (hr.mul hs hgrid (by norm_num) (by norm_num))
      (onGrid_natCast_mul (by norm_num) (by norm_num)) (by norm_num) (by norm_num)
  apply isFinite_norm_of_within
  intro c hc
  simp only [toList, cross, List.mem_cons, List.not_mem_nil, or_false] at hc
  rcases hc with rfl | rfl | rfl
  · exact hdiff hay hwz haz hwy
  · exact hdiff haz hwx hax hwz
  · exact hdiff hax hwy hay hwx

theorem isModerate_of_component_le {t : Vec3 Float32} (hfin : t.isFinite = true)
    (h : ∀ i, |t.exact.component i| ≤ (2 ^ 62 : ℕ)) : t.IsModerate := by
  obtain ⟨hx, hy, hz⟩ := (isFinite_iff t).mp hfin
  intro c hc
  simp only [toList, List.mem_cons, List.not_mem_nil, or_false] at hc
  rcases hc with rfl | rfl | rfl
  · exact ⟨hx, h 0⟩
  · exact ⟨hy, h 1⟩
  · exact ⟨hz, h 2⟩

theorem isModerate_of_unit {t : Vec3 Float32} (hfin : t.isFinite = true)
    (h : |t.exact.normSq - 1| ≤ 1 / 2 ^ 18) : t.IsModerate :=
  isModerate_of_component_le hfin fun i => (abs_component_le_of_unit h i).trans (by norm_num)

/-! ## Frames -/

/-- A rounded frame: two finite directions, and their rounded product. -/
structure Frames (a b : Vec3 Float32) : Prop where
  first : a.isFinite = true
  second : b.isFinite = true
  firstUnit : |a.exact.normSq - 1| ≤ 1 / 2 ^ 18
  secondUnit : |b.exact.normSq - 1| ≤ 1 / 2 ^ 18

/-- The third direction of a rounded frame. -/
theorem Frames.third {a b : Vec3 Float32} (h : a.Frames b) : (a.cross b).isFinite = true ∧
    ∀ i, |(a.cross b).exact.component i - (a.exact.cross b.exact).component i| ≤ 1 / 2 ^ 21 := by
  have hnorm := isFinite_norm_cross h.first h.firstUnit (isModerate_of_unit h.second h.secondUnit)
  have hfin := isFinite_of_norm hnorm
  refine ⟨hfin, ?_⟩
  intro i
  have hlength : b.exact.normSq ≤ (1 + 1 / 2 ^ 10) ^ 2 := by
    linarith [(abs_le.mp h.secondUnit).2,
      show (1 : ℝ) + 1 / 2 ^ 18 ≤ (1 + 1 / 2 ^ 10) ^ 2 by norm_num]
  exact (error_cross hfin h.firstUnit (by norm_num) hlength i).trans (by norm_num)

end Vec3

/-- **The frame of two moderate vectors.** It is nearly orthonormal when the vectors are apart. -/
theorem frames_of_triad? {primary secondary : Vec3 Float32} {m : Mat 3 3 Float32}
    (hprimary : primary.IsModerate) (hsecondary : secondary.IsModerate)
    (h : triad? primary secondary = some m) :
    ∃ a b : Vec3 Float32, a.Frames b ∧ m = .ofColumns a b (a.cross b) ∧
      (Vec3.Apart primary.exact secondary.exact → NearlyOrthonormal a.exact b.exact) := by
  simp only [triad?, Option.bind_eq_bind, Option.bind_eq_some_iff] at h
  obtain ⟨a, ha, b, hb, hm⟩ := h
  have hfirst := Vec3.directs_of_direction? ha (Vec3.isFinite_norm_of_isModerate hprimary)
  have hnorm := Vec3.isFinite_norm_cross hfirst.finite hfirst.unit hsecondary
  have hsecond := Vec3.directs_of_direction? hb hnorm
  refine ⟨a, b, ⟨hfirst.finite, hsecond.finite, hfirst.unit, hsecond.unit⟩,
    (Option.some.inj hm).symm, fun hapart => ⟨hfirst.unit, hsecond.unit, ?_⟩⟩
  -- The length of the secondary vector measures the errors of the product.
  have hsq : √secondary.exact.normSq ^ 2 = secondary.exact.normSq :=
    Real.sq_sqrt (Vec3.normSq_nonneg _)
  have herror := Vec3.normSq_error_cross hsq.symm
    (Vec3.error_cross (Vec3.isFinite_of_norm hnorm) hfirst.unit (Real.sqrt_nonneg _) hsq.symm.le)
  have hcross := hapart.normSq_le_cross (lt_of_lt_of_le (by norm_num) hfirst.least)
    hfirst.length hfirst.near
  have hlong := Vec3.normSq_le_of_cross hcross herror hsecond.least hsecond.length
  exact Vec3.abs_inner_le hfirst.unit hlong herror hsecond.least hsecond.near

end Attitude
