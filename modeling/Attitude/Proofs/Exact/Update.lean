import Mathlib.Algebra.Order.Star.Real
import Mathlib.Analysis.InnerProductSpace.PiL2
import Mathlib.Analysis.Matrix.PosDef
import Mathlib.LinearAlgebra.Matrix.NonsingularInverse

/-!
# The linear measurement update

With a covariance `P`, an observation `H` and a noise `R`, the innovation has covariance `S = H P Hᵀ
+ R` and the gain is `K = P Hᵀ S⁻¹`. The update `(I - K H) P` is written in a form that shows
neither symmetry nor definiteness. Both follow from the symmetric form of the same matrix, `(I - K
H) P (I - K H)ᵀ + K R Kᵀ`, which holds because `K S = P Hᵀ`. For the same reason the inverse of the
updated covariance is `P⁻¹ + Hᵀ R⁻¹ H`: the measurement adds its information to that of the prior.

No other gain gives a smaller symmetric form. The update is therefore monotone in the noise: what is
measured with more noise leaves a larger covariance.
-/

namespace Attitude.Update
open Matrix
variable {n k : ℕ} {P : Matrix (Fin n) (Fin n) ℝ} {H : Matrix (Fin k) (Fin n) ℝ}
  {R R' : Matrix (Fin k) (Fin k) ℝ}

/-- The covariance of the innovation. -/
def innovation (P : Matrix (Fin n) (Fin n) ℝ) (H : Matrix (Fin k) (Fin n) ℝ)
    (R : Matrix (Fin k) (Fin k) ℝ) : Matrix (Fin k) (Fin k) ℝ := H * P * Hᵀ + R

/-- The gain of the update. -/
noncomputable def gain (P : Matrix (Fin n) (Fin n) ℝ) (H : Matrix (Fin k) (Fin n) ℝ)
    (R : Matrix (Fin k) (Fin k) ℝ) : Matrix (Fin n) (Fin k) ℝ := P * Hᵀ * (innovation P H R)⁻¹

/-- The covariance that the update leaves. -/
noncomputable def posterior (P : Matrix (Fin n) (Fin n) ℝ) (H : Matrix (Fin k) (Fin n) ℝ)
    (R : Matrix (Fin k) (Fin k) ℝ) : Matrix (Fin n) (Fin n) ℝ := (1 - gain P H R * H) * P

/-- A congruence keeps definiteness. -/
theorem posSemidef_congruence {A : Matrix (Fin n) (Fin n) ℝ} (hA : A.PosSemidef)
    (B : Matrix (Fin k) (Fin n) ℝ) : (B * A * Bᵀ).PosSemidef := by
  have h := hA.mul_mul_conjTranspose_same B
  rwa [conjTranspose_eq_transpose_of_trivial] at h

theorem isSymm_of_posSemidef {A : Matrix (Fin n) (Fin n) ℝ} (hA : A.PosSemidef) : A.IsSymm := by
  have h := hA.isHermitian.eq
  rwa [conjTranspose_eq_transpose_of_trivial] at h

theorem posSemidef_innovation (hP : P.PosSemidef) (hR : R.PosSemidef) :
    (innovation P H R).PosSemidef := (posSemidef_congruence hP H).add hR

/-- The equation that defines an optimal gain. -/
theorem gain_mul_innovation (hS : (innovation P H R).det ≠ 0) :
    gain P H R * innovation P H R = P * Hᵀ := by
  have hunit : IsUnit (innovation P H R).det := isUnit_iff_ne_zero.mpr hS
  rw [gain, Matrix.mul_assoc, Matrix.nonsing_inv_mul _ hunit, Matrix.mul_one]

/-- The noise that the gain lets through is what the posterior shows of the observation. -/
theorem gain_mul_noise (hS : (innovation P H R).det ≠ 0) :
    gain P H R * R = posterior P H R * Hᵀ := by
  have hK := gain_mul_innovation hS
  calc gain P H R * R
      = gain P H R * innovation P H R - gain P H R * (H * P * Hᵀ) := by
        rw [← Matrix.mul_sub, innovation, add_sub_cancel_left]
    _ = P * Hᵀ - gain P H R * (H * P * Hᵀ) := by rw [hK]
    _ = posterior P H R * Hᵀ := by
        simp only [posterior, Matrix.sub_mul, Matrix.one_mul, Matrix.mul_assoc]

/-- The symmetric form of the posterior. -/
theorem posterior_eq_symmetric_form (hS : (innovation P H R).det ≠ 0) :
    posterior P H R = (1 - gain P H R * H) * P * (1 - gain P H R * H)ᵀ
      + gain P H R * R * (gain P H R)ᵀ := by
  -- Both terms are the posterior against a factor, and the factors add up to the identity.
  rw [gain_mul_noise hS, ← posterior]
  simp only [Matrix.transpose_sub, Matrix.transpose_one, Matrix.transpose_mul, Matrix.mul_sub,
    Matrix.mul_one, Matrix.mul_assoc]
  abel

/-- An update keeps a covariance positive semidefinite. -/
theorem posSemidef_posterior (hP : P.PosSemidef) (hR : R.PosSemidef)
    (hS : (innovation P H R).det ≠ 0) : (posterior P H R).PosSemidef := by
  rw [posterior_eq_symmetric_form hS]
  exact (posSemidef_congruence hP _).add (posSemidef_congruence hR _)

/-- An update takes the information of the measurement off the covariance. -/
theorem sub_posterior (hP : P.PosSemidef) :
    P - posterior P H R = P * Hᵀ * (innovation P H R)⁻¹ * (P * Hᵀ)ᵀ := by
  have hsymm : Pᵀ = P := isSymm_of_posSemidef hP
  rw [posterior, gain, Matrix.transpose_mul, Matrix.transpose_transpose, hsymm]
  simp only [Matrix.sub_mul, Matrix.one_mul, Matrix.mul_assoc]
  abel

/-- An update never enlarges a covariance. -/
theorem posterior_le (hP : P.PosSemidef) (hR : R.PosSemidef) :
    (P - posterior P H R).PosSemidef := by
  rw [sub_posterior hP]
  exact posSemidef_congruence (posSemidef_innovation hP hR).inv _

/-! ## The information form -/

/-- The gain weighs a measurement by its information. -/
theorem gain_eq_posterior_mul (hS : (innovation P H R).det ≠ 0) (hR : R.det ≠ 0) :
    gain P H R = posterior P H R * Hᵀ * R⁻¹ := by
  rw [← gain_mul_noise hS, Matrix.mul_assoc, Matrix.mul_nonsing_inv _ (isUnit_iff_ne_zero.mpr hR),
    Matrix.mul_one]

/-- An update adds the information of the measurement to that of the prior. -/
theorem posterior_mul_information (hP : P.det ≠ 0) (hS : (innovation P H R).det ≠ 0)
    (hR : R.det ≠ 0) : posterior P H R * (P⁻¹ + Hᵀ * R⁻¹ * H) = 1 := by
  have hprior : posterior P H R * P⁻¹ = 1 - gain P H R * H := by
    rw [posterior, Matrix.mul_assoc, Matrix.mul_nonsing_inv _ (isUnit_iff_ne_zero.mpr hP),
      Matrix.mul_one]
  have hmeasured : posterior P H R * (Hᵀ * R⁻¹ * H) = gain P H R * H := by
    rw [gain_eq_posterior_mul hS hR]
    simp only [Matrix.mul_assoc]
  rw [Matrix.mul_add, hprior, hmeasured, sub_add_cancel]

/-- What an update leaves of an innovation. -/
theorem one_sub_mul_gain (hS : (innovation P H R).det ≠ 0) :
    1 - H * gain P H R = R * (innovation P H R)⁻¹ := by
  have hpredicted : H * P * Hᵀ = innovation P H R - R := by rw [innovation, add_sub_cancel_right]
  have hgain : H * gain P H R = 1 - R * (innovation P H R)⁻¹ := by
    calc H * gain P H R = H * P * Hᵀ * (innovation P H R)⁻¹ := by
          simp only [gain, Matrix.mul_assoc]
      _ = 1 - R * (innovation P H R)⁻¹ := by
          rw [hpredicted, Matrix.sub_mul, Matrix.mul_nonsing_inv _ (isUnit_iff_ne_zero.mpr hS)]
  rw [hgain, sub_sub_cancel]

/-! ## Order -/

/-- The order of covariances is that of their quadratic forms. -/
theorem dotProduct_mulVec_le {A B : Matrix (Fin n) (Fin n) ℝ} (h : (A - B).PosSemidef)
    (z : Fin n → ℝ) : z ⬝ᵥ B *ᵥ z ≤ z ⬝ᵥ A *ᵥ z := by
  have hz := h.dotProduct_mulVec_nonneg z
  rw [star_trivial, Matrix.sub_mulVec, dotProduct_sub] at hz
  linarith

/-- A principal minor of order two is not negative. -/
theorem minor_nonneg {A : Matrix (Fin n) (Fin n) ℝ} (hA : A.PosSemidef) (i j : Fin n) :
    0 ≤ A i i * A j j - A i j * A j i := by
  have h := (hA.submatrix ![i, j]).det_nonneg
  rwa [Matrix.det_fin_two] at h

/-- Noise along the axes adds to a determinant: every other term of the expansion is a product of
variances and a principal minor. -/
theorem prod_le_det_add_diagonal {A : Matrix (Fin 3) (Fin 3) ℝ} (hA : A.PosSemidef)
    {d : Fin 3 → ℝ} (hd : ∀ i, 0 ≤ d i) :
    d 0 * d 1 * d 2 ≤ (A + Matrix.diagonal d).det := by
  have hexpand : (A + Matrix.diagonal d).det = d 0 * d 1 * d 2
      + (d 0 * d 1 * A 2 2 + d 0 * d 2 * A 1 1 + d 1 * d 2 * A 0 0)
      + (d 0 * (A 1 1 * A 2 2 - A 1 2 * A 2 1) + d 1 * (A 0 0 * A 2 2 - A 0 2 * A 2 0)
        + d 2 * (A 0 0 * A 1 1 - A 0 1 * A 1 0)) + A.det := by
    simp [Matrix.det_fin_three]
    ring
  have hentry (i j k : Fin 3) : 0 ≤ d i * d j * A k k :=
    mul_nonneg (mul_nonneg (hd i) (hd j)) hA.diag_nonneg
  have hminor (i j k : Fin 3) : 0 ≤ d i * (A j j * A k k - A j k * A k j) :=
    mul_nonneg (hd i) (minor_nonneg hA j k)
  have hdet := hA.det_nonneg
  linarith [hentry 0 1 2, hentry 0 2 1, hentry 1 2 0, hminor 0 1 2, hminor 1 0 2, hminor 2 0 1]

/-- Isotropic noise of variance `r ≥ 1` keeps the determinant of an innovation at one or above. -/
theorem one_le_det_add_isotropic {A : Matrix (Fin 3) (Fin 3) ℝ} (hA : A.PosSemidef) {r : ℝ}
    (hr : 1 ≤ r) : 1 ≤ (A + Matrix.diagonal fun _ => r).det := by
  have hr0 : 0 ≤ r := by linarith
  have hsquare : 1 ≤ r * r := one_le_mul_of_one_le_of_one_le hr hr
  have hcube : 1 ≤ r * r * r := one_le_mul_of_one_le_of_one_le hsquare hr
  exact hcube.trans (prod_le_det_add_diagonal hA fun _ => hr0)

/-- Noise along every axis makes an innovation definite. -/
theorem posDef_innovation (hP : P.PosSemidef) {d : Fin k → ℝ} (hd : ∀ i, 0 < d i) :
    (innovation P H (Matrix.diagonal d)).PosDef :=
  Matrix.PosDef.posSemidef_add (posSemidef_congruence hP H) (Matrix.PosDef.diagonal hd)

/-! ## More noise -/

/-- **The gain is optimal**: with any other one the symmetric form exceeds the posterior, by the
covariance of what the difference of the gains makes of the innovation. -/
theorem symmetric_form_sub_posterior (hP : P.PosSemidef) (hR : R.PosSemidef)
    (hS : (innovation P H R).det ≠ 0) (K : Matrix (Fin n) (Fin k) ℝ) :
    (1 - K * H) * P * (1 - K * H)ᵀ + K * R * Kᵀ - posterior P H R =
      (K - gain P H R) * innovation P H R * (K - gain P H R)ᵀ := by
  have hP' : Pᵀ = P := isSymm_of_posSemidef hP
  have hS' : (innovation P H R)ᵀ = innovation P H R :=
    isSymm_of_posSemidef (posSemidef_innovation hP hR)
  have hleft := gain_mul_innovation hS
  have hright : innovation P H R * (gain P H R)ᵀ = H * P := by
    have h := congrArg Matrix.transpose hleft
    rwa [Matrix.transpose_mul, Matrix.transpose_mul, Matrix.transpose_transpose, hS', hP'] at h
  have hsplit : K * (innovation P H R * Kᵀ) = K * (H * (P * (Hᵀ * Kᵀ))) + K * (R * Kᵀ) := by
    simp only [innovation, Matrix.add_mul, Matrix.mul_add, Matrix.mul_assoc]
  calc (1 - K * H) * P * (1 - K * H)ᵀ + K * R * Kᵀ - posterior P H R
      = K * (innovation P H R * Kᵀ) - K * (H * P) - (P * Hᵀ * Kᵀ - gain P H R * (H * P)) := by
        rw [hsplit, posterior]
        simp only [Matrix.transpose_sub, Matrix.transpose_one, Matrix.transpose_mul, Matrix.mul_sub,
          Matrix.sub_mul, Matrix.mul_one, Matrix.one_mul, Matrix.mul_assoc]
        abel
    _ = (K - gain P H R) * innovation P H R * (K - gain P H R)ᵀ := by
        rw [← hright, ← hleft, Matrix.transpose_sub]
        simp only [Matrix.mul_sub, Matrix.sub_mul, Matrix.mul_assoc]
        abel

/-- What more noise adds to the posterior: the cost of a gain that is not the best one, and the
additional noise that it lets through. -/
theorem posterior_sub_posterior (hP : P.PosSemidef) (hR : R.PosSemidef)
    (hS : (innovation P H R).det ≠ 0) (hS' : (innovation P H R').det ≠ 0) :
    posterior P H R' - posterior P H R =
      (gain P H R' - gain P H R) * innovation P H R * (gain P H R' - gain P H R)ᵀ +
        gain P H R' * (R' - R) * (gain P H R')ᵀ := by
  have hnoise : gain P H R' * (R' - R) * (gain P H R')ᵀ =
      gain P H R' * R' * (gain P H R')ᵀ - gain P H R' * R * (gain P H R')ᵀ := by
    rw [Matrix.mul_sub, Matrix.sub_mul]
  rw [← symmetric_form_sub_posterior hP hR hS, hnoise, posterior_eq_symmetric_form hS']
  abel

/-- **More noise leaves a larger covariance.** The gain for the larger noise is one among all for
the smaller noise, of which it lets less through. -/
theorem posterior_mono (hP : P.PosSemidef) (hR : R.PosSemidef) (hle : (R' - R).PosSemidef)
    (hS : (innovation P H R).det ≠ 0) (hS' : (innovation P H R').det ≠ 0) :
    (posterior P H R' - posterior P H R).PosSemidef := by
  rw [posterior_sub_posterior hP hR hS hS']
  exact (posSemidef_congruence (posSemidef_innovation hP hR) _).add (posSemidef_congruence hle _)

/-- A definite form of an image is positive where the image is not zero. -/
theorem dotProduct_congruence_pos {A : Matrix (Fin k) (Fin k) ℝ} (hA : A.PosDef)
    {B : Matrix (Fin n) (Fin k) ℝ} {z : Fin n → ℝ} (hz : Bᵀ *ᵥ z ≠ 0) :
    0 < z ⬝ᵥ (B * A * Bᵀ) *ᵥ z := by
  have hpos := hA.dotProduct_mulVec_pos hz
  rw [star_trivial] at hpos
  calc 0 < Bᵀ *ᵥ z ⬝ᵥ A *ᵥ (Bᵀ *ᵥ z) := hpos
    _ = z ⬝ᵥ (B * A * Bᵀ) *ᵥ z := by
        rw [Matrix.mulVec_transpose, ← Matrix.dotProduct_mulVec, Matrix.mulVec_mulVec,
          ← Matrix.mulVec_transpose, Matrix.mulVec_mulVec]

/-- The gain sees a direction exactly when the observation sees what the covariance makes of it. -/
theorem transpose_gain_mulVec_ne_zero (hP : P.PosSemidef) (hR : R.PosSemidef)
    (hS : (innovation P H R).det ≠ 0) {z : Fin n → ℝ} (hz : H *ᵥ (P *ᵥ z) ≠ 0) :
    (gain P H R)ᵀ *ᵥ z ≠ 0 := by
  intro hzero
  apply hz
  have hS' : (innovation P H R)ᵀ = innovation P H R :=
    isSymm_of_posSemidef (posSemidef_innovation hP hR)
  have htransposed := congrArg Matrix.transpose (gain_mul_innovation hS)
  rw [Matrix.transpose_mul, Matrix.transpose_mul, Matrix.transpose_transpose, hS',
    (isSymm_of_posSemidef hP).eq] at htransposed
  rw [Matrix.mulVec_mulVec, ← htransposed, ← Matrix.mulVec_mulVec, hzero, Matrix.mulVec_zero]

/-- Definitely more noise leaves a definitely larger covariance, in every direction that the
measurement tells anything about. -/
theorem posterior_strictMono (hP : P.PosSemidef) (hR : R.PosSemidef) (hlt : (R' - R).PosDef)
    (hS : (innovation P H R).det ≠ 0) (hS' : (innovation P H R').det ≠ 0) {z : Fin n → ℝ}
    (hz : H *ᵥ (P *ᵥ z) ≠ 0) : z ⬝ᵥ posterior P H R *ᵥ z < z ⬝ᵥ posterior P H R' *ᵥ z := by
  have hR' : R'.PosSemidef := by
    have h := hlt.posSemidef.add hR
    rwa [sub_add_cancel] at h
  have hcost := (posSemidef_congruence (posSemidef_innovation hP hR (H := H))
    (gain P H R' - gain P H R)).dotProduct_mulVec_nonneg z
  have hnoise := dotProduct_congruence_pos hlt (transpose_gain_mulVec_ne_zero hP hR' hS' hz)
  have hchange := congrArg (fun M => z ⬝ᵥ M *ᵥ z) (posterior_sub_posterior hP hR hS hS')
  rw [star_trivial] at hcost
  simp only [Matrix.sub_mulVec, Matrix.add_mulVec, dotProduct_sub, dotProduct_add] at hchange
  linarith

/-! ### What is predicted -/

section
variable {A : Matrix (Fin k) (Fin k) ℝ}

/-- A multiple of a vector lengthens the image of the vector under a covariance. -/
theorem sq_norm_mulVec_le (hA : A.PosSemidef) {c : ℝ} (hc : 0 ≤ c) (y : Fin k → ℝ) :
    ‖WithLp.toLp 2 (A *ᵥ y)‖ ^ 2 + ‖WithLp.toLp 2 (c • y)‖ ^ 2 ≤
      ‖WithLp.toLp 2 ((A + c • 1) *ᵥ y)‖ ^ 2 := by
  have hinner : 0 ≤ inner ℝ (WithLp.toLp 2 (A *ᵥ y)) (WithLp.toLp 2 (c • y)) := by
    have h := hA.dotProduct_mulVec_nonneg y
    rw [star_trivial] at h
    rw [EuclideanSpace.inner_toLp_toLp, star_trivial, smul_dotProduct]
    exact mul_nonneg hc h
  have hsq := norm_add_sq_real (WithLp.toLp 2 (A *ᵥ y)) (WithLp.toLp 2 (c • y))
  rw [add_mulVec, smul_mulVec, one_mulVec, WithLp.toLp_add]
  linarith

theorem norm_mulVec_le (hA : A.PosSemidef) {c : ℝ} (hc : 0 ≤ c) (y : Fin k → ℝ) :
    ‖WithLp.toLp 2 (A *ᵥ y)‖ ≤ ‖WithLp.toLp 2 ((A + c • 1) *ᵥ y)‖ := by
  refine le_of_sq_le_sq ?_ (norm_nonneg _)
  linarith [sq_norm_mulVec_le hA hc y, sq_nonneg ‖WithLp.toLp 2 (c • y)‖]

theorem norm_mulVec_lt (hA : A.PosSemidef) {c : ℝ} (hc : 0 < c) {y : Fin k → ℝ} (hy : y ≠ 0) :
    ‖WithLp.toLp 2 (A *ᵥ y)‖ < ‖WithLp.toLp 2 ((A + c • 1) *ᵥ y)‖ := by
  have hpos : 0 < ‖WithLp.toLp 2 (c • y)‖ := by
    rw [norm_pos_iff, ne_eq, WithLp.toLp_eq_zero]
    exact smul_ne_zero hc.ne' hy
  refine lt_of_pow_lt_pow_left₀ 2 (norm_nonneg _) ?_
  linarith [sq_norm_mulVec_le hA hc.le y, pow_pos hpos 2]

/-- Innovations with the same noise along all axes commute. -/
theorem add_smul_mul_comm (A : Matrix (Fin k) (Fin k) ℝ) (t u : ℝ) :
    (A + t • 1) * (A + u • 1) = (A + u • 1) * (A + t • 1) := by
  simp only [Matrix.add_mul, Matrix.mul_add, Matrix.smul_mul, Matrix.mul_smul, Matrix.one_mul,
    Matrix.mul_one, smul_add, smul_smul, mul_comm t u]
  abel

theorem add_smul_mul_self (A : Matrix (Fin k) (Fin k) ℝ) (t : ℝ) :
    (A + t • 1) * A = A * (A + t • 1) := by
  have h := add_smul_mul_comm A t 0
  rwa [zero_smul, add_zero] at h

/-- So the predictions with two such noises are images of one vector, each under the innovation with
the other noise. -/
theorem predicted_eq_mul {r s : ℝ} (hS : (A + r • 1).det ≠ 0) :
    A * (A + s • 1)⁻¹ = (A + r • 1) * (A * (A + r • 1)⁻¹ * (A + s • 1)⁻¹) := by
  rw [← Matrix.mul_assoc, ← Matrix.mul_assoc, add_smul_mul_self,
    Matrix.mul_nonsing_inv_cancel_right _ _ hS.isUnit]

theorem inverses_comm (A : Matrix (Fin k) (Fin k) ℝ) (r s : ℝ) :
    A * (A + r • 1)⁻¹ * (A + s • 1)⁻¹ = A * (A + s • 1)⁻¹ * (A + r • 1)⁻¹ := by
  have hinv := congrArg (·⁻¹) (add_smul_mul_comm A r s)
  simp only [Matrix.mul_inv_rev] at hinv
  rw [Matrix.mul_assoc, ← hinv, ← Matrix.mul_assoc]

variable {r s : ℝ} (hA : A.PosSemidef) (hr : 0 < r)
include hA hr

theorem posDef_add_smul : (A + r • 1).PosDef := by
  rw [Matrix.smul_one_eq_diagonal]
  exact Matrix.PosDef.posSemidef_add hA (Matrix.PosDef.diagonal fun _ => hr)

/-- What an update predicts of a measurement shrinks as its noise grows, when the noise is the same
along all axes. -/
theorem norm_predicted_le (hle : r ≤ s) (e : Fin k → ℝ) :
    ‖WithLp.toLp 2 ((A * (A + s • 1)⁻¹) *ᵥ e)‖ ≤ ‖WithLp.toLp 2 ((A * (A + r • 1)⁻¹) *ᵥ e)‖ := by
  have hS := posDef_add_smul hA hr
  have hT := posDef_add_smul hA (hr.trans_le hle)
  have hsplit : A + s • 1 = A + r • 1 + (s - r) • 1 := by
    rw [add_assoc, ← add_smul, add_sub_cancel]
  have hy := norm_mulVec_le hS.posSemidef (sub_nonneg.mpr hle)
    ((A * (A + r • 1)⁻¹ * (A + s • 1)⁻¹) *ᵥ e)
  rwa [← hsplit, mulVec_mulVec, mulVec_mulVec, ← predicted_eq_mul hS.det_pos.ne', inverses_comm,
    ← predicted_eq_mul hT.det_pos.ne'] at hy

/-- It shrinks strictly, unless nothing is predicted of the difference at all. -/
theorem norm_predicted_lt (hlt : r < s) {e : Fin k → ℝ} (he : A *ᵥ e ≠ 0) :
    ‖WithLp.toLp 2 ((A * (A + s • 1)⁻¹) *ᵥ e)‖ < ‖WithLp.toLp 2 ((A * (A + r • 1)⁻¹) *ᵥ e)‖ := by
  have hS := posDef_add_smul hA hr
  have hT := posDef_add_smul hA (hr.trans hlt)
  have hsplit : A + s • 1 = A + r • 1 + (s - r) • 1 := by
    rw [add_assoc, ← add_smul, add_sub_cancel]
  have hne : (A * (A + r • 1)⁻¹ * (A + s • 1)⁻¹) *ᵥ e ≠ 0 := by
    -- Both innovations take the vector back to `A *ᵥ e`.
    intro hzero
    have hback := congrArg (fun v => (A + s • 1) *ᵥ ((A + r • 1) *ᵥ v)) hzero
    simp only [mulVec_zero, mulVec_mulVec] at hback
    rw [← predicted_eq_mul hS.det_pos.ne', ← Matrix.mul_assoc, add_smul_mul_self,
      Matrix.mul_nonsing_inv_cancel_right _ _ hT.det_pos.ne'.isUnit] at hback
    exact he hback
  have hy := norm_mulVec_lt hS.posSemidef (sub_pos.mpr hlt) hne
  rwa [← hsplit, mulVec_mulVec, mulVec_mulVec, ← predicted_eq_mul hS.det_pos.ne', inverses_comm,
    ← predicted_eq_mul hT.det_pos.ne'] at hy

end

end Attitude.Update
