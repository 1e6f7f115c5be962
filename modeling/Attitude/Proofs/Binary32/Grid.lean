import Mathlib

/-!
# The grid of binary32

The finite numbers of binary32 lie on a grid: a mantissa of at most 24 bits, scaled by a power of
two that is at least `2 ^ (-149)`. The grid has no upper end here, so that rounding is a map of the
reals; an operation overflows when the grid point it arrives at is too large to be stored.

Every bound on a rounded result goes through `IsNearest.ge` and `IsNearest.le`: a result cannot cross
a point of the grid.
-/

namespace Attitude.Binary32
open Float.Model Float.Model.UnpackedFloat

/-- A point of the grid. -/
def OnGrid (y : ℝ) : Prop := ∃ m e : ℤ, |m| ≤ 2 ^ 24 ∧ -149 ≤ e ∧ y = m * 2 ^ e

/-- A point of the grid that no other point is nearer to a number. At a tie there are two. -/
structure IsNearest (x r : ℝ) : Prop where
  onGrid : OnGrid r
  dist_le : ∀ y, OnGrid y → |x - r| ≤ |x - y|

/-! ## Points of the grid -/

theorem onGrid_natCast_mul {m : ℕ} {e : ℤ} (hm : m ≤ 2 ^ 24) (he : -149 ≤ e) :
    OnGrid (m * 2 ^ e) := by
  refine ⟨m, e, ?_, he, by push_cast; rfl⟩
  rw [abs_of_nonneg (by positivity)]
  exact_mod_cast hm

theorem onGrid_natCast {m : ℕ} (hm : m ≤ 2 ^ 24) : OnGrid m := by
  have h := onGrid_natCast_mul hm (e := 0) (by norm_num)
  rwa [zpow_zero, mul_one] at h

theorem onGrid_zero : OnGrid 0 := by exact_mod_cast onGrid_natCast (m := 0) (by norm_num)

theorem onGrid_two_zpow {e : ℤ} (he : -149 ≤ e) : OnGrid (2 ^ e) := by
  have h := onGrid_natCast_mul (m := 1) (by norm_num) he
  rwa [Nat.cast_one, one_mul] at h

theorem OnGrid.neg {y : ℝ} (h : OnGrid y) : OnGrid (-y) := by
  obtain ⟨m, e, hm, he, rfl⟩ := h
  exact ⟨-m, e, by rwa [abs_neg], he, by push_cast; ring⟩

/-- A point of the grid is its own nearest point. -/
theorem OnGrid.isNearest {r : ℝ} (h : OnGrid r) : IsNearest r r where
  onGrid := h
  dist_le := by
    intro y _
    rw [sub_self, abs_zero]
    exact abs_nonneg _

/-! ## Nearest points -/

namespace IsNearest
variable {x y r s : ℝ}

theorem neg (h : IsNearest x r) : IsNearest (-x) (-r) where
  onGrid := h.onGrid.neg
  dist_le := by
    intro y hy
    have hdist := h.dist_le (-y) hy.neg
    rwa [← abs_neg, ← abs_neg (x - -y), show -(x - r) = -x - -r by ring,
      show -(x - -y) = -x - y by ring] at hdist

/-- Rounding does not go below a point of the grid. -/
theorem ge (h : IsNearest x r) (hy : OnGrid y) (hyx : y ≤ x) : y ≤ r := by
  by_contra hlt
  have hlt : r < y := not_le.mp hlt
  have hdist := h.dist_le y hy
  rw [abs_of_nonneg (by linarith), abs_of_nonneg (by linarith)] at hdist
  linarith

/-- Rounding does not go above a point of the grid. -/
theorem le (h : IsNearest x r) (hy : OnGrid y) (hxy : x ≤ y) : r ≤ y := by
  have hneg := h.neg.ge hy.neg (neg_le_neg hxy)
  exact neg_le_neg_iff.mp hneg

theorem nonneg (h : IsNearest x r) (hx : 0 ≤ x) : 0 ≤ r := h.ge onGrid_zero hx

theorem within (h : IsNearest x r) (hy : OnGrid y) (hxy : |x| ≤ y) : |r| ≤ y := by
  rw [abs_le] at hxy ⊢
  exact ⟨h.ge hy.neg hxy.1, h.le hy hxy.2⟩

/-- Rounding keeps the order of different numbers. -/
theorem mono (hx : IsNearest x r) (hy : IsNearest y s) (hxy : x < y) : r ≤ s := by
  by_contra hlt
  have hlt : s < r := not_le.mp hlt
  -- `x` is not nearer to `s` than to `r`, so it is at or beyond their middle; `y` is not beyond it.
  have hright : r + s ≤ 2 * x := by
    have hdist := sq_le_sq.mpr (hx.dist_le s hy.onGrid)
    nlinarith
  have hleft : 2 * y ≤ r + s := by
    have hdist := sq_le_sq.mpr (hy.dist_le r hx.onGrid)
    nlinarith
  linarith

end IsNearest

/-! ## Rounding a mantissa

A number between two successive multiples of a power of two is rounded by rounding its mantissa to
an integer, as long as the mantissa fills all its bits or the power is the least one. -/

/-- An integer within one half is nearest among the integers. -/
theorem abs_sub_le_of_half {y : ℝ} {n : ℕ} (h : |y - n| ≤ 1 / 2) (k : ℤ) : |y - n| ≤ |y - k| := by
  by_cases hk : k = n
  · rw [hk, Int.cast_natCast]
  · have hone : (1 : ℝ) ≤ |(n : ℝ) - k| := by
      have hint : (1 : ℤ) ≤ |(n : ℤ) - k| := Int.one_le_abs (sub_ne_zero.mpr (Ne.symm hk))
      exact_mod_cast hint
    have htri : |(n : ℝ) - k| ≤ |y - n| + |y - k| := by
      rw [abs_sub_comm y n]
      exact abs_sub_le _ _ _
    linarith

/-- A mantissa that fills its bits, or has the least exponent, is at least as near as every point
of the grid when it is as near as every integer. -/
theorem isNearest_of_half {y : ℝ} {e : ℤ} {m n : ℕ} (hmy : (m : ℝ) ≤ y) (hhalf : |y - n| ≤ 1 / 2)
    (hn : n ≤ 2 ^ 24) (he : -149 ≤ e) (hfull : 2 ^ 23 ≤ m ∨ e = -149) :
    IsNearest (y * 2 ^ e) (n * 2 ^ e) where
  onGrid := onGrid_natCast_mul hn he
  dist_le := by
    rintro _ ⟨k, f, hk, hf, rfl⟩
    have hpos : (0 : ℝ) < 2 ^ e := by positivity
    rw [← sub_mul, abs_mul, abs_of_pos hpos]
    have hmultiple : ∀ j : ℤ, |y - n| * 2 ^ e ≤ |y * 2 ^ e - j * 2 ^ e| := by
      intro j
      rw [← sub_mul, abs_mul, abs_of_pos hpos]
      exact mul_le_mul_of_nonneg_right (abs_sub_le_of_half hhalf j) hpos.le
    by_cases hef : e ≤ f
    · -- The point is a multiple of the same power.
      have hpow : (2 : ℝ) ^ f = 2 ^ (f - e).toNat * 2 ^ e := by
        rw [← zpow_natCast, ← zpow_add₀ two_ne_zero, Int.toNat_of_nonneg (by omega)]
        congr 1
        omega
      have h := hmultiple (k * 2 ^ (f - e).toNat)
      rw [hpow]
      push_cast at h
      rwa [← mul_assoc]
    · -- The point is finer, so it lies below the binade of `y`, whose lower end is a multiple.
      have hm : (2 : ℝ) ^ 23 ≤ m := by
        have hnat : 2 ^ 23 ≤ m := hfull.resolve_right (by omega)
        exact_mod_cast hnat
      have hfine : (k : ℝ) * 2 ^ f ≤ 2 ^ 23 * 2 ^ e := by
        have hk : (k : ℝ) ≤ 2 ^ 24 := by exact_mod_cast le_of_abs_le hk
        have hstep : (2 : ℝ) ^ f ≤ 2 ^ (e - 1) := zpow_le_zpow_right₀ one_le_two (by omega)
        calc (k : ℝ) * 2 ^ f ≤ 2 ^ 24 * 2 ^ f := by gcongr
          _ ≤ 2 ^ 24 * 2 ^ (e - 1) := by gcongr
          _ = 2 ^ 23 * 2 ^ e := by rw [zpow_sub_one₀ two_ne_zero]; ring
      have hlower : (2 : ℝ) ^ 23 * 2 ^ e ≤ y * 2 ^ e := by gcongr; linarith
      calc |y - n| * 2 ^ e ≤ |y * 2 ^ e - (2 ^ 23 : ℕ) * 2 ^ e| := hmultiple (2 ^ 23 : ℕ)
        _ = y * 2 ^ e - 2 ^ 23 * 2 ^ e := by
          rw [Nat.cast_pow, Nat.cast_ofNat, abs_of_nonneg (by linarith)]
        _ ≤ y * 2 ^ e - k * 2 ^ f := by linarith
        _ ≤ |y * 2 ^ e - k * 2 ^ f| := le_abs_self _

/-! ## Unpacked numbers

The model of `Float32` unpacks a finite number into a sign, a mantissa and an exponent. -/

/-- A sign as a factor. -/
def signFactor : Sign → ℝ
  | .negative => -1
  | .positive => 1

theorem abs_signFactor (s : Sign) : |signFactor s| = 1 := by cases s <;> simp [signFactor]

/-- The real number that an unpacked number stands for; zero for the special values. -/
noncomputable def value : UnpackedFloat → ℝ
  | .finite s m e _ => signFactor s * (m * 2 ^ e)
  | _ => 0

theorem abs_value_finite (s : Sign) {m : ℕ} (e : ℤ) (hm : 0 < m) :
    |value (.finite s m e hm)| = m * 2 ^ e := by
  rw [value, abs_mul, abs_signFactor, one_mul, abs_of_nonneg (by positivity)]

/-- The mantissa fills its 24 bits, unless the exponent is the least one. -/
def Canonical : UnpackedFloat → Prop
  | .finite _ m e _ => m < 2 ^ 24 ∧ -149 ≤ e ∧ (2 ^ 23 ≤ m ∨ e = -149)
  | _ => True

theorem onGrid_signFactor_mul {y : ℝ} (s : Sign) (h : OnGrid y) : OnGrid (signFactor s * y) := by
  cases s with
  | negative => simpa [signFactor] using h.neg
  | positive => simpa [signFactor] using h

/-- A canonical number is on the grid. -/
theorem onGrid_value {u : UnpackedFloat} (h : Canonical u) : OnGrid (value u) := by
  cases u with
  | finite s m e hm => exact onGrid_signFactor_mul s (onGrid_natCast_mul h.1.le h.2.1)
  | zero s => exact onGrid_zero
  | infinity s => exact onGrid_zero
  | notANumber => exact onGrid_zero

end Attitude.Binary32
