import Attitude.Proofs.Binary32.Arithmetic

/-!
# Rounding errors

One rounding is off by at most the relative unit `2 ^ (-24)` of the exact result, and below the
normal numbers by `2 ^ (-150)`. `Approx` keeps such errors through sums, products, quotients and
roots of numbers of moderate size, where all of them are absolute: a result of magnitude up to eight
is off by at most `2 ^ (-20)`.

## Main results

* `IsNearest.abs_sub_le`: the error of one rounding
* `Approx.add`, `Approx.mul`, `Approx.div`, `Approx.sqrt`: how errors add up
-/

namespace Attitude.Binary32
open Float.Model

/-! ## One rounding -/

/-- Every number has a point of the grid nearby. -/
theorem exists_onGrid_near (x : ℝ) : ∃ y, OnGrid y ∧ |x - y| ≤ |x| / 2 ^ 24 + 1 / 2 ^ 150 := by
  by_cases hx : x = 0
  · refine ⟨0, onGrid_zero, ?_⟩
    rw [hx, sub_zero, abs_zero]
    positivity
  · obtain ⟨n, hlo, hhi⟩ := exists_mem_Ico_zpow (abs_pos.mpr hx) (one_lt_two (α := ℝ))
    -- The mantissa has 24 bits, unless the exponent would be below the least one.
    obtain ⟨e, he⟩ : ∃ e, e = max (n - 23) (-149) := ⟨_, rfl⟩
    have hpos : (0 : ℝ) < 2 ^ e := by positivity
    have hmantissa : |x / 2 ^ e| < 2 ^ 24 := by
      have hle : (2 : ℝ) ^ (n + 1) ≤ 2 ^ (e + 24) := zpow_le_zpow_right₀ one_le_two (by omega)
      rw [zpow_add₀ two_ne_zero e] at hle
      rw [abs_div, abs_of_pos hpos, div_lt_iff₀ hpos, mul_comm]
      exact hhi.trans_le hle
    have hround := abs_sub_round (x / 2 ^ e)
    generalize round (x / 2 ^ e) = m at hround
    refine ⟨m * 2 ^ e, ⟨m, e, ?_, by omega, rfl⟩, ?_⟩
    · have hm : |(m : ℝ)| < 2 ^ 24 + 1 := by
        have htri : |(m : ℝ)| ≤ |x / 2 ^ e| + |x / 2 ^ e - m| := by
          rw [abs_sub_comm]
          have h := abs_add_le (x / 2 ^ e) (m - x / 2 ^ e)
          rwa [add_sub_cancel] at h
        linarith
      have hm' : |m| < 2 ^ 24 + 1 := by exact_mod_cast hm
      omega
    · have hscaled : |x - m * 2 ^ e| = |x / 2 ^ e - m| * 2 ^ e := by
        rw [← abs_of_pos hpos, ← abs_mul, sub_mul, abs_of_pos hpos, div_mul_cancel₀ _ hpos.ne']
      have hstep : (2 : ℝ) ^ e ≤ 2 * (|x| / 2 ^ 24 + 1 / 2 ^ 150) := by
        rcases max_choice (n - 23) (-149) with hmax | hmax
        · rw [he, hmax, zpow_sub₀ two_ne_zero]
          have hpow : (2 : ℝ) ^ n / 2 ^ (23 : ℤ) = 2 * (2 ^ n / 2 ^ 24) := by norm_num; ring
          have hle : (2 : ℝ) ^ n / 2 ^ 24 ≤ |x| / 2 ^ 24 := by gcongr
          rw [hpow]
          linarith [show (0 : ℝ) ≤ 1 / 2 ^ 150 by positivity]
        · rw [he, hmax]
          have hx0 : (0 : ℝ) ≤ |x| / 2 ^ 24 := by positivity
          norm_num at hx0 ⊢
          linarith
      rw [hscaled]
      calc |x / 2 ^ e - m| * 2 ^ e ≤ 1 / 2 * 2 ^ e := by gcongr
        _ ≤ |x| / 2 ^ 24 + 1 / 2 ^ 150 := by linarith

/-- The error of one rounding, relative to the exact result. -/
theorem IsNearest.abs_sub_le {x r : ℝ} (h : IsNearest x r) :
    |r - x| ≤ |x| / 2 ^ 24 + 1 / 2 ^ 150 := by
  obtain ⟨y, hy, hnear⟩ := exists_onGrid_near x
  rw [abs_sub_comm]
  exact (h.dist_le y hy).trans hnear

/-! ## Accumulated errors -/

/-- A finite number within an error `e` of a real number `x` of magnitude at most `c`. -/
structure Approx (f : Float32) (x e c : ℝ) : Prop where
  finite : f.isFinite = true
  error : |toReal f - x| ≤ e
  size : |x| ≤ c

theorem approx_toReal {f : Float32} {c : ℝ} (h : f.isFinite = true) (hc : |toReal f| ≤ c) :
    Approx f (toReal f) 0 c :=
  ⟨h, by rw [sub_self, abs_zero], hc⟩

/-- Rounding a number of magnitude up to eight. -/
theorem Rounds.near {x : ℝ} {f : Float32} (h : Rounds x f) (hx : |x| ≤ 8) :
    f.isFinite = true ∧ |toReal f - x| ≤ 1 / 2 ^ 20 := by
  have height : OnGrid 8 := by exact_mod_cast onGrid_natCast (m := 8) (by norm_num)
  have hfin := h.isFinite_of_within height hx (by norm_num)
  refine ⟨hfin, (h.isNearest hfin).abs_sub_le.trans ?_⟩
  calc |x| / 2 ^ 24 + 1 / 2 ^ 150 ≤ 8 / 2 ^ 24 + 1 / 2 ^ 150 := by gcongr
    _ ≤ 1 / 2 ^ 20 := by norm_num

/-- A number near another one is not much larger. -/
theorem abs_le_of_near {r z a : ℝ} (h : |r - z| ≤ a) : |r| ≤ |z| + a := by
  have htri := abs_add_le z (r - z)
  rw [add_sub_cancel] at htri
  linarith

/-- A product changes little with its factors. -/
theorem abs_mul_sub_mul_le {x y x' y' a b c d : ℝ} (hx : |x' - x| ≤ a) (hy : |y' - y| ≤ b)
    (hc : |x| ≤ c) (hd : |y| ≤ d) : |x' * y' - x * y| ≤ a * (d + b) + c * b := by
  have hsplit : x' * y' - x * y = (x' - x) * y' + x * (y' - y) := by ring
  have hy' : |y'| ≤ d + b := (abs_le_of_near hy).trans (add_le_add_left hd b)
  have ha0 := (abs_nonneg _).trans hx
  have hc0 := (abs_nonneg _).trans hc
  calc |x' * y' - x * y| ≤ |x' - x| * |y'| + |x| * |y' - y| := by
        rw [hsplit, ← abs_mul, ← abs_mul]
        exact abs_add_le _ _
    _ ≤ a * (d + b) + c * b := by gcongr

/-- The error of a rounded result is that of the operands and that of the rounding. -/
theorem Rounds.approx {r z a c : ℝ} {f : Float32} (h : Rounds r f) (hr : |r - z| ≤ a)
    (hz : |z| ≤ c) (hle : c + a ≤ 8) : Approx f z (a + 1 / 2 ^ 20) c := by
  have hr' := abs_le_of_near hr
  obtain ⟨hfin, hround⟩ := h.near (by linarith)
  have htri := abs_sub_le (toReal f) r z
  exact ⟨hfin, by linarith, hz⟩

namespace Approx
variable {f g : Float32} {x y a b c d e : ℝ}

theorem mono (h : Approx f x a c) (hle : a ≤ e) (hcd : c ≤ d) : Approx f x e d :=
  ⟨h.finite, h.error.trans hle, h.size.trans hcd⟩

theorem error_nonneg (h : Approx f x a c) : 0 ≤ a := (abs_nonneg _).trans h.error

theorem add (hf : Approx f x a c) (hg : Approx g y b d) (h : c + d + (a + b) ≤ 8) :
    Approx (f + g) (x + y) (a + b + 1 / 2 ^ 20) (c + d) := by
  refine (rounds_add hf.finite hg.finite).approx ?_ ?_ h
  · rw [add_sub_add_comm]
    exact (abs_add_le _ _).trans (add_le_add hf.error hg.error)
  · exact (abs_add_le _ _).trans (add_le_add hf.size hg.size)

theorem sub (hf : Approx f x a c) (hg : Approx g y b d) (h : c + d + (a + b) ≤ 8) :
    Approx (f - g) (x - y) (a + b + 1 / 2 ^ 20) (c + d) := by
  refine (rounds_sub hf.finite hg.finite).approx ?_ ?_ h
  · rw [sub_sub_sub_comm]
    exact (abs_sub _ _).trans (add_le_add hf.error hg.error)
  · exact (abs_sub _ _).trans (add_le_add hf.size hg.size)

theorem mul (hf : Approx f x a c) (hg : Approx g y b d)
    (h : c * d + (a * (d + b) + c * b) ≤ 8) :
    Approx (f * g) (x * y) (a * (d + b) + c * b + 1 / 2 ^ 20) (c * d) := by
  refine (rounds_mul hf.finite hg.finite).approx
    (abs_mul_sub_mul_le hf.error hg.error hf.size hg.size) ?_ h
  rw [abs_mul]
  exact mul_le_mul hf.size hg.size (abs_nonneg y) ((abs_nonneg x).trans hf.size)

/-- The quotient by a number that is at least one. -/
theorem div (hf : Approx f x a c) (hg : Approx g y b d) (hy : 1 + b ≤ y) (hxy : |x / y| ≤ e)
    (h : e + (a + e * b) ≤ 8) : Approx (f / g) (x / y) (a + e * b + 1 / 2 ^ 20) e := by
  have hy0 : 0 < y := by linarith [hg.error_nonneg]
  have hg1 : 1 ≤ toReal g := by linarith [(abs_le.mp hg.error).1]
  have hg0 : 0 < toReal g := by linarith
  refine (rounds_div hf.finite hg.finite hg0.ne').approx ?_ hxy h
  have hsplit : toReal f / toReal g - x / y =
      (toReal f - x - x / y * (toReal g - y)) / toReal g := by
    field_simp
    ring
  rw [hsplit, abs_div, abs_of_pos hg0]
  calc |toReal f - x - x / y * (toReal g - y)| / toReal g
      ≤ |toReal f - x - x / y * (toReal g - y)| := div_le_self (abs_nonneg _) hg1
    _ ≤ |toReal f - x| + |x / y| * |toReal g - y| := by
        rw [← abs_mul]
        exact abs_sub _ _
    _ ≤ a + e * b := by
        have he := (abs_nonneg _).trans hxy
        have hf' := hf.error
        have hg' := hg.error
        gcongr

/-- The root of a number that is not small. -/
theorem sqrt (hf : Approx f x a c) (hx : 1 / 2 ≤ x) (ha : a ≤ 1 / 4) (hroot : √x ≤ d)
    (h : d + a ≤ 8) : Approx f.sqrt √x (a + 1 / 2 ^ 20) d := by
  have hf4 : 1 / 4 ≤ toReal f := by linarith [(abs_le.mp hf.error).1]
  refine (rounds_sqrt hf.finite (by linarith)).approx ?_
    (by rwa [abs_of_nonneg (Real.sqrt_nonneg x)]) h
  -- Both roots are at least one half, so their sum is a divisor of at least one.
  have hfroot : 1 / 2 ≤ √(toReal f) := Real.le_sqrt_of_sq_le (by linarith)
  have hxroot : 1 / 2 ≤ √x := Real.le_sqrt_of_sq_le (by linarith)
  have hproduct : (√(toReal f) - √x) * (√(toReal f) + √x) = toReal f - x := by
    linear_combination Real.sq_sqrt (show 0 ≤ toReal f by linarith) -
      Real.sq_sqrt (show 0 ≤ x by linarith)
  calc |√(toReal f) - √x| ≤ |√(toReal f) - √x| * |√(toReal f) + √x| := by
        rw [abs_of_nonneg (show 0 ≤ √(toReal f) + √x by linarith)]
        exact le_mul_of_one_le_right (abs_nonneg _) (by linarith)
    _ = |toReal f - x| := by rw [← abs_mul, hproduct]
    _ ≤ a := hf.error

end Approx

/-! ## Literals -/

theorem toReal_of_unpack {f : Float32} {s : UnpackedFloat.Sign} {m : ℕ} {e : ℤ} {hm : 0 < m}
    (h : unpack f = .finite s m e hm) : toReal f = signFactor s * (m * 2 ^ e) := by
  rw [toReal, h]
  rfl

theorem approx_of_unpack {f : Float32} {s : UnpackedFloat.Sign} {m : ℕ} {e : ℤ} {hm : 0 < m}
    (h : unpack f = .finite s m e hm) :
    Approx f (signFactor s * (m * 2 ^ e)) 0 |signFactor s * (m * 2 ^ e)| where
  finite := by rw [isFinite_eq, h]; rfl
  error := by
    rw [toReal_of_unpack h, sub_self, abs_zero]
  size := le_rfl

theorem approx_one : Approx 1.0 1 0 1 := by
  have hunpack : unpack 1.0 = .finite .positive 8388608 (-23) (by norm_num) := rfl
  have h := approx_of_unpack hunpack
  norm_num [signFactor] at h
  exact h

theorem toReal_one : toReal 1.0 = 1 := sub_eq_zero.mp (abs_nonpos_iff.mp approx_one.error)

theorem approx_two : Approx 2.0 2 0 2 := by
  have hunpack : unpack 2.0 = .finite .positive 8388608 (-22) (by norm_num) := rfl
  have h := approx_of_unpack hunpack
  norm_num [signFactor] at h
  exact h

theorem toReal_two : toReal 2.0 = 2 := sub_eq_zero.mp (abs_nonpos_iff.mp approx_two.error)

theorem approx_quarter : Approx 0.25 (1 / 4) 0 (1 / 4) := by
  have hunpack : unpack 0.25 = .finite .positive 8388608 (-25) (by norm_num) := rfl
  have h := approx_of_unpack hunpack
  norm_num [signFactor] at h
  exact h

end Attitude.Binary32
