import Mathlib.Analysis.SpecialFunctions.Trigonometric.Bounds
import Attitude.Binary32
import Attitude.Proofs.Binary32.Error

/-!
# Sine and cosine near zero

What the estimator needs of the sine and the cosine is that they are finite and off by little,
`AccurateAt`. Near zero this can be seen from the definitions: below `2 ^ (-12)` a number is taken
for its own sine, and its cosine for one, and neither is off by more than the terms left out of the
two series.
-/

namespace Attitude.Binary32
open Float.Model Float.Model.UnpackedFloat

/-- The functions are accurate at a number, up to sixteen units of the last place of one. -/
structure AccurateAt (sin cos : Float32 → Float32) (x : Float32) : Prop where
  sin_finite : (sin x).isFinite = true
  sin_error : |toReal (sin x) - Real.sin (toReal x)| ≤ 1 / 2 ^ 20
  cos_finite : (cos x).isFinite = true
  cos_error : |toReal (cos x) - Real.cos (toReal x)| ≤ 1 / 2 ^ 20

theorem AccurateAt.approx {sin cos : Float32 → Float32} {x : Float32} (h : AccurateAt sin cos x) :
    Approx (sin x) (Real.sin (toReal x)) (1 / 2 ^ 20) 1 ∧
      Approx (cos x) (Real.cos (toReal x)) (1 / 2 ^ 20) 1 :=
  ⟨⟨h.sin_finite, h.sin_error, Real.abs_sin_le_one _⟩,
    ⟨h.cos_finite, h.cos_error, Real.abs_cos_le_one _⟩⟩

/-- The exponent field of a number, by its magnitude. -/
theorem toNat_unpackExponent (x : Float32) :
    (@unpackExponent Format.binary32 x.toBits.toBitVec).toNat =
      (magnitudeBits x).toNat / 2 ^ 23 := by
  have hmagnitude : (magnitudeBits x).toNat = x.toBits.toNat % 2 ^ 31 := by
    rw [magnitudeBits, UInt32.toNat_and]
    exact Nat.and_two_pow_sub_one_eq_mod _ 31
  have hfield : (@unpackExponent Format.binary32 x.toBits.toBitVec).toNat =
      (x.toBits.toNat >>> 23) % 2 ^ 8 := by
    rw [unpackExponent, BitVec.toNat_cast, BitVec.extractLsb_toNat]
    rfl
  rw [hmagnitude, hfield, Nat.shiftRight_eq_div_pow]
  omega

/-- An exponent field below 115 is that of a number below `2 ^ (-12)`. -/
theorem ofFields_small_iff (s : Sign) {e m : ℕ} (hm : m < 2 ^ 23) :
    e < 115 ↔ (ofFields s e m).isFinite = true ∧ |value (ofFields s e m)| < 1 / 2 ^ 12 := by
  have hsmall {n : ℕ} {k : ℤ} (hn : n < 2 ^ 24) (hk : k ≤ -36) : (n : ℝ) * 2 ^ k < 1 / 2 ^ 12 := by
    have hn' : (n : ℝ) < 2 ^ 24 := by exact_mod_cast hn
    have hk' : (2 : ℝ) ^ k ≤ 2 ^ (-36 : ℤ) := zpow_le_zpow_right₀ one_le_two hk
    calc (n : ℝ) * 2 ^ k < 2 ^ 24 * 2 ^ k := by gcongr
      _ ≤ 2 ^ 24 * 2 ^ (-36 : ℤ) := by gcongr
      _ = 1 / 2 ^ 12 := by norm_num
  rw [ofFields]
  split
  · split <;> exact iff_of_false (by omega) (by rintro ⟨⟨⟩, -⟩)
  · split
    · split
      · exact iff_of_true (by omega) ⟨rfl, by norm_num [value]⟩
      · refine iff_of_true (by omega) ⟨rfl, ?_⟩
        rw [abs_value_finite]
        exact hsmall (by omega) (by norm_num)
    · rw [abs_value_finite]
      constructor
      · intro he
        exact ⟨rfl, hsmall (by omega) (by omega)⟩
      · rintro ⟨-, hlt⟩
        by_contra he
        have hm' : (2 : ℝ) ^ 23 ≤ (2 ^ 23 + m : ℕ) := by exact_mod_cast Nat.le_add_right _ _
        have he' : (2 : ℝ) ^ (-35 : ℤ) ≤ 2 ^ ((e : ℤ) - 150) :=
          zpow_le_zpow_right₀ one_le_two (by omega)
        have hle : (2 : ℝ) ^ 23 * 2 ^ (-35 : ℤ) ≤ (2 ^ 23 + m : ℕ) * 2 ^ ((e : ℤ) - 150) := by
          gcongr
        norm_num at hle hlt
        linarith

/-- The test of the sine and the cosine for a small argument. -/
theorem magnitudeBits_lt_iff (x : Float32) : magnitudeBits x < 0x39800000 ↔
    x.isFinite = true ∧ |toReal x| < 1 / 2 ^ 12 := by
  have hexponent : magnitudeBits x < 0x39800000 ↔
      (@unpackExponent Format.binary32 x.toBits.toBitVec).toNat < 115 := by
    have hbound : (0x39800000 : UInt32).toNat = 115 * 2 ^ 23 := rfl
    rw [toNat_unpackExponent, UInt32.lt_iff_toNat_lt, hbound]
    omega
  rw [hexponent, ofFields_small_iff _ (BitVec.isLt _), ← unpack_eq_ofFields]
  rfl

/-- **Near zero the running sine and cosine are accurate.** -/
theorem accurateAt_of_small {x : Float32} (hfin : x.isFinite = true)
    (hsmall : |toReal x| < 1 / 2 ^ 12) : AccurateAt Scalar.sin Scalar.cos x := by
  have htest := (magnitudeBits_lt_iff x).mpr ⟨hfin, hsmall⟩
  have hsin : Scalar.sin x = x := if_pos htest
  have hcos : Scalar.cos x = 1.0 := if_pos htest
  have hsmall := hsmall.le
  refine ⟨by rwa [hsin], ?_, by rw [hcos]; exact approx_one.finite, ?_⟩
  · have hseries := Real.sin_bound (hsmall.trans (by norm_num))
    have hcube : |toReal x ^ 3 / 6| ≤ 1 / 2 ^ 36 := by
      rw [abs_div, abs_pow, abs_of_pos (by norm_num : (0 : ℝ) < 6)]
      have hpow := pow_le_pow_left₀ (abs_nonneg _) hsmall 3
      norm_num at hpow ⊢
      linarith
    have hfifth : |toReal x| ^ 5 / 100 ≤ 1 / 2 ^ 60 := by
      have hpow := pow_le_pow_left₀ (abs_nonneg _) hsmall 5
      norm_num at hpow ⊢
      linarith
    rw [hsin]
    rw [abs_le] at hseries hcube ⊢
    norm_num at hcube hfifth ⊢
    constructor <;> linarith [hseries.1, hseries.2, hcube.1, hcube.2]
  · have hle := Real.one_sub_sq_div_two_le_cos (x := toReal x)
    have hsquare := sq_le_sq' (abs_le.mp hsmall).1 (abs_le.mp hsmall).2
    rw [hcos, toReal_one, abs_of_nonneg (sub_nonneg.mpr (Real.cos_le_one _))]
    norm_num at hsquare ⊢
    linarith

end Attitude.Binary32
