import Attitude.Proofs.Binary32.Arithmetic

/-!
# Whole numbers from binary32

The conversion to a word drops the fraction of a number and holds the rest in the range of a word. It
is exact on every finite number: the mantissa is shifted until its exponent is zero, and only the
bits of the fraction are lost.
-/

namespace Attitude.Binary32
open Float.Model Float.Model.UnpackedFloat

/-- Shifting a magnitude to the exponent zero drops its fraction. -/
theorem roundToInt_eq (s : Sign) (m : ℕ) (e : ℤ) :
    roundToInt s m e = s.apply ⌊(m : ℝ) * 2 ^ e⌋₊ := by
  have hshift : roundToInt s m e = s.apply (m * 2 ^ e.toNat / 2 ^ (-e).toNat : ℕ) := by
    simp only [roundToInt, decreaseExponent, shiftToExponent, mantissa_shiftRight,
      mantissa_ofMantissaAndAccuracy, Nat.shiftLeft_eq, sub_zero, zero_sub]
    congr 4
    omega
  rw [hshift]
  congr 2
  have hscale : (m : ℝ) * 2 ^ e = ((m * 2 ^ e.toNat : ℕ) : ℝ) / (2 ^ (-e).toNat : ℕ) := by
    push_cast
    rw [mul_div_assoc, ← zpow_natCast, ← zpow_natCast, ← zpow_sub₀ two_ne_zero]
    congr 2
    omega
  rw [hscale, Nat.floor_div_natCast, Nat.floor_natCast]

/-- The word nearest to a natural number. -/
theorem toNat_ofNatClamp (n : ℕ) : (UInt64.ofNatClamp n).toNat = min n (2 ^ 64 - 1) := by
  have hsize : UInt64.size = 2 ^ 64 := rfl
  by_cases hn : n < UInt64.size
  · rw [UInt64.toNat_ofNatClamp_of_lt hn]
    omega
  · rw [UInt64.ofNatClamp, dif_neg hn, UInt64.toNat_ofNatLT]
    omega

/-- The conversion goes through the integers, with the largest word in place of infinity. -/
theorem toNat_toUInt64_eq (x : Float32) :
    x.toUInt64.toNat = min (toInt 0 (UInt64.size - 1) (unpack x)).toNat (2 ^ 64 - 1) :=
  toNat_ofNatClamp _

/-- **The conversion to a word keeps the whole part** of a finite number, within the range of a
word. -/
theorem toNat_toUInt64 {x : Float32} (hx : x.isFinite = true) :
    x.toUInt64.toNat = min ⌊toReal x⌋₊ (2 ^ 64 - 1) := by
  rw [isFinite_eq] at hx
  rw [toNat_toUInt64_eq, toReal]
  congr 1
  cases hu : unpack x with
  | finite s m e hm =>
    have hnonneg : (0 : ℝ) ≤ m * 2 ^ e := by positivity
    rw [toInt, roundToInt_eq, value]
    cases s with
    | positive => simp [Sign.apply, signFactor]
    | negative =>
      rw [signFactor, neg_one_mul, Nat.floor_of_nonpos (neg_nonpos.mpr hnonneg)]
      simp [Sign.apply]
  | zero s => simp [toInt, value]
  | infinity s => rw [hu] at hx; cases hx
  | notANumber => rw [hu] at hx; cases hx

/-- An infinity becomes the largest word. -/
theorem toNat_toUInt64_infinity {x : Float32} (hx : unpack x = .infinity .positive) :
    x.toUInt64.toNat = 2 ^ 64 - 1 := by
  rw [toNat_toUInt64_eq, hx]
  rfl

end Attitude.Binary32
