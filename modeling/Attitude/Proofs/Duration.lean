import Attitude.Proofs.Binary32.Arithmetic
import Attitude.Session

/-!
# Durations in binary32

A span of microseconds is turned into seconds by one conversion and one product, and both round. No
span that a pair of stamps can have rounds to zero or overflows, so every positive span is a
duration.
-/

namespace Attitude
open Binary32

namespace Binary32

theorem toReal_zero : toReal 0.0 = 0 := rfl

theorem isFinite_zero : (0.0 : Float32).isFinite = true := rfl

/-- A microsecond, as the literal reads it. -/
theorem unpack_microsecond :
    unpack 1e-6 = .finite .positive 8796093 (-43) (by norm_num) := rfl

theorem isFinite_microsecond : (1e-6 : Float32).isFinite = true := rfl

theorem toReal_microsecond : toReal 1e-6 = 8796093 * 2 ^ (-43 : ℤ) := by
  rw [toReal, unpack_microsecond, value, signFactor]
  norm_num

theorem microsecond_bounds : (2 : ℝ) ^ (-20 : ℤ) ≤ toReal 1e-6 ∧ toReal 1e-6 ≤ 1 := by
  rw [toReal_microsecond]
  norm_num

/-- The conversion of a word is finite, and at least one unless the word is zero. -/
theorem ofWord_bounds (n : UInt64) : n.toFloat32.isFinite = true ∧ 0 ≤ toReal n.toFloat32 ∧
    toReal n.toFloat32 ≤ 2 ^ 64 ∧ (n ≠ 0 → 1 ≤ toReal n.toFloat32) := by
  have hrounds := rounds_ofWord n
  have hgrid : OnGrid (2 ^ 64) := by exact_mod_cast onGrid_two_zpow (e := 64) (by norm_num)
  have hnonneg : (0 : ℝ) ≤ n.toNat := Nat.cast_nonneg _
  have hle : (n.toNat : ℝ) ≤ 2 ^ 64 := by exact_mod_cast n.toNat_lt.le
  have hfin : n.toFloat32.isFinite = true := by
    refine hrounds.isFinite_of_within hgrid ?_ (by norm_num)
    rwa [abs_of_nonneg hnonneg]
  have hnearest := hrounds.isNearest hfin
  refine ⟨hfin, hnearest.nonneg hnonneg, hnearest.le hgrid hle, ?_⟩
  intro hn
  have hpos : 1 ≤ n.toNat := by
    rw [Nat.one_le_iff_ne_zero, ne_eq, ← UInt64.toNat_zero, UInt64.toNat_inj]
    exact hn
  exact hnearest.ge (by exact_mod_cast onGrid_natCast (m := 1) (by norm_num))
    (by exact_mod_cast hpos)

end Binary32

/-- A duration is a finite number above zero. -/
theorem Estimator.isDuration_iff (dt : Float32) :
    isDuration dt = true ↔ dt.isFinite = true ∧ 0 < toReal dt := by
  have hiff : isDuration dt = true ↔ dt.isFinite = true ∧ ¬ dt ≤ 0.0 := by
    rw [isDuration, Bool.and_eq_true, Bool.not_eq_true', decide_eq_false_iff_not]
    rfl
  rw [hiff]
  constructor
  · rintro ⟨hfin, hpos⟩
    rw [le_iff hfin isFinite_zero, toReal_zero, not_le] at hpos
    exact ⟨hfin, hpos⟩
  · rintro ⟨hfin, hpos⟩
    refine ⟨hfin, ?_⟩
    rw [le_iff hfin isFinite_zero, toReal_zero, not_le]
    exact hpos

namespace Session

theorem rounds_seconds (n : UInt64) :
    Rounds (toReal n.toFloat32 * toReal 1e-6) (seconds n : Float32) :=
  rounds_mul (ofWord_bounds n).1 isFinite_microsecond

/-- No span overflows, however long it is. -/
theorem isFinite_seconds (n : UInt64) : (seconds n : Float32).isFinite = true := by
  obtain ⟨-, hnonneg, hle, -⟩ := ofWord_bounds n
  obtain ⟨hleast, hone⟩ := microsecond_bounds
  have hmicro : (0 : ℝ) ≤ toReal 1e-6 := le_trans (by positivity) hleast
  refine (rounds_seconds n).isFinite_of_within (y := 2 ^ (64 : ℤ)) (onGrid_two_zpow (by norm_num)) ?_
    (by norm_num)
  rw [abs_of_nonneg (mul_nonneg hnonneg hmicro)]
  calc toReal n.toFloat32 * toReal 1e-6 ≤ 2 ^ 64 * 1 := by gcongr
    _ = 2 ^ (64 : ℤ) := by norm_num

/-- **A positive span of microseconds is a duration**, however short or long it is. -/
theorem isDuration_seconds {n : UInt64} (hn : n ≠ 0) :
    Estimator.isDuration (seconds n : Float32) = true := by
  obtain ⟨-, -, -, hone⟩ := ofWord_bounds n
  have hone := hone hn
  obtain ⟨hleast, -⟩ := microsecond_bounds
  have hlower : (2 : ℝ) ^ (-20 : ℤ) ≤ toReal n.toFloat32 * toReal 1e-6 := by
    calc (2 : ℝ) ^ (-20 : ℤ) = 1 * 2 ^ (-20 : ℤ) := (one_mul _).symm
      _ ≤ toReal n.toFloat32 * toReal 1e-6 := by gcongr
  have hpos : (0 : ℝ) < 2 ^ (-20 : ℤ) := by positivity
  rw [Estimator.isDuration_iff]
  refine ⟨isFinite_seconds n, hpos.trans_le ?_⟩
  exact ((rounds_seconds n).isNearest (isFinite_seconds n)).ge (onGrid_two_zpow (by norm_num)) hlower

end Session
end Attitude
