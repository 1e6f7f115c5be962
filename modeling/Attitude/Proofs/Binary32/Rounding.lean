import Attitude.Proofs.Binary32.Grid

/-!
# Rounding in the model of binary32

The model of `Float32` unpacks a number into sign, mantissa and exponent, computes there, and rounds
with a round bit and a sticky bit. `Describes` says which real mantissas an extended mantissa stands
for; a shift to the right keeps the description, and rounding a described mantissa gives an integer
within one half. With `isNearest_of_half` the outcome is a nearest point of the grid.

## Main results

* `roundsTo_roundWithAccuracy`: the rounding step of products, quotients and square roots
* `roundsTo_normalize`: the rounding step of sums and of integers
-/

namespace Attitude.Binary32
open Float.Model Float.Model.UnpackedFloat

/-! ## Rounded numbers -/

theorem isNearest_signFactor_mul {x r : ℝ} (s : Sign) (h : IsNearest x r) :
    IsNearest (signFactor s * x) (signFactor s * r) := by
  cases s with
  | negative => simpa [signFactor] using h.neg
  | positive => simpa [signFactor] using h

/-- An unpacked number is what rounding a real number gives, before it is packed. -/
structure RoundsTo (x : ℝ) (u : UnpackedFloat) : Prop where
  canonical : Canonical u
  finite : u.isFinite = true
  nearest : IsNearest x (value u)

/-- A canonical number is its own rounding. -/
theorem Canonical.roundsTo {u : UnpackedFloat} (h : Canonical u) (hfin : u.isFinite = true) :
    RoundsTo (value u) u := ⟨h, hfin, (onGrid_value h).isNearest⟩

/-! ## The exponent that a number is shifted to -/

theorem targetExponent_eq (t : ℤ) : Format.binary32.targetExponent t = max (t - 24) (-149) := rfl

/-- A mantissa is below the power of two of its digits. -/
theorem lt_two_pow_digits (m : ℕ) : m < 2 ^ (m.log2 + 1) := Nat.lt_log2_self

/-- Shifting to the target exponent leaves at most 24 bits, and all 24 above the least exponent. -/
theorem shifted_mantissa {m : ℕ} {e t : ℤ} (ht : t = max (m.log2 + 1 + e - 24) (-149))
    (het : e ≤ t) :
    m / 2 ^ (t - e).toNat < 2 ^ 24 ∧ (2 ^ 23 ≤ m / 2 ^ (t - e).toNat ∨ t = -149) := by
  constructor
  · rw [Nat.div_lt_iff_lt_mul (by positivity), ← pow_add]
    refine (lt_two_pow_digits m).trans_le (Nat.pow_le_pow_right two_pos ?_)
    omega
  · by_cases hleast : t = -149
    · exact .inr hleast
    · left
      have hm : m ≠ 0 := by
        rintro rfl
        have hlog : Nat.log2 0 = 0 := rfl
        omega
      rw [Nat.le_div_iff_mul_le (by positivity), ← pow_add]
      refine (Nat.pow_le_pow_right two_pos ?_).trans (Nat.log2_self_le hm)
      omega

/-! ## Extended mantissas -/

/-- An extended mantissa without the sticky bit, in half units. -/
def halves (em : ExtendedMantissa) : ℕ := 2 * em.mantissa + em.roundBit.toNat

/-- An extended mantissa describes a real mantissa that it is the beginning of. -/
structure Describes (em : ExtendedMantissa) (y : ℝ) : Prop where
  ge : (halves em : ℝ) ≤ 2 * y
  lt : 2 * y < halves em + 1
  exact : em.stickyBit = false → 2 * y = halves em

theorem halves_shiftRightOne (em : ExtendedMantissa) : halves em.shiftRightOne = em.mantissa := by
  have hbit : (em.mantissa % 2 != 0).toNat = em.mantissa % 2 := by
    rcases Nat.mod_two_eq_zero_or_one em.mantissa with h | h <;> rw [h] <;> rfl
  simp only [halves, ExtendedMantissa.shiftRightOne]
  rw [hbit]
  omega

theorem mantissa_le_of_describes {em : ExtendedMantissa} {y : ℝ} (h : Describes em y) :
    (em.mantissa : ℝ) ≤ y := by
  have hge := h.ge
  have hround : (0 : ℝ) ≤ em.roundBit.toNat := Nat.cast_nonneg _
  rw [halves] at hge
  push_cast at hge
  linarith

/-- A shift by one bit describes one half. -/
theorem Describes.shiftRightOne {em : ExtendedMantissa} {y : ℝ} (h : Describes em y) :
    Describes em.shiftRightOne (y / 2) := by
  have htwo : 2 * (y / 2) = y := by ring
  have hround : (em.roundBit.toNat : ℝ) ≤ 1 := by exact_mod_cast Bool.toNat_le em.roundBit
  constructor
  · rw [halves_shiftRightOne, htwo]
    exact mantissa_le_of_describes h
  · rw [halves_shiftRightOne, htwo]
    have hlt := h.lt
    rw [halves] at hlt
    push_cast at hlt
    linarith
  · intro hsticky
    rw [halves_shiftRightOne, htwo]
    have hbits : em.roundBit = false ∧ em.stickyBit = false := Bool.or_eq_false_iff.mp hsticky
    have hexact := h.exact hbits.2
    rw [halves, hbits.1, Bool.toNat_false] at hexact
    push_cast at hexact
    linarith

theorem Describes.shiftRight {em : ExtendedMantissa} {y : ℝ} (h : Describes em y) (n : ℕ) :
    Describes (em >>> n) (y / 2 ^ n) := by
  induction n with
  | zero =>
    rw [pow_zero, div_one]
    exact h
  | succ n ih =>
    rw [pow_succ, ← div_div]
    exact ih.shiftRightOne

theorem mantissa_shiftRight (em : ExtendedMantissa) (n : ℕ) :
    (em >>> n).mantissa = em.mantissa / 2 ^ n := by
  induction n with
  | zero => exact (Nat.div_one _).symm
  | succ n ih =>
    rw [pow_succ, ← Nat.div_div_eq_div_mul, ← ih]
    rfl

theorem describes_exact (m : ℕ) :
    Describes (ExtendedMantissa.ofMantissaAndAccuracy m .exact) m := by
  constructor <;> simp [ExtendedMantissa.ofMantissaAndAccuracy, halves]

@[simp] theorem mantissa_ofMantissaAndAccuracy (m : ℕ) (acc : Accuracy) :
    (ExtendedMantissa.ofMantissaAndAccuracy m acc).mantissa = m := by
  rcases acc with _ | (_ | _ | _) <;> rfl

theorem roundedMantissa_mem (em : ExtendedMantissa) :
    em.mantissa ≤ em.roundedMantissa ∧ em.roundedMantissa ≤ em.mantissa + 1 := by
  obtain ⟨m, r, s⟩ := em
  cases r <;> cases s <;>
    simp only [ExtendedMantissa.roundedMantissa, ExtendedMantissa.accuracy,
      Accuracy.roundToNearestEven] <;> omega

/-- Rounding a described mantissa moves it by at most one half. -/
theorem Describes.abs_sub_roundedMantissa {em : ExtendedMantissa} {y : ℝ} (h : Describes em y) :
    |y - em.roundedMantissa| ≤ 1 / 2 := by
  obtain ⟨m, r, s⟩ := em
  obtain ⟨hge, hlt, hexact⟩ := h
  cases r with
  | false =>
    -- At most one half above the mantissa, whatever the sticky bit says: the mantissa stays.
    have hround : (ExtendedMantissa.mk m false s).roundedMantissa = m := by cases s <;> rfl
    rw [hround, abs_le]
    simp only [halves, Bool.toNat_false, add_zero, Nat.cast_mul, Nat.cast_ofNat] at hge hlt
    constructor <;> linarith
  | true =>
    simp only [halves, Bool.toNat_true, Nat.cast_add, Nat.cast_mul, Nat.cast_ofNat,
      Nat.cast_one] at hge hlt hexact
    cases s with
    | false =>
      -- A tie: both neighbours are at one half.
      have htie := hexact rfl
      obtain ⟨hlo, hhi⟩ := roundedMantissa_mem ⟨m, true, false⟩
      have hlo' : (m : ℝ) ≤ (ExtendedMantissa.mk m true false).roundedMantissa := by
        exact_mod_cast hlo
      have hhi' : ((ExtendedMantissa.mk m true false).roundedMantissa : ℝ) ≤ m + 1 := by
        exact_mod_cast hhi
      rw [abs_le]
      constructor <;> linarith
    | true =>
      have hround : (ExtendedMantissa.mk m true true).roundedMantissa = m + 1 := rfl
      rw [hround, abs_le]
      push_cast
      constructor <;> linarith

/-! ## Rounding -/

/-- The shift to the target exponent, from an exponent that is not above it. -/
theorem shiftToTargetExponent_eq {m : ℕ} {e t : ℤ} (acc : Accuracy)
    (ht : t = max (m.log2 + 1 + e - 24) (-149)) (het : e ≤ t) :
    shiftToTargetExponent Format.binary32 m e acc =
      (ExtendedMantissa.ofMantissaAndAccuracy m acc >>> (t - e).toNat, t) := by
  have htarget : Format.binary32.targetExponent (totalExponent m e) = t := ht.symm
  unfold shiftToTargetExponent shiftToExponent
  rw [htarget]
  dsimp only
  rw [Int.toNat_of_nonneg (by omega)]
  congr 1
  omega

/-- The second shift undoes the carry that rounding may have caused, and changes no value. -/
theorem shiftToTargetExponent_carry {n : ℕ} {t : ℤ} (hn : n ≤ 2 ^ 24) (ht : -149 ≤ t)
    (hfull : 2 ^ 23 ≤ n ∨ t = -149) :
    ∃ em e, shiftToTargetExponent Format.binary32 n t .exact = (em, e) ∧
      (em.mantissa : ℝ) * 2 ^ e = n * 2 ^ t ∧ em.mantissa < 2 ^ 24 ∧ -149 ≤ e ∧
      (2 ^ 23 ≤ em.mantissa ∨ e = -149) := by
  by_cases hcarry : n = 2 ^ 24
  · subst hcarry
    have hlog : Nat.log2 (2 ^ 24) = 24 := Nat.log2_two_pow
    refine ⟨_, t + 1, shiftToTargetExponent_eq .exact (by omega) (by omega), ?_⟩
    rw [mantissa_shiftRight, mantissa_ofMantissaAndAccuracy, show (t + 1 - t).toNat = 1 by omega]
    norm_num
    refine ⟨?_, by omega⟩
    rw [zpow_add_one₀ two_ne_zero]
    ring
  · have hlt : n < 2 ^ 24 := lt_of_le_of_ne hn hcarry
    have hexponent : t = max (n.log2 + 1 + t - 24) (-149) := by
      rcases Nat.eq_zero_or_pos n with rfl | hpos
      · have hlog : Nat.log2 0 = 0 := rfl
        omega
      · have hlog : n.log2 < 24 := (Nat.log2_lt hpos.ne').mpr hlt
        have hlog' : 2 ^ 23 ≤ n → 23 ≤ n.log2 := (Nat.le_log2 hpos.ne').mpr
        omega
    refine ⟨_, t, shiftToTargetExponent_eq .exact hexponent le_rfl, ?_⟩
    rw [mantissa_shiftRight, mantissa_ofMantissaAndAccuracy, sub_self, Int.toNat_zero, pow_zero,
      Nat.div_one]
    exact ⟨rfl, hlt, ht, hfull⟩

/-- **Rounding with accuracy gives a nearest point of the grid**, from an exponent that is not above
the target. -/
theorem roundsTo_roundWithAccuracy {m : ℕ} {e : ℤ} {acc : Accuracy} {y : ℝ} (s : Sign)
    (h : Describes (ExtendedMantissa.ofMantissaAndAccuracy m acc) y)
    (he : e ≤ max (m.log2 + 1 + e - 24) (-149)) :
    RoundsTo (signFactor s * (y * 2 ^ e)) (roundWithAccuracy Format.binary32 s m e acc) := by
  obtain ⟨t, ht⟩ : ∃ t : ℤ, t = max (m.log2 + 1 + e - 24) (-149) := ⟨_, rfl⟩
  rw [← ht] at he
  have hdescribes := h.shiftRight (t - e).toNat
  obtain ⟨hlt, hfull⟩ := shifted_mantissa ht he
  have hmantissa := mantissa_shiftRight (ExtendedMantissa.ofMantissaAndAccuracy m acc) (t - e).toNat
  rw [mantissa_ofMantissaAndAccuracy] at hmantissa
  rw [← hmantissa] at hlt hfull
  have hshift := shiftToTargetExponent_eq acc ht he
  -- The real number, in units of the target exponent.
  have hscale : y * 2 ^ e = y / 2 ^ (t - e).toNat * 2 ^ t := by
    have hpow : (2 : ℝ) ^ t = 2 ^ (t - e).toNat * 2 ^ e := by
      rw [← zpow_natCast, ← zpow_add₀ two_ne_zero, Int.toNat_of_nonneg (by omega)]
      congr 1
      omega
    rw [hpow, ← mul_assoc, div_mul_cancel₀ _ (by positivity)]
  generalize ExtendedMantissa.ofMantissaAndAccuracy m acc >>> (t - e).toNat = em at *
  obtain ⟨hlo, hhi⟩ := roundedMantissa_mem em
  have hnearest := isNearest_of_half (mantissa_le_of_describes hdescribes)
    hdescribes.abs_sub_roundedMantissa (by omega) (by omega) hfull
  obtain ⟨em', e', hcarry, hvalue, hlt', he', hfull'⟩ := shiftToTargetExponent_carry
    (n := em.roundedMantissa) (t := t) (by omega) (by omega) (hfull.imp_left hlo.trans')
  rw [← hvalue, ← hscale] at hnearest
  rw [roundWithAccuracy]
  rw [hshift]
  dsimp only
  rw [hcarry]
  dsimp only
  split
  · rename_i hzero
    rw [hzero, Nat.cast_zero, zero_mul] at hnearest
    have hsigned := isNearest_signFactor_mul s hnearest
    rw [mul_zero] at hsigned
    exact ⟨trivial, rfl, hsigned⟩
  · exact ⟨⟨hlt', he', hfull'⟩, rfl, isNearest_signFactor_mul s hnearest⟩

/-- Lowering the exponent keeps the value. -/
theorem value_decreaseExponent (m : ℕ) (e t : ℤ) :
    ((decreaseExponent m e t).1 : ℝ) * 2 ^ (decreaseExponent m e t).2 = m * 2 ^ e := by
  simp only [decreaseExponent]
  rw [Nat.shiftLeft_eq, Nat.cast_mul, Nat.cast_pow, Nat.cast_ofNat, mul_assoc, ← zpow_natCast,
    ← zpow_add₀ two_ne_zero]
  congr 2
  omega

theorem log2_shiftLeft {m : ℕ} (hm : m ≠ 0) (k : ℕ) : (m <<< k).log2 = m.log2 + k := by
  rw [Nat.shiftLeft_eq]
  induction k with
  | zero => simp
  | succ k ih =>
    rw [pow_succ, ← mul_assoc, mul_comm _ 2, Nat.log2_two_mul (by positivity), ih]
    omega

theorem roundsTo_round {m : ℕ} {e : ℤ} (s : Sign) (hm : m ≠ 0) :
    RoundsTo (signFactor s * (m * 2 ^ e)) (UnpackedFloat.round Format.binary32 s m e) := by
  rw [UnpackedFloat.round]
  have hvalue := value_decreaseExponent m e (Format.binary32.targetExponent (totalExponent m e))
  rw [← hvalue]
  refine roundsTo_roundWithAccuracy s (describes_exact _) ?_
  simp only [decreaseExponent]
  rw [targetExponent_eq, totalExponent, log2_shiftLeft hm]
  push_cast
  omega

/-- **Normalization rounds a scaled integer.** -/
theorem roundsTo_normalize (n : ℤ) (e : ℤ) (zeroSign : Sign) :
    RoundsTo (n * 2 ^ e) (UnpackedFloat.normalize Format.binary32 n e zeroSign) := by
  rw [UnpackedFloat.normalize]
  split
  · rename_i hlt
    have hneg : n < 0 := Int.compare_eq_lt.mp hlt
    have h := roundsTo_round (m := (-n).toNat) (e := e) .negative (by omega)
    have hcast : ((-n).toNat : ℝ) = -n := by
      exact_mod_cast congrArg (Int.cast (R := ℝ)) (Int.toNat_of_nonneg (a := -n) (by omega))
    rwa [hcast, signFactor, neg_mul, one_mul, neg_mul, neg_neg] at h
  · rename_i heq
    have hzero : n = 0 := Int.compare_eq_eq.mp heq
    rw [hzero, Int.cast_zero, zero_mul]
    exact ⟨trivial, rfl, onGrid_zero.isNearest⟩
  · rename_i hgt
    have hpos : 0 < n := Int.compare_eq_gt.mp hgt
    have h := roundsTo_round (m := n.toNat) (e := e) .positive (by omega)
    have hcast : (n.toNat : ℝ) = n := by
      exact_mod_cast congrArg (Int.cast (R := ℝ)) (Int.toNat_of_nonneg hpos.le)
    rwa [hcast, signFactor, one_mul] at h

end Attitude.Binary32
