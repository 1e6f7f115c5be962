import Attitude.Proofs.Binary32.Rounding

/-!
# Operations on unpacked numbers

Each arithmetic operation of the model computes an exact result as far as its mantissa and two more
bits go, and rounds that. So on finite numbers every operation rounds the exact result, and the
comparison of canonical numbers is the comparison of their values.
-/

namespace Attitude.Binary32
open Float.Model Float.Model.UnpackedFloat

theorem cast_apply (s : Sign) (m : ℕ) : ((s.apply m : ℤ) : ℝ) = signFactor s * m := by
  cases s <;> simp [Sign.apply, signFactor]

theorem signFactor_neg (s : Sign) : signFactor (-s) = -signFactor s := by
  cases s with
  | negative => exact (neg_neg (1 : ℝ)).symm
  | positive => rfl

theorem signFactor_mul (s t : Sign) : signFactor (s * t) = signFactor s * signFactor t := by
  cases s <;> cases t
  · exact (by norm_num : (1 : ℝ) = -1 * -1)
  · exact (by norm_num : (-1 : ℝ) = -1 * 1)
  · exact (by norm_num : (-1 : ℝ) = 1 * -1)
  · exact (by norm_num : (1 : ℝ) = 1 * 1)

theorem signFactor_div (s t : Sign) : signFactor (s / t) = signFactor s / signFactor t := by
  cases s <;> cases t
  · exact (by norm_num : (1 : ℝ) = -1 / -1)
  · exact (by norm_num : (-1 : ℝ) = -1 / 1)
  · exact (by norm_num : (-1 : ℝ) = 1 / -1)
  · exact (by norm_num : (1 : ℝ) = 1 / 1)

theorem value_ne_zero (s : Sign) {m : ℕ} (e : ℤ) (hm : 0 < m) : value (.finite s m e hm) ≠ 0 := by
  have hpos : (0 : ℝ) < m * 2 ^ e := by positivity
  rw [← abs_ne_zero, abs_value_finite]
  exact hpos.ne'

/-- A finite number is a zero or has a mantissa. -/
theorem finite_cases {u : UnpackedFloat} (h : u.isFinite = true) :
    (∃ s, u = .zero s) ∨ ∃ s m e hm, u = .finite s m e hm := by
  cases u with
  | zero s => exact .inl ⟨s, rfl⟩
  | finite s m e hm => exact .inr ⟨s, m, e, hm, rfl⟩
  | infinity s => cases h
  | notANumber => cases h

/-! ## Sums and differences -/

theorem canonical_neg {u : UnpackedFloat} (h : Canonical u) : Canonical u.neg := by
  cases u <;> exact h

theorem isFinite_neg_unpacked (u : UnpackedFloat) : u.neg.isFinite = u.isFinite := by
  cases u <;> rfl

theorem value_neg (u : UnpackedFloat) : value u.neg = -value u := by
  cases u with
  | finite s m e hm =>
    change signFactor (-s) * (m * 2 ^ e) = -(signFactor s * (m * 2 ^ e))
    rw [signFactor_neg, neg_mul]
  | zero s => exact neg_zero.symm
  | infinity s => exact neg_zero.symm
  | notANumber => exact neg_zero.symm

/-- An aligned summand keeps its value. -/
theorem cast_decreaseExponent (s : Sign) (m : ℕ) {e t : ℤ} (h : t ≤ e) :
    ((s.apply (decreaseExponent m e t).1 : ℤ) : ℝ) * 2 ^ t = signFactor s * (m * 2 ^ e) := by
  have hvalue := value_decreaseExponent m e t
  have hexponent : (decreaseExponent m e t).2 = t := by
    simp only [decreaseExponent]
    omega
  rw [hexponent] at hvalue
  rw [cast_apply, mul_assoc, hvalue]

theorem roundsTo_add {u v : UnpackedFloat} (hu : Canonical u) (hv : Canonical v)
    (hfu : u.isFinite = true) (hfv : v.isFinite = true) :
    RoundsTo (value u + value v) (UnpackedFloat.add Format.binary32 u v) := by
  rcases finite_cases hfu with ⟨s, rfl⟩ | ⟨s, m, e, hm, rfl⟩
  · rcases finite_cases hfv with ⟨t, rfl⟩ | ⟨t, n, f, hn, rfl⟩
    · have hzero : UnpackedFloat.add Format.binary32 (.zero s) (.zero t) = .zero s ∨
          UnpackedFloat.add Format.binary32 (.zero s) (.zero t) = .zero .positive := by
        cases s <;> cases t <;> simp [UnpackedFloat.add]
      have hvalue : value (.zero s) + value (.zero t) = 0 := add_zero 0
      rw [hvalue]
      rcases hzero with h | h <;> rw [h] <;> exact ⟨trivial, rfl, onGrid_zero.isNearest⟩
    · have hvalue : value (.zero s) + value (.finite t n f hn) = value (.finite t n f hn) :=
        zero_add _
      rw [hvalue]
      exact hv.roundsTo rfl
  · rcases finite_cases hfv with ⟨t, rfl⟩ | ⟨t, n, f, hn, rfl⟩
    · have hvalue : value (.finite s m e hm) + value (.zero t) = value (.finite s m e hm) :=
        add_zero _
      rw [hvalue]
      exact hu.roundsTo rfl
    · have h := roundsTo_normalize (s.apply (decreaseExponent m e (min e f)).1
        + t.apply (decreaseExponent n f (min e f)).1) (min e f) .positive
      rw [Int.cast_add, add_mul, cast_decreaseExponent s m (min_le_left e f),
        cast_decreaseExponent t n (min_le_right e f)] at h
      exact h

/-- A difference is a sum with the opposite. -/
theorem sub_eq_add_neg_unpacked (u v : UnpackedFloat) :
    UnpackedFloat.sub Format.binary32 u v = UnpackedFloat.add Format.binary32 u v.neg := by
  cases u with
  | finite s m e hm =>
    cases v with
    | finite t n f hn =>
      have hneg : ∀ k : ℤ, (-t).apply k = -t.apply k := by
        intro k
        cases t with
        | negative => exact (neg_neg k).symm
        | positive => rfl
      simp only [UnpackedFloat.sub, UnpackedFloat.neg, UnpackedFloat.add, hneg]
      rfl
    | zero t => rfl
    | infinity t => rfl
    | notANumber => rfl
  | zero s => cases v <;> rfl
  | infinity s => cases v <;> rfl
  | notANumber => cases v <;> rfl

/-! ## Products -/

/-- The product of canonical mantissas fills its bits, or its exponent is below the least one. -/
theorem exponent_mul_le {m n : ℕ} {e f : ℤ} (hm : 0 < m) (hn : 0 < n)
    (hfull : 2 ^ 23 ≤ m ∨ e = -149) (hfull' : 2 ^ 23 ≤ n ∨ f = -149) :
    e + f ≤ max ((m * n).log2 + 1 + (e + f) - 24) (-149) := by
  have hlog : 2 ^ 23 ≤ m * n → 23 ≤ (m * n).log2 := (Nat.le_log2 (by positivity)).mpr
  rcases hfull with h | h
  · have hle := hlog (h.trans (Nat.le_mul_of_pos_right m hn))
    omega
  · rcases hfull' with h' | h'
    · have hle := hlog (h'.trans (Nat.le_mul_of_pos_left n hm))
      omega
    · omega

theorem roundsTo_mul {u v : UnpackedFloat} (hu : Canonical u) (hv : Canonical v)
    (hfu : u.isFinite = true) (hfv : v.isFinite = true) :
    RoundsTo (value u * value v) (UnpackedFloat.mul Format.binary32 u v) := by
  rcases finite_cases hfu with ⟨s, rfl⟩ | ⟨s, m, e, hm, rfl⟩
  · have hvalue : value (.zero s) * value v = 0 := zero_mul _
    rw [hvalue]
    rcases finite_cases hfv with ⟨t, rfl⟩ | ⟨t, n, f, hn, rfl⟩ <;>
      exact ⟨trivial, rfl, onGrid_zero.isNearest⟩
  · rcases finite_cases hfv with ⟨t, rfl⟩ | ⟨t, n, f, hn, rfl⟩
    · have hvalue : value (.finite s m e hm) * value (.zero t) = 0 := mul_zero _
      rw [hvalue]
      exact ⟨trivial, rfl, onGrid_zero.isNearest⟩
    · have h := roundsTo_roundWithAccuracy (s * t) (describes_exact (m * n))
        (exponent_mul_le hm hn hu.2.2 hv.2.2)
      have hvalue : value (.finite s m e hm) * value (.finite t n f hn)
          = signFactor (s * t) * ((m * n : ℕ) * 2 ^ (e + f)) := by
        rw [signFactor_mul, zpow_add₀ two_ne_zero, value, value]
        push_cast
        ring
      rw [hvalue]
      exact h

/-! ## Quotients -/

/-- The remainder of a division says where the exact quotient lies. -/
theorem describes_div (a : ℕ) {n : ℕ} (hn : 0 < n) :
    Describes (ExtendedMantissa.ofMantissaAndAccuracy (a / n) (accuracyOfFraction (a % n) n))
      (a / n : ℝ) := by
  have hn' : (0 : ℝ) < n := by exact_mod_cast hn
  obtain ⟨q, hq⟩ : ∃ q, a / n = q := ⟨_, rfl⟩
  obtain ⟨k, hk⟩ : ∃ k, a % n = k := ⟨_, rfl⟩
  have hkn : (k : ℝ) < n := by exact_mod_cast hk ▸ Nat.mod_lt a hn
  have hquot : (a / n : ℝ) = q + k / n := by
    have hdiv : ((n * q + k : ℕ) : ℝ) = a := by
      rw [← hq, ← hk]
      exact_mod_cast Nat.div_add_mod a n
    rw [← hdiv]
    push_cast
    field_simp
  rw [hquot, hq, hk]
  rw [accuracyOfFraction]
  by_cases hzero : k = 0
  · rw [if_pos hzero, hzero, Nat.cast_zero, zero_div, add_zero]
    exact describes_exact q
  · rw [if_neg hzero]
    have hpos : (0 : ℝ) < k / n := by positivity
    have hlt : (k : ℝ) / n < 1 := by rwa [div_lt_one hn']
    cases hcompare : compare (2 * k) n with
    | lt =>
      have hhalf : (k : ℝ) / n < 1 / 2 := by
        have h : (2 * k : ℝ) < n := by exact_mod_cast Nat.compare_eq_lt.mp hcompare
        rw [div_lt_div_iff₀ hn' two_pos]
        linarith
      constructor
      · simp only [ExtendedMantissa.ofMantissaAndAccuracy, halves, Bool.toNat_false]
        push_cast
        linarith
      · simp only [ExtendedMantissa.ofMantissaAndAccuracy, halves, Bool.toNat_false]
        push_cast
        linarith
      · rintro ⟨⟩
    | eq =>
      have hhalf : (k : ℝ) / n = 1 / 2 := by
        have h : (2 * k : ℝ) = n := by exact_mod_cast Nat.compare_eq_eq.mp hcompare
        rw [div_eq_div_iff hn'.ne' two_ne_zero]
        linarith
      have hexact : 2 * ((q : ℝ) + k / n) = halves ⟨q, true, false⟩ := by
        rw [hhalf, halves, Bool.toNat_true]
        push_cast
        ring
      refine ⟨hexact.ge, ?_, fun _ => hexact⟩
      change 2 * ((q : ℝ) + k / n) < (halves ⟨q, true, false⟩ : ℝ) + 1
      linarith
    | gt =>
      have hhalf : 1 / 2 < (k : ℝ) / n := by
        have h : (n : ℝ) < 2 * k := by exact_mod_cast Nat.compare_eq_gt.mp hcompare
        rw [div_lt_div_iff₀ two_pos hn']
        linarith
      constructor
      · simp only [ExtendedMantissa.ofMantissaAndAccuracy, halves, Bool.toNat_true]
        push_cast
        linarith
      · simp only [ExtendedMantissa.ofMantissaAndAccuracy, halves, Bool.toNat_true]
        push_cast
        linarith
      · rintro ⟨⟩

/-- The quotient of mantissas fills its bits, or its exponent is below the least one. -/
theorem exponent_div_le {m n : ℕ} {e f t : ℤ} (hm : 0 < m) (hn : 0 < n) (hte : t ≤ e - f)
    (ht : t ≤ max (m.log2 + 1 + e - (n.log2 + 1 + f) - 24) (-149)) :
    t ≤ max ((m <<< (e - f - t).toNat / n).log2 + 1 + t - 24) (-149) := by
  by_cases hleast : t ≤ -149
  · omega
  · -- The dividend has at least 24 digits more than the divisor.
    have hlog : (m <<< (e - f - t).toNat).log2 = m.log2 + (e - f - t).toNat :=
      log2_shiftLeft hm.ne' _
    have hshift : n.log2 + 1 + 23 ≤ (m <<< (e - f - t).toNat).log2 := by omega
    have hquot : 2 ^ 23 ≤ m <<< (e - f - t).toNat / n := by
      rw [Nat.le_div_iff_mul_le hn]
      calc 2 ^ 23 * n ≤ 2 ^ 23 * 2 ^ (n.log2 + 1) :=
            Nat.mul_le_mul_left _ (lt_two_pow_digits n).le
        _ = 2 ^ (n.log2 + 1 + 23) := by rw [← pow_add, add_comm]
        _ ≤ 2 ^ (m <<< (e - f - t).toNat).log2 := Nat.pow_le_pow_right two_pos hshift
        _ ≤ m <<< (e - f - t).toNat := Nat.log2_self_le (by
          rw [Nat.shiftLeft_eq]
          positivity)
    have h23 : 23 ≤ (m <<< (e - f - t).toNat / n).log2 :=
      (Nat.le_log2 (by omega)).mpr hquot
    omega

theorem roundsTo_div {u v : UnpackedFloat} (hfu : u.isFinite = true) (hfv : v.isFinite = true)
    (hne : value v ≠ 0) :
    RoundsTo (value u / value v) (UnpackedFloat.div Format.binary32 u v) := by
  rcases finite_cases hfv with ⟨t, rfl⟩ | ⟨t, n, f, hn, rfl⟩
  · exact absurd rfl hne
  rcases finite_cases hfu with ⟨s, rfl⟩ | ⟨s, m, e, hm, rfl⟩
  · have hvalue : value (.zero s) / value (.finite t n f hn) = 0 := zero_div _
    rw [hvalue]
    exact ⟨trivial, rfl, onGrid_zero.isNearest⟩
  · obtain ⟨k, hk⟩ : ∃ k : ℤ, k = min (e - f)
        (max (m.log2 + 1 + e - (n.log2 + 1 + f) - 24) (-149)) := ⟨_, rfl⟩
    have hdiv : UnpackedFloat.div Format.binary32 (.finite s m e hm) (.finite t n f hn) =
        roundWithAccuracy Format.binary32 (s / t) (m <<< (e - f - k).toNat / n) k
          (accuracyOfFraction (m <<< (e - f - k).toNat % n) n) := by
      rw [hk]
      rfl
    have h := roundsTo_roundWithAccuracy (s / t) (describes_div (m <<< (e - f - k).toNat) hn)
      (exponent_div_le (e := e) (f := f) (t := k) hm hn (by omega) (by omega))
    have hvalue : value (.finite s m e hm) / value (.finite t n f hn) =
        signFactor (s / t) * ((m <<< (e - f - k).toNat : ℕ) / n * 2 ^ k) := by
      have hn' : (n : ℝ) ≠ 0 := by exact_mod_cast hn.ne'
      have hpow : (2 : ℝ) ^ e = 2 ^ (e - f - k).toNat * 2 ^ k * 2 ^ f := by
        rw [← zpow_natCast, ← zpow_add₀ two_ne_zero, ← zpow_add₀ two_ne_zero]
        congr 1
        omega
      rw [signFactor_div, value, value, Nat.shiftLeft_eq, hpow]
      push_cast
      have hsign : signFactor t ≠ 0 := by cases t <;> norm_num [signFactor]
      field_simp
    rw [hvalue, hdiv]
    exact h

/-! ## Square roots -/

/-- The remainder of an integer square root says where the exact root lies. -/
theorem describes_sqrt (a : ℕ) :
    Describes (ExtendedMantissa.ofMantissaAndAccuracy a.sqrt
      (if a - a.sqrt * a.sqrt = 0 then .exact
        else .inexact (if a - a.sqrt * a.sqrt ≤ a.sqrt then .lt else .gt))) √(a : ℝ) := by
  have hle : a.sqrt * a.sqrt ≤ a := Nat.sqrt_le a
  have hlt : a < (a.sqrt + 1) * (a.sqrt + 1) := Nat.lt_succ_sqrt a
  have hsq : √(a : ℝ) * √(a : ℝ) = a := Real.mul_self_sqrt (Nat.cast_nonneg a)
  have hnonneg : 0 ≤ √(a : ℝ) := Real.sqrt_nonneg a
  have hle' : (a.sqrt : ℝ) * a.sqrt ≤ a := by exact_mod_cast hle
  have hlt' : (a : ℝ) < (a.sqrt + 1) * (a.sqrt + 1) := by exact_mod_cast hlt
  generalize a.sqrt = q at *
  have hge : (q : ℝ) ≤ √(a : ℝ) := by
    by_contra h
    nlinarith [not_le.mp h]
  by_cases hzero : a - q * q = 0
  · have heq : (q : ℝ) * q = a := by exact_mod_cast le_antisymm hle (by omega)
    have hroot : √(a : ℝ) = q := by rw [← heq, Real.sqrt_mul_self (Nat.cast_nonneg q)]
    rw [if_pos hzero, hroot]
    exact describes_exact q
  · rw [if_neg hzero]
    by_cases hhalf : a - q * q ≤ q
    · have hbound : (a : ℝ) ≤ q * q + q := by exact_mod_cast (by omega : a ≤ q * q + q)
      rw [if_pos hhalf]
      constructor
      · simp only [ExtendedMantissa.ofMantissaAndAccuracy, halves, Bool.toNat_false]
        push_cast
        linarith
      · simp only [ExtendedMantissa.ofMantissaAndAccuracy, halves, Bool.toNat_false]
        push_cast
        nlinarith
      · rintro ⟨⟩
    · have hbound : (q * q + q + 1 : ℝ) ≤ a := by exact_mod_cast (by omega : q * q + q + 1 ≤ a)
      rw [if_neg hhalf]
      constructor
      · simp only [ExtendedMantissa.ofMantissaAndAccuracy, halves, Bool.toNat_true]
        push_cast
        nlinarith
      · simp only [ExtendedMantissa.ofMantissaAndAccuracy, halves, Bool.toNat_true]
        push_cast
        nlinarith
      · rintro ⟨⟩

/-- The root of a mantissa fills its bits, or its exponent is below the least one. -/
theorem exponent_sqrt_le {m : ℕ} {e t : ℤ} (hm : 0 < m) (hte : t ≤ e / 2)
    (ht : t ≤ max ((m.log2 + 1 + e + 1) / 2 - 24) (-149)) :
    t ≤ max ((m <<< (e - 2 * t).toNat).sqrt.log2 + 1 + t - 24) (-149) := by
  by_cases hleast : t ≤ -149
  · omega
  · have hlog : (m <<< (e - 2 * t).toNat).log2 = m.log2 + (e - 2 * t).toNat :=
      log2_shiftLeft hm.ne' _
    have hdigits : 46 ≤ (m <<< (e - 2 * t).toNat).log2 := by omega
    have hroot : 2 ^ 23 ≤ (m <<< (e - 2 * t).toNat).sqrt := by
      rw [Nat.le_sqrt]
      calc 2 ^ 23 * 2 ^ 23 = 2 ^ 46 := by norm_num
        _ ≤ 2 ^ (m <<< (e - 2 * t).toNat).log2 := Nat.pow_le_pow_right two_pos hdigits
        _ ≤ m <<< (e - 2 * t).toNat := Nat.log2_self_le (by
          rw [Nat.shiftLeft_eq]
          positivity)
    have h23 : 23 ≤ (m <<< (e - 2 * t).toNat).sqrt.log2 := (Nat.le_log2 (by omega)).mpr hroot
    omega

theorem roundsTo_sqrt {u : UnpackedFloat} (hfu : u.isFinite = true) (hnonneg : 0 ≤ value u) :
    RoundsTo √(value u) (UnpackedFloat.sqrt Format.binary32 u) := by
  rcases finite_cases hfu with ⟨s, rfl⟩ | ⟨s, m, e, hm, rfl⟩
  · have hvalue : √(value (.zero s)) = 0 := Real.sqrt_zero
    rw [hvalue]
    exact ⟨trivial, rfl, onGrid_zero.isNearest⟩
  · cases s with
    | negative =>
      have hm' : (0 : ℝ) < m := by exact_mod_cast hm
      have hneg : value (.finite .negative m e hm) < 0 := by
        have hpos : (0 : ℝ) < m * 2 ^ e := by positivity
        change -1 * ((m : ℝ) * 2 ^ e) < 0
        linarith
      linarith
    | positive =>
      obtain ⟨k, hk⟩ : ∃ k : ℤ, k = min (e / 2) (max ((m.log2 + 1 + e + 1) / 2 - 24) (-149)) :=
        ⟨_, rfl⟩
      have hsqrt : UnpackedFloat.sqrt Format.binary32 (.finite .positive m e hm) =
          roundWithAccuracy Format.binary32 .positive (m <<< (e - 2 * k).toNat).sqrt k
            (if m <<< (e - 2 * k).toNat - (m <<< (e - 2 * k).toNat).sqrt
                * (m <<< (e - 2 * k).toNat).sqrt = 0 then .exact
              else .inexact (if m <<< (e - 2 * k).toNat - (m <<< (e - 2 * k).toNat).sqrt
                * (m <<< (e - 2 * k).toNat).sqrt ≤ (m <<< (e - 2 * k).toNat).sqrt
                then .lt else .gt)) := by
        rw [hk]
        rfl
      have h := roundsTo_roundWithAccuracy .positive (describes_sqrt (m <<< (e - 2 * k).toNat))
        (exponent_sqrt_le (e := e) (t := k) hm (by omega) (by omega))
      have hvalue : √(value (.finite .positive m e hm)) =
          signFactor .positive * (√((m <<< (e - 2 * k).toNat : ℕ) : ℝ) * 2 ^ k) := by
        have hpow : (2 : ℝ) ^ e = 2 ^ (e - 2 * k).toNat * (2 ^ k * 2 ^ k) := by
          rw [← zpow_natCast, ← zpow_add₀ two_ne_zero, ← zpow_add₀ two_ne_zero]
          congr 1
          omega
        rw [value, signFactor, one_mul, one_mul, hpow, Nat.shiftLeft_eq, ← mul_assoc,
          Real.sqrt_mul (by positivity), Real.sqrt_mul_self (by positivity)]
        push_cast
        rfl
      rw [hvalue, hsqrt]
      exact h

/-! ## Order -/

theorem value_pos {m : ℕ} (e : ℤ) (hm : 0 < m) : 0 < value (.finite .positive m e hm) := by
  have hm' : (0 : ℝ) < m := by exact_mod_cast hm
  change 0 < 1 * ((m : ℝ) * 2 ^ e)
  positivity

/-- Canonical magnitudes are ordered by their exponents, then by their mantissas. -/
theorem compare_magnitude {m n : ℕ} {e f : ℤ} (hm : m < 2 ^ 24) (hn : n < 2 ^ 24)
    (he : -149 ≤ e) (hf : -149 ≤ f) (hfull : 2 ^ 23 ≤ m ∨ e = -149)
    (hfull' : 2 ^ 23 ≤ n ∨ f = -149) :
    (compare e f).then (compare m n) = cmp ((m : ℝ) * 2 ^ e) (n * 2 ^ f) := by
  -- With a smaller exponent even the largest mantissa stays below a mantissa that fills its bits.
  have hbinade : ∀ {a b : ℕ} {i j : ℤ}, a < 2 ^ 24 → 2 ^ 23 ≤ b → i < j →
      (a : ℝ) * 2 ^ i < b * 2 ^ j := by
    intro a b i j ha hb hij
    have ha' : (a : ℝ) < 2 ^ 24 := by exact_mod_cast ha
    have hb' : (2 : ℝ) ^ 23 ≤ b := by exact_mod_cast hb
    have hstep : (2 : ℝ) ^ (i + 1) ≤ 2 ^ j := zpow_le_zpow_right₀ one_le_two (by omega)
    calc (a : ℝ) * 2 ^ i < 2 ^ 24 * 2 ^ i := by gcongr
      _ = 2 ^ 23 * 2 ^ (i + 1) := by rw [zpow_add_one₀ two_ne_zero]; ring
      _ ≤ b * 2 ^ j := by gcongr
  rcases lt_trichotomy e f with h | rfl | h
  · rw [Int.compare_eq_lt.mpr h]
    exact ((cmp_eq_lt_iff _ _).mpr (hbinade hm (hfull'.resolve_right (by omega)) h)).symm
  · have hpos : (0 : ℝ) < 2 ^ e := by positivity
    rw [Int.compare_eq_eq.mpr rfl, cmp_mul_pos_right hpos]
    change compare m n = _
    rcases lt_trichotomy m n with h | rfl | h
    · rw [Nat.compare_eq_lt.mpr h, (cmp_eq_lt_iff _ _).mpr (by exact_mod_cast h)]
    · rw [Nat.compare_eq_eq.mpr rfl, cmp_self_eq_eq]
    · rw [Nat.compare_eq_gt.mpr h, (cmp_eq_gt_iff _ _).mpr (by exact_mod_cast h)]
  · rw [Int.compare_eq_gt.mpr h]
    exact ((cmp_eq_gt_iff _ _).mpr (hbinade hn (hfull.resolve_right (by omega)) h)).symm

/-- Canonical numbers are ordered as their values. -/
theorem compare_eq_cmp {u v : UnpackedFloat} (hu : Canonical u) (hv : Canonical v)
    (hfu : u.isFinite = true) (hfv : v.isFinite = true) :
    u.compare v = some (cmp (value u) (value v)) := by
  have hneg : ∀ {m : ℕ} (e : ℤ) (hm : 0 < m), value (.finite .negative m e hm) < 0 := by
    intro m e hm
    have hpos := neg_lt_zero.mpr (value_pos e hm)
    rwa [← value_neg] at hpos
  rcases finite_cases hfu with ⟨s, rfl⟩ | ⟨s, m, e, hm, rfl⟩
  · rcases finite_cases hfv with ⟨t, rfl⟩ | ⟨t, n, f, hn, rfl⟩
    · exact congrArg some (cmp_self_eq_eq _).symm
    · cases t with
      | negative => exact congrArg some ((cmp_eq_gt_iff _ _).mpr (hneg f hn)).symm
      | positive => exact congrArg some ((cmp_eq_lt_iff _ _).mpr (value_pos f hn)).symm
  · rcases finite_cases hfv with ⟨t, rfl⟩ | ⟨t, n, f, hn, rfl⟩
    · cases s with
      | negative => exact congrArg some ((cmp_eq_lt_iff _ _).mpr (hneg e hm)).symm
      | positive => exact congrArg some ((cmp_eq_gt_iff _ _).mpr (value_pos e hm)).symm
    · have hmagnitude := compare_magnitude hu.1 hv.1 hu.2.1 hv.2.1 hu.2.2 hv.2.2
      cases s with
      | negative =>
        cases t with
        | negative =>
          change some ((compare e f).then (compare m n)).swap
            = some (cmp (-1 * ((m : ℝ) * 2 ^ e)) (-1 * (n * 2 ^ f)))
          rw [hmagnitude, cmp_swap, cmp_mul_neg_left (by norm_num)]
        | positive =>
          exact congrArg some ((cmp_eq_lt_iff _ _).mpr ((hneg e hm).trans (value_pos f hn))).symm
      | positive =>
        cases t with
        | negative =>
          exact congrArg some ((cmp_eq_gt_iff _ _).mpr ((hneg f hn).trans (value_pos e hm))).symm
        | positive =>
          change some ((compare e f).then (compare m n))
            = some (cmp (1 * ((m : ℝ) * 2 ^ e)) (1 * (n * 2 ^ f)))
          rw [hmagnitude, one_mul, one_mul]

end Attitude.Binary32
