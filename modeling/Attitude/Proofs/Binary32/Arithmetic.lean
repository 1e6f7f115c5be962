import Attitude.Binary32
import Attitude.Proofs.Binary32.Encoding
import Attitude.Proofs.Binary32.Operations

/-!
# Binary32 arithmetic over the reals

On finite numbers an operation rounds the exact result to a nearest point of the grid, and overflows
to an infinity of the same sign when that point is too large to be stored. `Rounds` says this once
for all operations. Comparisons of finite numbers are exact, and a number that is not finite passes
through every sum, difference and product.

## Main results

* `rounds_add`, `rounds_sub`, `rounds_mul`, `rounds_div`, `rounds_sqrt`, `rounds_ofWord`
* `Within.add`, `Within.sub`, `Within.mul`, `Within.sqrt`: magnitudes that do not overflow
* `lt_iff`, `le_iff`
* `isFinite_of_add`, `isFinite_of_mul`, `isFinite_of_div` and others: what a finite result says of
  the operands
-/

namespace Attitude.Binary32
open Float.Model Float.Model.UnpackedFloat

/-! ## Numbers and their values -/

theorem isFinite_eq (x : Float32) : x.isFinite = (unpack x).isFinite := rfl

theorem onGrid_toReal (x : Float32) : OnGrid (toReal x) := onGrid_value (canonical_unpack x)

/-- The exponent of a canonical magnitude tells whether it is too large to be stored. -/
theorem magnitude_lt {m : ℕ} {e : ℤ} (hm : m < 2 ^ 24) (he : e ≤ 104) :
    (m : ℝ) * 2 ^ e < 2 ^ 128 := by
  have hm' : (m : ℝ) < 2 ^ 24 := by exact_mod_cast hm
  have he' : (2 : ℝ) ^ e ≤ 2 ^ (104 : ℤ) := zpow_le_zpow_right₀ one_le_two he
  calc (m : ℝ) * 2 ^ e < 2 ^ 24 * 2 ^ e := by gcongr
    _ ≤ 2 ^ 24 * 2 ^ (104 : ℤ) := by gcongr
    _ = 2 ^ 128 := by norm_num

theorem le_magnitude {m : ℕ} {e : ℤ} (hm : 2 ^ 23 ≤ m) (he : 105 ≤ e) :
    2 ^ 128 ≤ (m : ℝ) * 2 ^ e := by
  have hm' : (2 : ℝ) ^ 23 ≤ m := by exact_mod_cast hm
  have he' : (2 : ℝ) ^ (105 : ℤ) ≤ 2 ^ e := zpow_le_zpow_right₀ one_le_two he
  calc (2 : ℝ) ^ 128 = (2 : ℝ) ^ 23 * (2 : ℝ) ^ (105 : ℤ) := by norm_num
    _ ≤ (m : ℝ) * 2 ^ e := by gcongr

/-- A stored number is below the least power of two that overflows. -/
theorem abs_toReal_lt (x : Float32) : |toReal x| < 2 ^ 128 := by
  have hcanonical := canonical_unpack x
  rw [toReal]
  cases hx : unpack x with
  | finite s m e hm =>
    rw [hx] at hcanonical
    rw [abs_value_finite]
    exact magnitude_lt hcanonical.1 (exponent_le_of_unpack hx)
  | zero s => norm_num [value]
  | infinity s => norm_num [value]
  | notANumber => norm_num [value]

/-- Canonical unpacked numbers whose value is not too large are stored as they are. -/
theorem unpack_encode {u : UnpackedFloat} (h : Canonical u) (hlt : |value u| < 2 ^ 128) :
    unpack (encode u) = u := by
  cases u with
  | finite s m e hm =>
    refine unpack_encode_finite h ?_
    by_contra hlarge
    rw [abs_value_finite] at hlt
    exact absurd hlt (not_lt.mpr (le_magnitude (h.2.2.resolve_right (by omega)) (by omega)))
  | zero s => exact unpack_encode_zero s
  | infinity s => exact unpack_encode_infinity s
  | notANumber => exact unpack_encode_notANumber

/-- A canonical number whose value is too large is stored as an infinity of its sign. -/
theorem unpack_encode_of_large {u : UnpackedFloat} (h : Canonical u) :
    (2 ^ 128 ≤ value u → unpack (encode u) = .infinity .positive) ∧
    (value u ≤ -2 ^ 128 → unpack (encode u) = .infinity .negative) := by
  cases u with
  | finite s m e hm =>
    have hlarge : (2 : ℝ) ^ 128 ≤ m * 2 ^ e → 105 ≤ e := by
      intro hge
      by_contra hsmall
      exact absurd hge (not_le.mpr (magnitude_lt h.1 (by omega)))
    have hnonneg : (0 : ℝ) ≤ m * 2 ^ e := by positivity
    cases s with
    | negative =>
      have hvalue : value (.finite .negative m e hm) = -(m * 2 ^ e) := neg_one_mul _
      rw [hvalue]
      constructor
      · intro hge
        linarith
      · intro hle
        exact unpack_encode_overflow (hlarge (neg_le_neg_iff.mp hle))
    | positive =>
      have hvalue : value (.finite .positive m e hm) = m * 2 ^ e := one_mul _
      rw [hvalue]
      constructor
      · intro hge
        exact unpack_encode_overflow (hlarge hge)
      · intro hle
        linarith
  | zero s => norm_num [value]
  | infinity s => norm_num [value]
  | notANumber => norm_num [value]

/-! ## Rounded results -/

/-- A number is the rounding of a real number: a nearest point of the grid, or an infinity if that
point is too large to be stored. -/
inductive Rounds (x : ℝ) (f : Float32) : Prop where
  | stored (finite : f.isFinite = true) (nearest : IsNearest x (toReal f))
  | tooLarge (r : ℝ) (nearest : IsNearest x r) (large : 2 ^ 128 ≤ r)
      (infinite : unpack f = .infinity .positive)
  | tooSmall (r : ℝ) (nearest : IsNearest x r) (small : r ≤ -2 ^ 128)
      (infinite : unpack f = .infinity .negative)

theorem RoundsTo.rounds_encode {x : ℝ} {u : UnpackedFloat} (h : RoundsTo x u) :
    Rounds x (encode u) := by
  by_cases hlt : |value u| < 2 ^ 128
  · have hunpack := unpack_encode h.canonical hlt
    refine .stored ?_ ?_
    · rw [isFinite_eq, hunpack, h.finite]
    · rw [toReal, hunpack]
      exact h.nearest
  · rcases le_abs.mp (not_lt.mp hlt) with hlarge | hsmall
    · exact .tooLarge _ h.nearest hlarge ((unpack_encode_of_large h.canonical).1 hlarge)
    · have hsmall' : value u ≤ -2 ^ 128 := by linarith
      exact .tooSmall _ h.nearest hsmall' ((unpack_encode_of_large h.canonical).2 hsmall')

namespace Rounds
variable {x y : ℝ} {f : Float32}

theorem isNearest (h : Rounds x f) (hf : f.isFinite = true) : IsNearest x (toReal f) := by
  cases h with
  | stored _ hnearest => exact hnearest
  | tooLarge r _ _ hinf =>
    rw [isFinite_eq, hinf] at hf
    cases hf
  | tooSmall r _ _ hinf =>
    rw [isFinite_eq, hinf] at hf
    cases hf

/-- What is within a point of the grid that can be stored does not overflow. -/
theorem isFinite_of_within (h : Rounds x f) (hy : OnGrid y) (hxy : |x| ≤ y) (hlt : y < 2 ^ 128) :
    f.isFinite = true := by
  cases h with
  | stored hfin _ => exact hfin
  | tooLarge r hnearest hlarge _ =>
    have hle := (abs_le.mp (hnearest.within hy hxy)).2
    linarith
  | tooSmall r hnearest hsmall _ =>
    have hge := (abs_le.mp (hnearest.within hy hxy)).1
    linarith

end Rounds

theorem rounds_add {x y : Float32} (hx : x.isFinite = true) (hy : y.isFinite = true) :
    Rounds (toReal x + toReal y) (x + y) :=
  (roundsTo_add (canonical_unpack x) (canonical_unpack y) hx hy).rounds_encode

theorem rounds_mul {x y : Float32} (hx : x.isFinite = true) (hy : y.isFinite = true) :
    Rounds (toReal x * toReal y) (x * y) :=
  (roundsTo_mul (canonical_unpack x) (canonical_unpack y) hx hy).rounds_encode

theorem rounds_div {x y : Float32} (hx : x.isFinite = true) (hy : y.isFinite = true)
    (hne : toReal y ≠ 0) : Rounds (toReal x / toReal y) (x / y) :=
  (roundsTo_div hx hy hne).rounds_encode

theorem rounds_sqrt {x : Float32} (hx : x.isFinite = true) (hnonneg : 0 ≤ toReal x) :
    Rounds √(toReal x) x.sqrt := (roundsTo_sqrt hx hnonneg).rounds_encode

theorem rounds_sub {x y : Float32} (hx : x.isFinite = true) (hy : y.isFinite = true) :
    Rounds (toReal x - toReal y) (x - y) := by
  have h := roundsTo_add (canonical_unpack x) (canonical_neg (canonical_unpack y)) hx
    ((isFinite_neg_unpacked _).trans hy)
  rw [value_neg, ← sub_eq_add_neg, ← sub_eq_add_neg_unpacked] at h
  exact h.rounds_encode

theorem rounds_ofWord (n : UInt64) : Rounds n.toNat n.toFloat32 := by
  have h := roundsTo_normalize (n.toNat : ℤ) 0 .positive
  rw [zpow_zero, mul_one, Int.cast_natCast] at h
  exact h.rounds_encode

/-! ## Signs -/

theorem unpack_neg (x : Float32) : unpack (-x) = (unpack x).neg := by
  refine unpack_encode (canonical_neg (canonical_unpack x)) ?_
  rw [value_neg, abs_neg]
  exact abs_toReal_lt x

@[simp] theorem isFinite_neg (x : Float32) : (-x).isFinite = x.isFinite := by
  rw [isFinite_eq, unpack_neg, isFinite_neg_unpacked, isFinite_eq]

@[simp] theorem toReal_neg (x : Float32) : toReal (-x) = -toReal x := by
  rw [toReal, unpack_neg, value_neg, toReal]

theorem unpack_abs (x : Float32) : unpack x.abs = (unpack x).abs := by
  have hcanonical : Canonical (unpack x).abs := by
    have h := canonical_unpack x
    cases hx : unpack x with
    | finite s m e hm => rwa [hx] at h
    | zero s => trivial
    | infinity s => trivial
    | notANumber => trivial
  have hvalue : |value (unpack x).abs| = |value (unpack x)| := by
    cases unpack x with
    | finite s m e hm => exact (abs_value_finite .positive e hm).trans (abs_value_finite s e hm).symm
    | zero s => rfl
    | infinity s => rfl
    | notANumber => rfl
  exact unpack_encode hcanonical (hvalue.trans_lt (abs_toReal_lt x))

@[simp] theorem isFinite_abs (x : Float32) : x.abs.isFinite = x.isFinite := by
  rw [isFinite_eq, unpack_abs, isFinite_eq]
  cases unpack x <;> rfl

@[simp] theorem toReal_abs (x : Float32) : toReal x.abs = |toReal x| := by
  rw [toReal, unpack_abs, toReal]
  cases unpack x with
  | finite s m e hm =>
    rw [abs_value_finite]
    exact one_mul _
  | zero s => exact abs_zero.symm
  | infinity s => exact abs_zero.symm
  | notANumber => exact abs_zero.symm

/-! ## Magnitudes -/

/-- A finite number of at most a given magnitude. -/
structure Within (x : Float32) (a : ℝ) : Prop where
  finite : x.isFinite = true
  abs_le : |toReal x| ≤ a

theorem two_zpow_lt {e : ℤ} (he : e ≤ 127) : (2 : ℝ) ^ e < 2 ^ 128 :=
  (zpow_le_zpow_right₀ one_le_two he).trans_lt (by norm_num)

/-- Rounding stays within a point of the grid that can be stored. -/
theorem Rounds.within {x a : ℝ} {f : Float32} (h : Rounds x f) (ha : OnGrid a) (hxa : |x| ≤ a)
    (hlt : a < 2 ^ 128) : Within f a where
  finite := h.isFinite_of_within ha hxa hlt
  abs_le := (h.isNearest (h.isFinite_of_within ha hxa hlt)).within ha hxa

namespace Within
variable {x y : Float32} {a b c : ℝ}

theorem mono (h : Within x a) (hle : a ≤ b) : Within x b := ⟨h.finite, h.abs_le.trans hle⟩

theorem neg (h : Within x a) : Within (-x) a :=
  ⟨(isFinite_neg x).trans h.finite, by rw [toReal_neg, abs_neg]; exact h.abs_le⟩

theorem abs (h : Within x a) : Within x.abs a :=
  ⟨(isFinite_abs x).trans h.finite, by rw [toReal_abs, abs_abs]; exact h.abs_le⟩

/-- A stored number is within the magnitude of its parts. -/
theorem of_unpack {s : Sign} {m : ℕ} {e : ℤ} {hm : 0 < m} (h : unpack x = .finite s m e hm)
    (hle : (m : ℝ) * 2 ^ e ≤ a) : Within x a where
  finite := by rw [isFinite_eq, h]; rfl
  abs_le := by
    rw [toReal, h, abs_value_finite]
    exact hle

theorem add (hx : Within x a) (hy : Within y b) (hc : OnGrid c) (hle : a + b ≤ c)
    (hlt : c < 2 ^ 128) : Within (x + y) c := by
  refine (rounds_add hx.finite hy.finite).within hc ?_ hlt
  calc |toReal x + toReal y| ≤ |toReal x| + |toReal y| := abs_add_le _ _
    _ ≤ a + b := add_le_add hx.abs_le hy.abs_le
    _ ≤ c := hle

theorem sub (hx : Within x a) (hy : Within y b) (hc : OnGrid c) (hle : a + b ≤ c)
    (hlt : c < 2 ^ 128) : Within (x - y) c := by
  refine (rounds_sub hx.finite hy.finite).within hc ?_ hlt
  calc |toReal x - toReal y| ≤ |toReal x| + |toReal y| := abs_sub _ _
    _ ≤ a + b := add_le_add hx.abs_le hy.abs_le
    _ ≤ c := hle

theorem mul (hx : Within x a) (hy : Within y b) (hc : OnGrid c) (hle : a * b ≤ c)
    (hlt : c < 2 ^ 128) : Within (x * y) c := by
  refine (rounds_mul hx.finite hy.finite).within hc ?_ hlt
  calc |toReal x * toReal y| = |toReal x| * |toReal y| := abs_mul _ _
    _ ≤ a * b := mul_le_mul hx.abs_le hy.abs_le (abs_nonneg _) ((abs_nonneg _).trans hx.abs_le)
    _ ≤ c := hle

theorem div (hx : Within x a) (hy : y.isFinite = true) (hb : 0 < b) (hle : b ≤ |toReal y|)
    (hc : OnGrid c) (hab : a ≤ c * b) (hlt : c < 2 ^ 128) : Within (x / y) c := by
  have hpos : 0 < |toReal y| := hb.trans_le hle
  have hc0 : 0 ≤ c := nonneg_of_mul_nonneg_left (((abs_nonneg _).trans hx.abs_le).trans hab) hb
  refine (rounds_div hx.finite hy (abs_pos.mp hpos)).within hc ?_ hlt
  rw [abs_div, div_le_iff₀ hpos]
  calc |toReal x| ≤ a := hx.abs_le
    _ ≤ c * b := hab
    _ ≤ c * |toReal y| := by gcongr

/-- No number is beyond `2 ^ 128`, so no root is beyond `2 ^ 64`. -/
theorem sqrt (hx : x.isFinite = true) (hnonneg : 0 ≤ toReal x) : Within x.sqrt (2 ^ (64 : ℤ)) := by
  refine (rounds_sqrt hx hnonneg).within (onGrid_two_zpow (by norm_num)) ?_ (by norm_num)
  rw [abs_of_nonneg (Real.sqrt_nonneg _)]
  refine Real.sqrt_le_iff.mpr ⟨by positivity, ?_⟩
  have hlt := (abs_lt.mp (abs_toReal_lt x)).2
  norm_num at hlt ⊢
  exact hlt.le

end Within

/-! ## Order -/

/-- Finite numbers are ordered as their values. -/
theorem lt_iff {x y : Float32} (hx : x.isFinite = true) (hy : y.isFinite = true) :
    x < y ↔ toReal x < toReal y := by
  have hcompare := compare_eq_cmp (canonical_unpack x) (canonical_unpack y) hx hy
  have hlt : x < y ↔ ((unpack x).compare (unpack y) == some .lt) = true := decide_eq_true_iff
  rw [hlt, hcompare, ← cmp_eq_lt_iff]
  simp only [toReal]
  cases cmp (value (unpack x)) (value (unpack y)) <;> decide

theorem le_iff {x y : Float32} (hx : x.isFinite = true) (hy : y.isFinite = true) :
    x ≤ y ↔ toReal x ≤ toReal y := by
  have hcompare := compare_eq_cmp (canonical_unpack x) (canonical_unpack y) hx hy
  have hle : x ≤ y ↔ ((unpack x).compare (unpack y)).any (·.isLE) = true := decide_eq_true_iff
  rw [hle, hcompare, ← not_lt, ← cmp_eq_gt_iff]
  simp only [toReal]
  cases cmp (value (unpack x)) (value (unpack y)) <;> decide

/-! ## Finite results

A number that is not finite stays visible: a result that is finite had finite operands, except that
the divisor of a quotient may be infinite. -/

theorem isFinite_of_encode {u : UnpackedFloat} (h : (encode u).isFinite = true) :
    u.isFinite = true := by
  cases u with
  | finite s m e hm => rfl
  | zero s => rfl
  | infinity s =>
    rw [isFinite_eq, unpack_encode_infinity] at h
    cases h
  | notANumber => cases h

theorem isFinite_of_add {x y : Float32} (h : (x + y).isFinite = true) :
    x.isFinite = true ∧ y.isFinite = true := by
  have hadd : (UnpackedFloat.add Format.binary32 (unpack x) (unpack y)).isFinite = true :=
    isFinite_of_encode h
  rw [isFinite_eq, isFinite_eq]
  revert hadd
  cases unpack x with
  | infinity s =>
    cases unpack y with
    | infinity t => cases s <;> cases t <;> rintro ⟨⟩
    | _ => rintro ⟨⟩
  | notANumber => rintro ⟨⟩
  | _ =>
    cases unpack y with
    | infinity t => rintro ⟨⟩
    | notANumber => rintro ⟨⟩
    | _ => exact fun _ => ⟨rfl, rfl⟩

theorem isFinite_of_sub {x y : Float32} (h : (x - y).isFinite = true) :
    x.isFinite = true ∧ y.isFinite = true := by
  have hsub : x - y = x + -y := by
    change encode (UnpackedFloat.sub Format.binary32 (unpack x) (unpack y))
      = encode (UnpackedFloat.add Format.binary32 (unpack x) (unpack (-y)))
    rw [unpack_neg, sub_eq_add_neg_unpacked]
  rw [hsub] at h
  have hadd := isFinite_of_add h
  rwa [isFinite_neg] at hadd

theorem isFinite_of_mul {x y : Float32} (h : (x * y).isFinite = true) :
    x.isFinite = true ∧ y.isFinite = true := by
  have hmul : (UnpackedFloat.mul Format.binary32 (unpack x) (unpack y)).isFinite = true :=
    isFinite_of_encode h
  rw [isFinite_eq, isFinite_eq]
  revert hmul
  cases unpack x with
  | infinity s => cases unpack y <;> rintro ⟨⟩
  | notANumber => rintro ⟨⟩
  | _ =>
    cases unpack y with
    | infinity t => rintro ⟨⟩
    | notANumber => rintro ⟨⟩
    | _ => exact fun _ => ⟨rfl, rfl⟩

/-- A finite quotient has a finite dividend, and a divisor that is a number other than zero. -/
theorem isFinite_of_div {x y : Float32} (h : (x / y).isFinite = true) :
    x.isFinite = true ∧ y.isNaN = false ∧ (y.isFinite = true → toReal y ≠ 0) := by
  have hdiv : (UnpackedFloat.div Format.binary32 (unpack x) (unpack y)).isFinite = true :=
    isFinite_of_encode h
  have hnan : y.isNaN = (unpack y).isNaN := rfl
  rw [isFinite_eq, isFinite_eq, hnan, toReal]
  revert hdiv
  cases unpack x with
  | infinity s => cases unpack y <;> rintro ⟨⟩
  | notANumber => rintro ⟨⟩
  | _ =>
    cases unpack y with
    | zero t => rintro ⟨⟩
    | notANumber => rintro ⟨⟩
    | infinity t => exact fun _ => ⟨rfl, rfl, by rintro ⟨⟩⟩
    | finite t n f hn => exact fun _ => ⟨rfl, rfl, fun _ => value_ne_zero t f hn⟩

/-- A finite square root is that of a finite number that is not negative. -/
theorem isFinite_of_sqrt {x : Float32} (h : x.sqrt.isFinite = true) :
    x.isFinite = true ∧ 0 ≤ toReal x := by
  have hsqrt : (UnpackedFloat.sqrt Format.binary32 (unpack x)).isFinite = true :=
    isFinite_of_encode h
  rw [isFinite_eq, toReal]
  cases hx : unpack x with
  | finite s m e hm =>
    rw [hx] at hsqrt
    cases s with
    | negative => cases hsqrt
    | positive => exact ⟨rfl, (value_pos e hm).le⟩
  | zero s => exact ⟨rfl, le_rfl⟩
  | infinity s =>
    rw [hx] at hsqrt
    cases s <;> cases hsqrt
  | notANumber =>
    rw [hx] at hsqrt
    cases hsqrt

end Attitude.Binary32
