import Attitude.Proofs.Binary32.Arithmetic

/-!
# Monotone products of binary32

Rounding keeps the order of different real numbers. At a tie two points of the grid are nearest, and
being nearest does not say which one an operation takes. But positive numbers of one value are one
number, and one number has one product: so a product with a positive factor keeps the order of its
other factor, ties included.

## Main results

* `toReal_mul_le_mul`: products with a positive factor are monotone
* `lt_of_lt_of_toReal_le`: a bound of any kind, infinite or undefined ones included, stays below
  larger numbers
-/

namespace Attitude.Binary32
open Float.Model Float.Model.UnpackedFloat

/-! ## Numbers of one value -/

/-- What has a value above zero has a positive sign and a mantissa. -/
theorem exists_of_value_pos {u : UnpackedFloat} (h : 0 < value u) :
    ∃ m e hm, u = .finite .positive m e hm := by
  cases u with
  | finite s m e hm =>
    cases s with
    | negative =>
      have hneg : value (.finite .negative m e hm) = -(m * 2 ^ e) := neg_one_mul _
      have hnonneg : (0 : ℝ) ≤ m * 2 ^ e := by positivity
      linarith
    | positive => exact ⟨m, e, hm, rfl⟩
  | zero s => exact absurd h (lt_irrefl 0)
  | infinity s => exact absurd h (lt_irrefl 0)
  | notANumber => exact absurd h (lt_irrefl 0)

/-- A canonical number above zero is the only one of its value. -/
theorem Canonical.eq_of_value_eq {u v : UnpackedFloat} (hu : Canonical u) (hv : Canonical v)
    (hpos : 0 < value u) (h : value u = value v) : u = v := by
  obtain ⟨m, e, hm, rfl⟩ := exists_of_value_pos hpos
  obtain ⟨n, f, hn, rfl⟩ := exists_of_value_pos (h ▸ hpos)
  have hmagnitude : (m : ℝ) * 2 ^ e = n * 2 ^ f := mul_left_cancel₀ one_ne_zero h
  have hcompare := compare_magnitude hu.1 hv.1 hu.2.1 hv.2.1 hu.2.2 hv.2.2
  rw [hmagnitude, cmp_self_eq_eq, Ordering.then_eq_eq] at hcompare
  obtain rfl := Int.compare_eq_eq.mp hcompare.1
  obtain rfl := Nat.compare_eq_eq.mp hcompare.2
  rfl

/-- Positive numbers of one value have the same products. -/
theorem mul_eq_mul_of_toReal_eq {x y : Float32} (hpos : 0 < toReal x) (h : toReal x = toReal y)
    (z : Float32) : x * z = y * z := by
  have hunpack : unpack x = unpack y :=
    (canonical_unpack x).eq_of_value_eq (canonical_unpack y) hpos h
  change encode (.mul Format.binary32 (unpack x) (unpack z)) =
    encode (.mul Format.binary32 (unpack y) (unpack z))
  rw [hunpack]

/-- **A product with a positive factor keeps the order**, as long as it does not overflow. -/
theorem toReal_mul_le_mul {x y z : Float32} (hz : 0 < toReal z) (hx : 0 < toReal x)
    (h : toReal x ≤ toReal y) (hxz : (x * z).isFinite = true) (hyz : (y * z).isFinite = true) :
    toReal (x * z) ≤ toReal (y * z) := by
  obtain ⟨hfx, hfz⟩ := isFinite_of_mul hxz
  obtain ⟨hfy, -⟩ := isFinite_of_mul hyz
  rcases h.lt_or_eq with hlt | heq
  · have hproduct : toReal x * toReal z < toReal y * toReal z := mul_lt_mul_of_pos_right hlt hz
    exact ((rounds_mul hfx hfz).isNearest hxz).mono ((rounds_mul hfy hfz).isNearest hyz) hproduct
  · rw [mul_eq_mul_of_toReal_eq hx heq]

/-! ## Bounds -/

/-- Of what is not finite, negative infinity alone is below a number. -/
theorem lt_iff_of_not_finite {l x : Float32} (hl : ¬ l.isFinite = true) (hx : x.isFinite = true) :
    l < x ↔ unpack l = .infinity .negative := by
  have hlt : l < x ↔ ((unpack l).compare (unpack x) == some .lt) = true := decide_eq_true_iff
  rw [hlt]
  rw [isFinite_eq] at hl hx
  cases hu : unpack l with
  | finite s m e hm => exact absurd (by rw [hu]; rfl) hl
  | zero s => exact absurd (by rw [hu]; rfl) hl
  | infinity s =>
    rcases finite_cases hx with ⟨t, ht⟩ | ⟨t, m, e, hm, ht⟩ <;> rw [ht] <;> cases s <;>
      simp [UnpackedFloat.compare]
  | notANumber =>
    rcases finite_cases hx with ⟨t, ht⟩ | ⟨t, m, e, hm, ht⟩ <;> rw [ht] <;>
      simp [UnpackedFloat.compare]

theorem lt_of_lt_of_toReal_le {l x y : Float32} (hx : x.isFinite = true) (hy : y.isFinite = true)
    (hlt : l < x) (hle : toReal x ≤ toReal y) : l < y := by
  by_cases hl : l.isFinite = true
  · rw [lt_iff hl hx] at hlt
    rw [lt_iff hl hy]
    exact hlt.trans_le hle
  · rw [lt_iff_of_not_finite hl hx] at hlt
    rwa [lt_iff_of_not_finite hl hy]

end Attitude.Binary32
