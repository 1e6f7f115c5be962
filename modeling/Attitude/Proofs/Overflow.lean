import Attitude.Proofs.Exact.Reading
import Attitude.Proofs.Normalize

/-!
# Norms that overflow

The norm of a finite vector is a finite number or positive infinity, and never undefined. A vector
divided by an infinite norm vanishes, so a vector whose squares overflow loses its direction. A norm
that is finite can be squared again: the root of the largest number is rounded down.

## Main definitions

* `Binary32.Magnitude`: not negative, and possibly too large to be stored

## Main results

* `Vec3.magnitude_norm`: what the norm of a finite vector can be
* `Vec3.exact_direction_of_overflow`: the direction of a vector whose norm is infinite
* `Rounds.exact`: a result that can be stored is not rounded
* `isFinite_sqrt_mul_self`: the square of a finite root is finite
-/

namespace Attitude
open Binary32

namespace Binary32
open Float.Model

/-! ## Results that can be stored -/

theorem OnGrid.abs {y : ℝ} (h : OnGrid y) : OnGrid |y| := by
  rcases abs_choice y with hy | hy <;> rw [hy]
  exacts [h, h.neg]

/-- A result that can be stored is not rounded. -/
theorem Rounds.exact {x : ℝ} {f : Float32} (h : Rounds x f) (hx : OnGrid x) (hlt : |x| < 2 ^ 128) :
    f.isFinite = true ∧ toReal f = x := by
  have hfin := h.isFinite_of_within hx.abs le_rfl hlt
  have hnearest := h.isNearest hfin
  exact ⟨hfin, le_antisymm (hnearest.le hx le_rfl) (hnearest.ge hx le_rfl)⟩

/-- A finite number divided by infinity is zero. -/
theorem toReal_div_infinity {x y : Float32} (hx : x.isFinite = true)
    (hy : unpack y = .infinity .positive) : toReal (x / y) = 0 := by
  have hdiv : x / y = encode (.div Format.binary32 (unpack x) (unpack y)) := rfl
  rw [isFinite_eq] at hx
  rw [toReal, hdiv, hy]
  rcases finite_cases hx with ⟨s, hs⟩ | ⟨s, m, e, hm, hs⟩
  · rw [hs]
    exact congrArg value (unpack_encode_zero _)
  · rw [hs]
    exact congrArg value (unpack_encode_zero _)

/-! ## Magnitudes -/

/-- A finite number that is not negative, or positive infinity. -/
inductive Magnitude (x : Float32) : Prop
  | finite (stored : x.isFinite = true) (nonneg : 0 ≤ toReal x)
  | infinite (overflown : unpack x = .infinity .positive)

theorem Rounds.magnitude {x : ℝ} {f : Float32} (h : Rounds x f) (hx : 0 ≤ x) : Magnitude f := by
  cases h with
  | stored hfin hnearest => exact .finite hfin (hnearest.nonneg hx)
  | tooLarge r _ _ hinf => exact .infinite hinf
  | tooSmall r hnearest hsmall _ =>
    have hr := hnearest.nonneg hx
    norm_num at hsmall
    linarith

/-! ## Squares of roots -/

/-- The largest number below a power of two. -/
theorem OnGrid.le_of_lt_two_zpow {y : ℝ} (h : OnGrid y) {k : ℤ} (hlt : y < 2 ^ k) :
    y ≤ (2 ^ 24 - 1) * 2 ^ (k - 24) := by
  obtain ⟨m, e, hm, -, rfl⟩ := h
  have hscale : (2 : ℝ) ^ k = 2 ^ 24 * 2 ^ (k - 24) := by
    rw [← zpow_natCast, ← zpow_add₀ two_ne_zero]
    congr 1
    push_cast
    ring
  rcases le_or_gt (k - 24) e with he | he
  · -- A multiple of the last place that is below the power is one place below it.
    obtain ⟨n, hn⟩ : ∃ n : ℕ, e = k - 24 + n := ⟨(e - (k - 24)).toNat, by omega⟩
    have hmultiple : (m : ℝ) * 2 ^ e = (m * 2 ^ n : ℤ) * 2 ^ (k - 24) := by
      rw [hn, zpow_add₀ two_ne_zero, zpow_natCast]
      push_cast
      ring
    rw [hmultiple, hscale] at hlt
    rw [hmultiple]
    have hcast : ((m * 2 ^ n : ℤ) : ℝ) < 2 ^ 24 := lt_of_mul_lt_mul_right hlt (by positivity)
    have hint : m * 2 ^ n ≤ 2 ^ 24 - 1 := by
      have : m * 2 ^ n < 2 ^ 24 := by exact_mod_cast hcast
      omega
    have hreal : ((m * 2 ^ n : ℤ) : ℝ) ≤ 2 ^ 24 - 1 := by exact_mod_cast hint
    gcongr
  · have hle : (m : ℝ) ≤ 2 ^ 24 := by exact_mod_cast (le_abs_self m).trans hm
    have hhalf : (2 : ℝ) ^ e ≤ 2 ^ (k - 24) / 2 := by
      rw [div_eq_mul_inv, ← zpow_sub_one₀ two_ne_zero]
      exact zpow_le_zpow_right₀ one_le_two (by omega)
    calc (m : ℝ) * 2 ^ e ≤ 2 ^ 24 * (2 ^ (k - 24) / 2) := by gcongr
      _ ≤ (2 ^ 24 - 1) * 2 ^ (k - 24) := by
        have hpos : (0 : ℝ) < 2 ^ (k - 24) := by positivity
        linarith

/-- The root of a finite number is below `2 ^ 64`: that of the largest one is rounded down. -/
theorem toReal_sqrt_le {x : Float32} (h : x.sqrt.isFinite = true) :
    toReal x.sqrt ≤ (2 ^ 24 - 1) * 2 ^ (40 : ℤ) := by
  obtain ⟨hfin, hnonneg⟩ := isFinite_of_sqrt h
  have hnearest := (rounds_sqrt hfin hnonneg).isNearest h
  have hlargest : toReal x ≤ (2 ^ 24 - 1) * 2 ^ (104 : ℤ) :=
    (onGrid_toReal x).le_of_lt_two_zpow (k := 128) ((le_abs_self _).trans_lt (abs_toReal_lt x))
  have hgrid : OnGrid ((2 ^ 24 - 1) * 2 ^ (40 : ℤ)) := by
    have h := onGrid_natCast_mul (m := 2 ^ 24 - 1) (e := 40) (by norm_num) (by norm_num)
    norm_num at h ⊢
    exact h
  -- The root of the largest number is nearer to the largest one below the power than to the power.
  have hroot : √(toReal x) < 2 ^ 64 - 2 ^ 39 :=
    (Real.sqrt_lt' (by norm_num)).mpr (hlargest.trans_lt (by norm_num))
  have hlt : toReal x.sqrt < 2 ^ (64 : ℤ) := by
    by_contra hge
    norm_num at hge hroot
    have habove : √(toReal x) - toReal x.sqrt < 0 := by linarith
    refine absurd (hnearest.dist_le _ hgrid) (not_le.mpr ?_)
    rw [abs_of_neg habove, abs_lt]
    norm_num
    constructor <;> linarith
  exact (onGrid_toReal _).le_of_lt_two_zpow (k := 64) hlt

/-- The square of a root that is finite does not overflow. -/
theorem isFinite_sqrt_mul_self {x : Float32} (h : x.sqrt.isFinite = true) :
    (x.sqrt * x.sqrt).isFinite = true := by
  obtain ⟨hfin, hnonneg⟩ := isFinite_of_sqrt h
  have hroot := ((rounds_sqrt hfin hnonneg).isNearest h).nonneg (Real.sqrt_nonneg _)
  have hgrid : OnGrid ((2 ^ 24 - 1) * 2 ^ (104 : ℤ)) := by
    have h := onGrid_natCast_mul (m := 2 ^ 24 - 1) (e := 104) (by norm_num) (by norm_num)
    norm_num at h ⊢
    exact h
  refine (rounds_mul h h).isFinite_of_within hgrid ?_ (by norm_num)
  rw [abs_mul_self]
  calc toReal x.sqrt * toReal x.sqrt
      ≤ (2 ^ 24 - 1) * 2 ^ (40 : ℤ) * ((2 ^ 24 - 1) * 2 ^ (40 : ℤ)) := by
        gcongr <;> exact toReal_sqrt_le h
    _ ≤ (2 ^ 24 - 1) * 2 ^ (104 : ℤ) := by norm_num

namespace Magnitude
variable {x y : Float32}

theorem mul_self (h : x.isFinite = true) : Magnitude (x * x) :=
  (rounds_mul h h).magnitude (mul_self_nonneg _)

/-- Infinity stays when a magnitude is added. -/
theorem add (hx : Magnitude x) (hy : Magnitude y) : Magnitude (x + y) := by
  have hadd : x + y = encode (.add Format.binary32 (unpack x) (unpack y)) := rfl
  cases hx with
  | finite hfx hx =>
    cases hy with
    | finite hfy hy => exact (rounds_add hfx hfy).magnitude (add_nonneg hx hy)
    | infinite hinf =>
      refine .infinite ?_
      rw [isFinite_eq] at hfx
      rw [hadd, hinf]
      rcases finite_cases hfx with ⟨s, hs⟩ | ⟨s, m, e, hm, hs⟩ <;> rw [hs] <;>
        exact unpack_encode_infinity .positive
  | infinite hinf =>
    refine .infinite ?_
    rw [hadd, hinf]
    cases hy with
    | finite hfy hy =>
      rw [isFinite_eq] at hfy
      rcases finite_cases hfy with ⟨s, hs⟩ | ⟨s, m, e, hm, hs⟩ <;> rw [hs] <;>
        exact unpack_encode_infinity .positive
    | infinite hinf' =>
      rw [hinf']
      exact unpack_encode_infinity .positive

theorem sqrt (h : Magnitude x) : Magnitude x.sqrt := by
  cases h with
  | finite hfin hnonneg => exact (rounds_sqrt hfin hnonneg).magnitude (Real.sqrt_nonneg _)
  | infinite hinf =>
    have hsqrt : x.sqrt = encode (.sqrt Format.binary32 (unpack x)) := rfl
    rw [hinf] at hsqrt
    rw [hsqrt]
    exact .infinite (unpack_encode_infinity .positive)

/-- A magnitude is a number, so it is above what it is not at most. -/
theorem not_le_iff (h : Magnitude x) (hy : y.isFinite = true) : ¬ x ≤ y ↔ y < x := by
  cases h with
  | finite hfin _ => rw [le_iff hfin hy, lt_iff hy hfin, not_le]
  | infinite hinf =>
    have hle : x ≤ y ↔ ((unpack x).compare (unpack y)).any (·.isLE) = true := decide_eq_true_iff
    have hlt : y < x ↔ ((unpack y).compare (unpack x) == some .lt) = true := decide_eq_true_iff
    rw [isFinite_eq] at hy
    rw [hle, hlt, hinf]
    rcases finite_cases hy with ⟨s, hs⟩ | ⟨s, m, e, hm, hs⟩ <;> rw [hs] <;>
      exact iff_of_true (by rintro ⟨⟩) rfl

theorem overflown_of_not_finite (h : Magnitude x) (hx : ¬ x.isFinite = true) :
    unpack x = .infinity .positive := by
  cases h with
  | finite hfin _ => exact absurd hfin hx
  | infinite hinf => exact hinf

end Magnitude
end Binary32

namespace Vec3
variable {v t : Vec3 Float32}

/-- The norm of a finite vector may overflow, and is never undefined. -/
theorem magnitude_norm (h : v.isFinite = true) : Magnitude v.norm := by
  obtain ⟨hx, hy, hz⟩ := (isFinite_iff v).mp h
  exact (((Magnitude.mul_self hx).add (.mul_self hy)).add (.mul_self hz)).sqrt

theorem eq_div_norm_of_direction? {least : Float32} (ht : v.direction? least = some t) :
    t = v / v.norm := by
  rw [direction?] at ht
  split at ht
  · cases ht
  · exact (Option.some.inj ht).symm

/-- A vector whose norm overflows has no direction. -/
theorem exact_direction_of_overflow {least : Float32} (hv : v.isFinite = true)
    (ht : v.direction? least = some t) (hinf : unpack v.norm = .infinity .positive) :
    t.isFinite = true ∧ t.exact = ⟨0, 0, 0⟩ := by
  obtain ⟨hx, hy, hz⟩ := (isFinite_iff v).mp hv
  rw [eq_div_norm_of_direction? ht]
  refine ⟨(isFinite_iff _).mpr ⟨isFinite_div_infinity hx hinf, isFinite_div_infinity hy hinf,
    isFinite_div_infinity hz hinf⟩, ?_⟩
  ext
  exacts [toReal_div_infinity hx hinf, toReal_div_infinity hy hinf, toReal_div_infinity hz hinf]

end Vec3
end Attitude
