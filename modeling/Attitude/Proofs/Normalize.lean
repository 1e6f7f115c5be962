import Attitude.Proofs.Finite

/-!
# Normalization in binary32

Normalizing divides by a norm that has been rounded four times, and its squares may have lost
everything below the least number. It is still safe on finite quaternions: if the norm has not
vanished, it is at least one half of every component, so no quotient overflows.
-/

namespace Attitude
open Binary32

namespace Binary32
open Float.Model

/-- A point of the grid above zero is at least the least one. -/
theorem OnGrid.two_zpow_le {y : ℝ} (h : OnGrid y) (hy : 0 < y) : (2 : ℝ) ^ (-149 : ℤ) ≤ y := by
  obtain ⟨m, e, -, he, rfl⟩ := h
  have hm : (0 : ℝ) < m := pos_of_mul_pos_left hy (by positivity)
  have hm' : (1 : ℝ) ≤ m := by exact_mod_cast (Int.cast_pos.mp hm : 0 < m)
  calc (2 : ℝ) ^ (-149 : ℤ) ≤ 2 ^ e := zpow_le_zpow_right₀ one_le_two he
    _ ≤ m * 2 ^ e := le_mul_of_one_le_left (by positivity) hm'

/-- A sum is not smaller than a summand, when the other one is not negative. -/
theorem le_toReal_add {x y : Float32} (h : (x + y).isFinite = true) (hx : NotNegative x)
    (hy : NotNegative y) : toReal x ≤ toReal (x + y) ∧ toReal y ≤ toReal (x + y) := by
  obtain ⟨hfx, hfy⟩ := isFinite_of_add h
  have hnearest := (rounds_add hfx hfy).isNearest h
  have hx' := hx.value
  have hy' := hy.value
  exact ⟨hnearest.ge (onGrid_toReal x) (by linarith), hnearest.ge (onGrid_toReal y) (by linarith)⟩

/-- A square keeps the power of two below it, unless that is too small. -/
theorem two_zpow_le_sq {x : Float32} (h : (x * x).isFinite = true) {e : ℤ} (he : -149 ≤ e + e)
    (hx : (2 : ℝ) ^ e ≤ |toReal x|) : (2 : ℝ) ^ (e + e) ≤ toReal (x * x) := by
  have hfin := (isFinite_of_mul h).1
  refine ((rounds_mul hfin hfin).isNearest h).ge (onGrid_two_zpow he) ?_
  rw [zpow_add₀ two_ne_zero, ← abs_mul_abs_self (toReal x)]
  exact mul_le_mul hx hx (by positivity) (by positivity)

/-- So does a square root. -/
theorem two_zpow_le_sqrt {x : Float32} (h : x.sqrt.isFinite = true) {e : ℤ} (he : -149 ≤ e)
    (hx : (2 : ℝ) ^ (e + e) ≤ toReal x) : (2 : ℝ) ^ e ≤ toReal x.sqrt := by
  obtain ⟨hfin, hnonneg⟩ := isFinite_of_sqrt h
  refine ((rounds_sqrt hfin hnonneg).isNearest h).ge (onGrid_two_zpow he) ?_
  rw [zpow_add₀ two_ne_zero] at hx
  exact Real.le_sqrt_of_sq_le (by rwa [sq])

/-- A finite number divided by an infinite one vanishes. -/
theorem isFinite_div_infinity {x y : Float32} (hx : x.isFinite = true)
    (hy : unpack y = .infinity .positive) : (x / y).isFinite = true := by
  have hdiv : x / y = encode (.div Format.binary32 (unpack x) (unpack y)) := rfl
  rw [isFinite_eq] at hx
  rw [hdiv, hy, isFinite_eq]
  rcases finite_cases hx with ⟨s, hs⟩ | ⟨s, m, e, hm, hs⟩
  · rw [hs]
    exact congrArg UnpackedFloat.isFinite (unpack_encode_zero _)
  · rw [hs]
    exact congrArg UnpackedFloat.isFinite (unpack_encode_zero _)

end Binary32

namespace Quat

/-- The squares that make up a norm are not above the square of the norm. -/
theorem sq_le_normSq {q : Quat Float32} (h : q.normSq.isFinite = true) {c : Float32}
    (hc : c ∈ q.toList) : (c * c).isFinite = true ∧ toReal (c * c) ≤ toReal q.normSq := by
  obtain ⟨hik, hjw⟩ := Binary32.isFinite_of_add h
  have hsum := le_toReal_add h (notNegative_add (notNegative_mul_self q.i) (notNegative_mul_self q.k))
    (notNegative_add (notNegative_mul_self q.j) (notNegative_mul_self q.w))
  have hik' := le_toReal_add hik (notNegative_mul_self q.i) (notNegative_mul_self q.k)
  have hjw' := le_toReal_add hjw (notNegative_mul_self q.j) (notNegative_mul_self q.w)
  have hik := Binary32.isFinite_of_add hik
  have hjw := Binary32.isFinite_of_add hjw
  simp only [toList, List.mem_cons, List.not_mem_nil, or_false] at hc
  rcases hc with rfl | rfl | rfl | rfl
  · exact ⟨hjw.2, hjw'.2.trans hsum.2⟩
  · exact ⟨hik.1, hik'.1.trans hsum.1⟩
  · exact ⟨hjw.1, hjw'.1.trans hsum.2⟩
  · exact ⟨hik.2, hik'.2.trans hsum.1⟩

/-- A norm that has not vanished is at least one half of every component. -/
theorem abs_le_two_mul_norm {q : Quat Float32} (h : q.norm.isFinite = true)
    (hpos : 0 < toReal q.norm) {c : Float32} (hc : c ∈ q.toList) :
    |toReal c| ≤ 2 * toReal q.norm := by
  obtain ⟨hfin, hnonneg⟩ := isFinite_of_sqrt h
  obtain ⟨hsq, hle⟩ := sq_le_normSq hfin hc
  by_cases hsmall : |toReal c| < 2 ^ (-74 : ℤ)
  · -- The norm is the root of a number of the grid, so it is at least half of `2 ^ (-74)`.
    have hnormSq : 0 < toReal q.normSq := by
      rcases hnonneg.lt_or_eq with hlt | heq
      · exact hlt
      · exfalso
        have hle := ((rounds_sqrt hfin hnonneg).isNearest h).le onGrid_zero (by rw [← heq]; simp)
        exact absurd hpos (not_lt.mpr hle)
    have hleast : (2 : ℝ) ^ ((-75 : ℤ) + -75) ≤ toReal q.normSq :=
      le_trans (zpow_le_zpow_right₀ one_le_two (by norm_num))
        ((onGrid_toReal _).two_zpow_le hnormSq)
    have hnorm : (2 : ℝ) ^ (-75 : ℤ) ≤ toReal q.norm :=
      two_zpow_le_sqrt h (by norm_num) hleast
    have htwice : (2 : ℝ) ^ (-74 : ℤ) = 2 * 2 ^ (-75 : ℤ) := by norm_num
    linarith
  · -- The power of two below the component survives the square and the root.
    have hlarge := not_lt.mp hsmall
    have hcpos : 0 < |toReal c| := lt_of_lt_of_le (by positivity) hlarge
    obtain ⟨e, hlo, hhi⟩ := exists_mem_Ico_zpow hcpos (by norm_num : (1 : ℝ) < 2)
    have he : -75 < e := by
      by_contra hle
      have hpow : (2 : ℝ) ^ (e + 1) ≤ 2 ^ (-74 : ℤ) := zpow_le_zpow_right₀ one_le_two (by omega)
      linarith
    have hnorm : (2 : ℝ) ^ e ≤ toReal q.norm :=
      two_zpow_le_sqrt h (by omega) ((two_zpow_le_sq hsq (by omega) hlo).trans hle)
    rw [zpow_add_one₀ two_ne_zero] at hhi
    linarith

/-- **Normalization succeeds on finite quaternions whose norm has not vanished**, and on no
others. -/
theorem isFinite_normalize_iff (q : Quat Float32) :
    q.normalize.isFinite = true ↔ q.isFinite = true ∧ 0.0 < q.norm := by
  have hparts : q.normalize.isFinite = true ↔ ∀ c ∈ q.toList, (c / q.norm).isFinite = true := by
    rw [isFinite_iff]
    simp only [toList, List.forall_mem_cons, List.not_mem_nil, false_implies, implies_true,
      and_true]
    rfl
  have hq : q.isFinite = true ↔ ∀ c ∈ q.toList, c.isFinite = true := by
    rw [isFinite_iff]
    simp only [toList, List.forall_mem_cons, List.not_mem_nil, false_implies, implies_true,
      and_true]
    rfl
  rw [hparts, hq]
  constructor
  · intro h
    refine ⟨fun c hc => (isFinite_of_div (h c hc)).1, ?_⟩
    obtain ⟨-, hnan, hne⟩ := isFinite_of_div (h q.w (by simp [toList]))
    have hnonneg := notNegative_sqrt q.normSq
    rw [pos_iff]
    by_cases hfin : q.norm.isFinite = true
    · exact .inl ⟨hfin, lt_of_le_of_ne hnonneg.value (hne hfin).symm⟩
    · right
      have hinf := hnonneg.infinity
      change unpack q.norm ≠ _ at hinf
      change (unpack q.norm).isNaN = false at hnan
      rw [isFinite_eq] at hfin
      generalize unpack q.norm = u at *
      cases u with
      | notANumber => cases hnan
      | infinity s =>
        cases s with
        | negative => exact absurd rfl hinf
        | positive => rfl
      | _ => exact absurd rfl hfin
  · rintro ⟨hfinite, hpos⟩ c hc
    have hc' := hfinite c hc
    rcases (pos_iff _).mp hpos with ⟨hfin, hpos⟩ | hinf
    · have hle := abs_le_two_mul_norm hfin hpos hc
      have htwo : OnGrid 2 := by exact_mod_cast onGrid_natCast (m := 2) (by norm_num)
      refine (rounds_div hc' hfin hpos.ne').isFinite_of_within htwo ?_ (by norm_num)
      rw [abs_div, abs_of_pos hpos, div_le_iff₀ hpos]
      exact hle
    · exact isFinite_div_infinity hc' hinf

end Quat
end Attitude
