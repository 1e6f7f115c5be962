import Mathlib
import Attitude.Alignment
import Attitude.Proofs.Exact.Frame
import Attitude.Proofs.Exact.Reading
import Attitude.Proofs.Finite

/-!
# Rounded directions

A direction is a vector divided by its norm, and both are rounded. As long as the norm is finite and
not tiny, the rounded direction is as long as one and points along the vector, up to a few units of
the last place.
-/

namespace Attitude
open Binary32

namespace Vec3
variable {v t : Vec3 Float32}

/-! ## Norms -/

/-- The error of a rounded square, whose value is not negative. -/
theorem error_sq {x : Float32} (h : (x * x).isFinite = true) :
    |toReal (x * x) - toReal x ^ 2| ≤ toReal x ^ 2 / 2 ^ 24 + 1 / 2 ^ 150 ∧ 0 ≤ toReal (x * x) := by
  have hfin := (isFinite_of_mul h).1
  have hnearest := (rounds_mul hfin hfin).isNearest h
  have herror := hnearest.abs_sub_le
  rw [abs_mul_self, ← sq] at herror
  exact ⟨herror, hnearest.nonneg (mul_self_nonneg _)⟩

/-- The error of a rounded sum of numbers that are not negative. -/
theorem error_add_of_nonneg {x y : Float32} (h : (x + y).isFinite = true) (hx : 0 ≤ toReal x)
    (hy : 0 ≤ toReal y) :
    |toReal (x + y) - (toReal x + toReal y)| ≤ (toReal x + toReal y) / 2 ^ 24 + 1 / 2 ^ 150 ∧
      0 ≤ toReal (x + y) := by
  obtain ⟨hfx, hfy⟩ := Binary32.isFinite_of_add h
  have hnearest := (rounds_add hfx hfy).isNearest h
  have herror := hnearest.abs_sub_le
  rw [abs_of_nonneg (add_nonneg hx hy)] at herror
  exact ⟨herror, hnearest.nonneg (add_nonneg hx hy)⟩

theorem normSq_exact (v : Vec3 Float32) :
    v.exact.normSq = toReal v.x ^ 2 + toReal v.y ^ 2 + toReal v.z ^ 2 := by
  simp only [normSq, x_exact, y_exact, z_exact]
  ring

theorem error_normSq (h : v.normSq.isFinite = true) :
    |toReal v.normSq - v.exact.normSq| ≤ v.exact.normSq / 2 ^ 21 + 1 / 2 ^ 146 := by
  obtain ⟨hxy, hz⟩ := Binary32.isFinite_of_add h
  obtain ⟨hx, hy⟩ := Binary32.isFinite_of_add hxy
  obtain ⟨ex, hx0⟩ := error_sq hx
  obtain ⟨ey, hy0⟩ := error_sq hy
  obtain ⟨ez, hz0⟩ := error_sq hz
  obtain ⟨exy, hxy0⟩ := error_add_of_nonneg hxy hx0 hy0
  obtain ⟨e, -⟩ := error_add_of_nonneg h hxy0 hz0
  have hX := sq_nonneg (toReal v.x)
  have hY := sq_nonneg (toReal v.y)
  have hZ := sq_nonneg (toReal v.z)
  rw [normSq_exact]
  change |toReal (v.x * v.x + v.y * v.y + v.z * v.z) - _| ≤ _
  rw [abs_le] at ex ey ez exy e ⊢
  constructor <;> linarith [ex.1, ex.2, ey.1, ey.2, ez.1, ez.2, exy.1, exy.2, e.1, e.2]

/-- The square of a rounded norm that is not tiny is the exact one up to a few units. -/
theorem error_norm (h : v.norm.isFinite = true) (hleast : 1 / 2 ^ 20 ≤ toReal v.norm) :
    |v.exact.normSq - toReal v.norm ^ 2| ≤ toReal v.norm ^ 2 / 2 ^ 20 := by
  obtain ⟨hfin, hnonneg⟩ := isFinite_of_sqrt h
  have hroot := ((rounds_sqrt hfin hnonneg).isNearest h).abs_sub_le
  have hsum := error_normSq hfin
  have hsqrt : √(toReal v.normSq) ^ 2 = toReal v.normSq := Real.sq_sqrt hnonneg
  have hr0 := Real.sqrt_nonneg (toReal v.normSq)
  rw [abs_of_nonneg hr0] at hroot
  change |toReal v.norm - _| ≤ _ at hroot
  generalize toReal v.norm = n at *
  generalize √(toReal v.normSq) = r at *
  rw [abs_le] at hroot
  have hn0 : 0 ≤ n := by linarith
  have hsq : 1 / 2 ^ 40 ≤ n ^ 2 := by nlinarith
  -- The root is off by one unit, so its square is off by two.
  have hdiff : |n - r| ≤ n / 2 ^ 23 := by
    rw [abs_le]
    constructor <;> linarith [hroot.1, hroot.2]
  have hsquare : |n ^ 2 - r ^ 2| ≤ n ^ 2 / 2 ^ 22 + n ^ 2 / 2 ^ 40 := by
    have hsplit : n ^ 2 - r ^ 2 = (n - r) * (n + r) := by ring
    have hplus : |n + r| ≤ 2 * n + n / 2 ^ 23 := by
      rw [abs_le] at hdiff ⊢
      constructor <;> linarith [hdiff.1, hdiff.2]
    rw [hsplit, abs_mul]
    calc |n - r| * |n + r| ≤ n / 2 ^ 23 * (2 * n + n / 2 ^ 23) := by gcongr
      _ = n ^ 2 / 2 ^ 22 + n ^ 2 / 2 ^ 46 := by ring
      _ ≤ n ^ 2 / 2 ^ 22 + n ^ 2 / 2 ^ 40 := by gcongr <;> norm_num
  rw [hsqrt] at hsquare
  rw [abs_le] at hsum hsquare ⊢
  constructor <;> linarith [hsum.1, hsum.2, hsquare.1, hsquare.2]

/-! ## Directions -/

/-- The direction `t` of a vector `v` of norm `n`. -/
structure Directs (v t : Vec3 Float32) (n : ℝ) : Prop where
  finite : t.isFinite = true
  least : 1 / 2 ^ 20 ≤ n
  length : |v.exact.normSq - n ^ 2| ≤ n ^ 2 / 2 ^ 20
  near : ∀ i, |n * t.exact.component i - v.exact.component i| ≤ n / 2 ^ 23
  unit : |t.exact.normSq - 1| ≤ 1 / 2 ^ 18

/-- A component divided by the norm. -/
theorem error_div_norm {x d : Float32} (hx : x.isFinite = true) (hd : d.isFinite = true)
    (hleast : 1 / 2 ^ 20 ≤ toReal d) (hle : |toReal x| ≤ (1 + 1 / 2 ^ 10) * toReal d) :
    (x / d).isFinite = true ∧ |toReal d * toReal (x / d) - toReal x| ≤ toReal d / 2 ^ 23 := by
  have hpos : 0 < toReal d := lt_of_lt_of_le (by norm_num) hleast
  have hquotient : |toReal x / toReal d| ≤ 1 + 1 / 2 ^ 10 := by
    rw [abs_div, abs_of_pos hpos, div_le_iff₀ hpos]
    exact hle
  have hrounds := rounds_div hx hd hpos.ne'
  have hfin := (hrounds.near (hquotient.trans (by norm_num))).1
  refine ⟨hfin, ?_⟩
  have herror := (hrounds.isNearest hfin).abs_sub_le
  have hscaled : toReal d * toReal (x / d) - toReal x =
      toReal d * (toReal (x / d) - toReal x / toReal d) := by
    rw [mul_sub, mul_div_cancel₀ _ hpos.ne']
  rw [hscaled, abs_mul, abs_of_pos hpos]
  calc toReal d * |toReal (x / d) - toReal x / toReal d|
      ≤ toReal d * ((1 + 1 / 2 ^ 10) / 2 ^ 24 + 1 / 2 ^ 150) := by
        gcongr
        exact herror.trans (by gcongr)
    _ ≤ toReal d * (1 / 2 ^ 23) := by
        gcongr
        norm_num
    _ = toReal d / 2 ^ 23 := by ring

/-- A vector scaled to its norm has the norm one, up to the errors of its components. -/
theorem abs_normSq_sub_one_le {v t : Vec3 ℝ} {n : ℝ} (hn : 0 < n)
    (hlength : |v.normSq - n ^ 2| ≤ n ^ 2 / 2 ^ 20)
    (hnear : ∀ i, |n * t.component i - v.component i| ≤ n / 2 ^ 23)
    (hle : ∀ i, |v.component i| ≤ (1 + 1 / 2 ^ 10) * n) : |t.normSq - 1| ≤ 1 / 2 ^ 18 := by
  have hsquare (i : Fin 3) : |(n * t.component i) ^ 2 - v.component i ^ 2| ≤ n ^ 2 / 2 ^ 21 := by
    have hsplit : (n * t.component i) ^ 2 - v.component i ^ 2 =
        (n * t.component i - v.component i) * (n * t.component i + v.component i) := by ring
    have hplus : |n * t.component i + v.component i| ≤ 4 * n := by
      have hnear := abs_le.mp (hnear i)
      have hle := abs_le.mp (hle i)
      rw [abs_le]
      constructor <;> linarith [hnear.1, hnear.2, hle.1, hle.2]
    rw [hsplit, abs_mul]
    calc |n * t.component i - v.component i| * |n * t.component i + v.component i|
        ≤ n / 2 ^ 23 * (4 * n) := mul_le_mul (hnear i) hplus (abs_nonneg _) (by positivity)
      _ = n ^ 2 / 2 ^ 21 := by ring
  have hscaled : |n ^ 2 * (t.normSq - 1)| ≤ n ^ 2 * (1 / 2 ^ 18) := by
    have hx := abs_le.mp (hsquare 0)
    have hy := abs_le.mp (hsquare 1)
    have hz := abs_le.mp (hsquare 2)
    have hl := abs_le.mp hlength
    simp only [component, normSq] at hx hy hz hl ⊢
    rw [abs_le]
    constructor <;> nlinarith [hx.1, hx.2, hy.1, hy.2, hz.1, hz.2, hl.1, hl.2]
  rw [abs_mul, abs_of_nonneg (sq_nonneg n)] at hscaled
  exact le_of_mul_le_mul_left hscaled (by positivity)

theorem toReal_leastDirection : 1 / 2 ^ 20 ≤ toReal leastDirection := by
  have hunpack : unpack leastDirection = .finite .positive 8796093 (-43) (by norm_num) := rfl
  rw [toReal, hunpack]
  norm_num [value, signFactor]

/-- A direction that is handed out with a finite norm is the direction of the vector. -/
theorem directs_of_direction? (h : v.direction? leastDirection = some t)
    (hfin : v.norm.isFinite = true) : v.Directs t (toReal v.norm) := by
  rw [direction?] at h
  split at h
  · cases h
  · rename_i hlarge
    obtain rfl := Option.some.inj h
    have hleast : 1 / 2 ^ 20 ≤ toReal v.norm := by
      rw [Binary32.le_iff hfin (by rfl), not_le] at hlarge
      exact toReal_leastDirection.trans hlarge.le
    have hpos : 0 < toReal v.norm := lt_of_lt_of_le (by norm_num) hleast
    have hlength := error_norm hfin hleast
    obtain ⟨hx, hy, hz⟩ := (isFinite_iff v).mp (isFinite_of_norm hfin)
    have hle (i : Fin 3) : |v.exact.component i| ≤ (1 + 1 / 2 ^ 10) * toReal v.norm := by
      refine abs_component_le (by positivity) ?_ i
      have hupper := (abs_le.mp hlength).2
      nlinarith [sq_nonneg (toReal v.norm)]
    have hx' := error_div_norm hx hfin hleast (hle 0)
    have hy' := error_div_norm hy hfin hleast (hle 1)
    have hz' := error_div_norm hz hfin hleast (hle 2)
    have hnear : ∀ i, |toReal v.norm * (v / v.norm).exact.component i - v.exact.component i| ≤
        toReal v.norm / 2 ^ 23 := by
      intro i
      fin_cases i
      · exact hx'.2
      · exact hy'.2
      · exact hz'.2
    exact ⟨(isFinite_iff _).mpr ⟨hx'.1, hy'.1, hz'.1⟩, hleast, hlength, hnear,
      abs_normSq_sub_one_le hpos hlength hnear hle⟩

end Vec3
end Attitude
