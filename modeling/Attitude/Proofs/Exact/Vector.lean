import Mathlib.LinearAlgebra.CrossProduct
import Attitude.Proofs.Exact.Matrix

/-!
# Vectors over exact arithmetic

`Vec3.component` carries a vector to the functions on `Fin 3`, where Mathlib has the dot product
and the cross product. With exact square roots a vector whose norm is not zero has a direction: a
vector of norm one that a positive factor does not change.

## Main definitions

* `Vec3.inner`: the inner product
* `Vec3.direction`: a vector divided by its norm
-/

namespace Attitude.Vec3
open Matrix

theorem component_injective : Function.Injective (component : Vec3 ℝ → Fin 3 → ℝ) := fun _ _ h =>
  Vec3.ext (congrFun h 0) (congrFun h 1) (congrFun h 2)

theorem component_mul (v : Vec3 ℝ) (a : ℝ) : (v * a).component = a • v.component := by
  ext i
  fin_cases i <;> exact mul_comm _ _

theorem component_sub (v w : Vec3 ℝ) : (v - w).component = v.component - w.component := by
  ext i
  fin_cases i <;> rfl

theorem component_cross (v w : Vec3 ℝ) : (v.cross w).component = v.component ⨯₃ w.component := by
  rw [cross_apply]
  ext i
  fin_cases i <;> rfl

/-- Three vectors as rows. -/
theorem toMatrix_ofRows (a b c : Vec3 ℝ) : (Mat.ofRows a b c).toMatrix =
    Matrix.of ![a.component, b.component, c.component] := by
  rw [Mat.toMatrix_ofRows]
  ext i j
  fin_cases i <;> fin_cases j <;> rfl

/-- Three vectors as columns. -/
theorem toMatrix_ofColumns (a b c : Vec3 ℝ) : (Mat.ofColumns a b c).toMatrix =
    (Matrix.of ![a.component, b.component, c.component])ᵀ := by
  rw [Mat.ofColumns, Mat.toMatrix_transpose, toMatrix_ofRows]

/-- A product with one column. -/
theorem get_mul_column {n : ℕ} (a : Mat n 3 ℝ) (v : Vec3 ℝ) (i : Fin n) :
    (a * Mat.column v) i 0 = (a.toMatrix *ᵥ v.component) i := by
  have hcolumn (j : Fin 3) : Mat.column v j 0 = v.component j := by
    fin_cases j <;> rfl
  simp [Mat.dot_eq_sum, mulVec, dotProduct, hcolumn]

/-- A matrix determines its columns. -/
theorem eq_of_ofColumns_eq {a b c a' b' c' : Vec3 ℝ}
    (h : (Mat.ofColumns a b c).toMatrix = (Mat.ofColumns a' b' c').toMatrix) :
    a = a' ∧ b = b' ∧ c = c' := by
  rw [toMatrix_ofColumns, toMatrix_ofColumns] at h
  have hcolumn (j : Fin 3) : ![a.component, b.component, c.component] j =
      ![a'.component, b'.component, c'.component] j := funext fun i => congrFun (congrFun h i) j
  exact ⟨component_injective (hcolumn 0), component_injective (hcolumn 1),
    component_injective (hcolumn 2)⟩

protected theorem sub_self (v : Vec3 ℝ) : v - v = ⟨0, 0, 0⟩ := by
  ext <;> simp

protected theorem add_zero (v : Vec3 ℝ) : v + ⟨0, 0, 0⟩ = v := by
  ext <;> simp

protected theorem mul_one (v : Vec3 ℝ) : v * (1 : ℝ) = v := by
  ext <;> simp

theorem cross_mul_left (v w : Vec3 ℝ) (a : ℝ) : (v * a).cross w = v.cross w * a := by
  ext <;> simp only [cross, x_mul, y_mul, z_mul] <;> ring

theorem cross_mul_mul (v w : Vec3 ℝ) (a b : ℝ) : (v * a).cross (w * b) = v.cross w * (a * b) := by
  ext <;> simp only [cross, x_mul, y_mul, z_mul] <;> ring

/-! ## Inner products -/

section
variable (v w : Vec3 ℝ)

def inner : ℝ := v.x * w.x + v.y * w.y + v.z * w.z

theorem normSq_nonneg : 0 ≤ v.normSq :=
  add_nonneg (add_nonneg (mul_self_nonneg v.x) (mul_self_nonneg v.y)) (mul_self_nonneg v.z)

/-- The identity of Lagrange. -/
theorem normSq_cross : (v.cross w).normSq = v.normSq * w.normSq - inner v w ^ 2 := by
  simp only [normSq, cross, inner]
  ring

theorem normSq_cross_le : (v.cross w).normSq ≤ v.normSq * w.normSq := by
  rw [normSq_cross]
  linarith [sq_nonneg (inner v w)]

/-- The inequality of Cauchy and Schwarz. -/
theorem inner_sq_le : inner v w ^ 2 ≤ v.normSq * w.normSq := by
  linarith [normSq_cross v w, normSq_nonneg (v.cross w)]

theorem inner_cross_self : inner v (v.cross w) = 0 := by
  simp only [inner, cross]
  ring

theorem inner_cross_right : inner w (v.cross w) = 0 := by
  simp only [inner, cross]
  ring

theorem cross_cross_left : v.cross (v.cross w) = v * inner v w - w * v.normSq := by
  ext <;> simp only [cross, inner, normSq, x_sub, y_sub, z_sub, x_mul, y_mul, z_mul] <;> ring

theorem cross_cross_right : w.cross (v.cross w) = v * w.normSq - w * inner v w := by
  ext <;> simp only [cross, inner, normSq, x_sub, y_sub, z_sub, x_mul, y_mul, z_mul] <;> ring

end

theorem normSq_le_of_component {v : Vec3 ℝ} {c : ℝ} (h : ∀ i, |v.component i| ≤ c) :
    v.normSq ≤ 3 * c ^ 2 := by
  have hsq (i : Fin 3) : v.component i ^ 2 ≤ c ^ 2 := sq_le_sq.mpr ((h i).trans (le_abs_self c))
  have hx := hsq 0
  have hy := hsq 1
  have hz := hsq 2
  simp only [component, normSq] at hx hy hz ⊢
  linarith

theorem abs_component_le {w : Vec3 ℝ} {c : ℝ} (hc : 0 ≤ c) (h : w.normSq ≤ c ^ 2) (i : Fin 3) :
    |w.component i| ≤ c := by
  have hsq : w.component i ^ 2 ≤ w.normSq := by
    have hx := sq_nonneg w.x
    have hy := sq_nonneg w.y
    have hz := sq_nonneg w.z
    rw [normSq]
    fin_cases i <;> simp only [component] <;> nlinarith
  exact abs_le_of_sq_le_sq (hsq.trans h) hc

/-! ## Norms -/

theorem normSq_eq_dotProduct (v : Vec3 ℝ) : v.normSq = v.component ⬝ᵥ v.component := by
  simp [normSq, dotProduct, Fin.sum_univ_three, component]

theorem norm_mul_self (v : Vec3 ℝ) : v.norm * v.norm = v.normSq := Real.mul_self_sqrt v.normSq_nonneg

theorem norm_ne_zero {v : Vec3 ℝ} (h : 0 < v.normSq) : v.norm ≠ 0 := (Real.sqrt_pos.mpr h).ne'

theorem normSq_scale (v : Vec3 ℝ) (a : ℝ) : (v * a).normSq = v.normSq * a ^ 2 := by
  simp only [normSq, x_mul, y_mul, z_mul]
  ring

theorem norm_mul (v : Vec3 ℝ) {a : ℝ} (ha : 0 ≤ a) : (v * a).norm = v.norm * a := by
  change √(v * a).normSq = √v.normSq * a
  rw [normSq_scale, Real.sqrt_mul' _ (sq_nonneg a), Real.sqrt_sq ha]

/-! ## Directions -/

/-- The vector of norm one along `v`, if the norm of `v` is not zero. -/
noncomputable def direction (v : Vec3 ℝ) : Vec3 ℝ := v / v.norm

theorem direction_eq_mul (v : Vec3 ℝ) : v.direction = v * v.norm⁻¹ := by
  ext <;> simp only [direction, x_div, y_div, z_div, x_mul, y_mul, z_mul, div_eq_mul_inv]

theorem direction_mul (v : Vec3 ℝ) {a : ℝ} (ha : 0 < a) : (v * a).direction = v.direction := by
  rw [direction, direction, norm_mul v ha.le]
  ext <;> simp only [x_div, y_div, z_div, x_mul, y_mul, z_mul] <;>
    exact mul_div_mul_right _ _ ha.ne'

theorem normSq_direction {v : Vec3 ℝ} (hv : 0 < v.norm) : v.direction.normSq = 1 := by
  have hquotient : v.direction.normSq = v.normSq / (v.norm * v.norm) := by
    simp only [direction, normSq, x_div, y_div, z_div]
    ring
  rw [hquotient, ← norm_mul_self, div_self (mul_self_ne_zero.mpr hv.ne')]

/-- A vector and its product with another one point in perpendicular directions. -/
theorem direction_dotProduct_cross (v w : Vec3 ℝ) :
    v.direction.component ⬝ᵥ (v.cross w).direction.component = 0 := by
  rw [direction_eq_mul, direction_eq_mul, component_mul, component_mul, component_cross,
    smul_dotProduct, dotProduct_smul, dot_self_cross, smul_zero, smul_zero]

/-- A direction is handed out exactly above the least norm. -/
theorem direction?_eq_some_iff {v u : Vec3 ℝ} {least : ℝ} :
    v.direction? least = some u ↔ least < v.norm ∧ v.direction = u := by
  rw [direction?, ← not_le]
  split
  · rename_i hn
    simp [hn]
  · rename_i hn
    simp [hn, direction]

end Attitude.Vec3
