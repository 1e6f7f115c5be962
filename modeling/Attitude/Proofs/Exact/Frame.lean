import Mathlib
import Attitude.Proofs.Binary32.Error
import Attitude.Proofs.Exact.Vector

/-!
# Frames that are nearly orthonormal

The matrix between two frames is a rotation when both are orthonormal. Rounded frames are not: their
first two directions have nearly the norm one and are nearly perpendicular. Two quantities say how
far the matrix between them is from a rotation, the sum of its squared entries and its diagonal
cofactors, and a quaternion that is read off the matrix has the norm one up to these. `Mat.defect`
adds them up with the signs of the branch that reads.

## Main definitions

* `Vec3.weighted`: an inner product with weights
* `NearlyOrthonormal`: a pair of directions
* `turnBetween`: the matrix from one frame to another
* `Mat.defect`
-/

namespace Attitude

namespace Vec3
variable (v w : Vec3 ℝ)

/-- An inner product in which the terms have weights of their own. -/
def weighted (s : Vec3 ℝ) : ℝ := s.x * (v.x * w.x) + s.y * (v.y * w.y) + s.z * (v.z * w.z)

theorem abs_weighted_le {s : Vec3 ℝ} (hs : ∀ i, |s.component i| ≤ 1) :
    |weighted v w s| ≤ (v.normSq + w.normSq) / 2 := by
  have hterm {c a b : ℝ} (hc : |c| ≤ 1) : |c * (a * b)| ≤ (a * a + b * b) / 2 := by
    rw [abs_mul]
    have hproduct : |a * b| ≤ (a * a + b * b) / 2 := by
      rw [abs_le]
      constructor <;> nlinarith [sq_nonneg (a + b), sq_nonneg (a - b)]
    calc |c| * |a * b| ≤ 1 * |a * b| := by gcongr
      _ ≤ (a * a + b * b) / 2 := by rwa [one_mul]
  have hx := hterm (a := v.x) (b := w.x) (hs 0)
  have hy := hterm (a := v.y) (b := w.y) (hs 1)
  have hz := hterm (a := v.z) (b := w.z) (hs 2)
  have htri := abs_add_three (s.x * (v.x * w.x)) (s.y * (v.y * w.y)) (s.z * (v.z * w.z))
  rw [weighted, normSq, normSq]
  change |s.x * (v.x * w.x)| ≤ _ at hx
  change |s.y * (v.y * w.y)| ≤ _ at hy
  change |s.z * (v.z * w.z)| ≤ _ at hz
  linarith

/-- A sum is not much longer than its first term, when the second one is short. -/
theorem normSq_add_le : (v + w).normSq ≤ 17 / 16 * v.normSq + 17 * w.normSq := by
  simp only [normSq, x_add, y_add, z_add]
  nlinarith [sq_nonneg (v.x / 4 - 4 * w.x), sq_nonneg (v.y / 4 - 4 * w.y),
    sq_nonneg (v.z / 4 - 4 * w.z)]

variable {v w}

/-- The sine of the angle between two vectors is at least `2 ^ (-12)`. -/
structure Apart (v w : Vec3 ℝ) : Prop where
  sine : v.normSq * w.normSq ≤ 2 ^ 24 * (v.cross w).normSq

section Angles
variable {a u c b : Vec3 ℝ} {n l : ℝ}

/-- The rounded direction `a` of a vector `u` is apart from what `u` is apart from. -/
theorem Apart.normSq_le_cross (h : Apart u w) (hn : 0 < n)
    (hlength : |u.normSq - n ^ 2| ≤ n ^ 2 / 2 ^ 20)
    (hnear : ∀ i, |n * a.component i - u.component i| ≤ n / 2 ^ 23) :
    15 / 16 * w.normSq ≤ 2 ^ 24 * (a.cross w).normSq := by
  have herror : (a * n - u).normSq ≤ 3 * (n / 2 ^ 23) ^ 2 := by
    apply normSq_le_of_component
    intro i
    have h := hnear i
    rw [mul_comm n] at h
    fin_cases i <;> exact h
  have hsplit : u.cross w = (a * n).cross w + (u - a * n).cross w := by
    ext <;> simp only [cross, x_add, y_add, z_add, x_sub, y_sub, z_sub] <;> ring
  have hscale : ((a * n).cross w).normSq = n ^ 2 * (a.cross w).normSq := by
    simp only [normSq, cross, x_mul, y_mul, z_mul]
    ring
  have hrest : ((u - a * n).cross w).normSq ≤ 3 * (n / 2 ^ 23) ^ 2 * w.normSq := by
    refine (normSq_cross_le _ _).trans ?_
    have hsymm : (u - a * n).normSq = (a * n - u).normSq := by
      simp only [normSq, x_sub, y_sub, z_sub]
      ring
    rw [hsymm]
    exact mul_le_mul_of_nonneg_right herror (normSq_nonneg w)
  have hsum := normSq_add_le ((a * n).cross w) ((u - a * n).cross w)
  rw [← hsplit, hscale] at hsum
  have hlower := (abs_le.mp hlength).1
  have hw := normSq_nonneg w
  have hn2 : 0 < n ^ 2 := by positivity
  have hproduct : n ^ 2 * (1 - 1 / 2 ^ 20) * w.normSq ≤ u.normSq * w.normSq :=
    mul_le_mul_of_nonneg_right (by linarith) hw
  have hapart := h.sine
  have hscaled : n ^ 2 * (15 / 16 * w.normSq) ≤ n ^ 2 * (2 ^ 24 * (a.cross w).normSq) := by
    have hpos := mul_nonneg hn2.le hw
    nlinarith
  exact le_of_mul_le_mul_left hscaled hn2

/-- The error of a rounded cross product is small beside the vector in it. -/
theorem normSq_error_cross (hl : w.normSq = l ^ 2)
    (herror : ∀ i, |c.component i - (a.cross w).component i| ≤ 3 * l / 2 ^ 23 + 1 / 2 ^ 147) :
    (c - a.cross w).normSq ≤ 28 * w.normSq / 2 ^ 46 + 1 / 2 ^ 250 := by
  have hle : (c - a.cross w).normSq ≤ 3 * (3 * l / 2 ^ 23 + 1 / 2 ^ 147) ^ 2 := by
    apply normSq_le_of_component
    intro i
    have h := herror i
    fin_cases i <;> exact h
  rw [hl]
  nlinarith [sq_nonneg (l / 2 ^ 23 / 8 - 8 * (1 / 2 ^ 147))]

/-- A vector is not much longer than its rounded cross product with a direction apart from it. -/
theorem normSq_le_of_cross (hapart : 15 / 16 * w.normSq ≤ 2 ^ 24 * (a.cross w).normSq)
    (herror : (c - a.cross w).normSq ≤ 28 * w.normSq / 2 ^ 46 + 1 / 2 ^ 250)
    (hleast : 1 / 2 ^ 20 ≤ n) (hlength : |c.normSq - n ^ 2| ≤ n ^ 2 / 2 ^ 20) :
    w.normSq ≤ 6 / 5 * 2 ^ 24 * n ^ 2 := by
  have hsplit : a.cross w = c + (a.cross w - c) := by
    ext <;> simp
  have hsum := normSq_add_le c (a.cross w - c)
  have hsymm : (a.cross w - c).normSq = (c - a.cross w).normSq := by
    simp only [normSq, x_sub, y_sub, z_sub]
    ring
  rw [← hsplit, hsymm] at hsum
  have hupper := (abs_le.mp hlength).2
  have hsq : 1 / 2 ^ 40 ≤ n ^ 2 := by nlinarith
  have hw := normSq_nonneg w
  linarith

/-- The rounded direction `b` of the rounded cross product is nearly perpendicular to `a`. -/
theorem abs_inner_le (ha : |a.normSq - 1| ≤ 1 / 2 ^ 18) (hw : w.normSq ≤ 6 / 5 * 2 ^ 24 * n ^ 2)
    (herror : (c - a.cross w).normSq ≤ 28 * w.normSq / 2 ^ 46 + 1 / 2 ^ 250)
    (hleast : 1 / 2 ^ 20 ≤ n) (hnear : ∀ i, |n * b.component i - c.component i| ≤ n / 2 ^ 23) :
    |inner a b| ≤ 1 / 2 ^ 8 := by
  have hn : 0 < n := lt_of_lt_of_le (by norm_num) hleast
  have hsq : 1 / 2 ^ 40 ≤ n ^ 2 := by nlinarith
  have hlast : (b * n - c).normSq ≤ 3 * (n / 2 ^ 23) ^ 2 := by
    apply normSq_le_of_component
    intro i
    have h := hnear i
    rw [mul_comm n] at h
    fin_cases i <;> exact h
  -- Only errors have a part along `a`.
  have hsplit : n * inner a b = inner a ((c - a.cross w) + (b * n - c)) := by
    simp only [inner, cross, x_add, y_add, z_add, x_sub, y_sub, z_sub, x_mul, y_mul, z_mul]
    ring
  have hcauchy := inner_sq_le a ((c - a.cross w) + (b * n - c))
  have hsum := normSq_add_le (c - a.cross w) (b * n - c)
  have hupper := (abs_le.mp ha).2
  have htotal : ((c - a.cross w) + (b * n - c)).normSq ≤ n ^ 2 * (18 / 2 ^ 21) := by
    linarith
  have hbound : (n * inner a b) ^ 2 ≤ (n * (1 / 2 ^ 8)) ^ 2 := by
    rw [hsplit]
    have hnonneg := normSq_nonneg ((c - a.cross w) + (b * n - c))
    calc inner a ((c - a.cross w) + (b * n - c)) ^ 2
        ≤ a.normSq * ((c - a.cross w) + (b * n - c)).normSq := hcauchy
      _ ≤ (1 + 1 / 2 ^ 18) * (n ^ 2 * (18 / 2 ^ 21)) :=
          mul_le_mul (by linarith) htotal hnonneg (by norm_num)
      _ ≤ (n * (1 / 2 ^ 8)) ^ 2 := by nlinarith
  have habs := sq_le_sq.mp hbound
  rw [abs_mul, abs_mul, abs_of_pos hn, abs_of_pos (by norm_num : (0 : ℝ) < 1 / 2 ^ 8)] at habs
  exact le_of_mul_le_mul_left habs hn

end Angles
end Vec3

/-! ## How far a matrix is from a rotation -/

namespace Mat
variable (m : Mat 3 3 ℝ)

/-- The sum of the squared entries. -/
def frobenius : ℝ :=
  m.xx ^ 2 + m.xy ^ 2 + m.xz ^ 2 + (m.yx ^ 2 + m.yy ^ 2 + m.yz ^ 2)
    + (m.zx ^ 2 + m.zy ^ 2 + m.zz ^ 2)

/-- The diagonal of the cofactors. -/
def minors : Vec3 ℝ :=
  ⟨m.yy * m.zz - m.yz * m.zy, m.xx * m.zz - m.xz * m.zx, m.xx * m.yy - m.xy * m.yx⟩

/-- The diagonal. -/
def diag : Vec3 ℝ := ⟨m.xx, m.yy, m.zz⟩

/-- Zero for a rotation, whatever the signs are. -/
def defect (s : Vec3 ℝ) : ℝ := m.frobenius - 3 + 2 • (Vec3.inner s m.minors - Vec3.inner s m.diag)

/-- The entries of a product of two frames, in the order in which they are added. -/
theorem get_mulTranspose_ofColumns {α : Type} [Scalar α] (a b c a' b' c' : Vec3 α) (i j : Fin 3) :
    ((ofColumns a b c).mulTranspose (ofColumns a' b' c')) i j =
      c.component i * c'.component j + (b.component i * b'.component j
        + a.component i * a'.component j) := by
  rw [get_mulTranspose]
  fin_cases i <;> fin_cases j <;> rfl

section Columns
variable (a b c a' b' c' : Vec3 ℝ)

theorem frobenius_ofColumns :
    ((ofColumns a b c).mulTranspose (ofColumns a' b' c')).frobenius =
      a.normSq * a'.normSq + b.normSq * b'.normSq + c.normSq * c'.normSq
        + 2 * (Vec3.inner a b * Vec3.inner a' b' + Vec3.inner a c * Vec3.inner a' c'
          + Vec3.inner b c * Vec3.inner b' c') := by
  simp only [frobenius, get_mulTranspose_ofColumns, Vec3.component, Vec3.normSq, Vec3.inner]
  ring

theorem inner_diag_ofColumns (s : Vec3 ℝ) :
    Vec3.inner s ((ofColumns a b c).mulTranspose (ofColumns a' b' c')).diag =
      Vec3.weighted a a' s + Vec3.weighted b b' s + Vec3.weighted c c' s := by
  simp only [diag, get_mulTranspose_ofColumns, Vec3.component, Vec3.weighted, Vec3.inner]
  ring

/-- Minors of a product are sums of products of minors. -/
theorem inner_minors_ofColumns (s : Vec3 ℝ) :
    Vec3.inner s ((ofColumns a b c).mulTranspose (ofColumns a' b' c')).minors =
      Vec3.weighted (a.cross b) (a'.cross b') s + Vec3.weighted (a.cross c) (a'.cross c') s
        + Vec3.weighted (b.cross c) (b'.cross c') s := by
  simp only [minors, get_mulTranspose_ofColumns, Vec3.component, Vec3.weighted, Vec3.inner,
    Vec3.cross]
  ring

end Columns
end Mat

/-! ## Nearly orthonormal pairs -/

/-- Two directions that are perpendicular up to a small angle. -/
structure NearlyOrthonormal (a b : Vec3 ℝ) : Prop where
  first : |a.normSq - 1| ≤ 1 / 2 ^ 18
  second : |b.normSq - 1| ≤ 1 / 2 ^ 18
  inner : |Vec3.inner a b| ≤ 1 / 2 ^ 8

/-- The matrix from the frame of one pair of directions to that of another. -/
def turnBetween {α : Type} [Scalar α] (a b a' b' : Vec3 α) : Mat 3 3 α :=
  (Mat.ofColumns a b (a.cross b)).mulTranspose (Mat.ofColumns a' b' (a'.cross b'))

section
variable {a b a' b' : Vec3 ℝ}

theorem frobenius_turnBetween (a b a' b' : Vec3 ℝ) : (turnBetween a b a' b').frobenius =
    a.normSq * a'.normSq + b.normSq * b'.normSq + 2 * (Vec3.inner a b * Vec3.inner a' b')
      + (a.normSq * b.normSq - Vec3.inner a b ^ 2)
        * (a'.normSq * b'.normSq - Vec3.inner a' b' ^ 2) := by
  rw [turnBetween, Mat.frobenius_ofColumns, Vec3.inner_cross_self, Vec3.inner_cross_right,
    Vec3.normSq_cross, Vec3.normSq_cross]
  ring

/-- The cofactors differ from the entries by what the pairs lack of being orthonormal. -/
theorem inner_minors_sub_diag_turnBetween (a b a' b' s : Vec3 ℝ) :
    Vec3.inner s (turnBetween a b a' b').minors - Vec3.inner s (turnBetween a b a' b').diag =
      (b.normSq * b'.normSq - 1 + Vec3.inner a b * Vec3.inner a' b') * Vec3.weighted a a' s
        + (a.normSq * a'.normSq - 1 + Vec3.inner a b * Vec3.inner a' b') * Vec3.weighted b b' s
        - (Vec3.inner a b * a'.normSq + b.normSq * Vec3.inner a' b') * Vec3.weighted a b' s
        - (a.normSq * Vec3.inner a' b' + Vec3.inner a b * b'.normSq) * Vec3.weighted b a' s := by
  rw [turnBetween, Mat.inner_minors_ofColumns, Mat.inner_diag_ofColumns,
    Vec3.cross_cross_left, Vec3.cross_cross_left, Vec3.cross_cross_right, Vec3.cross_cross_right]
  simp only [Vec3.weighted, Vec3.x_sub, Vec3.y_sub, Vec3.z_sub, Vec3.x_mul, Vec3.y_mul, Vec3.z_mul]
  ring

end

/-! ## Bounds -/

/-- A product of numbers near one is near one. -/
theorem abs_mul_sub_one_le {x y d e : ℝ} (hx : |x - 1| ≤ d) (hy : |y - 1| ≤ e) (he : e ≤ 1) :
    |x * y - 1| ≤ 2 * d + e := by
  have hsplit : x * y - 1 = (x - 1) * y + (y - 1) := by ring
  have hy2 : |y| ≤ 2 := by
    have h := Binary32.abs_le_of_near hy
    rw [abs_one] at h
    linarith
  calc |x * y - 1| ≤ |(x - 1) * y| + |y - 1| := by rw [hsplit]; exact abs_add_le _ _
    _ ≤ d * 2 + e := by
      rw [abs_mul]
      have hd := (abs_nonneg _).trans hx
      gcongr
    _ = 2 * d + e := by ring

/-- A product of a small number and one near one is hardly larger. -/
theorem abs_mul_le_of_near_one {x y c e : ℝ} (hx : |x| ≤ c) (hy : |y - 1| ≤ e) :
    |x * y| ≤ c * (1 + e) := by
  have hy' : |y| ≤ 1 + e := by
    have h := Binary32.abs_le_of_near hy
    rwa [abs_one] at h
  rw [abs_mul]
  exact mul_le_mul hx hy' (abs_nonneg y) ((abs_nonneg x).trans hx)

/-- Two pairs of directions at any angles have a matrix between them that is not large. -/
theorem frobenius_turnBetween_le {a b a' b' : Vec3 ℝ} (ha : |a.normSq - 1| ≤ 1 / 2 ^ 18)
    (hb : |b.normSq - 1| ≤ 1 / 2 ^ 18) (ha' : |a'.normSq - 1| ≤ 1 / 2 ^ 18)
    (hb' : |b'.normSq - 1| ≤ 1 / 2 ^ 18) :
    (turnBetween a b a' b').frobenius ≤ 4 + 1 / 2 ^ 10 := by
  have hone : (1 : ℝ) / 2 ^ 18 ≤ 1 := by norm_num
  have hfirst := (abs_le.mp (abs_mul_sub_one_le ha ha' hone)).2
  have hsecond := (abs_le.mp (abs_mul_sub_one_le hb hb' hone)).2
  have harea := (abs_le.mp (abs_mul_sub_one_le ha hb hone)).2
  have harea' := (abs_le.mp (abs_mul_sub_one_le ha' hb' hone)).2
  have hinner := Vec3.inner_sq_le a b
  have hinner' := Vec3.inner_sq_le a' b'
  rw [frobenius_turnBetween]
  generalize Vec3.inner a b = u at *
  generalize Vec3.inner a' b' = v at *
  have hthird : (a.normSq * b.normSq - u ^ 2) * (a'.normSq * b'.normSq - v ^ 2) ≤
      (a.normSq * b.normSq - u ^ 2) * (1 + 3 / 2 ^ 18) :=
    mul_le_mul_of_nonneg_left (by linarith [sq_nonneg v]) (by linarith)
  linarith [sq_nonneg (u - v), sq_nonneg u]

namespace NearlyOrthonormal
variable {a b a' b' s : Vec3 ℝ}

theorem abs_frobenius_sub_le (h : NearlyOrthonormal a b) (h' : NearlyOrthonormal a' b') :
    |(turnBetween a b a' b').frobenius - 3| ≤ 1 / 2 ^ 11 := by
  have hone : (1 : ℝ) / 2 ^ 18 ≤ 1 := by norm_num
  have hfirst := abs_mul_sub_one_le h.first h'.first hone
  have hsecond := abs_mul_sub_one_le h.second h'.second hone
  have hinner : |Vec3.inner a b * Vec3.inner a' b'| ≤ 1 / 2 ^ 8 * (1 / 2 ^ 8) := by
    rw [abs_mul]
    exact mul_le_mul h.inner h'.inner (abs_nonneg _) (by norm_num)
  have hthird {v w : Vec3 ℝ} (hvw : NearlyOrthonormal v w) :
      |v.normSq * w.normSq - Vec3.inner v w ^ 2 - 1| ≤ 1 / 2 ^ 15 := by
    have hproduct := abs_le.mp (abs_mul_sub_one_le hvw.first hvw.second hone)
    have hsq : Vec3.inner v w ^ 2 ≤ (1 / 2 ^ 8) ^ 2 := sq_le_sq.mpr (by
      rw [abs_of_nonneg (by norm_num : (0 : ℝ) ≤ 1 / 2 ^ 8)]
      exact hvw.inner)
    rw [abs_le]
    constructor <;> linarith [sq_nonneg (Vec3.inner v w)]
  have hlast := abs_mul_sub_one_le (hthird h) (hthird h') (by norm_num)
  rw [frobenius_turnBetween]
  rw [abs_le] at hfirst hsecond hinner hlast ⊢
  constructor <;> linarith

theorem abs_minors_sub_diag_le (h : NearlyOrthonormal a b) (h' : NearlyOrthonormal a' b')
    (hs : ∀ i, |s.component i| ≤ 1) :
    |Vec3.inner s (turnBetween a b a' b').minors - Vec3.inner s (turnBetween a b a' b').diag| ≤
      1 / 2 ^ 6 + 1 / 2 ^ 12 := by
  have hone : (1 : ℝ) / 2 ^ 18 ≤ 1 := by norm_num
  have hinner : |Vec3.inner a b * Vec3.inner a' b'| ≤ 1 / 2 ^ 8 * (1 / 2 ^ 8) := by
    rw [abs_mul]
    exact mul_le_mul h.inner h'.inner (abs_nonneg _) (by norm_num)
  -- Two of the four coefficients are as small as roundings, the other two as the angles.
  have hlong {x y : ℝ} (hx : |x - 1| ≤ 1 / 2 ^ 18) (hy : |y - 1| ≤ 1 / 2 ^ 18) :
      |x * y - 1 + Vec3.inner a b * Vec3.inner a' b'| ≤ 1 / 2 ^ 14 :=
    (abs_add_le _ _).trans (by linarith [abs_mul_sub_one_le hx hy hone])
  have hangle {x y : ℝ} (hx : |x - 1| ≤ 1 / 2 ^ 18) (hy : |y - 1| ≤ 1 / 2 ^ 18) :
      |Vec3.inner a b * x + y * Vec3.inner a' b'| ≤ 1 / 2 ^ 7 + 1 / 2 ^ 20 := by
    have hleft := abs_mul_le_of_near_one h.inner hx
    have hright := abs_mul_le_of_near_one h'.inner hy
    rw [mul_comm] at hright
    exact (abs_add_le _ _).trans (by linarith)
  have hweight {v w : Vec3 ℝ} (hv : |v.normSq - 1| ≤ 1 / 2 ^ 18)
      (hw : |w.normSq - 1| ≤ 1 / 2 ^ 18) :
      |Vec3.weighted v w s| ≤ 1 + 1 / 2 ^ 18 := by
    have hle := Vec3.abs_weighted_le v w hs
    linarith [(abs_le.mp hv).2, (abs_le.mp hw).2]
  have hterm {x y c : ℝ} (hx : |x| ≤ c) (hy : |y| ≤ 1 + 1 / 2 ^ 18) :
      |x * y| ≤ c * (1 + 1 / 2 ^ 18) := by
    rw [abs_mul]
    exact mul_le_mul hx hy (abs_nonneg y) ((abs_nonneg x).trans hx)
  rw [inner_minors_sub_diag_turnBetween]
  have h1 := abs_le.mp (hterm (hlong h.second h'.second) (hweight h.first h'.first))
  have h2 := abs_le.mp (hterm (hlong h.first h'.first) (hweight h.second h'.second))
  have h3 := abs_le.mp (hterm (hangle h'.first h.second) (hweight h.first h'.second))
  have h4 := abs_le.mp (hterm (hangle h'.second h.first) (hweight h.second h'.first))
  rw [add_comm (Vec3.inner a b * _)] at h4
  rw [abs_le]
  constructor <;> linarith [h1.1, h1.2, h2.1, h2.2, h3.1, h3.2, h4.1, h4.2]

/-- **The matrix between two nearly orthonormal frames is nearly a rotation.** -/
theorem abs_defect_le (h : NearlyOrthonormal a b) (h' : NearlyOrthonormal a' b')
    (hs : ∀ i, |s.component i| ≤ 1) : |(turnBetween a b a' b').defect s| ≤ 1 / 31 := by
  have hfrobenius := abs_le.mp (abs_frobenius_sub_le h h')
  have hminors := abs_le.mp (abs_minors_sub_diag_le h h' hs)
  rw [Mat.defect, two_nsmul, abs_le]
  constructor <;> linarith [hfrobenius.1, hfrobenius.2, hminors.1, hminors.2]

end NearlyOrthonormal

end Attitude
