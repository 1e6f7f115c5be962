import Mathlib
import Attitude.Proofs.Triad

/-!
# Quaternions read off rounded matrices

The rounded product of two rounded frames has small entries, whatever the angles in the frames are,
and it is nearly a rotation when both are nearly orthonormal. Reading it takes the root of a pivot,
which for a rotation is four times the square of one part of the quaternion. The four pivots of a
matrix add up to four, and the branch that is taken has one of at least one, up to rounding. So the
divisor is at least one, no error grows, and the parts are finite. The sum of their squares misses
one by the defect of the matrix, as the branch signs it.

## Main results

* `Quat.exists_leads`: every branch divides by the root of a pivot of at least one
* `Quat.isFinite_ofMat`, `Quat.nearUnit_ofMat`: what is read off a rounded matrix
* `Vec3.Frames.isBounded`, `Vec3.Frames.nearlyRotates`: the product of two rounded frames
-/

namespace Attitude
open Binary32

/-! ## Matrices near to one between two frames -/

namespace Mat
variable {m r : Mat 3 3 ℝ} {s : Vec3 ℝ}

/-- The reading of the matrix is nearly a unit, on whatever branch. -/
def NearlyRotates (m : Mat 3 3 ℝ) : Prop :=
  ∀ s : Vec3 ℝ, (∀ i, |s.component i| ≤ 1) → |m.defect s| ≤ 1 / 29

theorem frobenius_eq_sum : m.frobenius = ∑ i, ∑ j, m i j ^ 2 := by
  simp only [frobenius, Fin.sum_univ_three]

/-- No entry is larger than the root of the sum of the squares. -/
theorem abs_get_le_of_frobenius (h : m.frobenius ≤ 4 + 1 / 2 ^ 10) (i j : Fin 3) :
    |m i j| ≤ 2 + 1 / 2 ^ 11 := by
  have hsq : m i j ^ 2 ≤ m.frobenius := by
    have hrow (k : Fin 3) : 0 ≤ ∑ l, m k l ^ 2 := Finset.sum_nonneg fun _ _ => sq_nonneg _
    rw [frobenius_eq_sum]
    calc m i j ^ 2 ≤ ∑ l, m i l ^ 2 :=
          Finset.single_le_sum (f := fun l => m i l ^ 2) (fun _ _ => sq_nonneg _)
            (Finset.mem_univ j)
      _ ≤ ∑ k, ∑ l, m k l ^ 2 :=
          Finset.single_le_sum (f := fun k => ∑ l, m k l ^ 2) (fun k _ => hrow k)
            (Finset.mem_univ i)
  have hle : m i j ^ 2 ≤ (2 + 1 / 2 ^ 11) ^ 2 := by linarith
  exact abs_le_of_sq_le_sq hle (by norm_num)

theorem abs_inner_sub_le {v w : Vec3 ℝ} {e : ℝ} (hs : ∀ i, |s.component i| ≤ 1)
    (h : ∀ i, |w.component i - v.component i| ≤ e) :
    |Vec3.inner s w - Vec3.inner s v| ≤ 3 * e := by
  have hterm (i : Fin 3) : |s.component i * (w.component i - v.component i)| ≤ e := by
    rw [abs_mul]
    calc |s.component i| * |w.component i - v.component i|
        ≤ 1 * |w.component i - v.component i| := by
          gcongr
          exact hs i
      _ ≤ e := by
          rw [one_mul]
          exact h i
  have hx := abs_le.mp (hterm 0)
  have hy := abs_le.mp (hterm 1)
  have hz := abs_le.mp (hterm 2)
  simp only [Vec3.component, Vec3.inner] at hx hy hz ⊢
  rw [abs_le]
  constructor <;> linarith [hx.1, hx.2, hy.1, hy.2, hz.1, hz.2]

/-- The defect changes little with the entries. -/
theorem abs_defect_sub_le (hm : ∀ i j, |m i j| ≤ 2 + 1 / 2 ^ 11)
    (h : ∀ i j, |r i j - m i j| ≤ 1 / 2 ^ 17) (hs : ∀ i, |s.component i| ≤ 1) :
    |r.defect s - m.defect s| ≤ 1 / 2 ^ 9 := by
  have hproduct (i j k l : Fin 3) : |r i j * r k l - m i j * m k l| ≤ 1 / 2 ^ 14 :=
    (abs_mul_sub_mul_le (h i j) (h k l) (hm i j) (hm k l)).trans (by norm_num)
  have hsquare (i j : Fin 3) := abs_le.mp (hproduct i j i j)
  have hfrobenius : |r.frobenius - m.frobenius| ≤ 9 / 2 ^ 14 := by
    simp only [frobenius, sq]
    rw [abs_le]
    constructor <;>
      linarith [(hsquare 0 0).1, (hsquare 0 1).1, (hsquare 0 2).1, (hsquare 1 0).1,
        (hsquare 1 1).1, (hsquare 1 2).1, (hsquare 2 0).1, (hsquare 2 1).1, (hsquare 2 2).1,
        (hsquare 0 0).2, (hsquare 0 1).2, (hsquare 0 2).2, (hsquare 1 0).2, (hsquare 1 1).2,
        (hsquare 1 2).2, (hsquare 2 0).2, (hsquare 2 1).2, (hsquare 2 2).2]
  have hminor (i j k l i' j' k' l' : Fin 3) :
      |r i j * r k l - r i' j' * r k' l' - (m i j * m k l - m i' j' * m k' l')| ≤ 2 / 2 ^ 14 := by
    have hleft := abs_le.mp (hproduct i j k l)
    have hright := abs_le.mp (hproduct i' j' k' l')
    rw [abs_le]
    constructor <;> linarith [hleft.1, hleft.2, hright.1, hright.2]
  have hminors := abs_inner_sub_le (v := m.minors) (w := r.minors) (e := 2 / 2 ^ 14) hs (by
    intro i
    fin_cases i
    · exact hminor 1 1 2 2 1 2 2 1
    · exact hminor 0 0 2 2 0 2 2 0
    · exact hminor 0 0 1 1 0 1 1 0)
  have hdiag := abs_inner_sub_le (v := m.diag) (w := r.diag) (e := 1 / 2 ^ 17) hs (by
    intro i
    fin_cases i
    · exact h 0 0
    · exact h 1 1
    · exact h 2 2)
  simp only [defect, two_nsmul]
  rw [abs_le] at hfrobenius hminors hdiag ⊢
  constructor <;>
    linarith [hfrobenius.1, hfrobenius.2, hminors.1, hminors.2, hdiag.1, hdiag.2]

/-- The entries are finite and small. -/
structure IsBounded (m : Mat 3 3 Float32) : Prop where
  finite : ∀ i j, (m i j).isFinite = true
  entries : ∀ i j, |toReal (m i j)| ≤ 2 + 1 / 2 ^ 10

end Mat

/-! ## The product of two rounded frames -/

namespace Vec3.Frames
variable {a b a' b' : Vec3 Float32}

/-- The components of the three directions. -/
theorem approx_component (h : a.Frames b) (i : Fin 3) :
    Approx (a.component i) (a.exact.component i) 0 (1 + 1 / 2 ^ 10) ∧
    Approx (b.component i) (b.exact.component i) 0 (1 + 1 / 2 ^ 10) ∧
    Approx ((a.cross b).component i) ((a.exact.cross b.exact).component i) (1 / 2 ^ 21)
      (1 + 1 / 2 ^ 10) := by
  have hdirection {t : Vec3 Float32} (hfin : t.isFinite = true)
      (hunit : |t.exact.normSq - 1| ≤ 1 / 2 ^ 18) :
      Approx (t.component i) (t.exact.component i) 0 (1 + 1 / 2 ^ 10) := by
    have hle := abs_component_le_of_unit hunit i
    rw [component_exact] at hle ⊢
    exact approx_toReal (isFinite_component hfin i) hle
  obtain ⟨hfin, herror⟩ := h.third
  refine ⟨hdirection h.first h.firstUnit, hdirection h.second h.secondUnit,
    isFinite_component hfin i, ?_, ?_⟩
  · rw [← component_exact]
    exact herror i
  · refine abs_component_le (by norm_num) ((normSq_cross_le _ _).trans ?_) i
    have hproduct := abs_le.mp (abs_mul_sub_one_le h.firstUnit h.secondUnit (by norm_num))
    linarith

/-- The entries of the product of two rounded frames. -/
theorem approx_get (h : a.Frames b) (h' : a'.Frames b') (i j : Fin 3) :
    Approx ((turnBetween a b a' b') i j) ((turnBetween a.exact b.exact a'.exact b'.exact) i j)
      (1 / 2 ^ 17) 4 := by
  obtain ⟨ha, hb, hc⟩ := h.approx_component i
  obtain ⟨ha', hb', hc'⟩ := h'.approx_component j
  rw [turnBetween, turnBetween, Mat.get_mulTranspose_ofColumns, Mat.get_mulTranspose_ofColumns]
  have haa := ha.mul ha' (by norm_num)
  have hbb := hb.mul hb' (by norm_num)
  have hcc := hc.mul hc' (by norm_num)
  exact (hcc.add (hbb.add haa (by norm_num)) (by norm_num)).mono (by norm_num) (by norm_num)

theorem abs_turnBetween_le (h : a.Frames b) (h' : a'.Frames b') (i j : Fin 3) :
    |(turnBetween a.exact b.exact a'.exact b'.exact) i j| ≤ 2 + 1 / 2 ^ 11 :=
  Mat.abs_get_le_of_frobenius
    (frobenius_turnBetween_le h.firstUnit h.secondUnit h'.firstUnit h'.secondUnit) i j

theorem isBounded (h : a.Frames b) (h' : a'.Frames b') : (turnBetween a b a' b').IsBounded where
  finite i j := (h.approx_get h' i j).finite
  entries i j := by
    have hnear := abs_le_of_near (h.approx_get h' i j).error
    linarith [h.abs_turnBetween_le h' i j]

/-- **The product of two rounded frames that are nearly orthonormal is nearly a rotation.** -/
theorem nearlyRotates (h : a.Frames b) (h' : a'.Frames b')
    (hnearly : NearlyOrthonormal a.exact b.exact) (hnearly' : NearlyOrthonormal a'.exact b'.exact) :
    (turnBetween a b a' b').exact.NearlyRotates := by
  intro s hs
  have hdefect := hnearly.abs_defect_le hnearly' hs
  have hchange := abs_le_of_near (Mat.abs_defect_sub_le (h.abs_turnBetween_le h')
    (fun i j => by rw [Mat.get_exact]; exact (h.approx_get h' i j).error) hs)
  linarith

end Vec3.Frames

/-! ## Reading -/

namespace Quat

/-- What a branch divides: its pivot, and sums or differences of the entries off the diagonal. -/
structure Leads (p n₁ n₂ n₃ : Float32) (x y₁ y₂ y₃ : ℝ) : Prop where
  pivot : Approx p x (3 / 2 ^ 20) (29 / 4)
  first : Approx n₁ y₁ (1 / 2 ^ 20) 5
  second : Approx n₂ y₂ (1 / 2 ^ 20) 5
  third : Approx n₃ y₃ (1 / 2 ^ 20) 5
  least : 1 - 1 / 2 ^ 19 ≤ x

section Leads
variable {p n₁ n₂ n₃ : Float32} {x y₁ y₂ y₃ : ℝ}

/-- The divisor of a branch is nearly twice the root of its pivot, so it is at least one. -/
theorem Leads.approx_quotients (h : Leads p n₁ n₂ n₃ x y₁ y₂ y₃) :
    Approx (0.25 * (p.sqrt * 2.0)) (√x / 2) (1 / 2 ^ 15) 3 ∧
    Approx (n₁ / (p.sqrt * 2.0)) (y₁ / (√x * 2)) (1 / 2 ^ 15) 3 ∧
    Approx (n₂ / (p.sqrt * 2.0)) (y₂ / (√x * 2)) (1 / 2 ^ 15) 3 ∧
    Approx (n₃ / (p.sqrt * 2.0)) (y₃ / (√x * 2)) (1 / 2 ^ 15) 3 := by
  have hleast := h.least
  have hmost := (abs_le.mp h.pivot.size).2
  have hlower : 99 / 100 ≤ √x := Real.le_sqrt_of_sq_le (by linarith)
  have hupper : √x ≤ 27 / 10 := Real.sqrt_le_iff.mpr ⟨by norm_num, by linarith⟩
  have hroot := h.pivot.sqrt (by linarith) (by norm_num) hupper (by norm_num)
  have hdivisor := hroot.mul approx_two (by norm_num)
  have hquotient {n : Float32} {y : ℝ} (hn : Approx n y (1 / 2 ^ 20) 5) :
      Approx (n / (p.sqrt * 2.0)) (y / (√x * 2)) (1 / 2 ^ 15) 3 := by
    have hle : |y / (√x * 2)| ≤ 3 := by
      rw [abs_div, abs_of_pos (by linarith : 0 < √x * 2), div_le_iff₀ (by linarith)]
      linarith [hn.size]
    exact (hn.div hdivisor (by linarith) hle (by norm_num)).mono (by norm_num) le_rfl
  refine ⟨?_, hquotient h.first, hquotient h.second, hquotient h.third⟩
  rw [show √x / 2 = 1 / 4 * (√x * 2) by ring]
  exact (approx_quarter.mul hdivisor (by norm_num)).mono (by norm_num) (by norm_num)

variable {q : Quat Float32}

/-- The parts of a quaternion are the quotients of a branch, in whatever order they stand. -/
def Divides (q : Quat Float32) (p n₁ n₂ n₃ : Float32) : Prop :=
  q.toList.Perm
    [0.25 * (p.sqrt * 2.0), n₁ / (p.sqrt * 2.0), n₂ / (p.sqrt * 2.0), n₃ / (p.sqrt * 2.0)]

theorem Leads.isFinite (h : Leads p n₁ n₂ n₃ x y₁ y₂ y₃) (hq : q.Divides p n₁ n₂ n₃) :
    q.isFinite = true := by
  obtain ⟨q₀, q₁, q₂, q₃⟩ := h.approx_quotients
  have hfin : ∀ c ∈ q.toList, c.isFinite = true := by
    intro c hc
    rw [hq.mem_iff] at hc
    simp only [List.mem_cons, List.not_mem_nil, or_false] at hc
    rcases hc with rfl | rfl | rfl | rfl
    exacts [q₀.finite, q₁.finite, q₂.finite, q₃.finite]
  exact List.all_eq_true.mpr hfin

theorem normSq_exact_eq_sum (q : Quat Float32) :
    q.exact.normSq = (q.toList.map fun c => toReal c ^ 2).sum := by
  simp only [normSq, exact, toList, List.map_cons, List.map_nil, List.sum_cons, List.sum_nil]
  ring

/-- Over exact arithmetic the squares of the quotients add up to nearly one. -/
theorem Leads.abs_sum_sub_one_le (h : Leads p n₁ n₂ n₃ x y₁ y₂ y₃)
    (hdefect : |x ^ 2 + y₁ ^ 2 + y₂ ^ 2 + y₃ ^ 2 - 4 * x| ≤ 1 / 29) :
    |(√x / 2) ^ 2 + (y₁ / (√x * 2)) ^ 2 + (y₂ / (√x * 2)) ^ 2 + (y₃ / (√x * 2)) ^ 2 - 1| ≤
      1 / 115 := by
  have hleast := h.least
  have hx : 0 < x := by linarith
  have hsqrt : √x ^ 2 = x := Real.sq_sqrt hx.le
  have hsplit : (√x / 2) ^ 2 + (y₁ / (√x * 2)) ^ 2 + (y₂ / (√x * 2)) ^ 2
      + (y₃ / (√x * 2)) ^ 2 - 1 = (x ^ 2 + y₁ ^ 2 + y₂ ^ 2 + y₃ ^ 2 - 4 * x) / (4 * x) := by
    simp only [div_pow, mul_pow, hsqrt]
    field_simp
    ring
  rw [hsplit, abs_div, abs_of_pos (by linarith : 0 < 4 * x), div_le_iff₀ (by linarith)]
  linarith

/-- A quaternion of finite components whose squared norm is one up to `e`. -/
structure NearUnit (q : Quat Float32) (e : ℝ) : Prop where
  finite : q.isFinite = true
  norm : |q.exact.normSq - 1| ≤ e

/-- The sum of four squares changes little with the numbers. -/
theorem abs_sum_sq_sub_le {w x y z w' x' y' z' e : ℝ} (hw : |w' - w| ≤ e) (hx : |x' - x| ≤ e)
    (hy : |y' - y| ≤ e) (hz : |z' - z| ≤ e) (he : e ≤ 1 / 2 ^ 15)
    (h : w ^ 2 + x ^ 2 + y ^ 2 + z ^ 2 ≤ (11 / 10) ^ 2) :
    |w' ^ 2 + x' ^ 2 + y' ^ 2 + z' ^ 2 - (w ^ 2 + x ^ 2 + y ^ 2 + z ^ 2)| ≤ 12 * e := by
  have hsquare {a b : ℝ} (hab : |a - b| ≤ e) (hb : b ^ 2 ≤ (11 / 10) ^ 2) :
      |a ^ 2 - b ^ 2| ≤ 3 * e := by
    have he0 := (abs_nonneg _).trans hab
    have hle := abs_le_of_sq_le_sq hb (by norm_num)
    rw [sq, sq]
    exact (abs_mul_sub_mul_le hab hab hle hle).trans (by nlinarith)
  have w2 := sq_nonneg w
  have x2 := sq_nonneg x
  have y2 := sq_nonneg y
  have z2 := sq_nonneg z
  have ew := abs_le.mp (hsquare hw (by linarith))
  have ex := abs_le.mp (hsquare hx (by linarith))
  have ey := abs_le.mp (hsquare hy (by linarith))
  have ez := abs_le.mp (hsquare hz (by linarith))
  rw [abs_le]
  constructor <;> linarith [ew.1, ew.2, ex.1, ex.2, ey.1, ey.2, ez.1, ez.2]

/-- The squares of the parts add up to those of the quotients over exact arithmetic, nearly. -/
theorem Leads.abs_normSq_sub_le (h : Leads p n₁ n₂ n₃ x y₁ y₂ y₃) (hq : q.Divides p n₁ n₂ n₃)
    (hle : (√x / 2) ^ 2 + (y₁ / (√x * 2)) ^ 2 + (y₂ / (√x * 2)) ^ 2 + (y₃ / (√x * 2)) ^ 2 ≤
      (11 / 10) ^ 2) :
    |q.exact.normSq -
      ((√x / 2) ^ 2 + (y₁ / (√x * 2)) ^ 2 + (y₂ / (√x * 2)) ^ 2 + (y₃ / (√x * 2)) ^ 2)| ≤
      12 / 2 ^ 15 := by
  obtain ⟨q₀, q₁, q₂, q₃⟩ := h.approx_quotients
  have hchange := abs_sum_sq_sub_le q₀.error q₁.error q₂.error q₃.error le_rfl hle
  rw [normSq_exact_eq_sum, (hq.map _).sum_eq]
  simp only [List.map_cons, List.map_nil, List.sum_cons, List.sum_nil]
  rw [abs_le] at hchange ⊢
  constructor <;> linarith [hchange.1, hchange.2]

theorem Leads.nearUnit (h : Leads p n₁ n₂ n₃ x y₁ y₂ y₃) (hq : q.Divides p n₁ n₂ n₃)
    (hdefect : |x ^ 2 + y₁ ^ 2 + y₂ ^ 2 + y₃ ^ 2 - 4 * x| ≤ 1 / 29) : q.NearUnit (1 / 100) := by
  refine ⟨h.isFinite hq, ?_⟩
  have hsum := abs_le.mp (h.abs_sum_sub_one_le hdefect)
  have hchange := abs_le.mp (h.abs_normSq_sub_le hq (by linarith))
  rw [abs_le]
  constructor <;> linarith [hsum.1, hsum.2, hchange.1, hchange.2]

end Leads
end Quat

/-! ## The branches -/

namespace Mat.IsBounded
variable {m : Mat 3 3 Float32}

theorem approx_get (h : m.IsBounded) (i j : Fin 3) :
    Approx (m i j) (m.exact i j) 0 (2 + 1 / 2 ^ 10) := by
  rw [get_exact]
  exact approx_toReal (h.finite i j) (h.entries i j)

theorem approx_add (h : m.IsBounded) (i j k l : Fin 3) :
    Approx (m i j + m k l) (m.exact i j + m.exact k l) (1 / 2 ^ 20) 5 :=
  ((h.approx_get i j).add (h.approx_get k l) (by norm_num)).mono (by norm_num) (by norm_num)

theorem approx_sub (h : m.IsBounded) (i j k l : Fin 3) :
    Approx (m i j - m k l) (m.exact i j - m.exact k l) (1 / 2 ^ 20) 5 :=
  ((h.approx_get i j).sub (h.approx_get k l) (by norm_num)).mono (by norm_num) (by norm_num)

theorem approx_trace (h : m.IsBounded) : Approx (m.xx + m.yy + m.zz)
    (m.exact.xx + m.exact.yy + m.exact.zz) (2 / 2 ^ 20) (25 / 4) :=
  (((h.approx_get 0 0).add (h.approx_get 1 1) (by norm_num)).add (h.approx_get 2 2)
    (by norm_num)).mono (by norm_num) (by norm_num)

/-- The pivot of the scalar part. -/
theorem approx_scalarPivot (h : m.IsBounded) : Approx (m.xx + m.yy + m.zz + 1.0)
    (m.exact.xx + m.exact.yy + m.exact.zz + 1) (3 / 2 ^ 20) (29 / 4) :=
  (h.approx_trace.add approx_one (by norm_num)).mono (by norm_num) (by norm_num)

/-- The pivot of a part of the vector. -/
theorem approx_vectorPivot (h : m.IsBounded) (i j k : Fin 3) : Approx (1.0 + m i i - m j j - m k k)
    (1 + m.exact i i - m.exact j j - m.exact k k) (3 / 2 ^ 20) (29 / 4) :=
  (((approx_one.add (h.approx_get i i) (by norm_num)).sub (h.approx_get j j)
    (by norm_num)).sub (h.approx_get k k) (by norm_num)).mono (by norm_num) (by norm_num)

end Mat.IsBounded

namespace Quat
variable {m : Mat 3 3 Float32}

/-- With a positive trace the scalar part leads. -/
theorem leads_of_trace (h : m.IsBounded) (hlead : 0.0 < m.xx + m.yy + m.zz) :
    Leads (m.xx + m.yy + m.zz + 1.0) (m.zy - m.yz) (m.xz - m.zx) (m.yx - m.xy)
        (m.exact.xx + m.exact.yy + m.exact.zz + 1) (m.exact.zy - m.exact.yz)
        (m.exact.xz - m.exact.zx) (m.exact.yx - m.exact.xy) ∧
      (ofMat m).Divides (m.xx + m.yy + m.zz + 1.0) (m.zy - m.yz) (m.xz - m.zx) (m.yx - m.xy) := by
  constructor
  · rw [Binary32.lt_iff (by rfl) h.approx_trace.finite] at hlead
    have hpositive : 0 < toReal (m.xx + m.yy + m.zz) := hlead
    have htrace := abs_le.mp h.approx_trace.error
    exact ⟨h.approx_scalarPivot, h.approx_sub 2 1 1 2, h.approx_sub 0 2 2 0, h.approx_sub 1 0 0 1,
      by linarith⟩
  · simp only [ofMat, if_pos hlead]
    exact .refl _

/-- **Every branch divides by the root of a pivot of at least one**, up to rounding, and the squares
of its quotients miss one by the defect of the matrix. -/
theorem exists_leads (h : m.IsBounded) : ∃ p n₁ n₂ n₃ x y₁ y₂ y₃,
    Leads p n₁ n₂ n₃ x y₁ y₂ y₃ ∧ (ofMat m).Divides p n₁ n₂ n₃ ∧
    ∃ s : Vec3 ℝ, (∀ i, |s.component i| ≤ 1) ∧
      m.exact.defect s = x ^ 2 + y₁ ^ 2 + y₂ ^ 2 + y₃ ^ 2 - 4 * x := by
  have hsigns {a b c : ℝ} (ha : |a| ≤ 1) (hb : |b| ≤ 1) (hc : |c| ≤ 1) (i : Fin 3) :
      |(⟨a, b, c⟩ : Vec3 ℝ).component i| ≤ 1 := by
    fin_cases i <;> assumption
  have hpositive : 0.0 < m.xx + m.yy + m.zz ↔ 0 < toReal (m.xx + m.yy + m.zz) :=
    Binary32.lt_iff (by rfl) h.approx_trace.finite
  have hless (i j : Fin 3) : m i i < m j j ↔ m.exact i i < m.exact j j := by
    rw [Mat.get_exact, Mat.get_exact]
    exact Binary32.lt_iff (h.finite i i) (h.finite j j)
  have htrace := abs_le.mp h.approx_trace.error
  simp only [ofMat]
  -- The four pivots add up to four, and the branch takes one that no other one exceeds.
  split_ifs with hlead hfirst hsecond
  · refine ⟨_, _, _, _, _, _, _, _, (leads_of_trace h hlead).1, .refl _, ⟨1, 1, 1⟩,
      hsigns (by simp) (by simp) (by simp), ?_⟩
    simp only [Mat.defect, Mat.frobenius, Mat.minors, Mat.diag, Vec3.inner]
    ring
  · rw [hpositive, not_lt] at hlead
    rw [hless, hless] at hfirst
    refine ⟨_, _, _, _, _, _, _, _, ⟨h.approx_vectorPivot 0 1 2, h.approx_sub 2 1 1 2,
      h.approx_add 0 1 1 0, h.approx_add 0 2 2 0, by linarith⟩, .swap _ _ _, ⟨1, -1, -1⟩,
      hsigns (by simp) (by simp) (by simp), ?_⟩
    simp only [Mat.defect, Mat.frobenius, Mat.minors, Mat.diag, Vec3.inner]
    ring
  · rw [hpositive, not_lt] at hlead
    rw [hless, hless] at hfirst
    rw [hless] at hsecond
    have hxy : m.exact 0 0 ≤ m.exact 1 1 := le_of_not_gt fun hlt => hfirst ⟨hlt, hsecond.trans hlt⟩
    refine ⟨_, _, _, _, _, _, _, _, ⟨h.approx_vectorPivot 1 0 2, h.approx_sub 0 2 2 0,
      h.approx_add 0 1 1 0, h.approx_add 1 2 2 1, by linarith⟩, @List.perm_middle _ _ [_, _] _,
      ⟨-1, 1, -1⟩, hsigns (by simp) (by simp) (by simp), ?_⟩
    simp only [Mat.defect, Mat.frobenius, Mat.minors, Mat.diag, Vec3.inner]
    ring
  · rw [hpositive, not_lt] at hlead
    rw [hless, hless] at hfirst
    rw [hless, not_lt] at hsecond
    have hxz : m.exact 0 0 ≤ m.exact 2 2 :=
      le_of_not_gt fun hlt => hfirst ⟨hsecond.trans_lt hlt, hlt⟩
    refine ⟨_, _, _, _, _, _, _, _, ⟨h.approx_vectorPivot 2 0 1, h.approx_sub 1 0 0 1,
      h.approx_add 0 2 2 0, h.approx_add 1 2 2 1, by linarith⟩, @List.perm_middle _ _ [_, _, _] _,
      ⟨-1, -1, 1⟩, hsigns (by simp) (by simp) (by simp), ?_⟩
    simp only [Mat.defect, Mat.frobenius, Mat.minors, Mat.diag, Vec3.inner]
    ring

theorem isFinite_ofMat (h : m.IsBounded) : (ofMat m).isFinite = true := by
  obtain ⟨p, n₁, n₂, n₃, x, y₁, y₂, y₃, hleads, hdivides, -⟩ := exists_leads h
  exact hleads.isFinite hdivides

/-- **What is read off a rounded matrix that is nearly a rotation is nearly a unit.** -/
theorem nearUnit_ofMat (h : m.IsBounded) (hnearly : m.exact.NearlyRotates) :
    (ofMat m).NearUnit (1 / 100) := by
  obtain ⟨p, n₁, n₂, n₃, x, y₁, y₂, y₃, hleads, hdivides, s, hs, hdefect⟩ := exists_leads h
  refine hleads.nearUnit hdivides ?_
  rw [← hdefect]
  exact hnearly s hs

end Quat
end Attitude
