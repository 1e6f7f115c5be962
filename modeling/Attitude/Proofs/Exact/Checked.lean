import Attitude.Proofs.Exact.Fold

/-!
# Checked arithmetic

Over the real numbers a quotient by zero is zero and the root of a negative number is zero, so an
algorithm that divides by zero is not found out. `Checked` numbers tell: there such a quotient or
root is undefined, and so is everything that is computed from it. The estimator is written for all
scalars, and its reading over checked numbers is the same text with these checks.

An operation that never divides by zero has the same result over both kinds of numbers. This is
proved here for vectors, quaternions and matrices, where the divisors are the norms of directions
and quaternions, the determinant of an inverse, and what a rotation matrix shows of its quaternion.

## Main definitions

* `Checked`: a real number, or an undefined result
* `Vec3.checked`, `Quat.checked`, `Mat.checked`: exact data as checked data
-/

namespace Attitude

/-- A real number, or the result of an operation that has none. -/
inductive Checked where
  | number (x : ℝ)
  | undefined

namespace Checked

/-- An operation that every number has a result of. -/
def map (f : ℝ → ℝ) : Checked → Checked
  | number x => number (f x)
  | undefined => undefined

/-- An operation that every two numbers have a result of. -/
def map₂ (f : ℝ → ℝ → ℝ) : Checked → Checked → Checked
  | number x, number y => number (f x y)
  | _, _ => undefined

/-- A relation that an undefined result has to nothing. -/
def Rel (r : ℝ → ℝ → Prop) : Checked → Checked → Prop
  | number x, number y => r x y
  | _, _ => False

open Classical in
/-- A quotient by zero is undefined. -/
noncomputable def div : Checked → Checked → Checked
  | number x, number y => if y = 0 then undefined else number (x / y)
  | _, _ => undefined

open Classical in
/-- The root of a negative number is undefined. -/
noncomputable def sqrt : Checked → Checked
  | number x => if x < 0 then undefined else number √x
  | undefined => undefined

end Checked

/-- Checked arithmetic: that of the real numbers, except for quotients and roots. -/
noncomputable instance Scalar.checked : Scalar Checked where
  add := .map₂ (· + ·)
  sub := .map₂ (· - ·)
  mul := .map₂ (· * ·)
  div := .div
  neg := .map (- ·)
  lt := Checked.Rel (· < ·)
  le := Checked.Rel (· ≤ ·)
  ofScientific m s e := .number (OfScientific.ofScientific m s e)
  decidableLT _ _ := Classical.propDecidable _
  decidableLE _ _ := Classical.propDecidable _
  abs := .map Scalar.abs
  sqrt := .sqrt
  sin := .map Scalar.sin
  cos := .map Scalar.cos
  arcsin := .map Scalar.arcsin
  arctan2 := .map₂ Scalar.arctan2
  quarterTurn := .number Scalar.quarterTurn
  isFinite
    | .number _ => true
    | .undefined => false
  ofWord w := .number (Scalar.ofWord w)
  toWord
    | .number x => Scalar.toWord x
    | .undefined => 0

namespace Checked

theorem number_div (x : ℝ) {y : ℝ} (hy : y ≠ 0) : number x / number y = number (x / y) := if_neg hy

theorem sqrt_number {x : ℝ} (hx : 0 ≤ x) : Scalar.sqrt (number x) = number (Scalar.sqrt x) :=
  if_neg (not_lt.mpr hx)

@[simp] theorem number_lt_number {x y : ℝ} : number x < number y ↔ x < y := Iff.rfl

@[simp] theorem number_le_number {x y : ℝ} : number x ≤ number y ↔ x ≤ y := Iff.rfl

@[simp] theorem isFinite_number (x : ℝ) : Scalar.isFinite (number x) = true := rfl

end Checked

open Checked

/-! ## Vectors -/

namespace Vec3

/-- A vector of numbers. -/
def checked (v : Vec3 ℝ) : Vec3 Checked := ⟨number v.x, number v.y, number v.z⟩

theorem norm_checked (v : Vec3 ℝ) : v.checked.norm = number v.norm := sqrt_number v.normSq_nonneg

theorem div_checked (v : Vec3 ℝ) {a : ℝ} (ha : a ≠ 0) : v.checked / number a = (v / a).checked :=
  Vec3.ext (number_div _ ha) (number_div _ ha) (number_div _ ha)

/-- The norm that a direction is divided by is above the least one. -/
theorem direction?_checked (v : Vec3 ℝ) {least : ℝ} (hleast : 0 ≤ least) :
    v.checked.direction? (number least) = (v.direction? least).map checked := by
  rw [direction?, direction?, norm_checked]
  simp only [number_le_number]
  split
  · rfl
  · rename_i hn
    rw [div_checked v (hleast.trans_lt (not_le.mp hn)).ne']
    rfl

@[simp] theorem isFinite_checked (v : Vec3 ℝ) : v.checked.isFinite = true := rfl

end Vec3

/-! ## Quaternions -/

namespace Quat

/-- A quaternion of numbers. -/
def checked (q : Quat ℝ) : Quat Checked := ⟨number q.w, number q.i, number q.j, number q.k⟩

theorem mul_checked (p q : Quat ℝ) : p.checked * q.checked = (p * q).checked := rfl

theorem toFrame_checked (q : Quat ℝ) (v : Vec3 ℝ) :
    q.checked.toFrame v.checked = (q.toFrame v).checked := rfl

theorem norm_checked (q : Quat ℝ) : q.checked.norm = number q.norm := sqrt_number q.normSq_nonneg

theorem normalize_checked {q : Quat ℝ} (hq : q.norm ≠ 0) :
    q.checked.normalize = q.normalize.checked := by
  rw [normalize, norm_checked]
  exact Quat.ext (number_div _ hq) (number_div _ hq) (number_div _ hq) (number_div _ hq)

/-- The norm that the axis of a rotation is divided by is not zero: its square is above a positive
number. -/
theorem ofRotationVector_checked (v : Vec3 ℝ) :
    ofRotationVector v.checked = (ofRotationVector v).checked := by
  have hhalf : v.checked / (2.0 : Checked) = (v / (2.0 : ℝ)).checked :=
    v.div_checked (by norm_num)
  simp only [ofRotationVector, hhalf]
  generalize v / (2.0 : ℝ) = u
  have hsq : u.checked.normSq = number u.normSq := rfl
  have hleast : (1.1920928955078125e-7 : Checked) * 1.1920928955078125e-7 =
      number ((1.1920928955078125e-7 : ℝ) * 1.1920928955078125e-7) := rfl
  simp only [hsq, hleast, number_le_number]
  split
  · rfl
  · rename_i hlarge
    have hne : u.norm ≠ 0 := Vec3.norm_ne_zero (lt_trans (by norm_num) (not_le.mp hlarge))
    have hsin : Scalar.sin (number u.norm) / number u.norm = number (Scalar.sin u.norm / u.norm) :=
      number_div _ hne
    rw [u.norm_checked, hsin]
    rfl

end Quat

/-! ## Matrices -/

namespace Mat
variable {m k n : ℕ}

/-- A matrix of numbers. -/
def checked (a : Mat m n ℝ) : Mat m n Checked := ofFn fun i j => number (a i j)

@[simp] theorem get_checked (a : Mat m n ℝ) (i : Fin m) (j : Fin n) :
    a.checked i j = number (a i j) := get_ofFn _ i j

theorem foldl_checked (f : Fin k → ℝ) (x : ℝ) :
    Fin.foldl k (fun sum i => number (f i) + sum) (number x) =
      number (Fin.foldl k (fun sum i => f i + sum) x) := by
  induction k generalizing x with
  | zero => simp
  | succ k ih =>
    rw [Fin.foldl_succ, Fin.foldl_succ]
    exact ih (fun i => f i.succ) (f 0 + x)

theorem dot_checked (a b : Fin k → ℝ) :
    dot (fun i => number (a i)) (fun i => number (b i)) = number (dot a b) := by
  cases k with
  | zero => rfl
  | succ k => exact foldl_checked (fun i => a i.succ * b i.succ) (a 0 * b 0)

theorem mul_checked (a : Mat m k ℝ) (b : Mat k n ℝ) : a.checked * b.checked = (a * b).checked := by
  ext i j
  rw [get_mul, get_checked, get_mul, ← dot_checked]
  congr 1 <;> funext l <;> exact get_checked _ _ _

theorem transpose_checked (a : Mat m n ℝ) : a.checked.transpose = a.transpose.checked := by
  ext i j
  simp

theorem mulTranspose_checked (a : Mat m k ℝ) (b : Mat n k ℝ) :
    a.checked.mulTranspose b.checked = (a.mulTranspose b).checked := by
  rw [mulTranspose, transpose_checked, mul_checked, mulTranspose]

theorem scale_checked (a : Mat m n ℝ) (c : ℝ) : a.checked * number c = (a * c).checked := by
  ext i j
  rw [get_scale, get_checked, get_checked, get_scale]
  rfl

theorem sub_checked (a b : Mat m n ℝ) : a.checked - b.checked = (a - b).checked := by
  ext i j
  rw [get_sub, get_checked, get_checked, get_checked, get_sub]
  rfl

theorem identity_checked : (identity : Mat n n Checked) = (identity : Mat n n ℝ).checked := by
  ext i j
  rw [get_identity, get_checked, get_identity]
  split <;> rfl

theorem zero_checked : (zero : Mat m n Checked) = (zero : Mat m n ℝ).checked := by
  ext i j
  rw [get_zero, get_checked, get_zero]
  rfl

theorem blockDiagonal_checked (a b : ℝ) :
    blockDiagonal (number a) (number b) = (blockDiagonal a b).checked := by
  ext i j
  simp only [blockDiagonal, get_ofFn, get_checked]
  split
  · split <;> rfl
  · rfl

theorem addDiagonal_checked (a : Mat n n ℝ) (d : Fin n → ℝ) :
    a.checked.addDiagonal (fun i => number (d i)) = (a.addDiagonal d).checked := by
  ext i j
  simp only [get_addDiagonal, get_checked]
  split <;> rfl

theorem ofRows_checked (a b c : Vec3 ℝ) :
    ofRows a.checked b.checked c.checked = (ofRows a b c).checked := by
  ext i j
  rw [get_checked]
  fin_cases i <;> fin_cases j <;> rfl

theorem column_checked (v : Vec3 ℝ) : column v.checked = (column v).checked := by
  ext i j
  rw [get_checked]
  fin_cases i <;> fin_cases j <;> rfl

theorem toVec3_checked (a : Mat 3 1 ℝ) : a.checked.toVec3 = a.toVec3.checked := by
  simp only [toVec3, get_checked]
  rfl

theorem beside_checked (a b : Mat m 3 ℝ) :
    beside a.checked b.checked = (beside a b).checked := by
  ext i j
  simp only [beside, get_ofFn, get_checked]
  split <;> rfl

theorem above_checked (a b : Mat 3 n ℝ) : above a.checked b.checked = (above a b).checked := by
  ext i j
  simp only [above, get_ofFn, get_checked]
  split <;> rfl

theorem upper_checked (a : Mat 6 n ℝ) : a.checked.upper = a.upper.checked := by
  ext i j
  simp

theorem lower_checked (a : Mat 6 n ℝ) : a.checked.lower = a.lower.checked := by
  ext i j
  simp

theorem skew_checked (v : Vec3 ℝ) : skew v.checked = (skew v).checked :=
  ofRows_checked ⟨0.0, -v.z, v.y⟩ ⟨v.z, 0.0, -v.x⟩ ⟨-v.y, v.x, 0.0⟩

theorem det_checked (a : Mat 3 3 ℝ) : a.checked.det = number a.det := by
  simp only [det, get_checked]
  rfl

theorem cofactors_checked (a : Mat 3 3 ℝ) : a.checked.cofactors = a.cofactors.checked := by
  rw [cofactors, cofactors, ← ofRows_checked]
  simp only [get_checked]
  rfl

/-- A determinant that is divided by is not below the least one. -/
theorem inverse?_checked (a : Mat 3 3 ℝ) : a.checked.inverse? = a.inverse?.map checked := by
  have hleast : (leastDet : Checked) = number leastDet := rfl
  have habs : Scalar.abs (number a.det) = number |a.det| := rfl
  have hone : (1.0 : Checked) = number 1.0 := rfl
  simp only [inverse?, det_checked, hleast, habs, number_lt_number, isFinite_number,
    Scalar.isFinite_real, Scalar.abs_real, Bool.not_true, Bool.false_or, decide_eq_true_eq]
  split
  · rfl
  · rename_i hd
    rw [hone, number_div _ (det_ne_zero hd), cofactors_checked, transpose_checked, scale_checked]
    rfl

end Mat

/-! ## Reading a rotation -/

namespace Quat

/-- The divisor of a branch is not zero if what is under the root is positive. -/
theorem div_lead_checked (a : ℝ) {x : ℝ} (hx : 0 < x) :
    number a / (Scalar.sqrt (number x) * 2.0) = number (a / (Scalar.sqrt x * 2.0)) := by
  have hne : Scalar.sqrt x * (2.0 : ℝ) ≠ 0 :=
    mul_ne_zero (Real.sqrt_pos.mpr hx).ne' (by norm_num)
  rw [sqrt_number hx.le]
  exact number_div a hne

theorem mul_lead_checked {x : ℝ} (hx : 0 < x) :
    (0.25 : Checked) * (Scalar.sqrt (number x) * 2.0) = number (0.25 * (Scalar.sqrt x * 2.0)) := by
  rw [sqrt_number hx.le]
  rfl

/-- The tests on the trace and the diagonal keep the divisor of every branch from zero, whatever the
matrix is. -/
theorem ofMat_checked (m : Mat 3 3 ℝ) : ofMat m.checked = (ofMat m).checked := by
  simp only [ofMat, Mat.get_checked]
  by_cases htrace : (0.0 : ℝ) < m.xx + m.yy + m.zz
  · have hpos : 0 < m.xx + m.yy + m.zz + 1.0 := by
      norm_num at htrace ⊢
      linarith
    refine (if_pos htrace).trans (Eq.trans ?_ (congrArg checked (if_pos htrace)).symm)
    exact Quat.ext (mul_lead_checked hpos) (div_lead_checked _ hpos) (div_lead_checked _ hpos)
      (div_lead_checked _ hpos)
  refine (if_neg htrace).trans (Eq.trans ?_ (congrArg checked (if_neg htrace)).symm)
  by_cases hx : m.yy < m.xx ∧ m.zz < m.xx
  · have hpos : 0 < 1.0 + m.xx - m.yy - m.zz := by
      norm_num at htrace ⊢
      linarith
    refine (if_pos hx).trans (Eq.trans ?_ (congrArg checked (if_pos hx)).symm)
    exact Quat.ext (div_lead_checked _ hpos) (mul_lead_checked hpos) (div_lead_checked _ hpos)
      (div_lead_checked _ hpos)
  refine (if_neg hx).trans (Eq.trans ?_ (congrArg checked (if_neg hx)).symm)
  by_cases hy : m.zz < m.yy
  · have hxy : m.xx ≤ m.yy := le_of_not_gt fun h => hx ⟨h, hy.trans h⟩
    have hpos : 0 < 1.0 + m.yy - m.xx - m.zz := by
      norm_num at htrace ⊢
      linarith
    refine (if_pos hy).trans (Eq.trans ?_ (congrArg checked (if_pos hy)).symm)
    exact Quat.ext (div_lead_checked _ hpos) (div_lead_checked _ hpos) (mul_lead_checked hpos)
      (div_lead_checked _ hpos)
  · have hxz : m.xx ≤ m.zz := le_of_not_gt fun h => hx ⟨(not_lt.mp hy).trans_lt h, h⟩
    have hpos : 0 < 1.0 + m.zz - m.xx - m.yy := by
      norm_num at htrace ⊢
      linarith
    refine (if_neg hy).trans (Eq.trans ?_ (congrArg checked (if_neg hy)).symm)
    exact Quat.ext (div_lead_checked _ hpos) (div_lead_checked _ hpos) (div_lead_checked _ hpos)
      (mul_lead_checked hpos)

end Quat

end Attitude
