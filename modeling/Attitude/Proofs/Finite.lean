import Attitude.Mat.Inverse
import Attitude.Quat
import Attitude.Proofs.Binary32.Arithmetic

/-!
# Finite vectors, quaternions and matrices

A number that is not finite passes through every sum, difference and product. So the operations that
are built from these alone have a finite result only if everything they read is finite: dot
products, products of quaternions and of matrices, determinants. Sums of squares are besides never
negative, which decides comparisons and square roots of sums that are not finite.
-/

namespace Attitude
open Binary32

section
variable {α : Type} [Scalar α]

theorem Vec3.isFinite_iff (v : Vec3 α) : v.isFinite = true ↔
    Scalar.isFinite v.x = true ∧ Scalar.isFinite v.y = true ∧ Scalar.isFinite v.z = true := by
  simp [Vec3.isFinite, Vec3.toList]

theorem Vec3.isFinite_component {v : Vec3 α} (h : v.isFinite = true) (i : Fin 3) :
    Scalar.isFinite (v.component i) = true := by
  obtain ⟨hx, hy, hz⟩ := (isFinite_iff v).mp h
  fin_cases i <;> assumption

theorem Quat.isFinite_iff (q : Quat α) : q.isFinite = true ↔
    Scalar.isFinite q.w = true ∧ Scalar.isFinite q.i = true ∧ Scalar.isFinite q.j = true ∧
      Scalar.isFinite q.k = true := by
  simp [Quat.isFinite, Quat.toList]

/-- A matrix is finite when its entries are. -/
theorem Mat.isFinite_iff {m n : ℕ} (a : Mat m n α) :
    a.isFinite = true ↔ ∀ i j, Scalar.isFinite (a i j) = true := by
  simp only [Mat.isFinite, allFinite, Mat.get]
  simp only [List.all_eq_true, Vector.mem_toList_iff]
  constructor
  · intro h i j
    exact h a.rows[i] (Vector.getElem_mem i.isLt) a.rows[i][j] (Vector.getElem_mem j.isLt)
  · intro h row hrow x hx
    obtain ⟨i, hi, rfl⟩ := Vector.mem_iff_getElem.mp hrow
    obtain ⟨j, hj, rfl⟩ := Vector.mem_iff_getElem.mp hx
    exact h ⟨i, hi⟩ ⟨j, hj⟩

end

/-! ## Operations that keep every operand -/

theorem Vec3.isFinite_of_add {v w : Vec3 Float32} (h : (v + w).isFinite = true) :
    v.isFinite = true ∧ w.isFinite = true := by
  rw [isFinite_iff] at h ⊢
  rw [isFinite_iff]
  obtain ⟨hx, hy, hz⟩ := h
  have hx := Binary32.isFinite_of_add hx
  have hy := Binary32.isFinite_of_add hy
  have hz := Binary32.isFinite_of_add hz
  exact ⟨⟨hx.1, hy.1, hz.1⟩, hx.2, hy.2, hz.2⟩

theorem Vec3.isFinite_of_sub {v w : Vec3 Float32} (h : (v - w).isFinite = true) :
    v.isFinite = true ∧ w.isFinite = true := by
  rw [isFinite_iff] at h ⊢
  rw [isFinite_iff]
  obtain ⟨hx, hy, hz⟩ := h
  have hx := Binary32.isFinite_of_sub hx
  have hy := Binary32.isFinite_of_sub hy
  have hz := Binary32.isFinite_of_sub hz
  exact ⟨⟨hx.1, hy.1, hz.1⟩, hx.2, hy.2, hz.2⟩

theorem Vec3.isFinite_of_scale {v : Vec3 Float32} {a : Float32} (h : (v * a).isFinite = true) :
    v.isFinite = true ∧ a.isFinite = true := by
  rw [isFinite_iff] at h ⊢
  obtain ⟨hx, hy, hz⟩ := h
  have hx := Binary32.isFinite_of_mul hx
  have hy := Binary32.isFinite_of_mul hy
  have hz := Binary32.isFinite_of_mul hz
  exact ⟨⟨hx.1, hy.1, hz.1⟩, hx.2⟩

theorem Vec3.isFinite_of_normSq {v : Vec3 Float32}
    (h : Scalar.isFinite v.normSq = true) : v.isFinite = true := by
  obtain ⟨hxy, hz⟩ := Binary32.isFinite_of_add h
  obtain ⟨hx, hy⟩ := Binary32.isFinite_of_add hxy
  rw [isFinite_iff]
  exact ⟨(isFinite_of_mul hx).1, (isFinite_of_mul hy).1, (isFinite_of_mul hz).1⟩

/-- A finite norm is that of a finite vector. -/
theorem Vec3.isFinite_of_norm {v : Vec3 Float32}
    (h : Scalar.isFinite v.norm = true) : v.isFinite = true :=
  isFinite_of_normSq (isFinite_of_sqrt h).1

/-- The scalar part of a product reads every component of both factors. -/
theorem Quat.isFinite_of_mul {p q : Quat Float32} (h : (p * q).isFinite = true) :
    p.isFinite = true ∧ q.isFinite = true := by
  rw [isFinite_iff] at h ⊢
  rw [isFinite_iff]
  obtain ⟨hwij, hkk⟩ := Binary32.isFinite_of_sub h.1
  obtain ⟨hwi, hjj⟩ := Binary32.isFinite_of_sub hwij
  obtain ⟨hww, hii⟩ := Binary32.isFinite_of_sub hwi
  have hw := Binary32.isFinite_of_mul hww
  have hi := Binary32.isFinite_of_mul hii
  have hj := Binary32.isFinite_of_mul hjj
  have hk := Binary32.isFinite_of_mul hkk
  exact ⟨⟨hw.1, hi.1, hj.1, hk.1⟩, hw.2, hi.2, hj.2, hk.2⟩

/-- A finite view of a vector is by a finite quaternion: the cross products read its vector part, and
the scalar part is a factor besides. -/
theorem Quat.isFinite_of_toFrame {q : Quat Float32} {v : Vec3 Float32}
    (h : (q.toFrame v).isFinite = true) : q.isFinite = true := by
  obtain ⟨hturn, -⟩ := Vec3.isFinite_of_add h
  obtain ⟨hscaled, -⟩ := Vec3.isFinite_of_add hturn
  obtain ⟨htwice, hw⟩ := Vec3.isFinite_of_scale hscaled
  obtain ⟨hcross, -⟩ := Vec3.isFinite_of_scale htwice
  obtain ⟨hx, hy, -⟩ := (Vec3.isFinite_iff _).mp hcross
  obtain ⟨hj, hk⟩ := Binary32.isFinite_of_sub hx
  obtain ⟨-, hi⟩ := Binary32.isFinite_of_sub hy
  have hi := (Binary32.isFinite_of_mul hi).1
  have hj := (Binary32.isFinite_of_mul hj).1
  have hk := (Binary32.isFinite_of_mul hk).1
  simp only [vec, i_conj, j_conj, k_conj, isFinite_neg] at hi hj hk
  rw [isFinite_iff]
  exact ⟨hw, hi, hj, hk⟩

namespace Mat

theorem isFinite_of_foldl {k : ℕ} {f : Fin k → Float32} {x : Float32}
    (h : (Fin.foldl k (fun sum i => f i + sum) x).isFinite = true) :
    x.isFinite = true ∧ ∀ i, (f i).isFinite = true := by
  induction k generalizing x with
  | zero => exact ⟨h, fun i => i.elim0⟩
  | succ k ih =>
    rw [Fin.foldl_succ] at h
    obtain ⟨hfirst, hrest⟩ := ih h
    obtain ⟨hzero, hx⟩ := Binary32.isFinite_of_add hfirst
    refine ⟨hx, ?_⟩
    intro i
    cases i using Fin.cases with
    | zero => exact hzero
    | succ i => exact hrest i

/-- A finite dot product has finite terms. -/
theorem isFinite_of_dot {k : ℕ} {a b : Fin k → Float32} (h : Scalar.isFinite (dot a b) = true)
    (i : Fin k) : (a i).isFinite = true ∧ (b i).isFinite = true := by
  cases k with
  | zero => exact i.elim0
  | succ k =>
    obtain ⟨hzero, hrest⟩ := isFinite_of_foldl h
    cases i using Fin.cases with
    | zero => exact isFinite_of_mul hzero
    | succ i => exact isFinite_of_mul (hrest i)

/-- A finite determinant is that of a finite matrix. -/
theorem isFinite_of_det {m : Mat 3 3 Float32} (h : Scalar.isFinite m.det = true) :
    m.isFinite = true := by
  obtain ⟨hxy, hz⟩ := Binary32.isFinite_of_add h
  obtain ⟨hx, hy⟩ := Binary32.isFinite_of_add hxy
  obtain ⟨hxx, hcx⟩ := isFinite_of_mul hx
  obtain ⟨hxy, hcy⟩ := isFinite_of_mul hy
  obtain ⟨hxz, hcz⟩ := isFinite_of_mul hz
  obtain ⟨hyyzz, hyzzy⟩ := Binary32.isFinite_of_sub hcx
  obtain ⟨hyzzx, hyxzz⟩ := Binary32.isFinite_of_sub hcy
  have hyy := isFinite_of_mul hyyzz
  have hyz := isFinite_of_mul hyzzy
  have hzx := isFinite_of_mul hyzzx
  have hyx := isFinite_of_mul hyxzz
  rw [isFinite_iff]
  intro i j
  fin_cases i <;> fin_cases j
  exacts [hxx, hxy, hxz, hyx.1, hyy.1, hyz.1, hzx.2, hyz.2, hyy.2]

/-- A matrix that is inverted is finite. -/
theorem isFinite_of_inverse? {m inverse : Mat 3 3 Float32} (h : m.inverse? = some inverse) :
    m.isFinite = true := by
  apply isFinite_of_det
  rw [inverse?] at h
  by_contra hdet
  simp [hdet] at h

end Mat

/-! ## Operations on whole matrices -/

namespace Mat
variable {m n k : ℕ}

/-- A finite product has finite factors: every row of the left one meets every column of the right
one, and a zero absorbs nothing that is not finite. -/
theorem isFinite_of_product [NeZero m] [NeZero n] {a : Mat m k Float32} {b : Mat k n Float32}
    (h : (a * b).isFinite = true) : a.isFinite = true ∧ b.isFinite = true := by
  have hdot : ∀ i j, Scalar.isFinite (dot (a i) fun l => b l j) = true := by
    intro i j
    rw [← get_mul]
    exact (isFinite_iff _).mp h i j
  rw [isFinite_iff, isFinite_iff]
  exact ⟨fun i l => (isFinite_of_dot (hdot i 0) l).1, fun l j => (isFinite_of_dot (hdot 0 j) l).2⟩

theorem isFinite_of_mulTranspose [NeZero m] [NeZero n] {a : Mat m k Float32} {b : Mat n k Float32}
    (h : (a.mulTranspose b).isFinite = true) : a.isFinite = true ∧ b.isFinite = true := by
  obtain ⟨ha, hb⟩ := isFinite_of_product h
  refine ⟨ha, ?_⟩
  rw [isFinite_iff] at hb ⊢
  intro i j
  rw [← get_transpose]
  exact hb j i

theorem isFinite_of_addDiagonal {a : Mat n n Float32} {d : Fin n → Float32}
    (h : (a.addDiagonal d).isFinite = true) : a.isFinite = true := by
  rw [isFinite_iff] at h ⊢
  intro i j
  have hij := h i j
  rw [get_addDiagonal] at hij
  split at hij
  · exact (Binary32.isFinite_of_add hij).1
  · exact hij

end Mat

/-! ## Sums of squares -/

namespace Binary32
open Float.Model

/-- A number that is not negative, or positive infinity, or no number at all. -/
structure NotNegative (x : Float32) : Prop where
  value : 0 ≤ toReal x
  infinity : unpack x ≠ .infinity .negative

/-- What is neither negative infinity nor finite is positive infinity or no number. -/
theorem notNegative_of_special {x : Float32}
    (h : unpack x = .notANumber ∨ unpack x = .infinity .positive) : NotNegative x := by
  rcases h with h | h
  · refine ⟨by rw [toReal, h]; exact le_rfl, ?_⟩
    rw [h]
    rintro ⟨⟩
  · refine ⟨by rw [toReal, h]; exact le_rfl, ?_⟩
    rw [h]
    rintro ⟨⟩

theorem notNegative_encode {u : UnpackedFloat} (h : u = .notANumber ∨ u = .infinity .positive) :
    NotNegative (encode u) := by
  rcases h with rfl | rfl
  · exact notNegative_of_special (.inl unpack_encode_notANumber)
  · exact notNegative_of_special (.inr (unpack_encode_infinity .positive))

theorem Rounds.notNegative {x : ℝ} {f : Float32} (h : Rounds x f) (hx : 0 ≤ x) :
    NotNegative f := by
  cases h with
  | stored hfin hnearest =>
    refine ⟨hnearest.nonneg hx, ?_⟩
    intro hinf
    rw [isFinite_eq, hinf] at hfin
    cases hfin
  | tooLarge r _ _ hinf =>
    exact notNegative_of_special (.inr hinf)
  | tooSmall r hnearest hsmall _ =>
    have hr := hnearest.nonneg hx
    norm_num at hsmall
    linarith

theorem notNegative_add {x y : Float32} (hx : NotNegative x) (hy : NotNegative y) :
    NotNegative (x + y) := by
  by_cases hfin : x.isFinite = true ∧ y.isFinite = true
  · exact (rounds_add hfin.1 hfin.2).notNegative (add_nonneg hx.value hy.value)
  · have hx := hx.infinity
    have hy := hy.infinity
    rw [isFinite_eq, isFinite_eq] at hfin
    change NotNegative (encode (UnpackedFloat.add Format.binary32 (unpack x) (unpack y)))
    apply notNegative_encode
    generalize unpack x = u at *
    generalize unpack y = v at *
    cases u with
    | notANumber => exact .inl rfl
    | infinity s =>
      cases s with
      | negative => exact absurd rfl hx
      | positive =>
        cases v with
        | notANumber => exact .inl rfl
        | infinity t =>
          cases t with
          | negative => exact absurd rfl hy
          | positive => exact .inr rfl
        | _ => exact .inr rfl
    | _ =>
      cases v with
      | notANumber => exact .inl rfl
      | infinity t =>
        cases t with
        | negative => exact absurd rfl hy
        | positive => exact .inr rfl
      | _ => exact absurd ⟨rfl, rfl⟩ hfin

theorem notNegative_mul_self (x : Float32) : NotNegative (x * x) := by
  by_cases hfin : x.isFinite = true
  · exact (rounds_mul hfin hfin).notNegative (mul_self_nonneg _)
  · rw [isFinite_eq] at hfin
    change NotNegative (encode (UnpackedFloat.mul Format.binary32 (unpack x) (unpack x)))
    apply notNegative_encode
    generalize unpack x = u at *
    cases u with
    | notANumber => exact .inl rfl
    | infinity s => cases s <;> exact .inr rfl
    | _ => exact absurd rfl hfin

/-- No square root is negative. -/
theorem notNegative_sqrt (x : Float32) : NotNegative x.sqrt := by
  by_cases h : x.isFinite = true ∧ 0 ≤ toReal x
  · exact (rounds_sqrt h.1 h.2).notNegative (Real.sqrt_nonneg _)
  · rw [isFinite_eq, toReal] at h
    change NotNegative (encode (UnpackedFloat.sqrt Format.binary32 (unpack x)))
    apply notNegative_encode
    generalize unpack x = u at *
    cases u with
    | notANumber => exact .inl rfl
    | infinity s =>
      cases s with
      | negative => exact .inl rfl
      | positive => exact .inr rfl
    | zero s => exact absurd ⟨rfl, le_rfl⟩ h
    | finite s m e hm =>
      cases s with
      | negative => exact .inl rfl
      | positive => exact absurd ⟨rfl, (value_pos e hm).le⟩ h

/-- What is not negative and at most a finite number is finite. -/
theorem isFinite_of_le {x y : Float32} (hx : NotNegative x) (hy : y.isFinite = true) (h : x ≤ y) :
    x.isFinite = true := by
  have hle : ((unpack x).compare (unpack y)).any (·.isLE) = true := of_decide_eq_true h
  have hinf := hx.infinity
  rw [isFinite_eq] at hy ⊢
  generalize unpack x = u at *
  generalize unpack y = v at *
  cases u with
  | notANumber => cases hle
  | infinity s =>
    cases s with
    | negative => exact absurd rfl hinf
    | positive =>
      cases v with
      | notANumber => cases hy
      | infinity t => cases hy
      | _ => cases hle
  | _ => rfl

/-- The numbers above zero are the positive ones and positive infinity. -/
theorem pos_iff (x : Float32) : 0.0 < x ↔
    (x.isFinite = true ∧ 0 < toReal x) ∨ unpack x = .infinity .positive := by
  by_cases hfin : x.isFinite = true
  · have hinf : unpack x ≠ .infinity .positive := by
      intro hinf
      rw [isFinite_eq, hinf] at hfin
      cases hfin
    have hzero : (0.0 : Float32).isFinite = true := rfl
    rw [lt_iff hzero hfin]
    simp only [hfin, hinf, true_and, or_false]
    rfl
  · have hlt : 0.0 < x ↔ ((unpack 0.0).compare (unpack x) == some .lt) = true :=
      decide_eq_true_iff
    have hzero : unpack 0.0 = .zero .positive := rfl
    rw [hlt, hzero, isFinite_eq]
    rw [isFinite_eq] at hfin
    clear hlt
    generalize unpack x = u at *
    cases u with
    | notANumber => exact iff_of_false (by rintro ⟨⟩) (by rintro (⟨⟨⟩, -⟩ | ⟨⟨⟩⟩))
    | infinity s =>
      cases s with
      | negative => exact iff_of_false (by rintro ⟨⟩) (by rintro (⟨⟨⟩, -⟩ | ⟨⟨⟩⟩))
      | positive => exact iff_of_true rfl (.inr rfl)
    | _ => exact absurd rfl hfin

end Binary32
end Attitude
