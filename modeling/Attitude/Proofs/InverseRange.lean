import Attitude.Proofs.Binary32.Error
import Attitude.Proofs.Finite

/-!
# The numbers of an inverse

The test before an inverse is handed out looks at the determinant, which is expanded along the first
row. It sees every entry of the matrix and the three cofactors of that row. The other six cofactors
are computed afterwards: they can overflow while the determinant stays finite, even if the exact
inverse has moderate entries, and so can the scaling by the inverse of the determinant. An inverse
is therefore not always finite. It is if the entries of the matrix are at most `2 ^ 48`, since then
no cofactor is beyond `2 ^ 97` and the determinant is at least `2 ^ (-30)`.

## Main definitions

* `Mat.InverseRange`: which numbers of an inverse are finite

## Main results

* `Mat.inverseRange_of_inverse?`
* `Mat.moderate_inverse_overflows`: an inverse with an infinite entry where the exact one has none
-/

namespace Attitude.Mat
open Binary32

variable {m inverse : Mat 3 3 Float32}

/-! ## The determinant -/

theorem le_toReal_leastDet : 1 / 2 ^ 30 ≤ toReal leastDet := by
  have hunpack : unpack (leastDet : Float32) = .finite .positive 9007199 (-53) (by norm_num) := rfl
  rw [toReal_of_unpack hunpack]
  norm_num [signFactor]

/-- What is handed out is the scaled transpose of the cofactors, under a determinant that is finite
and not too small. -/
theorem of_inverse? (h : m.inverse? = some inverse) :
    inverse = m.cofactors.transpose * (1.0 / m.det) ∧ m.det.isFinite = true ∧
      1 / 2 ^ 30 ≤ |toReal m.det| := by
  rw [inverse?] at h
  split at h
  · cases h
  · rename_i htest
    rw [Bool.or_eq_true, Bool.not_eq_true', decide_eq_true_eq, not_or, Bool.not_eq_false] at htest
    obtain ⟨hfin, hlarge⟩ := htest
    have habs : m.det.abs.isFinite = true := (isFinite_abs _).trans hfin
    have hleast : ¬ m.det.abs < leastDet := hlarge
    rw [lt_iff habs rfl, toReal_abs, not_lt] at hleast
    exact ⟨(Option.some.inj h).symm, hfin, le_toReal_leastDet.trans hleast⟩

/-- The factor that scales the cofactors. -/
theorem within_scale {d : Float32} (hfin : d.isFinite = true) (hlarge : 1 / 2 ^ 30 ≤ |toReal d|) :
    Within (1.0 / d) (2 ^ (30 : ℤ)) := by
  have hpos : 0 < |toReal d| := lt_of_lt_of_le (by positivity) hlarge
  have hrounds := rounds_div approx_one.finite hfin (abs_pos.mp hpos)
  refine hrounds.within (onGrid_two_zpow (by norm_num)) ?_ (by norm_num)
  rw [toReal_one, abs_div, abs_one, div_le_iff₀ hpos]
  norm_num at hlarge ⊢
  linarith

/-! ## The cofactors -/

/-- The cofactors of the first row are in the determinant. -/
theorem isFinite_cofactors_zero (h : m.det.isFinite = true) (j : Fin 3) :
    (m.cofactors 0 j).isFinite = true := by
  obtain ⟨hxy, hz⟩ := isFinite_of_add h
  obtain ⟨hx, hy⟩ := isFinite_of_add hxy
  fin_cases j
  exacts [(isFinite_of_mul hx).2, (isFinite_of_mul hy).2, (isFinite_of_mul hz).2]

/-- A minor of numbers of a given size. -/
theorem within_minor {a b c d : Float32} {e : ℤ} (hlow : -149 ≤ e + e) (hhigh : e ≤ 63)
    (ha : Within a (2 ^ e)) (hb : Within b (2 ^ e)) (hc : Within c (2 ^ e))
    (hd : Within d (2 ^ e)) : Within (a * b - c * d) (2 ^ (e + e + 1)) := by
  have hsquare : (2 : ℝ) ^ e * 2 ^ e ≤ 2 ^ (e + e) := (zpow_add₀ two_ne_zero e e).ge
  have hab := ha.mul hb (onGrid_two_zpow hlow) hsquare (two_zpow_lt (by omega))
  have hcd := hc.mul hd (onGrid_two_zpow hlow) hsquare (two_zpow_lt (by omega))
  refine hab.sub hcd (onGrid_two_zpow (by omega)) ?_ (two_zpow_lt (by omega))
  rw [zpow_add_one₀ two_ne_zero]
  linarith

theorem within_cofactors {e : ℤ} (hlow : -149 ≤ e + e) (hhigh : e ≤ 63)
    (h : ∀ i j, Within (m i j) (2 ^ e)) (i j : Fin 3) :
    Within (m.cofactors i j) (2 ^ (e + e + 1)) := by
  fin_cases i <;> fin_cases j <;> exact within_minor hlow hhigh (h _ _) (h _ _) (h _ _) (h _ _)

/-! ## The inverse -/

/-- Which numbers of an inverse of `m` are finite. -/
structure InverseRange (m inverse : Mat 3 3 Float32) : Prop where
  /-- Every entry of the matrix is. -/
  matrix : m.isFinite = true
  /-- An entry is infinite or undefined if its cofactor is. -/
  lost : ∀ i j, (m.cofactors j i).isFinite = false → (inverse i j).isFinite = false
  /-- It is finite if the scaled cofactor can be stored. -/
  stored : ∀ i j, (m.cofactors j i).isFinite = true →
    |toReal (m.cofactors j i) * toReal (1.0 / m.det)| ≤ (2 ^ 24 - 1) * 2 ^ 104 →
    (inverse i j).isFinite = true
  /-- The cofactors of the first row always are. -/
  firstRow : ∀ j, (m.cofactors 0 j).isFinite = true
  /-- The inverse of a matrix of moderate entries is finite. -/
  moderate : (∀ i j, |toReal (m i j)| ≤ 2 ^ 48) → inverse.isFinite = true

/-- **An inverse is finite as far as its cofactors are**, and always for moderate matrices. -/
theorem inverseRange_of_inverse? (h : m.inverse? = some inverse) : m.InverseRange inverse := by
  obtain ⟨hinverse, hdet, hlarge⟩ := of_inverse? h
  have hmatrix : m.isFinite = true := isFinite_of_det hdet
  have hscale := within_scale hdet hlarge
  have hentry : ∀ i j, inverse i j = m.cofactors j i * (1.0 / m.det) := by
    intro i j
    rw [hinverse, get_scale, get_transpose]
  refine ⟨hmatrix, ?_, ?_, isFinite_cofactors_zero hdet, ?_⟩
  · intro i j hcofactor
    rw [hentry]
    by_contra hfin
    rw [Bool.not_eq_false] at hfin
    rw [(isFinite_of_mul hfin).1] at hcofactor
    cases hcofactor
  · intro i j hcofactor hle
    rw [hentry]
    have hgrid : OnGrid ((2 ^ 24 - 1) * 2 ^ 104) := by
      have h := onGrid_natCast_mul (m := 2 ^ 24 - 1) (e := 104) (by norm_num) (by norm_num)
      norm_num at h ⊢
      exact h
    exact (rounds_mul hcofactor hscale.finite).isFinite_of_within hgrid hle (by norm_num)
  · intro hmoderate
    have hm : ∀ i j, Within (m i j) (2 ^ (48 : ℤ)) := fun i j =>
      ⟨(isFinite_iff m).mp hmatrix i j, by exact_mod_cast hmoderate i j⟩
    rw [isFinite_iff]
    intro i j
    rw [hentry]
    have hproduct : Within (m.cofactors j i * (1.0 / m.det)) (2 ^ (127 : ℤ)) :=
      (within_cofactors (by norm_num) (by norm_num) hm j i).mul hscale
        (onGrid_two_zpow (by norm_num)) (by norm_num) (by norm_num)
    exact hproduct.finite

/-- The diagonal matrix with the given diagonal. -/
def ofDiagonal (x y z : Float32) : Mat 3 3 Float32 :=
  ofRows ⟨x, 0.0, 0.0⟩ ⟨0.0, y, 0.0⟩ ⟨0.0, 0.0, z⟩

theorem inverseRange_of_inverse?_diagonal :
    (ofDiagonal 1.0 2.0 4.0).inverse? = some (ofDiagonal 1.0 0.5 0.25) ∧
    (ofDiagonal 1.0 2.0 4.0).InverseRange (ofDiagonal 1.0 0.5 0.25) := by
  have h : (ofDiagonal 1.0 2.0 4.0).inverse? = some (ofDiagonal 1.0 0.5 0.25) := by
    rw [inverse?, if_neg (by decide +kernel)]
    refine congrArg some (ext ?_)
    decide +kernel
  exact ⟨h, inverseRange_of_inverse? h⟩

/-- A positive definite matrix whose product with a finite matrix is the identity, both ways, has an
inverse handed out with an infinite entry. -/
theorem moderate_inverse_overflows :
    let m := ofDiagonal 1e20 1e20 1e-20
    let a := ofDiagonal 1e-20 1e-20 1e20
    (∀ i j, (m * a) i j = identity i j) ∧ (∀ i j, (a * m) i j = identity i j) ∧
    ∃ inverse, m.inverse? = some inverse ∧ inverse.isFinite = false :=
  ⟨by decide +kernel, by decide +kernel, _, if_neg (by decide +kernel), by decide +kernel⟩

end Attitude.Mat
