import Attitude.Proofs.Binary32.Sine
import Attitude.Proofs.InverseRange
import Attitude.Proofs.Overflow
import Attitude.Proofs.Validity

/-!
# How large the numbers of a computation get

Nothing overflows as long as every intermediate result has a bound below `2 ^ 128`. For sums and
products a bound follows from those of the operands, `Binary32.Within`, and for a product of
matrices from those of the entries. Such bounds are powers of two, so no rounding passes them.

A norm in the divisor needs a lower bound as well. A quaternion that is nearly a unit does not
shorten another one. This holds for computed products too, whatever the size of the other factor,
since the rounding errors are relative to its largest component: `ApproxIn` is an error in units of
that size.

## Main definitions

* `Binary32.ApproxIn`: an approximation in units of a given size
* `Mat.EntriesWithin`: the size of a matrix

## Main results

* `Mat.EntriesWithin.mul`
* `Quat.norm_mul_pos`
-/

namespace Attitude
open Binary32

namespace Binary32

/-! ## Numbers -/

theorem within_zero {a : ℝ} (ha : 0 ≤ a) : Within 0.0 a :=
  ⟨isFinite_zero, by rw [toReal_zero, abs_zero]; exact ha⟩

theorem within_one {a : ℝ} (ha : 1 ≤ a) : Within 1.0 a :=
  ⟨approx_one.finite, by rw [toReal_one, abs_one]; exact ha⟩

/-- What is near to a number of a size has nearly that size. -/
theorem Approx.within {f : Float32} {x a c d : ℝ} (h : Approx f x a c) (hle : c + a ≤ d) :
    Within f d := ⟨h.finite, (abs_le_of_near h.error).trans (by linarith [h.size])⟩

/-- Adding up at most eight terms of a size. -/
theorem within_foldl {k : ℕ} {f : Fin k → Float32} {x : Float32} {j : ℕ} {e : ℤ} (hjk : j + k ≤ 8)
    (hlow : -149 ≤ e) (hhigh : e ≤ 124) (hx : Within x (j * 2 ^ e))
    (hf : ∀ i, Within (f i) (2 ^ e)) :
    Within (Fin.foldl k (fun sum i => f i + sum) x) ((j + k : ℕ) * 2 ^ e) := by
  induction k generalizing x j with
  | zero => exact hx
  | succ k ih =>
    rw [Fin.foldl_succ, show j + (k + 1) = j + 1 + k by omega]
    refine ih (by omega) ?_ fun i => hf i.succ
    have hpow : (2 : ℝ) ^ e ≤ 2 ^ (124 : ℤ) := zpow_le_zpow_right₀ one_le_two hhigh
    have hcount : ((j + 1 : ℕ) : ℝ) ≤ 8 := by exact_mod_cast (show j + 1 ≤ 8 by omega)
    refine (hf 0).add hx (onGrid_natCast_mul (by omega) hlow) ?_ ?_
    · push_cast
      linarith
    · calc ((j + 1 : ℕ) : ℝ) * 2 ^ e ≤ 8 * 2 ^ (124 : ℤ) := by gcongr
        _ < 2 ^ 128 := by norm_num

end Binary32

/-! ## Vectors -/

namespace Vec3
variable {v w : Vec3 Float32} {x : Float32} {a b c : ℝ}

/-- No component is beyond a given size. -/
def ComponentsWithin (v : Vec3 Float32) (c : ℝ) : Prop := ∀ i, Within (v.component i) c

namespace ComponentsWithin

theorem isFinite (h : v.ComponentsWithin c) : v.isFinite = true :=
  (isFinite_iff v).mpr ⟨(h 0).finite, (h 1).finite, (h 2).finite⟩

theorem mono (h : v.ComponentsWithin a) (hle : a ≤ b) : v.ComponentsWithin b :=
  fun i => (h i).mono hle

theorem add (hv : v.ComponentsWithin a) (hw : w.ComponentsWithin b) (hc : OnGrid c)
    (hle : a + b ≤ c) (hlt : c < 2 ^ 128) : (v + w).ComponentsWithin c := by
  intro i
  fin_cases i
  exacts [(hv 0).add (hw 0) hc hle hlt, (hv 1).add (hw 1) hc hle hlt, (hv 2).add (hw 2) hc hle hlt]

theorem sub (hv : v.ComponentsWithin a) (hw : w.ComponentsWithin b) (hc : OnGrid c)
    (hle : a + b ≤ c) (hlt : c < 2 ^ 128) : (v - w).ComponentsWithin c := by
  intro i
  fin_cases i
  exacts [(hv 0).sub (hw 0) hc hle hlt, (hv 1).sub (hw 1) hc hle hlt, (hv 2).sub (hw 2) hc hle hlt]

theorem scale (hv : v.ComponentsWithin a) (hx : Within x b) (hc : OnGrid c) (hle : a * b ≤ c)
    (hlt : c < 2 ^ 128) : (v * x).ComponentsWithin c := by
  intro i
  fin_cases i
  exacts [(hv 0).mul hx hc hle hlt, (hv 1).mul hx hc hle hlt, (hv 2).mul hx hc hle hlt]

theorem div (hv : v.ComponentsWithin a) (hx : x.isFinite = true) (hb : 0 < b)
    (hle : b ≤ |toReal x|) (hc : OnGrid c) (hab : a ≤ c * b) (hlt : c < 2 ^ 128) :
    (v / x).ComponentsWithin c := by
  intro i
  fin_cases i
  exacts [(hv 0).div hx hb hle hc hab hlt, (hv 1).div hx hb hle hc hab hlt,
    (hv 2).div hx hb hle hc hab hlt]

theorem cross (hv : v.ComponentsWithin a) (hw : w.ComponentsWithin b) (hc : OnGrid c)
    (hc' : OnGrid (2 * c)) (hle : a * b ≤ c) (hlt : 2 * c < 2 ^ 128) :
    (v.cross w).ComponentsWithin (2 * c) := by
  have hproduct (i j : Fin 3) : Within (v.component i * w.component j) c := by
    have hc0 : 0 ≤ c := (mul_nonneg ((abs_nonneg _).trans (hv 0).abs_le)
      ((abs_nonneg _).trans (hw 0).abs_le)).trans hle
    exact (hv i).mul (hw j) hc hle (by linarith)
  have hminor (i j k l : Fin 3) : Within
      (v.component i * w.component j - v.component k * w.component l) (2 * c) :=
    (hproduct i j).sub (hproduct k l) hc' (by linarith) hlt
  intro i
  fin_cases i
  exacts [hminor 1 2 2 1, hminor 2 0 0 2, hminor 0 1 1 0]

end ComponentsWithin

/-- A norm is less than twice the size of the components. -/
theorem ComponentsWithin.norm {e : ℤ} (hv : v.ComponentsWithin (2 ^ e)) (hlow : -149 ≤ e + e)
    (hhigh : e ≤ 60) : Within v.norm (7 * 2 ^ (e - 2)) := by
  have hpos : (0 : ℝ) < 2 ^ e := by positivity
  have hsq : (2 : ℝ) ^ (e + e) = 2 ^ e * 2 ^ e := zpow_add₀ two_ne_zero e e
  have hlarge : (2 : ℝ) ^ (e + e) ≤ 2 ^ (120 : ℤ) := zpow_le_zpow_right₀ one_le_two (by omega)
  have hgrid (m : ℕ) (hm : m ≤ 2 ^ 24) : OnGrid (m * 2 ^ (e + e)) := onGrid_natCast_mul hm hlow
  norm_num at hlarge
  have hsquare (i : Fin 3) : Within (v.component i * v.component i) (2 ^ (e + e)) :=
    (hv i).mul (hv i) (onGrid_two_zpow hlow) hsq.ge (by linarith)
  have hpair : Within (v.x * v.x + v.y * v.y) ((2 : ℕ) * 2 ^ (e + e)) :=
    (hsquare 0).add (hsquare 1) (hgrid 2 (by norm_num)) (by push_cast; linarith)
      (by push_cast; linarith)
  have hsum : Within v.normSq ((3 : ℕ) * 2 ^ (e + e)) :=
    hpair.add (hsquare 2) (hgrid 3 (by norm_num)) (by push_cast; linarith) (by push_cast; linarith)
  have hnonneg : 0 ≤ toReal v.normSq := (notNegative_add (notNegative_add (notNegative_mul_self _)
    (notNegative_mul_self _)) (notNegative_mul_self _)).value
  have hquarter : (7 : ℝ) * 2 ^ (e - 2) = 7 / 4 * 2 ^ e := by
    rw [zpow_sub₀ two_ne_zero]
    norm_num
    ring
  have hroot : OnGrid (7 * 2 ^ (e - 2)) := by
    exact_mod_cast onGrid_natCast_mul (m := 7) (e := e - 2) (by norm_num) (by omega)
  have hsize : (2 : ℝ) ^ e ≤ 2 ^ (60 : ℤ) := zpow_le_zpow_right₀ one_le_two hhigh
  norm_num at hsize
  refine (rounds_sqrt hsum.finite hnonneg).within hroot ?_ (by linarith)
  rw [abs_of_nonneg (Real.sqrt_nonneg _), hquarter]
  refine Real.sqrt_le_iff.mpr ⟨by positivity, ?_⟩
  have hle := (abs_le.mp hsum.abs_le).2
  rw [hsq] at hle
  push_cast at hle
  linarith [mul_pos hpos hpos]

end Vec3

/-! ## Matrices -/

namespace Mat
variable {m k n : ℕ} {c d : ℝ} {e : ℤ}

/-- A dot product of at most eight terms of a size. -/
theorem within_dot {a b : Fin k → Float32} (hk : k ≤ 8) (hlow : -149 ≤ e) (hhigh : e ≤ 124)
    (h : ∀ i, Within (a i * b i) (2 ^ e)) : Within (dot a b) (2 ^ (e + 3)) := by
  have hpow : (2 : ℝ) ^ (e + 3) = 8 * 2 ^ e := by
    rw [zpow_add₀ two_ne_zero]
    norm_num
    ring
  rw [hpow]
  cases k with
  | zero => exact within_zero (by positivity)
  | succ k =>
    have hfirst : Within (a 0 * b 0) ((1 : ℕ) * 2 ^ e) := by
      rw [Nat.cast_one, one_mul]
      exact h 0
    refine (within_foldl (by omega) hlow hhigh hfirst fun i => h i.succ).mono ?_
    have hcount : ((1 + k : ℕ) : ℝ) ≤ 8 := by exact_mod_cast (show 1 + k ≤ 8 by omega)
    gcongr

/-- No entry is beyond a given size. -/
def EntriesWithin (a : Mat m n Float32) (c : ℝ) : Prop := ∀ i j, Within (a i j) c

theorem entriesWithin_zero (hc : 0 ≤ c) : (zero : Mat m n Float32).EntriesWithin c := by
  intro i j
  rw [get_zero]
  exact within_zero hc

theorem entriesWithin_identity (hc : 1 ≤ c) : (identity : Mat n n Float32).EntriesWithin c := by
  intro i j
  rw [get_identity]
  split
  · exact within_one hc
  · exact within_zero (by linarith)

theorem entriesWithin_skew {v : Vec3 Float32} (h : v.ComponentsWithin c) :
    (skew v).EntriesWithin c := by
  have hzero : Within 0.0 c := within_zero ((abs_nonneg _).trans (h 0).abs_le)
  intro i j
  fin_cases i <;> fin_cases j
  exacts [hzero, (h 2).neg, h 1, h 2, hzero, (h 0).neg, (h 1).neg, h 0, hzero]

theorem entriesWithin_column {v : Vec3 Float32} (h : v.ComponentsWithin c) :
    (column v).EntriesWithin c := by
  intro i j
  fin_cases i <;> fin_cases j
  exacts [h 0, h 1, h 2]

namespace EntriesWithin

theorem isFinite {a : Mat m n Float32} (h : a.EntriesWithin c) : a.isFinite = true :=
  (isFinite_iff a).mpr fun i j => (h i j).finite

theorem transpose {a : Mat m n Float32} (h : a.EntriesWithin c) :
    a.transpose.EntriesWithin c := by
  intro i j
  rw [get_transpose]
  exact h j i

theorem upper {a : Mat 6 n Float32} (h : a.EntriesWithin c) : a.upper.EntriesWithin c := by
  intro i j
  rw [get_upper]
  exact h _ _

theorem lower {a : Mat 6 n Float32} (h : a.EntriesWithin c) : a.lower.EntriesWithin c := by
  intro i j
  rw [get_lower]
  exact h _ _

theorem toVec3 {a : Mat 3 1 Float32} (h : a.EntriesWithin c) : a.toVec3.ComponentsWithin c := by
  intro i
  fin_cases i
  exacts [h 0 0, h 1 0, h 2 0]

theorem beside {a b : Mat m 3 Float32} (ha : a.EntriesWithin c) (hb : b.EntriesWithin c) :
    (beside a b).EntriesWithin c := by
  intro i j
  rw [Mat.beside, get_ofFn]
  split
  exacts [ha _ _, hb _ _]

theorem above {a b : Mat 3 n Float32} (ha : a.EntriesWithin c) (hb : b.EntriesWithin c) :
    (above a b).EntriesWithin c := by
  intro i j
  rw [Mat.above, get_ofFn]
  split
  exacts [ha _ _, hb _ _]

theorem scale {a : Mat m n Float32} {x : Float32} (h : a.EntriesWithin c) (hx : Within x d)
    (hlow : -149 ≤ e) (hhigh : e ≤ 127) (hle : c * d ≤ 2 ^ e) : (a * x).EntriesWithin (2 ^ e) := by
  intro i j
  rw [get_scale]
  exact (h i j).mul hx (onGrid_two_zpow hlow) hle (two_zpow_lt hhigh)

theorem sub {a b : Mat m n Float32} (ha : a.EntriesWithin c) (hb : b.EntriesWithin d)
    (hlow : -149 ≤ e) (hhigh : e ≤ 127) (hle : c + d ≤ 2 ^ e) : (a - b).EntriesWithin (2 ^ e) := by
  intro i j
  rw [get_sub]
  exact (ha i j).sub (hb i j) (onGrid_two_zpow hlow) hle (two_zpow_lt hhigh)

theorem addDiagonal {a : Mat n n Float32} {v : Fin n → Float32} (ha : a.EntriesWithin c)
    (hv : ∀ i, Within (v i) d) (hlow : -149 ≤ e) (hhigh : e ≤ 127) (hle : c + d ≤ 2 ^ e) :
    (a.addDiagonal v).EntriesWithin (2 ^ e) := by
  intro i j
  rw [get_addDiagonal]
  split
  · exact (ha i j).add (hv i) (onGrid_two_zpow hlow) hle (two_zpow_lt hhigh)
  · exact (ha i j).mono (by linarith [(abs_nonneg _).trans (hv i).abs_le])

/-- A product of matrices with an inner dimension of at most eight. -/
theorem mul {a : Mat m k Float32} {b : Mat k n Float32} (ha : a.EntriesWithin c)
    (hb : b.EntriesWithin d) (hk : k ≤ 8) (hlow : -149 ≤ e) (hhigh : e ≤ 124)
    (hle : c * d ≤ 2 ^ e) : (a * b).EntriesWithin (2 ^ (e + 3)) := by
  intro i j
  rw [get_mul]
  refine within_dot hk hlow hhigh fun l => ?_
  exact (ha i l).mul (hb l j) (onGrid_two_zpow hlow) hle (two_zpow_lt (by omega))

theorem mulTranspose {a : Mat m k Float32} {b : Mat n k Float32} (ha : a.EntriesWithin c)
    (hb : b.EntriesWithin d) (hk : k ≤ 8) (hlow : -149 ≤ e) (hhigh : e ≤ 124)
    (hle : c * d ≤ 2 ^ e) : (a.mulTranspose b).EntriesWithin (2 ^ (e + 3)) :=
  ha.mul hb.transpose hk hlow hhigh hle

end EntriesWithin

/-- The inverse of a matrix of moderate size is not much larger than its cofactors. -/
theorem entriesWithin_of_inverse? {a inverse : Mat 3 3 Float32} (h : a.inverse? = some inverse)
    (hlow : 0 ≤ e) (hhigh : e ≤ 48) (ha : a.EntriesWithin (2 ^ e)) :
    inverse.EntriesWithin (2 ^ (e + e + 31)) := by
  obtain ⟨hinverse, hdet, hlarge⟩ := of_inverse? h
  have hcofactors : a.cofactors.EntriesWithin (2 ^ (e + e + 1)) :=
    within_cofactors (by omega) (by omega) ha
  rw [hinverse]
  refine hcofactors.transpose.scale (within_scale hdet hlarge) (by omega) (by omega) ?_
  rw [← zpow_add₀ two_ne_zero, add_assoc (e + e)]
  norm_num

end Mat

/-! ## Errors in units of a size -/

namespace Binary32

/-- A finite number within an error `e` of a real number `x` of magnitude at most `c`, both in units
of `u`. -/
structure ApproxIn (u : ℝ) (f : Float32) (x e c : ℝ) : Prop where
  finite : f.isFinite = true
  error : |toReal f - x| ≤ e * u
  size : |x| ≤ c * u

/-- A unit that is neither tiny nor close to overflow. -/
structure IsScale (u : ℝ) : Prop where
  low : 1 / 2 ≤ u
  high : u ≤ 2 ^ 124

/-- Rounding a number of at most eight units. -/
theorem Rounds.approxIn {u r x a c : ℝ} {f : Float32} (hu : IsScale u) (h : Rounds r f)
    (hr : |r - x| ≤ a * u) (hx : |x| ≤ c * u) (hle : c + a ≤ 8) :
    ApproxIn u f x (a + 1 / 2 ^ 20) c := by
  have hlow := hu.low
  have hhigh := hu.high
  have hsize : |r| ≤ 8 * u := by
    have hsum : (c + a) * u ≤ 8 * u := by gcongr
    linarith [abs_le_of_near hr]
  have hfin : f.isFinite = true := by
    refine h.isFinite_of_within (onGrid_two_zpow (e := 127) (by norm_num)) ?_ (by norm_num)
    norm_num at hhigh ⊢
    linarith
  have herror : |toReal f - r| ≤ 1 / 2 ^ 20 * u := by
    have hround := (h.isNearest hfin).abs_sub_le
    have htiny : (1 : ℝ) / 2 ^ 150 ≤ 1 / 2 ^ 21 * u := by norm_num; linarith
    have hrelative : |r| / 2 ^ 24 ≤ 8 * u / 2 ^ 24 := by gcongr
    linarith
  have htri := abs_sub_le (toReal f) r x
  exact ⟨hfin, by linarith, hx⟩

namespace ApproxIn
variable {u : ℝ} {f g : Float32} {x y a b c d : ℝ}

theorem add (hu : IsScale u) (hf : ApproxIn u f x a c) (hg : ApproxIn u g y b d)
    (h : c + d + (a + b) ≤ 8) : ApproxIn u (f + g) (x + y) (a + b + 1 / 2 ^ 20) (c + d) := by
  refine (rounds_add hf.finite hg.finite).approxIn hu ?_ ?_ h
  · rw [add_sub_add_comm, add_mul]
    exact (abs_add_le _ _).trans (add_le_add hf.error hg.error)
  · rw [add_mul]
    exact (abs_add_le _ _).trans (add_le_add hf.size hg.size)

theorem sub (hu : IsScale u) (hf : ApproxIn u f x a c) (hg : ApproxIn u g y b d)
    (h : c + d + (a + b) ≤ 8) : ApproxIn u (f - g) (x - y) (a + b + 1 / 2 ^ 20) (c + d) := by
  refine (rounds_sub hf.finite hg.finite).approxIn hu ?_ ?_ h
  · rw [sub_sub_sub_comm, add_mul]
    exact (abs_sub _ _).trans (add_le_add hf.error hg.error)
  · rw [add_mul]
    exact (abs_sub _ _).trans (add_le_add hf.size hg.size)

end ApproxIn
end Binary32

/-! ## Quaternions -/

namespace Quat
variable {p r : Quat Float32} {u : ℝ}

/-- Each part of a rounded product, in units of the second factor. -/
theorem approxIn_mul (hu : IsScale u) (hp : p.Short) (hr : ∀ c ∈ r.toList, Within c u) :
    ApproxIn u (p * r).w (p.exact * r.exact).w (1 / 2 ^ 17) 6 ∧
    ApproxIn u (p * r).i (p.exact * r.exact).i (1 / 2 ^ 17) 6 ∧
    ApproxIn u (p * r).j (p.exact * r.exact).j (1 / 2 ^ 17) 6 ∧
    ApproxIn u (p * r).k (p.exact * r.exact).k (1 / 2 ^ 17) 6 := by
  obtain ⟨pw, pi, pj, pk⟩ := hp.approx_parts
  have rw' : Within r.w u := hr r.w (by simp [toList])
  have ri : Within r.i u := hr r.i (by simp [toList])
  have rj : Within r.j u := hr r.j (by simp [toList])
  have rk : Within r.k u := hr r.k (by simp [toList])
  have hmul {x y : Float32} (hx : Approx x (toReal x) 0 (9 / 8)) (hy : Within y u) :
      ApproxIn u (x * y) (toReal x * toReal y) (1 / 2 ^ 20) (5 / 4) := by
    have hu0 : 0 ≤ u := by linarith [hu.low]
    have hsize : |toReal x * toReal y| ≤ 5 / 4 * u := by
      rw [abs_mul]
      calc |toReal x| * |toReal y| ≤ 9 / 8 * u :=
            mul_le_mul hx.size hy.abs_le (abs_nonneg _) (by norm_num)
        _ ≤ 5 / 4 * u := mul_le_mul_of_nonneg_right (by norm_num) hu0
    have h := (rounds_mul hx.finite hy.finite).approxIn (a := 0) hu (by simp) hsize (by norm_num)
    rwa [zero_add] at h
  have hsum {f : Float32} {x a c : ℝ} (h : ApproxIn u f x a c) (ha : a ≤ 1 / 2 ^ 17)
      (hc : c ≤ 6) : ApproxIn u f x (1 / 2 ^ 17) 6 := by
    have hu0 : 0 ≤ u := by linarith [hu.low]
    exact ⟨h.finite, h.error.trans (by gcongr), h.size.trans (by gcongr)⟩
  refine ⟨?_, ?_, ?_, ?_⟩
  · exact hsum ((((hmul pw rw').sub hu (hmul pi ri) (by norm_num)).sub hu (hmul pj rj)
      (by norm_num)).sub hu (hmul pk rk) (by norm_num)) (by norm_num) (by norm_num)
  · exact hsum ((((hmul pw ri).add hu (hmul pi rw') (by norm_num)).add hu (hmul pj rk)
      (by norm_num)).sub hu (hmul pk rj) (by norm_num)) (by norm_num) (by norm_num)
  · exact hsum ((((hmul pw rj).sub hu (hmul pi rk) (by norm_num)).add hu (hmul pj rw')
      (by norm_num)).add hu (hmul pk ri) (by norm_num)) (by norm_num) (by norm_num)
  · exact hsum ((((hmul pw rk).add hu (hmul pi rj) (by norm_num)).sub hu (hmul pj ri)
      (by norm_num)).add hu (hmul pk rw') (by norm_num)) (by norm_num) (by norm_num)

/-- The norm of a finite quaternion may overflow, and is never undefined. -/
theorem magnitude_norm {q : Quat Float32} (h : q.isFinite = true) : Magnitude q.norm := by
  obtain ⟨hw, hi, hj, hk⟩ := (isFinite_iff q).mp h
  exact (((Magnitude.mul_self hi).add (.mul_self hk)).add
    ((Magnitude.mul_self hj).add (.mul_self hw))).sqrt

/-- A norm does not vanish as long as one component is not tiny. -/
theorem norm_pos_of_component {q : Quat Float32} (hfin : q.isFinite = true) {c : Float32}
    (hc : c ∈ q.toList) {e : ℤ} (he : -149 ≤ e + e) (hlarge : (2 : ℝ) ^ e ≤ |toReal c|) :
    0.0 < q.norm := by
  rw [pos_iff]
  by_cases hnorm : q.norm.isFinite = true
  · left
    obtain ⟨hsq, hle⟩ := sq_le_normSq (isFinite_of_sqrt hnorm).1 hc
    have hge : (2 : ℝ) ^ e ≤ toReal q.norm :=
      two_zpow_le_sqrt hnorm (by omega) ((two_zpow_le_sq hsq he hlarge).trans hle)
    exact ⟨hnorm, lt_of_lt_of_le (by positivity) hge⟩
  · right
    exact (magnitude_norm hfin).overflown_of_not_finite hnorm

/-- The largest component of a quaternion makes up its norm up to a factor of two. -/
theorem exists_largest (q : Quat Float32) : ∃ c ∈ q.toList,
    (∀ d ∈ q.toList, |toReal d| ≤ |toReal c|) ∧ |toReal c| ^ 2 ≤ q.exact.normSq := by
  obtain ⟨c, hc⟩ : ∃ c, c ∈ q.toList.argmax fun d => |toReal d| :=
    Option.ne_none_iff_exists'.mp (mt List.argmax_eq_none.mp (List.cons_ne_nil _ _))
  have hmem := List.argmax_mem hc
  refine ⟨c, hmem, fun d hd => List.le_of_mem_argmax (f := fun d => |toReal d|) hd hc, ?_⟩
  rw [normSq_exact_eq_sum, sq_abs]
  refine List.single_le_sum ?_ _ (List.mem_map_of_mem hmem)
  intro x hx
  obtain ⟨d, -, rfl⟩ := List.mem_map.mp hx
  positivity

/-- **A quaternion that is nearly a unit does not make another one vanish.** -/
theorem norm_mul_pos (hp : p.NearUnit (1 / 200)) (hr : ∀ c ∈ r.toList, Within c (2 ^ 124))
    (hlarge : 1 / 2 ≤ |toReal r.w|) : (p * r).isFinite = true ∧ 0.0 < (p * r).norm := by
  obtain ⟨c, hc, hlargest, hle⟩ := exists_largest r
  generalize hu : |toReal c| = u at hlargest hle
  have hscale : IsScale u := ⟨hlarge.trans (hlargest r.w (by simp [toList])), hu ▸ (hr c hc).abs_le⟩
  have hlow := hscale.low
  obtain ⟨hw, hi, hj, hk⟩ := approxIn_mul hscale (hp.mono (by norm_num)).short
    fun d hd => ⟨(hr d hd).finite, hlargest d hd⟩
  have hfin : (p * r).isFinite = true :=
    (isFinite_iff _).mpr ⟨hw.finite, hi.finite, hj.finite, hk.finite⟩
  refine ⟨hfin, ?_⟩
  by_contra hnorm
  -- If the norm vanished, so would every part of the exact product, in units of the largest one.
  have htiny : ∀ d ∈ (p * r).toList, |toReal d| < 2 ^ (-5 : ℤ) := by
    intro d hd
    by_contra hge
    exact hnorm (norm_pos_of_component hfin hd (by norm_num) (not_lt.mp hge))
  have hpart {f : Float32} {x : ℝ} (hf : ApproxIn u f x (1 / 2 ^ 17) 6)
      (hmem : f ∈ (p * r).toList) : x ^ 2 ≤ u ^ 2 / 64 := by
    have hsmall := htiny f hmem
    have hx : |x| ≤ u / 8 := by
      have herror := hf.error
      rw [abs_sub_comm] at herror
      have hnear := abs_le_of_near herror
      norm_num at hsmall hnear
      linarith
    calc x ^ 2 = |x| ^ 2 := (sq_abs x).symm
      _ ≤ (u / 8) ^ 2 := by gcongr
      _ = u ^ 2 / 64 := by ring
  have hproduct : (p.exact * r.exact).normSq ≤ u ^ 2 / 16 := by
    rw [normSq_eq]
    linarith [hpart hw (by simp [toList]), hpart hi (by simp [toList]),
      hpart hj (by simp [toList]), hpart hk (by simp [toList])]
  have hexact : 199 / 200 * u ^ 2 ≤ (p.exact * r.exact).normSq := by
    rw [normSq_mul]
    have hunit := (abs_le.mp hp.norm).1
    exact mul_le_mul (by linarith) hle (sq_nonneg u) (by linarith)
  have hpos : 0 < u ^ 2 := by positivity
  linarith

/-- The view of a vector by a quaternion that is hardly longer than a unit. -/
theorem componentsWithin_toFrame {q : Quat Float32} (hq : q.Short) {v : Vec3 Float32}
    (hv : v.ComponentsWithin 16) : (q.toFrame v).ComponentsWithin (2 ^ (9 : ℤ)) := by
  have hnat {n : ℕ} (hn : n ≤ 2 ^ 24) : OnGrid n := onGrid_natCast hn
  obtain ⟨pw, pi, pj, pk⟩ := hq.approx_parts
  have hpart {x : Float32} {y c : ℝ} (h : Approx x y 0 c) : Within x c := h.within (add_zero c).le
  have hu : q.conj.vec.ComponentsWithin (9 / 8) := by
    intro i
    fin_cases i
    exacts [(hpart pi).neg, (hpart pj).neg, (hpart pk).neg]
  have htwo : Within 2.0 2 := hpart approx_two
  have hcross : (q.conj.vec.cross v).ComponentsWithin 36 := by
    have h := hu.cross hv (c := 18) (by exact_mod_cast hnat (n := 18) (by norm_num))
      (by exact_mod_cast hnat (n := 2 * 18) (by norm_num)) (by norm_num) (by norm_num)
    norm_num at h
    exact h
  have ht : (q.conj.vec.cross v * (2.0 : Float32)).ComponentsWithin 72 :=
    hcross.scale htwo (by exact_mod_cast hnat (n := 72) (by norm_num)) (by norm_num) (by norm_num)
  have hturn := ht.scale (hpart pw) (c := 81) (by exact_mod_cast hnat (n := 81) (by norm_num))
    (by norm_num) (by norm_num)
  have hagain := hu.cross ht (c := 81) (by exact_mod_cast hnat (n := 81) (by norm_num))
    (by exact_mod_cast hnat (n := 2 * 81) (by norm_num)) (by norm_num) (by norm_num)
  have hsum := hturn.add hagain (c := 243) (by exact_mod_cast hnat (n := 243) (by norm_num))
    (by norm_num) (by norm_num)
  exact hsum.add hv (onGrid_two_zpow (by norm_num)) (by norm_num) (by norm_num)

/-- A norm whose square passes the test for a direction. -/
theorem le_norm_of_not_small {u : Vec3 Float32} (hfin : u.norm.isFinite = true)
    (h : ¬ u.normSq ≤ (1.1920928955078125e-7 * 1.1920928955078125e-7 : Float32)) :
    (2 : ℝ) ^ (-23 : ℤ) ≤ toReal u.norm := by
  have hunpack : unpack (1.1920928955078125e-7 * 1.1920928955078125e-7 : Float32) =
      .finite .positive 8388608 (-69) (by norm_num) := rfl
  have hleast : toReal (1.1920928955078125e-7 * 1.1920928955078125e-7 : Float32) =
      2 ^ (-46 : ℤ) := by
    rw [toReal_of_unpack hunpack]
    norm_num [signFactor]
  have hsq : u.normSq.isFinite = true := (isFinite_of_sqrt hfin).1
  rw [Binary32.le_iff hsq (by rw [isFinite_eq, hunpack]; rfl), hleast, not_le] at h
  exact two_zpow_le_sqrt hfin (by norm_num) h.le

/-- The quaternion of a turn by at most one radian about each axis is not too large, and its scalar
part is not small. -/
theorem within_ofRotationVector {v : Vec3 Float32} (hv : v.ComponentsWithin 1)
    (hangle : AccurateAt Scalar.sin Scalar.cos (v / (2.0 : Float32)).norm) :
    (∀ c ∈ (ofRotationVector v).toList, Within c (2 ^ 124)) ∧
      1 / 2 ≤ |toReal (ofRotationVector v).w| := by
  have hgrid {e : ℤ} (he : -149 ≤ e) : OnGrid (2 ^ e) := onGrid_two_zpow he
  have hhalf : (v / (2.0 : Float32)).ComponentsWithin (2 ^ (-1 : ℤ)) :=
    hv.div approx_two.finite (b := 2) (by norm_num) (by rw [toReal_two]; norm_num)
      (hgrid (by norm_num)) (by norm_num) (by norm_num)
  rw [ofRotationVector]
  dsimp only
  generalize v / (2.0 : Float32) = u at hangle hhalf
  split
  · constructor
    · simp only [identity, toList, List.forall_mem_cons]
      exact ⟨within_one (by norm_num), within_zero (by norm_num), within_zero (by norm_num),
        within_zero (by norm_num), by simp⟩
    · rw [identity, toReal_one]
      norm_num
  · rename_i hlarge
    have hnorm := hhalf.norm (by norm_num) (by norm_num)
    norm_num at hnorm
    have hleast := le_norm_of_not_small hnorm.finite hlarge
    have hnear := (abs_le.mp hangle.cos_error).1
    have hcos := Real.one_sub_sq_div_two_le_cos (x := toReal u.norm)
    have hscalar : 1 / 2 ≤ toReal (Scalar.cos u.norm) := by
      have hsq : toReal u.norm ^ 2 ≤ (7 / 8) ^ 2 :=
        sq_le_sq' (abs_le.mp hnorm.abs_le).1 (abs_le.mp hnorm.abs_le).2
      norm_num at hnear hsq ⊢
      linarith
    obtain ⟨hsine, hcosine⟩ := hangle.approx
    have hratio : Within (Scalar.sin u.norm / u.norm) (2 ^ (24 : ℤ)) := by
      refine (hsine.within (d := 2) (by norm_num)).div hnorm.finite (b := 2 ^ (-23 : ℤ))
        (by norm_num) ?_ (hgrid (by norm_num)) (by norm_num) (by norm_num)
      exact hleast.trans (le_abs_self _)
    have haxis : (u * (Scalar.sin u.norm / u.norm)).ComponentsWithin (2 ^ (23 : ℤ)) :=
      hhalf.scale hratio (hgrid (by norm_num)) (by norm_num) (by norm_num)
    constructor
    · simp only [toList, List.forall_mem_cons]
      exact ⟨hcosine.within (by norm_num), (haxis 0).mono (by norm_num),
        (haxis 1).mono (by norm_num), (haxis 2).mono (by norm_num), by simp⟩
    · exact hscalar.trans (le_abs_self _)

end Quat
end Attitude
