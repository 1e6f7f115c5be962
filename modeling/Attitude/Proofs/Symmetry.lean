import Attitude.Proofs.Binary32.Undefined
import Attitude.Proofs.Finite

/-!
# What the symmetry test finds

The test looks at every pair of entries across the diagonal, and rejects a matrix with a pair that
differs by more than the tolerance. It does not ask that the difference is at most the tolerance:
when the difference or the tolerance is undefined neither holds, and the test passes over the pair.
So it decides symmetry for finite matrices, and wherever every pair has a difference.

## Main definitions

* `Mat.IsSymmetricWithin`: entries across the diagonal differ by at most a tolerance
* `Mat.UndefinedAt`: a pair of entries has no difference

## Main results

* `Mat.testsSymmetry`: what the test finds in every matrix
* `Mat.undefined_pair_passes`: a matrix with an undefined entry that passes
-/

namespace Attitude.Mat
open Binary32
variable {n : ℕ} {m : Mat n n Float32} {tolerance : Float32}

/-- Entries across the diagonal differ by at most the tolerance. -/
def IsSymmetricWithin (m : Mat n n Float32) (tolerance : Float32) : Prop :=
  ∀ i j, i < j → (m i j - m j i).abs ≤ tolerance

/-- The two entries across the diagonal have no difference: one of them is not a number, or they are
the same infinity. -/
def UndefinedAt (m : Mat n n Float32) (i j : Fin n) : Prop :=
  (m i j).isNaN = true ∨ (m j i).isNaN = true ∨
    ∃ s, unpack (m i j) = .infinity s ∧ unpack (m j i) = .infinity s

/-- Finite entries have a difference. -/
theorem not_undefinedAt_of_isFinite (h : m.isFinite = true) (i j : Fin n) :
    ¬ m.UndefinedAt i j := by
  have hfin := (isFinite_iff m).mp h
  rintro (hnan | hnan | ⟨s, hinf, -⟩)
  · rw [isNaN_of_isFinite (hfin i j)] at hnan
    cases hnan
  · rw [isNaN_of_isFinite (hfin j i)] at hnan
    cases hnan
  · have hij : (m i j).isFinite = true := hfin i j
    rw [isFinite_eq, hinf] at hij
    cases hij

/-- A matrix passes if each pair differs by at most the tolerance or cannot be compared with it. -/
theorem isSymmetric_iff (m : Mat n n Float32) (tolerance : Float32) :
    m.isSymmetric tolerance = true ↔ ∀ i j, i < j →
      (m i j - m j i).abs ≤ tolerance ∨ m.UndefinedAt i j ∨ tolerance.isNaN = true := by
  have hpair : ∀ i j, ¬ tolerance < Scalar.abs (m i j - m j i) ↔
      (m i j - m j i).abs ≤ tolerance ∨ m.UndefinedAt i j ∨ tolerance.isNaN = true := by
    intro i j
    have h := not_lt_iff (m i j - m j i).abs tolerance
    rwa [isNaN_abs, isNaN_sub_iff] at h
  simp only [isSymmetric, List.all_eq_true, Prod.forall, mem_indexPairs, Bool.not_eq_true',
    decide_eq_false_iff_not, hpair]

/-- What the test says of a matrix. -/
structure TestsSymmetry (m : Mat n n Float32) (tolerance : Float32) : Prop where
  /-- Each pair differs by at most the tolerance, has no difference, or is compared with a tolerance
  that is not a number. -/
  passes_iff : m.isSymmetric tolerance = true ↔ ∀ i j, i < j →
    (m i j - m j i).abs ≤ tolerance ∨ m.UndefinedAt i j ∨ tolerance.isNaN = true
  /-- The test is wrong about a matrix that passes exactly if some pair has no difference, or if
  there is a pair and the tolerance is not a number. -/
  misjudges_iff : m.isSymmetric tolerance = true →
    (¬ m.IsSymmetricWithin tolerance ↔
      ∃ i j, i < j ∧ (m.UndefinedAt i j ∨ tolerance.isNaN = true))
  /-- A symmetric matrix is never rejected. -/
  accepts : m.IsSymmetricWithin tolerance → m.isSymmetric tolerance = true
  /-- On finite matrices, with a tolerance that is a number, the test decides symmetry. -/
  decides : m.isFinite = true → tolerance.isNaN = false →
    (m.isSymmetric tolerance = true ↔ m.IsSymmetricWithin tolerance)

/-- **The symmetry test passes over what is undefined**, and decides symmetry otherwise. -/
theorem testsSymmetry (m : Mat n n Float32) (tolerance : Float32) : m.TestsSymmetry tolerance where
  passes_iff := isSymmetric_iff m tolerance
  misjudges_iff := by
    intro hpasses
    rw [isSymmetric_iff] at hpasses
    constructor
    · intro hnot
      simp only [IsSymmetricWithin, not_forall] at hnot
      obtain ⟨i, j, hij, hpair⟩ := hnot
      exact ⟨i, j, hij, (hpasses i j hij).resolve_left hpair⟩
    · rintro ⟨i, j, hij, hundefined⟩ hwithin
      obtain ⟨hdifference, htolerance⟩ := isNaN_of_le (hwithin i j hij)
      rw [isNaN_abs] at hdifference
      rcases hundefined with hpair | htol
      · rw [(isNaN_sub_iff _ _).mpr hpair] at hdifference
        cases hdifference
      · rw [htol] at htolerance
        cases htolerance
  accepts := by
    intro hwithin
    rw [isSymmetric_iff]
    exact fun i j hij => .inl (hwithin i j hij)
  decides := by
    intro hfin htolerance
    have hdefined := not_undefinedAt_of_isFinite hfin
    simp only [isSymmetric_iff, hdefined, htolerance, Bool.false_eq_true, or_false]
    rfl

/-- A matrix with an entry that is not a number passes, and so does one with the same infinity on
both sides of the diagonal. -/
theorem undefined_pair_passes :
    let nan : Float32 := .ofBits 0x7fc00000
    let inf : Float32 := .ofBits 0x7f800000
    let beside (x y : Float32) : Mat 3 3 Float32 :=
      ofRows ⟨1.0, x, 0.0⟩ ⟨y, 1.0, 0.0⟩ ⟨0.0, 0.0, 1.0⟩
    (beside nan 0.0).isSymmetric 1e-4 = true ∧ ¬ (beside nan 0.0).IsSymmetricWithin 1e-4 ∧
    (beside inf inf).isSymmetric 1e-4 = true ∧ ¬ (beside inf inf).IsSymmetricWithin 1e-4 := by
  refine ⟨by decide +kernel, ?_, by decide +kernel, ?_⟩
  · intro h
    exact absurd (h 0 1 (by decide)) (by decide +kernel)
  · intro h
    exact absurd (h 0 1 (by decide)) (by decide +kernel)

end Attitude.Mat
