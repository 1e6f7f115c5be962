import Attitude.Proofs.Calls
import Attitude.Proofs.Exact.Fold
import Attitude.Proofs.Threshold

/-!
# Refused corrections

A correction is refused in the middle of its update: the smoothed excess of a specific force has
advanced before, and the fold runs afterwards. Nothing comes of it all the same. No correction is
pending between two requests, so the fold multiplies the reference with the correction that changes
nothing, and all that a refusal leaves behind is one more refusal in the count.

A refused request counts once, by `onlyCounts_of_refused`, and no other one does, by `rejected_serve`; a
run adds this up by induction.

## Main definitions

* `Estimator.OnlyCounts`: what a refused request leaves of an estimator
* `Estimator.refusals`: how many corrections a run refuses
-/

namespace Attitude
namespace Estimator

section
variable {α : Type} [Scalar α] {f : Estimator α}

/-! ## One refusal -/

/-- What a refused request leaves of an estimator. -/
structure OnlyCounts (f : Estimator α) (r : Request α) : Prop where
  /-- Configuration, mounting, phase, rate and body stay. -/
  output : f.SameOutput (f.serve r).1
  covariance : (f.serve r).1.covariance = f.covariance
  bias : (f.serve r).1.bias = f.bias
  /-- One more refusal is counted, up to the largest count. -/
  rejected : (f.serve r).1.rejected.toNat = min (f.rejected.toNat + 1) (2 ^ 32 - 1)
  correction : (f.serve r).1.correction = noCorrection
  /-- A field leaves the smoothed excess alone. -/
  field : ∀ field, r = .correctField field → (f.serve r).1.deviation = f.deviation
  /-- A specific force has advanced it. -/
  force : ∀ force, r = .correctGravity force → (f.serve r).1.deviation = f.nextDeviation force
  /-- The reference is multiplied with the correction that changes nothing, and normalized. -/
  attitude : f.correction = noCorrection →
    (f.serve r).1.attitude = (f.attitude * noCorrection).normalize

theorem onlyCounts_of_refused {r : Request α} (hr : r.isCorrection = true)
    (hrefused : (f.serve r).2 = false) : f.OnlyCounts r := by
  obtain ⟨deviation, expected, measured, noise, hserve, hfield, hforce⟩ := serve_eq_correct f hr
  rw [hserve] at hrefused
  have hfold := correct_eq_of_refused hrefused
  constructor <;> rw [hserve, hfold]
  · exact ⟨rfl, rfl, rfl, rfl, rfl⟩
  · rfl
  · rfl
  · exact toNat_rejected_reject _
  · rfl
  · exact hfield
  · exact hforce
  · intro hcorrection
    change (f.attitude * { f.correction with w := correctionScalar }).normalize = _
    rw [hcorrection]
    rfl

/-! ## Runs -/

/-- A correction that is accepted counts nothing. -/
theorem rejected_correct_of_accepted {expected measured noise : Vec3 α}
    (h : (f.correct expected measured noise).2 = true) :
    (f.correct expected measured noise).1.rejected = f.rejected := by
  obtain ⟨inverse, -, hobserve⟩ := observe_accepted h
  change (f.observe expected measured noise).1.rejected = f.rejected
  rw [hobserve]
  rfl

/-- The answer refuses a correction. -/
def Request.isRefused {α : Type} (r : Request α) (answer : Bool) : Bool := r.isCorrection && !answer

theorem rejected_serve {r : Request α} (h : r.isRefused (f.serve r).2 = false) :
    (f.serve r).1.rejected = f.rejected := by
  cases hr : r.isCorrection with
  | false => exact rejected_serve_of_not_correction hr
  | true =>
    have haccepted : (f.serve r).2 = true := by simpa [Request.isRefused, hr] using h
    obtain ⟨deviation, expected, measured, noise, hserve, -, -⟩ := serve_eq_correct f hr
    rw [hserve] at haccepted ⊢
    exact rejected_correct_of_accepted haccepted

/-- How many corrections a run refuses. -/
def refusals (f : Estimator α) (rs : List (Request α)) : ℕ :=
  (rs.zip (process.run f rs).2).countP fun (r, answer) => r.isRefused answer

theorem refusals_cons (f : Estimator α) (r : Request α) (rs : List (Request α)) :
    f.refusals (r :: rs) = (r.isRefused (f.serve r).2).toNat + (f.serve r).1.refusals rs := by
  rw [refusals, Process.run_cons]
  change List.countP _ ((r, (f.serve r).2) :: rs.zip (process.run (f.serve r).1 rs).2) = _
  rw [List.countP_cons, refusals, add_comm]
  simp only [Bool.toNat, Bool.cond_eq_ite]

/-- A run counts its refusals, up to the largest count. -/
theorem toNat_rejected_run (f : Estimator α) (rs : List (Request α)) :
    (process.run f rs).1.rejected.toNat =
      min (f.rejected.toNat + f.refusals rs) (2 ^ 32 - 1) := by
  induction rs generalizing f with
  | nil =>
    have hlt := f.rejected.toNat_lt
    change f.rejected.toNat = min (f.rejected.toNat + 0) (2 ^ 32 - 1)
    omega
  | cons r rs ih =>
    have hlater : (process.run f (r :: rs)).1.rejected.toNat =
        min ((f.serve r).1.rejected.toNat + (f.serve r).1.refusals rs) (2 ^ 32 - 1) := ih (f.serve r).1
    rw [hlater, refusals_cons]
    cases h : r.isRefused (f.serve r).2 with
    | false =>
      rw [rejected_serve h, Bool.toNat_false]
      omega
    | true =>
      rw [Request.isRefused, Bool.and_eq_true, Bool.not_eq_true'] at h
      rw [(onlyCounts_of_refused h.1 h.2).rejected, Bool.toNat_true]
      omega

end

/-- **A refused correction is atomic.** Whatever the scalars, a refusal only counts; over the real
numbers it leaves a unit reference as it is. After every list of requests nothing is pending, and the
count is the number of refusals, up to the largest count. -/
theorem refusal_isAtomic :
    (∀ (α : Type) [Scalar α] (f : Estimator α) (r : Request α), r.isCorrection = true →
      (f.serve r).2 = false → f.OnlyCounts r) ∧
    (∀ (f : Estimator ℝ) (r : Request ℝ), f.correction = noCorrection → f.attitude.norm = 1 →
      r.isCorrection = true → (f.serve r).2 = false → (f.serve r).1.attitude = f.attitude) ∧
    (∀ (α : Type) [Scalar α] (c : Config α) (m : Mounting α) (rs : List (Request α)),
      (process.run (new c m) rs).1.correction = noCorrection ∧
      (process.run (new c m) rs).1.rejected.toNat = min ((new c m).refusals rs) (2 ^ 32 - 1)) := by
  refine ⟨?_, ?_, ?_⟩
  · intro α _ f r hr hrefused
    exact onlyCounts_of_refused hr hrefused
  · intro f r hcorrection hunit hr hrefused
    rw [(onlyCounts_of_refused hr hrefused).attitude hcorrection]
    exact normalize_mul_noCorrection hunit
  · intro α _ c m rs
    refine ⟨correction_run rfl rs, ?_⟩
    rw [toNat_rejected_run]
    change min (0 + (new c m).refusals rs) _ = _
    rw [Nat.zero_add]

/-- A configuration whose field has neither direction nor noise: every innovation is singular. -/
def Config.blind {α : Type} [Scalar α] : Config α :=
  { Config.default with field := .zero, fieldNoise := .zero }

/-- Over the real numbers no field corrects a new estimator that is blind. -/
theorem correctField_blind (field : Vec3 ℝ) :
    ((new Config.blind Mounting.aligned).correctField field).2 = false := by
  have hunit : (Quat.identity : Quat ℝ).normSq = 1 := by
    norm_num [Quat.normSq, Quat.identity]
  have hdet := det_fieldInnovation_of_initial (f := new Config.blind Mounting.aligned) hunit rfl rfl
  rw [← Bool.not_eq_true, correctField_accepted_iff, hdet]
  norm_num [Mat.leastDet]

/-- Two refusals of a blind estimator, and an interval between them. -/
theorem refusal_isAtomic_blind :
    ((new Config.blind Mounting.aligned : Estimator Float32).serve (.correctField ⟨1, 2, 3⟩)).2 = false ∧
    (new Config.blind Mounting.aligned : Estimator Float32).OnlyCounts (.correctField ⟨1, 2, 3⟩) ∧
    (Quat.identity : Quat ℝ).norm = 1 ∧
    ((new Config.blind Mounting.aligned : Estimator ℝ).serve (.correctField ⟨1, 2, 3⟩)).1.attitude =
      .identity ∧
    (process.run (new Config.blind Mounting.aligned : Estimator Float32)
      [.correctField ⟨1, 2, 3⟩, .propagate .zero 0.5, .correctField .zero]).1.rejected.toNat = 2 := by
  have hrefused : ((new Config.blind Mounting.aligned : Estimator Float32).serve
      (.correctField ⟨1, 2, 3⟩)).2 = false := by decide +kernel
  have hunit : (Quat.identity : Quat ℝ).norm = 1 := by
    rw [Quat.norm_eq_one_iff]
    norm_num [Quat.normSq, Quat.identity]
  have hcount : (new Config.blind Mounting.aligned : Estimator Float32).refusals
      [.correctField ⟨1, 2, 3⟩, .propagate .zero 0.5, .correctField .zero] = 2 := by decide +kernel
  refine ⟨hrefused, refusal_isAtomic.1 Float32 _ _ rfl hrefused, hunit, ?_, ?_⟩
  · exact refusal_isAtomic.2.1 (new Config.blind Mounting.aligned) _ rfl hunit rfl
      (correctField_blind _)
  · rw [(refusal_isAtomic.2.2 Float32 _ _ _).2, hcount]
    rfl

end Estimator
end Attitude
