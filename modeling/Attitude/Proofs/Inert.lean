import Attitude.Proofs.Refusal
import Attitude.Proofs.Samples

/-!
# Estimators that are broken

The innovation of a correction reads every entry of the covariance and, through the predicted vector,
every component of the reference. Its determinant therefore sees each number that is not finite, also
behind the zeros of the observation. A running estimator with such a number refuses every correction
and never gets rid of it: propagation multiplies the whole covariance and the whole reference, and
normalization keeps what is not finite.

The step is `isIntact_of_serve`; what a run keeps follows by induction.
-/

namespace Attitude
namespace Estimator

/-! ## What an accepted correction has read -/

/-- The innovation reads all of the prediction and all of the covariance. -/
theorem isFinite_of_innovation {predicted noise : Vec3 Float32} {p : Mat 6 6 Float32}
    (h : (innovation (observation predicted) p noise).isFinite = true) :
    predicted.isFinite = true ∧ p.isFinite = true := by
  obtain ⟨hproduct, hobservation⟩ := Mat.isFinite_of_mulTranspose (Mat.isFinite_of_addDiagonal h)
  obtain ⟨-, hp⟩ := Mat.isFinite_of_product hproduct
  refine ⟨?_, hp⟩
  have hentry := (Mat.isFinite_iff _).mp hobservation
  rw [Vec3.isFinite_iff]
  exact ⟨hentry 2 1, hentry 0 2, hentry 1 0⟩

variable {f : Estimator Float32}

/-- The reference and the covariance are finite. -/
def isIntact (f : Estimator Float32) : Bool := f.attitude.isFinite && f.covariance.isFinite

theorem isIntact_iff (f : Estimator Float32) :
    f.isIntact = true ↔ f.attitude.isFinite = true ∧ f.covariance.isFinite = true :=
  Bool.and_eq_true_iff

/-- Only an intact estimator accepts a correction. -/
theorem isIntact_of_accepted {expected measured noise : Vec3 Float32}
    (h : (f.correct expected measured noise).2 = true) : f.isIntact = true := by
  obtain ⟨inverse, hinverse, -⟩ := correct_accepted h
  obtain ⟨hpredicted, hp⟩ := isFinite_of_innovation (Mat.isFinite_of_inverse? hinverse)
  rw [isIntact_iff]
  exact ⟨Quat.isFinite_of_toFrame hpredicted, hp⟩

/-! ## One request -/

/-- A reference that is finite after a fold was so before. -/
theorem isFinite_of_fold (h : f.fold.attitude.isFinite = true) : f.attitude.isFinite = true :=
  (Quat.isFinite_of_mul ((Quat.isFinite_normalize_iff (folded f)).mp h).1).1

theorem isIntact_of_correct {expected measured noise : Vec3 Float32}
    (h : (f.correct expected measured noise).1.isIntact = true) : f.isIntact = true := by
  cases hanswer : (f.correct expected measured noise).2 with
  | true => exact isIntact_of_accepted hanswer
  | false =>
    rw [correct_eq_of_refused hanswer, isIntact_iff] at h
    rw [isIntact_iff]
    exact ⟨isFinite_of_fold h.1, h.2⟩

/-- A covariance that is finite after a propagation was so before: the transition multiplies all of
it. -/
theorem isFinite_of_propagateCovariance {dt : Float32}
    (h : (f.propagateCovariance dt).covariance.isFinite = true) : f.covariance.isFinite = true := by
  obtain ⟨hproduct, -⟩ := Mat.isFinite_of_mulTranspose (Mat.isFinite_of_addDiagonal h)
  exact (Mat.isFinite_of_product hproduct).2

theorem isFinite_of_propagateReference {gyro : Vec3 Float32} {dt : Float32}
    (h : (f.propagateReference gyro dt).attitude.isFinite = true) : f.attitude.isFinite = true :=
  (Quat.isFinite_of_mul ((Quat.isFinite_normalize_iff (f.turned gyro dt)).mp h).1).1

/-- A request that leaves a finite covariance has found one. -/
theorem isFinite_covariance_of_serve {r : Request Float32}
    (h : (f.serve r).1.covariance.isFinite = true) : f.covariance.isFinite = true := by
  have hcorrect : ∀ {g : Estimator Float32} {expected measured noise},
      (g.correct expected measured noise).1.covariance.isFinite = true →
      g.covariance.isFinite = true := by
    intro g expected measured noise hg
    cases hanswer : (g.correct expected measured noise).2 with
    | true => exact ((isIntact_iff g).mp (isIntact_of_accepted hanswer)).2
    | false => rwa [(correct_refused hanswer).2] at hg
  cases r with
  | align readings => rwa [(f.alignKeeps_serve readings).covariance] at h
  | propagate gyro dt =>
    simp only [serve, propagate?] at h
    split at h
    · exact isFinite_of_propagateCovariance (f := f.propagateReference gyro dt) h
    · exact h
  | correctGravity force => exact hcorrect (g := { f with deviation := f.nextDeviation force }) h
  | correctField field => exact hcorrect h

/-- A running estimator refuses to be aligned. -/
theorem serve_align (hrun : f.isRunning = true) (readings : Readings Float32) :
    f.serve (.align readings) = (f, false) := by
  rw [serve, align, if_pos hrun]

/-- A running estimator keeps running. -/
theorem isRunning_serve (hrun : f.isRunning = true) (r : Request Float32) :
    (f.serve r).1.isRunning = true := by
  have hphase : (f.serve r).1.phase = f.phase := by
    cases r with
    | align readings => rw [serve_align hrun]
    | propagate gyro dt =>
      cases hpropagate : f.propagate? gyro dt with
      | none => rw [serve, hpropagate]; rfl
      | some g =>
        rw [serve, hpropagate]
        exact (propagate?_eq_some hpropagate).2.2.1
    | correctGravity force => exact (sameOutput_correctGravity f force).phase
    | correctField field => exact (sameOutput_correctField f field).phase
  rwa [isRunning, hphase]

/-- A request that leaves a running estimator intact has found it so. -/
theorem isIntact_of_serve (hrun : f.isRunning = true) {r : Request Float32}
    (h : (f.serve r).1.isIntact = true) : f.isIntact = true := by
  cases r with
  | align readings => rwa [serve_align hrun] at h
  | propagate gyro dt =>
    have hcovariance := isFinite_covariance_of_serve ((isIntact_iff _).mp h).2
    simp only [serve, propagate?] at h
    split at h
    · rw [isIntact_iff]
      exact ⟨isFinite_of_propagateReference ((isIntact_iff _).mp h).1, hcovariance⟩
    · exact h
  | correctGravity force =>
    exact isIntact_of_correct (f := { f with deviation := f.nextDeviation force }) h
  | correctField field => exact isIntact_of_correct h

/-- What a refusal leaves of an estimator `f`, which becomes `g`: it changes neither the covariance
nor the bias, and counts once more, up to the largest count. -/
structure Refused (f g : Estimator Float32) : Prop where
  covariance : g.covariance = f.covariance
  bias : g.bias = f.bias
  rejected : g.rejected.toNat = min (f.rejected.toNat + 1) (2 ^ 32 - 1)

/-- A broken estimator refuses every correction. -/
theorem refused_serve (hbroken : f.isIntact = false) {r : Request Float32}
    (hr : r.isCorrection = true) : (f.serve r).2 = false ∧ f.Refused (f.serve r).1 := by
  have hanswer : (f.serve r).2 = false := by
    by_contra haccepted
    rw [Bool.not_eq_false] at haccepted
    obtain ⟨deviation, expected, measured, noise, hserve, -, -⟩ := serve_eq_correct f hr
    rw [hserve] at haccepted
    have hintact : f.isIntact = true := isIntact_of_accepted (f := { f with deviation }) haccepted
    rw [hintact] at hbroken
    cases hbroken
  have hcounts := onlyCounts_of_refused hr hanswer
  exact ⟨hanswer, hcounts.covariance, hcounts.bias, hcounts.rejected⟩

/-- Of a running estimator, only corrections change the bias. -/
theorem bias_serve_of_not_correction (hrun : f.isRunning = true) {r : Request Float32}
    (hr : r.isCorrection = false) : (f.serve r).1.bias = f.bias := by
  cases r with
  | align readings => rw [serve_align hrun]
  | propagate gyro dt =>
    simp only [serve, propagate?]
    split <;> rfl
  | correctGravity force => cases hr
  | correctField field => cases hr

/-! ## Runs -/

/-- An estimator is inert over a list of requests: it stays broken and keeps its bias, each
correction counts as refused, and the next one is refused as well. -/
structure Inert (f : Estimator Float32) (rs : List (Request Float32)) : Prop where
  broken : (process.run f rs).1.isIntact = false
  bias : (process.run f rs).1.bias = f.bias
  rejected : (process.run f rs).1.rejected.toNat =
    min (f.rejected.toNat + rs.countP Request.isCorrection) (2 ^ 32 - 1)
  refuses : ∀ r, r.isCorrection = true → ((process.run f rs).1.serve r).2 = false ∧
    (process.run f rs).1.Refused ((process.run f rs).1.serve r).1

theorem inert_run (hrun : f.isRunning = true) (hbroken : f.isIntact = false)
    (rs : List (Request Float32)) : f.Inert rs := by
  induction rs generalizing f with
  | nil =>
    refine ⟨hbroken, rfl, ?_, fun r hr => refused_serve hbroken hr⟩
    have hlt := f.rejected.toNat_lt
    change f.rejected.toNat = min (f.rejected.toNat + 0) (2 ^ 32 - 1)
    omega
  | cons r rs ih =>
    have hbroken' : (f.serve r).1.isIntact = false := by
      rw [← Bool.not_eq_true]
      intro hintact
      rw [isIntact_of_serve hrun hintact] at hbroken
      cases hbroken
    have hlater := ih (isRunning_serve hrun r) hbroken'
    have hcounts := hlater.rejected
    cases hr : r.isCorrection with
    | false =>
      have hbias := bias_serve_of_not_correction hrun hr
      rw [rejected_serve_of_not_correction hr] at hcounts
      refine ⟨hlater.broken, hlater.bias.trans hbias, ?_, hlater.refuses⟩
      rw [List.countP_cons_of_neg (by simp [hr])]
      exact hcounts
    | true =>
      obtain ⟨-, hrefused⟩ := refused_serve hbroken hr
      rw [hrefused.rejected] at hcounts
      refine ⟨hlater.broken, hlater.bias.trans hrefused.bias, ?_, hlater.refuses⟩
      rw [List.countP_cons_of_pos hr]
      refine hcounts.trans ?_
      omega

/-- **A broken estimator is inert.** Only an estimator whose reference and covariance are finite
accepts a correction; a covariance that is not finite stays so over all requests, and a running
estimator that is broken is inert over all of them. -/
theorem inert_of_broken (f : Estimator Float32) :
    (∀ r, r.isCorrection = true → (f.serve r).2 = true → f.isIntact = true) ∧
    (f.covariance.isFinite = false → ∀ rs, (process.run f rs).1.covariance.isFinite = false) ∧
    (f.isRunning = true → f.isIntact = false → ∀ rs, f.Inert rs) := by
  refine ⟨?_, ?_, inert_run⟩
  · intro r hr haccepted
    by_contra hbroken
    rw [Bool.not_eq_true] at hbroken
    rw [(refused_serve hbroken hr).1] at haccepted
    cases haccepted
  · intro hbroken rs
    refine process.run_invariant (fun g => g.covariance.isFinite = false) ?_ hbroken rs
    intro g r hg
    rw [← Bool.not_eq_true] at hg ⊢
    exact fun h => hg (isFinite_covariance_of_serve h)

/-- The estimator at rest after a field that was no number: its covariance is finite. -/
def disturbed : Estimator Float32 := (atRest.correctField noNumber).1

/-- The estimator at rest after an interval that overflows its covariance: its reference is
finite. -/
def overflown : Estimator Float32 := (atRest.propagate? .zero 1e30).getD atRest

/-- An intact estimator that accepts a correction, and two broken ones. -/
theorem inert_of_broken_at_rest :
    ((atRest.serve (.correctGravity gravityReference)).2 = true ∧ atRest.isIntact = true) ∧
    (overflown.covariance.isFinite = false ∧
      (process.run overflown [.correctGravity gravityReference]).1.covariance.isFinite = false) ∧
    disturbed.isRunning = true ∧ disturbed.isIntact = false ∧
    disturbed.Inert [.propagate .zero 0.01, .correctGravity gravityReference] := by
  have haccepts : (atRest.serve (.correctGravity gravityReference)).2 = true := by decide +kernel
  have hoverflown : overflown.covariance.isFinite = false := by decide +kernel
  have hrun : disturbed.isRunning = true := by decide +kernel
  have hdisturbed : disturbed.isIntact = false := by decide +kernel
  exact ⟨⟨haccepts, (inert_of_broken atRest).1 _ rfl haccepts⟩,
    ⟨hoverflown, (inert_of_broken overflown).2.1 hoverflown _⟩,
    hrun, hdisturbed, (inert_of_broken disturbed).2.2 hrun hdisturbed _⟩

end Estimator
end Attitude
