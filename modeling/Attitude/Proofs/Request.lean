import Mathlib.Algebra.Ring.Nat
import Attitude.Estimator.Correction
import Attitude.Estimator.Propagation
import Attitude.Proofs.Process

/-!
# Requests

An estimator is used by four calls. `Request` is one call with its arguments, `Estimator.serve`
carries it out, and a list of requests is a run of `Estimator.process`, so that a property of every
use of an estimator is a statement about every list of requests.
-/

namespace Attitude
namespace Estimator
variable {α : Type} [Scalar α]

/-- A call of an estimator. -/
inductive Request (α : Type) where
  | align (readings : Readings α)
  | propagate (gyro : Vec3 α) (dt : α)
  | correctGravity (force : Vec3 α)
  | correctField (field : Vec3 α)

/-- A request to correct the estimator. -/
def Request.isCorrection {α : Type} : Request α → Bool
  | .correctGravity _ => true
  | .correctField _ => true
  | _ => false

/-- Carry out a request. The answer tells whether it has been accepted. -/
def serve (f : Estimator α) : Request α → Estimator α × Bool
  | .align readings =>
    match f.align readings with
    | .ok g => (g, true)
    | .error _ => (f, false)
  | .propagate gyro dt => ((f.propagate? gyro dt).getD f, isDuration dt)
  | .correctGravity force => f.correctGravity force
  | .correctField field => f.correctField field

/-- An estimator as a process from requests to answers. -/
def process : Process (Estimator α) (Request α) Bool := fun f r => ((f.serve r).1, [(f.serve r).2])

/-! ## What one call does to the configuration and the covariance -/

/-- An alignment that succeeds sets attitude and bias, and starts the estimator. -/
theorem align_eq_ok {f g : Estimator α} {readings : Readings α} (h : f.align readings = .ok g) :
    ∃ q, attitudeOf? readings.accel readings.mag f.config.field = some q ∧
      g = { project { f with attitude := q } with bias := readings.gyro, phase := .running } := by
  rw [align] at h
  split at h
  · cases h
  · split at h
    · cases h
    · split at h
      · cases h
      · rename_i q hq
        exact ⟨q, hq, (Except.ok.inj h).symm⟩

/-- What an alignment leaves alone, also when it succeeds: it writes the attitude, the bias, the
phase and the body. -/
structure AlignKeeps (f g : Estimator α) : Prop where
  config : g.config = f.config
  mounting : g.mounting = f.mounting
  rate : g.rate = f.rate
  covariance : g.covariance = f.covariance
  correction : g.correction = f.correction
  deviation : g.deviation = f.deviation
  rejected : g.rejected = f.rejected

theorem alignKeeps_serve (f : Estimator α) (readings : Readings α) :
    f.AlignKeeps (f.serve (.align readings)).1 := by
  simp only [serve]
  split
  · rename_i g hg
    obtain ⟨q, -, rfl⟩ := align_eq_ok hg
    exact ⟨rfl, rfl, rfl, rfl, rfl, rfl, rfl⟩
  · exact ⟨rfl, rfl, rfl, rfl, rfl, rfl, rfl⟩

/-- Readings without an attitude are refused, and nothing changes. -/
theorem serve_align_of_eq_none {f : Estimator α} {readings : Readings α}
    (h : attitudeOf? readings.accel readings.mag f.config.field = none) :
    f.serve (.align readings) = (f, false) := by
  simp only [serve]
  split
  · rename_i g hg
    obtain ⟨q, hq, -⟩ := align_eq_ok hg
    rw [h] at hq
    cases hq
  · rfl

/-- An estimator that accepts an alignment was not running. -/
theorem isRunning_of_align {f g : Estimator α} {readings : Readings α}
    (h : f.align readings = .ok g) : f.isRunning = false := by
  rw [← Bool.not_eq_true]
  intro hrun
  rw [align, if_pos hrun] at h
  cases h

/-- An update that is not refused has inverted the covariance of the innovation, and adds the error
that the gain estimates. -/
theorem observe_accepted {f : Estimator α} {expected measured noise : Vec3 α}
    (h : (f.observe expected measured noise).2 = true) :
    ∃ inverse,
      (innovation (observation (f.attitude.toFrame expected)) f.covariance noise).inverse?
        = some inverse ∧
      (f.observe expected measured noise).1 =
        { f with covariance := posterior (gain (observation (f.attitude.toFrame expected))
            f.covariance inverse) (observation (f.attitude.toFrame expected)) f.covariance }.absorb
          (gain (observation (f.attitude.toFrame expected)) f.covariance inverse *
            Mat.column (measured - f.attitude.toFrame expected)) := by
  simp only [observe] at h ⊢
  split at h
  · cases h
  · rename_i inverse hi
    exact ⟨inverse, hi, rfl⟩

/-- A correction that is accepted has inverted the covariance of the innovation, and leaves the
posterior covariance. -/
theorem correct_accepted {f : Estimator α} {expected measured noise : Vec3 α}
    (h : (f.correct expected measured noise).2 = true) :
    ∃ inverse,
      (innovation (observation (f.attitude.toFrame expected)) f.covariance noise).inverse?
        = some inverse ∧
      (f.correct expected measured noise).1.covariance =
        posterior (gain (observation (f.attitude.toFrame expected)) f.covariance inverse)
          (observation (f.attitude.toFrame expected)) f.covariance := by
  obtain ⟨inverse, hi, hg⟩ := observe_accepted h
  exact ⟨inverse, hi, congrArg Estimator.covariance hg⟩

/-- A correction that is refused leaves the covariance alone. -/
theorem correct_refused {f : Estimator α} {expected measured noise : Vec3 α}
    (h : (f.correct expected measured noise).2 = false) :
    (innovation (observation (f.attitude.toFrame expected)) f.covariance noise).inverse? = none ∧
      (f.correct expected measured noise).1.covariance = f.covariance := by
  simp only [correct, observe] at h ⊢
  split at h
  · rename_i hi
    exact ⟨hi, rfl⟩
  · cases h

/-- A correction that is refused counts, and normalizes the reference. -/
theorem correct_eq_of_refused {f : Estimator α} {expected measured noise : Vec3 α}
    (h : (f.correct expected measured noise).2 = false) :
    (f.correct expected measured noise).1 = f.reject.fold := by
  simp only [correct, observe] at h ⊢
  split at h
  · rfl
  · cases h

/-- One more refusal, up to the largest count. -/
theorem toNat_rejected_reject {α : Type} (f : Estimator α) :
    f.reject.rejected.toNat = min (f.rejected.toNat + 1) (2 ^ 32 - 1) := by
  simp only [reject]
  split
  · rename_i h
    rw [h]
    rfl
  · rename_i h
    have hne : f.rejected.toNat ≠ 2 ^ 32 - 1 := fun h' => h (UInt32.toNat_inj.mp h')
    have hlt := f.rejected.toNat_lt
    have hone : (1 : UInt32).toNat = 1 := rfl
    rw [UInt32.toNat_add, hone]
    omega

@[simp] theorem config_correct (f : Estimator α) (expected measured noise : Vec3 α) :
    (f.correct expected measured noise).1.config = f.config := by
  simp only [correct, observe]
  split <;> rfl

/-- No correction touches the excess, except that one by gravity smooths it first. -/
theorem deviation_correct (f : Estimator α) (expected measured noise : Vec3 α) :
    (f.correct expected measured noise).1.deviation = f.deviation := by
  simp only [correct, observe]
  split <;> rfl

theorem deviation_correctGravity (f : Estimator α) (force : Vec3 α) :
    (f.correctGravity force).1.deviation = f.nextDeviation force := deviation_correct _ _ _ _

/-- No request touches the configuration. -/
theorem config_serve (f : Estimator α) (r : Request α) : (f.serve r).1.config = f.config := by
  cases r with
  | align readings => exact (f.alignKeeps_serve readings).config
  | propagate gyro dt =>
    simp only [serve, propagate?]
    split <;> rfl
  | correctGravity force => exact config_correct _ _ _ _
  | correctField field => exact config_correct _ _ _ _

/-- A request to correct is a correction, possibly after the smoothed excess has advanced. -/
theorem serve_eq_correct (f : Estimator α) {r : Request α} (hr : r.isCorrection = true) :
    ∃ deviation expected measured noise,
      f.serve r = ({ f with deviation } : Estimator α).correct expected measured noise ∧
      (∀ field, r = .correctField field → deviation = f.deviation) ∧
      (∀ force, r = .correctGravity force → deviation = f.nextDeviation force) := by
  cases r with
  | align readings => cases hr
  | propagate gyro dt => cases hr
  | correctGravity force =>
    refine ⟨f.nextDeviation force, _, _, _, rfl, ?_, ?_⟩
    · intro field hfield
      cases hfield
    · intro force' hforce
      cases hforce
      rfl
  | correctField field =>
    refine ⟨f.deviation, _, _, _, rfl, ?_, ?_⟩
    · intro field' hfield
      rfl
    · intro force hforce
      cases hforce

/-- Only corrections count refusals. -/
theorem rejected_serve_of_not_correction {f : Estimator α} {r : Request α}
    (hr : r.isCorrection = false) : (f.serve r).1.rejected = f.rejected := by
  cases r with
  | align readings => exact (f.alignKeeps_serve readings).rejected
  | propagate gyro dt =>
    simp only [serve, propagate?]
    split <;> rfl
  | correctGravity force => cases hr
  | correctField field => cases hr

/-- No correction is pending between two requests. -/
theorem correction_serve {f : Estimator α} (hf : f.correction = noCorrection) (r : Request α) :
    (f.serve r).1.correction = noCorrection := by
  cases r with
  | align readings => exact (f.alignKeeps_serve readings).correction.trans hf
  | propagate gyro dt =>
    simp only [serve, propagate?]
    split
    · exact hf
    · exact hf
  | correctGravity force => rfl
  | correctField field => rfl

/-! ## Runs -/

theorem config_run (f : Estimator α) (rs : List (Request α)) :
    (process.run f rs).1.config = f.config :=
  process.run_invariant (fun g => g.config = f.config)
    (fun g r hg => (config_serve g r).trans hg) rfl rs

theorem correction_run {f : Estimator α} (hf : f.correction = noCorrection)
    (rs : List (Request α)) : (process.run f rs).1.correction = noCorrection :=
  process.run_invariant (fun g => g.correction = noCorrection)
    (fun _ r hg => correction_serve hg r) hf rs

end Estimator
end Attitude
