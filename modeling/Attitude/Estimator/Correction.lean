import Attitude.Estimator
import Attitude.Mat.Inverse

/-!
# Correction of the estimator by a measured vector

A vector known in the local frame is predicted in the frame of the sensors and compared with its
measurement. The difference, weighted by the gain, estimates the error; the attitude part is then
folded into the reference. A correction whose innovation covariance has no inverse is refused and
counted.

## Main definitions

* `Estimator.observe`: the linear update of the error
* `Estimator.fold`: the error becomes part of the reference
* `Estimator.correctGravity`, `Estimator.correctField`: the two corrections
-/

namespace Attitude
namespace Estimator
variable {α : Type} [Scalar α]

/-- The derivative of a predicted vector by the error: only the attitude error shows in it. -/
def observation (predicted : Vec3 α) : Mat 3 6 α := .beside (.skew predicted) .zero

/-- The covariance of the difference between a measurement and its prediction. -/
def innovation (h : Mat 3 6 α) (p : Mat 6 6 α) (noise : Vec3 α) : Mat 3 3 α :=
  ((h * p).mulTranspose h).addDiagonal noise.component

/-- How far a difference between measurement and prediction moves the error. -/
def gain (h : Mat 3 6 α) (p : Mat 6 6 α) (inverse : Mat 3 3 α) : Mat 6 3 α :=
  p.mulTranspose h * inverse

/-- The covariance of the error that is left after a correction. -/
def posterior (k : Mat 6 3 α) (h : Mat 3 6 α) (p : Mat 6 6 α) : Mat 6 6 α :=
  ((Mat.identity : Mat 6 6 α) - k * h) * p

/-- One more refused correction; the count does not wrap. -/
def reject (f : Estimator α) : Estimator α :=
  { f with rejected := if f.rejected = 0xffffffff then f.rejected else f.rejected + 1 }

/-- Add an estimated error: the attitude part is held pending, the rest goes to the bias. -/
def absorb (f : Estimator α) (error : Mat 6 1 α) : Estimator α :=
  let turn := error.upper.toVec3
  { f with
    correction :=
      { f.correction with
        i := f.correction.i + turn.x
        j := f.correction.j + turn.y
        k := f.correction.k + turn.z }
    bias := f.bias + error.lower.toVec3 }

/-- Estimate the error from one measured vector, where `expected` is the vector in the local frame
and `noise` the variance along each axis. Nothing but the count of refusals changes when the
innovation covariance has no inverse. -/
def observe (f : Estimator α) (expected measured noise : Vec3 α) : Estimator α × Bool :=
  let predicted := f.attitude.toFrame expected
  let h := observation predicted
  match (innovation h f.covariance noise).inverse? with
  | none => (f.reject, false)
  | some inverse =>
    let k := gain h f.covariance inverse
    let error := k * Mat.column (measured - predicted)
    ({ f with covariance := posterior k h f.covariance }.absorb error, true)

/-- Fold the pending correction into the reference, which is normalized; nothing is pending then. -/
def fold (f : Estimator α) : Estimator α :=
  { f with
    attitude := (f.attitude * { f.correction with w := correctionScalar }).normalize
    correction := noCorrection }

/-- Estimate the error and fold it, also after a refusal. -/
def correct (f : Estimator α) (expected measured noise : Vec3 α) : Estimator α × Bool :=
  let (f, applied) := f.observe expected measured noise
  (f.fold, applied)

/-- The weight of the past in the smoothed excess of the specific force. -/
def deviationWeight : α := 0.92

/-- How fast the variance of a specific force grows with the smoothed excess. -/
def deviationGain : α := 250.0

/-- Smooth the excess of a specific force over gravity. -/
def nextDeviation (f : Estimator α) (accel : Vec3 α) : α :=
  deviationWeight * f.deviation + (1.0 - deviationWeight) * (accel.norm - gravity)

/-- The variance of a specific force at a given excess: while the vehicle accelerates, its
accelerometer says little about gravity. -/
def gravityNoise (deviation : α) : Vec3 α :=
  .replicate (1.0 + deviationGain * Scalar.abs deviation)

/-- Correct with one specific force. The excess advances even if the correction is refused. -/
def correctGravity (f : Estimator α) (accel : Vec3 α) : Estimator α × Bool :=
  let f := { f with deviation := f.nextDeviation accel }
  f.correct gravityReference accel (gravityNoise f.deviation)

/-- Correct with one measured field. -/
def correctField (f : Estimator α) (mag : Vec3 α) : Estimator α × Bool :=
  f.correct f.config.field mag f.config.fieldNoise

end Estimator
end Attitude
