import Attitude.Estimator

/-!
# Propagation of the estimator

A gyro sample turns the reference by the exact exponential of the rotation it describes, and
carries the error covariance along. The error itself is zero after every correction, so only its
covariance moves.
-/

namespace Attitude
namespace Estimator
variable {α : Type} [Scalar α]

/-- The rate that a gyro sample leaves: the bias is taken off, then the smoothing applies. -/
def nextRate (f : Estimator α) (gyro : Vec3 α) : Vec3 α :=
  let unbiased := gyro - f.bias
  match f.config.smoothing with
  | .direct => unbiased
  | .lowPass weight => f.rate * (1.0 - weight) + unbiased * weight

/-- Turn the reference by a gyro sample held for `dt` seconds. -/
def propagateReference (f : Estimator α) (gyro : Vec3 α) (dt : α) : Estimator α :=
  let rate := f.nextRate gyro
  { f with rate, attitude := (f.attitude * .ofRotationVector (rate * dt)).normalize }

/-- The linear map of the error over `dt` seconds at the given rate: the attitude error turns
against the rotation and drifts with the bias error. -/
def transition (rate : Vec3 α) (dt : α) : Mat 6 6 α :=
  let turn : Mat 3 3 α := .identity - .skew (rate * dt)
  let drift : Mat 3 3 α := (Mat.identity : Mat 3 3 α) * (-dt)
  .above (.beside turn drift) (.beside .zero .identity)

/-- The process noise of an interval, along the diagonal. -/
def processNoise (c : Config α) (dt : α) (i : Fin 6) : α :=
  if i.val < 3 then dt * dt * c.attitudeNoise else dt * dt * c.biasNoise

/-- Carry the covariance over `dt` seconds and add the process noise. -/
def propagateCovariance (f : Estimator α) (dt : α) : Estimator α :=
  let t := transition f.rate dt
  { f with
    covariance := ((t * f.covariance).mulTranspose t).addDiagonal (processNoise f.config dt) }

/-- A duration that can be integrated: finite and positive. -/
def isDuration (dt : α) : Bool := Scalar.isFinite dt && !decide (dt ≤ 0.0)

/-- Propagate over `dt` seconds with one gyro sample. Nothing happens when `dt` is no duration. -/
def propagate? (f : Estimator α) (gyro : Vec3 α) (dt : α) : Option (Estimator α) :=
  if isDuration dt then some ((f.propagateReference gyro dt).propagateCovariance dt).project
  else none

end Estimator
end Attitude
