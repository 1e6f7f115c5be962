import Attitude.Alignment
import Attitude.Report

/-!
# The state of the attitude estimator

The estimator is a multiplicative linearized Kalman filter. It keeps a reference quaternion, which
is nonlinear and always complete, and a linear error state of six dimensions: a small rotation of
the reference, as a Gibbs vector with scalar part two, and the bias of the gyro. Propagation moves
the reference and the covariance of the error; a correction estimates the error, and folding it
into the reference makes it zero again.

## Main definitions

* `Estimator.Config`, `Estimator.RateSmoothing`: what the user chooses
* `Estimator`: the state
* `Estimator.new`, `Estimator.align`, `Estimator.report`
-/

namespace Attitude

/-- Why the estimator refuses an operation. -/
inductive EstimatorError where
  /-- No alignment has succeeded yet. -/
  | notInitialized
  /-- An alignment has succeeded before. -/
  | alreadyRunning
  /-- The readings cannot define an attitude. -/
  | invalidData
  deriving DecidableEq

namespace EstimatorError

def all : List EstimatorError := [.notInitialized, .alreadyRunning, .invalidData]

def name : EstimatorError → String
  | notInitialized => "NotInitialized"
  | alreadyRunning => "AlreadyRunning"
  | invalidData => "InvalidData"

def message : EstimatorError → String
  | notInitialized => "AHRS not aligned"
  | alreadyRunning => "AHRS already running"
  | invalidData => "invalid AHRS input data"

end EstimatorError

namespace Estimator
variable {α : Type} [Scalar α]

/-- How rates are kept once the bias is taken off. -/
inductive RateSmoothing (α : Type) where
  /-- As they come. -/
  | direct
  /-- Blended into the previous rate, with the given weight for the new one. -/
  | lowPass (weight : α)

/-- The weight of a new rate when none is chosen. -/
def defaultWeight : α := 0.1

/-- What the user chooses. Process noise is scaled by the square of the propagation interval. -/
structure Config (α : Type) where
  /-- The magnetic field in the local frame. -/
  field : Vec3 α
  /-- The variance of a field measurement along each axis. -/
  fieldNoise : Vec3 α
  smoothing : RateSmoothing α
  attitudeNoise : α
  biasNoise : α

/-- The normalized field of the default configuration. -/
def defaultField : Vec3 α := ⟨0.5138, 0.00019, 0.8578⟩

/-- The variance of a field measurement in the default configuration. -/
def defaultFieldNoise : α := 0.2

def Config.default : Config α where
  field := defaultField
  fieldNoise := .replicate defaultFieldNoise
  smoothing := .direct
  attitudeNoise := 1e-2
  biasNoise := 9e-6

/-- Alignment is the only way from one phase to the other, and there is none back. -/
inductive Phase where
  | uninitialized
  | running
  deriving DecidableEq

/-- The scalar part of a pending correction. -/
def correctionScalar : α := 2.0

/-- The correction that changes nothing. -/
def noCorrection : Quat α := ⟨correctionScalar, 0.0, 0.0, 0.0⟩

/-- The variance of the attitude error at the start. -/
def initialAttitudeVariance : α := 1.0

/-- The variance of the gyro bias at the start. -/
def initialBiasVariance : α := 1e-4

end Estimator

/-- The state of an attitude estimator. -/
structure Estimator (α : Type) where
  config : Estimator.Config α
  mounting : Mounting α
  phase : Estimator.Phase
  /-- The reference: the rotation from the local frame to the sensors. -/
  attitude : Quat α
  /-- The rate of the sensors, without bias and smoothed. -/
  rate : Vec3 α
  /-- The estimated bias of the gyro. -/
  bias : Vec3 α
  /-- The covariance of the error: three attitude components, then three of the bias. -/
  covariance : Mat 6 6 α
  /-- The attitude correction that waits to be folded into the reference. -/
  correction : Quat α
  /-- The smoothed excess of the specific force over gravity. -/
  deviation : α
  /-- The body as projected last; corrections leave it alone. -/
  body : Body α
  /-- How many corrections were refused; the count stays at its largest value. -/
  rejected : UInt32

namespace Estimator
variable {α : Type} [Scalar α]

/-- Project the current reference and rate into the body. -/
def project (f : Estimator α) : Estimator α :=
  { f with body := f.mounting.project f.attitude f.rate }

/-- An estimator before alignment. The reference starts at the orientation of the mounting, so the
body reads level. -/
def new (config : Config α) (mounting : Mounting α) : Estimator α :=
  project
    { config, mounting
      phase := .uninitialized
      attitude := mounting.quat
      rate := .zero
      bias := .zero
      covariance := .blockDiagonal initialAttitudeVariance initialBiasVariance
      correction := noCorrection
      deviation := 0.0
      body := .level
      rejected := 0 }

def isRunning (f : Estimator α) : Bool := f.phase == .running

/-- Take attitude and bias from the averaged readings of a vehicle at rest, whose gyro shows
nothing but its bias. -/
def align (f : Estimator α) (readings : Readings α) : Except EstimatorError (Estimator α) :=
  if f.isRunning then .error .alreadyRunning
  else if !readings.gyro.isFinite then .error .invalidData
  else
    match attitudeOf? readings.accel readings.mag f.config.field with
    | none => .error .invalidData
    | some q =>
      .ok { project { f with attitude := q } with bias := readings.gyro, phase := .running }

/-- The report of the last projected body, once the estimator runs. -/
def report (f : Estimator α) (stamp : UInt64) : Except EstimatorError (Report α) :=
  if f.isRunning then .ok (.ofBody f.body stamp) else .error .notInitialized

end Estimator
end Attitude
