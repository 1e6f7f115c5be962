import Attitude.Binary32
import Attitude.Estimator
import Attitude.Params.Store

/-!
# Parameters of the estimator

The values a user may tune, as numbers of the store. Loading takes what is registered and fills the
rest with defaults; `Params.validate` decides whether the estimator can use the result.

## Main definitions

* `Params`, `Params.default`
* `Params.registerDefaults`, `Params.ofStore`: from and to the store
* `Params.validate`
* `Params.estimatorConfig`, `Params.mounting`, `Params.fixedFrequency?`: what the values mean
-/

namespace Attitude

/-- The tunable values. -/
structure Params where
  /-- The magnetic field in the local frame. -/
  field : Vec3 Float32
  /-- The variance of a field measurement along each axis. -/
  fieldNoise : Vec3 Float32
  /-- Blend each rate into the previous one. -/
  smoothRate : Bool
  /-- The weight of a new rate in the blend. -/
  rateWeight : Float32
  /-- A fixed propagation frequency in hertz; zero measures the intervals. -/
  frequency : Float32
  /-- The only sender listened to, or everyone. -/
  sender : Option UInt8
  /-- The orientation of the sensors in the body, in radians. -/
  mountingAngles : EulerAngles Float32
  /-- Reports of the reference field per second; zero disables them. -/
  fieldRate : Float32

namespace Params

def default : Params where
  field := Estimator.defaultField
  fieldNoise := .replicate Estimator.defaultFieldNoise
  smoothRate := false
  rateWeight := Estimator.defaultWeight
  frequency := 0.0
  sender := none
  mountingAngles := ⟨0.0, 0.0, 0.0⟩
  fieldRate := 0.0

/-- The registered names and their default values. A flag is registered as an integer, and the
sender that accepts everyone as minus one. -/
def defaultEntries : List (String × ParameterValue) :=
  [ ("AHRS_H_X", .number default.field.x),
    ("AHRS_H_Y", .number default.field.y),
    ("AHRS_H_Z", .number default.field.z),
    ("AHRS_MAG_NOISE_X", .number default.fieldNoise.x),
    ("AHRS_MAG_NOISE_Y", .number default.fieldNoise.y),
    ("AHRS_MAG_NOISE_Z", .number default.fieldNoise.z),
    ("AHRS_RATE_LPF", .integer 0),
    ("AHRS_RATE_ALPHA", .number default.rateWeight),
    ("AHRS_PROP_FREQ", .number 0.0),
    ("AHRS_IMU_ID", .integer (-1)),
    ("AHRS_BODY_PHI", .number 0.0),
    ("AHRS_BODY_THETA", .number 0.0),
    ("AHRS_BODY_PSI", .number 0.0),
    ("AHRS_GEO_MAG_HZ", .number 0.0) ]

/-- Register entries one after the other up to the first refusal. What was registered before the
refusal stays. -/
def registerAll (s : ParameterStore) :
    List (String × ParameterValue) → ParameterStore × Except ParameterError Unit
  | [] => (s, .ok ())
  | (name, value) :: rest =>
    match s.register name value with
    | .error e => (s, .error e)
    | .ok s => registerAll s rest

/-- Register every parameter of the estimator with its default value. -/
def registerDefaults (s : ParameterStore) : ParameterStore × Except ParameterError Unit :=
  registerAll s defaultEntries

/-- The sender with a given number; a number that no sender can have stands for everyone. -/
def senderOfInteger (i : Int32) : Option UInt8 :=
  if 0 ≤ i.toInt ∧ i.toInt ≤ 255 then some (.ofNat i.toInt.toNat) else none

/-- Load the parameters. What is not registered takes its default. -/
def ofStore (s : ParameterStore) : Params where
  field :=
    ⟨s.getNumber "AHRS_H_X" default.field.x,
     s.getNumber "AHRS_H_Y" default.field.y,
     s.getNumber "AHRS_H_Z" default.field.z⟩
  fieldNoise :=
    ⟨s.getNumber "AHRS_MAG_NOISE_X" default.fieldNoise.x,
     s.getNumber "AHRS_MAG_NOISE_Y" default.fieldNoise.y,
     s.getNumber "AHRS_MAG_NOISE_Z" default.fieldNoise.z⟩
  smoothRate := s.getFlag "AHRS_RATE_LPF" default.smoothRate
  rateWeight := s.getNumber "AHRS_RATE_ALPHA" default.rateWeight
  frequency := s.getNumber "AHRS_PROP_FREQ" default.frequency
  sender := senderOfInteger (s.getInteger "AHRS_IMU_ID" (-1))
  mountingAngles :=
    ⟨s.getNumber "AHRS_BODY_PHI" default.mountingAngles.roll,
     s.getNumber "AHRS_BODY_THETA" default.mountingAngles.pitch,
     s.getNumber "AHRS_BODY_PSI" default.mountingAngles.yaw⟩
  fieldRate := s.getNumber "AHRS_GEO_MAG_HZ" default.fieldRate

/-- A field that is finite and does not vanish. -/
def isField (v : Vec3 Float32) : Bool := v.isFinite && !decide (v.norm ≤ 0.0)

/-- Variances that are finite and positive. -/
def isNoise (v : Vec3 Float32) : Bool := v.isFinite && v.toList.all fun n => !decide (n ≤ 0.0)

/-- A weight above zero and at most one. -/
def isWeight (x : Float32) : Bool := decide (0.0 < x) && decide (x ≤ 1.0)

/-- A frequency that is finite and not negative. -/
def isFrequency (x : Float32) : Bool := x.isFinite && !decide (x < 0.0)

/-- Every value is one that the estimator can use. The weight matters only if rates are blended. -/
def isUsable (p : Params) : Bool :=
  isField p.field && isNoise p.fieldNoise && (!p.smoothRate || isWeight p.rateWeight)
    && isFrequency p.frequency
    && allFinite [p.mountingAngles.roll, p.mountingAngles.pitch, p.mountingAngles.yaw]
    && isFrequency p.fieldRate

def validate (p : Params) : Except ParameterError Unit :=
  if p.isUsable then .ok () else .error .outOfRange

/-- The configuration of the estimator; process noise is not tunable. -/
def estimatorConfig (p : Params) : Estimator.Config Float32 :=
  { Estimator.Config.default with
    field := p.field
    fieldNoise := p.fieldNoise
    smoothing := if p.smoothRate then .lowPass p.rateWeight else .direct }

def mounting (p : Params) : Mounting Float32 := .ofEuler p.mountingAngles

/-- The fixed propagation frequency, if one is chosen. -/
def fixedFrequency? (p : Params) : Option Float32 :=
  if 0.0 < p.frequency then some p.frequency else none

end Params
end Attitude
