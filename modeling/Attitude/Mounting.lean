import Attitude.Quat.Rotation

/-!
# Mounting of the sensors in the vehicle

The estimator follows the sensors; pilots and controllers ask for the vehicle. A mounting is the
fixed rotation between the two, kept as a quaternion, which composes attitudes, and as a matrix,
which maps rates.
-/

namespace Attitude
variable {α : Type} [Scalar α]

/-- Attitude and rates of the vehicle body. -/
@[ext] structure Body (α : Type) where
  /-- The rotation from the local frame to the body. -/
  attitude : Quat α
  /-- Angular rates about the axes of the body, in radians per second. -/
  rates : Vec3 α

/-- Level, facing north and at rest. -/
def Body.level : Body α := ⟨.identity, .zero⟩

/-- A fixed rotation from the vehicle body to the sensors. -/
@[ext] structure Mounting (α : Type) where
  /-- The rotation from the body frame to the frame of the sensors. -/
  quat : Quat α
  /-- The matrix that maps body components to components along the sensors' axes. -/
  mat : Mat 3 3 α

namespace Mounting

/-- Sensors whose axes are those of the body. -/
def aligned : Mounting α := ⟨.identity, .identity⟩

def ofQuat (q : Quat α) : Mounting α := ⟨q, q.conj.toMat⟩

def ofEuler (e : EulerAngles α) : Mounting α := ofQuat (.ofEuler e)

/-- The body that carries sensors with the given attitude and rates. -/
def project (m : Mounting α) (attitude : Quat α) (rates : Vec3 α) : Body α :=
  { attitude := attitude * m.quat.conj
    rates := (m.mat.transpose * Mat.column rates).toVec3 }

end Mounting
end Attitude
