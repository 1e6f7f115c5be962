import Attitude.Quat.Rotation

/-!
# Attitude from two directions

A vehicle at rest measures gravity and the magnetic field in the frame of its sensors. Both are
known in the local frame whose axes point north, east and down, so the attitude is the rotation
that matches the measured pair to the known one. Gravity is the primary direction and is matched
exactly; the field only fixes the heading.

## Main definitions

* `Readings`: averaged measurements of the three sensors
* `triad?`: the orthonormal frame of a primary and a secondary direction
* `attitudeOf?`: the rotation from the local frame to the sensors
-/

namespace Attitude
variable {α : Type} [Scalar α]

/-- Averaged measurements of a vehicle at rest, in the frame of the sensors. -/
@[ext] structure Readings (α : Type) where
  /-- Angular rate in radians per second. -/
  gyro : Vec3 α
  /-- Specific force in metres per second squared. -/
  accel : Vec3 α
  /-- Magnetic field, in the units of the reference field. -/
  mag : Vec3 α

/-- The magnitude of gravity in metres per second squared. -/
def gravity : α := 9.81

/-- The specific force on a vehicle at rest, in the local frame: it points up. -/
def gravityReference : Vec3 α := ⟨0.0, 0.0, -gravity⟩

/-- A vector with a norm of at most this has no usable direction. -/
def leastDirection : α := 1e-6

/-- The orthonormal frame of two directions, as columns: the primary direction, the normal of both,
and the product of these two. There is none when the primary direction or the normal vanishes. -/
def triad? (primary secondary : Vec3 α) : Option (Mat 3 3 α) := do
  let first ← primary.direction? leastDirection
  let second ← (first.cross secondary).direction? leastDirection
  return Mat.ofColumns first second (first.cross second)

/-- The rotation from the local frame to the sensors that explains a measured specific force and a
measured field, where `reference` is the field in the local frame. Vectors that are not finite, and
pairs that leave the heading open, have none. -/
def attitudeOf? (accel mag reference : Vec3 α) : Option (Quat α) :=
  if accel.isFinite && mag.isFinite && reference.isFinite then do
    let known ← triad? gravityReference reference
    let measured ← triad? accel mag
    return Quat.ofMat (known.mulTranspose measured)
  else none

end Attitude
