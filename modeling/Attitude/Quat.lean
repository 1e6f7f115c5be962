import Attitude.Vec3

/-!
# Quaternions

A rotation from one frame to another is a quaternion of norm one, scalar part first. The product
composes rotations, and the conjugate is the inverse of a rotation. No operation here normalizes
its result except `Quat.normalize`, so a quaternion that has drifted off the unit sphere stays
visible.

## Main definitions

* `Quat`, its product, `Quat.conj`, `Quat.norm` and `Quat.normalize`
* `Quat.toFrame`: a vector of the first frame, seen from the second
* `Quat.ofRotationVector`, `Quat.ofEuler`
-/

namespace Attitude

/-- A quaternion by its scalar part and its three vector parts. -/
@[ext] structure Quat (α : Type) where
  w : α
  i : α
  j : α
  k : α

/-- Angles of successive rotations about the axes: yaw about `z`, then pitch about `y`, then roll
about `x`. -/
@[ext] structure EulerAngles (α : Type) where
  roll : α
  pitch : α
  yaw : α

namespace Quat
variable {α : Type} [Scalar α]

def identity : Quat α := ⟨1.0, 0.0, 0.0, 0.0⟩

instance : Mul (Quat α) :=
  ⟨fun a b =>
    { w := a.w * b.w - a.i * b.i - a.j * b.j - a.k * b.k
      i := a.w * b.i + a.i * b.w + a.j * b.k - a.k * b.j
      j := a.w * b.j - a.i * b.k + a.j * b.w + a.k * b.i
      k := a.w * b.k + a.i * b.j - a.j * b.i + a.k * b.w }⟩

@[simp] theorem w_mul (a b : Quat α) :
    (a * b).w = a.w * b.w - a.i * b.i - a.j * b.j - a.k * b.k := rfl
@[simp] theorem i_mul (a b : Quat α) :
    (a * b).i = a.w * b.i + a.i * b.w + a.j * b.k - a.k * b.j := rfl
@[simp] theorem j_mul (a b : Quat α) :
    (a * b).j = a.w * b.j - a.i * b.k + a.j * b.w + a.k * b.i := rfl
@[simp] theorem k_mul (a b : Quat α) :
    (a * b).k = a.w * b.k + a.i * b.j - a.j * b.i + a.k * b.w := rfl

/-- The conjugate, which undoes a rotation. -/
def conj (q : Quat α) : Quat α := ⟨q.w, -q.i, -q.j, -q.k⟩

@[simp] theorem w_conj (q : Quat α) : q.conj.w = q.w := rfl
@[simp] theorem i_conj (q : Quat α) : q.conj.i = -q.i := rfl
@[simp] theorem j_conj (q : Quat α) : q.conj.j = -q.j := rfl
@[simp] theorem k_conj (q : Quat α) : q.conj.k = -q.k := rfl

/-- The vector part. -/
def vec (q : Quat α) : Vec3 α := ⟨q.i, q.j, q.k⟩

/-- The components, scalar part first. -/
def toList (q : Quat α) : List α := [q.w, q.i, q.j, q.k]

/-- Every component is finite. -/
def isFinite (q : Quat α) : Bool := allFinite q.toList

/-- The sum of the squared components, in two pairs: the first and third vector parts, then the
second and the scalar part. -/
def normSq (q : Quat α) : α := (q.i * q.i + q.k * q.k) + (q.j * q.j + q.w * q.w)

def norm (q : Quat α) : α := Scalar.sqrt q.normSq

instance : HDiv (Quat α) α (Quat α) := ⟨fun q a => ⟨q.w / a, q.i / a, q.j / a, q.k / a⟩⟩

/-- The quaternion divided by its norm, whatever the norm is. -/
def normalize (q : Quat α) : Quat α := q / q.norm

/-- A vector of the frame that `q` leads from, seen from the frame that `q` leads to: the vector
turned by the inverse rotation. -/
def toFrame (q : Quat α) (v : Vec3 α) : Vec3 α :=
  let u := q.conj.vec
  let t := u.cross v * (2.0 : α)
  (t * q.w + u.cross t) + v

/-- The rotation by the norm of `v` about its direction. A vector whose squared half is at most
`2 ^ (-46)` gives no rotation, since its direction carries no information. -/
def ofRotationVector (v : Vec3 α) : Quat α :=
  let u := v / (2.0 : α)
  let least : α := 1.1920928955078125e-7
  if u.normSq ≤ least * least then identity
  else
    let n := u.norm
    let axis := u * (Scalar.sin n / n)
    ⟨Scalar.cos n, axis.x, axis.y, axis.z⟩

/-- The rotation with the given Euler angles. -/
def ofEuler (e : EulerAngles α) : Quat α :=
  let sr := Scalar.sin (e.roll * 0.5)
  let cr := Scalar.cos (e.roll * 0.5)
  let sp := Scalar.sin (e.pitch * 0.5)
  let cp := Scalar.cos (e.pitch * 0.5)
  let sy := Scalar.sin (e.yaw * 0.5)
  let cy := Scalar.cos (e.yaw * 0.5)
  { w := cr * cp * cy + sr * sp * sy
    i := sr * cp * cy - cr * sp * sy
    j := cr * sp * cy + sr * cp * sy
    k := cr * cp * sy - sr * sp * cy }

end Quat
end Attitude
