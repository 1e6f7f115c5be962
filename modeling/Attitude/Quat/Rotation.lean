import Attitude.Quat
import Attitude.Mat

/-!
# Rotation matrices and Euler angles of quaternions

`Quat.toMat` writes a rotation as a matrix and `Quat.ofMat` reads it back. Reading divides by four
times the largest-looking component of the quaternion, chosen by the trace and the diagonal, so
that no rotation meets a vanishing divisor.
-/

namespace Attitude
namespace Quat
variable {α : Type} [Scalar α]

/-- The matrix of a rotation; its product with a column turns the vector. -/
def toMat (q : Quat α) : Mat 3 3 α :=
  let ww := q.w * q.w
  let ii := q.i * q.i
  let jj := q.j * q.j
  let kk := q.k * q.k
  let ij := q.i * q.j * 2.0
  let wk := q.w * q.k * 2.0
  let wj := q.w * q.j * 2.0
  let ik := q.i * q.k * 2.0
  let jk := q.j * q.k * 2.0
  let wi := q.w * q.i * 2.0
  Mat.ofRows
    ⟨ww + ii - jj - kk, ij - wk, wj + ik⟩
    ⟨wk + ij, ww - ii + jj - kk, jk - wi⟩
    ⟨ik - wj, wi + jk, ww - ii - jj + kk⟩

/-- The quaternion of a rotation matrix. With a positive trace the scalar part leads; otherwise
the vector part whose diagonal entry is the largest. -/
def ofMat (m : Mat 3 3 α) : Quat α :=
  let trace := m.xx + m.yy + m.zz
  if 0.0 < trace then
    let d := Scalar.sqrt (trace + 1.0) * 2.0
    ⟨0.25 * d, (m.zy - m.yz) / d, (m.xz - m.zx) / d, (m.yx - m.xy) / d⟩
  else if m.yy < m.xx ∧ m.zz < m.xx then
    let d := Scalar.sqrt (1.0 + m.xx - m.yy - m.zz) * 2.0
    ⟨(m.zy - m.yz) / d, 0.25 * d, (m.xy + m.yx) / d, (m.xz + m.zx) / d⟩
  else if m.zz < m.yy then
    let d := Scalar.sqrt (1.0 + m.yy - m.xx - m.zz) * 2.0
    ⟨(m.xz - m.zx) / d, (m.xy + m.yx) / d, 0.25 * d, (m.yz + m.zy) / d⟩
  else
    let d := Scalar.sqrt (1.0 + m.zz - m.xx - m.yy) * 2.0
    ⟨(m.yx - m.xy) / d, (m.xz + m.zx) / d, (m.yz + m.zy) / d, 0.25 * d⟩

/-- The Euler angles of a rotation. When the nose points straight up or down, roll and yaw turn
about one axis; the whole turn is then reported as roll. -/
def euler (q : Quat α) : EulerAngles α :=
  let m := q.toMat
  if Scalar.abs m.zx < 1.0 then
    let pitch := -Scalar.arcsin m.zx
    let c := Scalar.cos pitch
    { roll := Scalar.arctan2 (m.zy / c) (m.zz / c)
      pitch := pitch
      yaw := Scalar.arctan2 (m.yx / c) (m.xx / c) }
  else if m.zx ≤ -1.0 then
    ⟨Scalar.arctan2 m.xy m.xz, Scalar.quarterTurn, 0.0⟩
  else
    ⟨-Scalar.arctan2 m.xy (-m.xz), -Scalar.quarterTurn, 0.0⟩

end Quat
end Attitude
