import Attitude.Mat

/-!
# The inverse of a three-dimensional matrix

The transposed cofactors scaled by the inverse of the determinant, which is expanded along the
first row. A determinant that is not finite, or too small to be trusted, gives no inverse.
-/

namespace Attitude
namespace Mat
variable {α : Type} [Scalar α]

/-- The least magnitude of a determinant that is inverted. -/
def leastDet : α := 1e-9

/-- The cofactors, each at the place of its entry. -/
def cofactors (m : Mat 3 3 α) : Mat 3 3 α :=
  ofRows
    ⟨m.yy * m.zz - m.yz * m.zy, m.yz * m.zx - m.yx * m.zz, m.yx * m.zy - m.yy * m.zx⟩
    ⟨m.xz * m.zy - m.xy * m.zz, m.xx * m.zz - m.xz * m.zx, m.xy * m.zx - m.xx * m.zy⟩
    ⟨m.xy * m.yz - m.xz * m.yy, m.xz * m.yx - m.xx * m.yz, m.xx * m.yy - m.xy * m.yx⟩

/-- The determinant, by the cofactors of the first row. -/
def det (m : Mat 3 3 α) : α :=
  m.xx * (m.yy * m.zz - m.yz * m.zy) + m.xy * (m.yz * m.zx - m.yx * m.zz)
    + m.xz * (m.yx * m.zy - m.yy * m.zx)

/-- The inverse, unless the determinant is not finite or smaller than `leastDet`. -/
def inverse? (m : Mat 3 3 α) : Option (Mat 3 3 α) :=
  if !Scalar.isFinite m.det || decide (Scalar.abs m.det < leastDet) then none
  else some (m.cofactors.transpose * (1.0 / m.det))

end Mat
end Attitude
