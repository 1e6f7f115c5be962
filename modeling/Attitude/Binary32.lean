import Attitude.Scalar
import Attitude.Binary32.Sine

/-!
# Binary32 as the running scalar

Every operation of binary32 arithmetic rounds to nearest, a tie to even, and keeps subnormal
numbers; `Float32` has these in the logic. The trigonometric functions are fixed approximations,
given step by step. Conversions to a word drop the fraction and hold the value in range, and send
what is not a number to zero.
-/

namespace Attitude

instance : Scalar Float32 where
  decidableLT := Float32.decLt
  decidableLE := Float32.decLe
  abs := Float32.abs
  sqrt := Float32.sqrt
  sin := Binary32.sin
  cos := Binary32.cos
  arcsin := Binary32.arcsin
  arctan2 := Binary32.arctan2
  quarterTurn := Binary32.pi / 2.0
  isFinite := Float32.isFinite
  ofWord := UInt64.toFloat32
  toWord := Float32.toUInt64

end Attitude
