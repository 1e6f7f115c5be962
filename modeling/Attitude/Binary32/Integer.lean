/-!
# Signed integers and binary32

The two conversions between 32-bit integers and binary32 numbers. Toward an integer the fraction is
dropped and a value out of range is held at the nearer end; what is not a number becomes zero.
-/

namespace Attitude.Binary32

/-- The number nearest to an integer. -/
def ofInt32 (i : Int32) : Float32 := .ofInt i.toInt

/-- The integer part of a number, held within the range of 32-bit integers. -/
def toInt32 (x : Float32) : Int32 :=
  if x < 0.0 then
    .ofInt (-(Nat.min (-x).toUInt64.toNat 0x80000000))
  else
    .ofInt (Nat.min x.toUInt64.toNat 0x7fffffff)

end Attitude.Binary32
