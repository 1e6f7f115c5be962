import Attitude.Binary32.Arctangent

/-!
# The arcsine at binary32

A rational approximation of the quotient of `arcsin x - x` by `x`, taken directly for a magnitude
below one half. From one half on, the half-angle identity moves the argument back below it; its
square root and the final difference are computed in double precision and rounded once.
-/

namespace Attitude.Binary32

/-- The relative excess of the arcsine of `x` over `x`, as a function of the square of `x`. -/
def arcsinExcess (z : Float32) : Float32 :=
  (z * (1.6666586697e-01 + z * (-4.2743422091e-02 + z * -8.6563630030e-03)))
    / (1.0 + z * -7.0662963390e-01)

/-- A quarter turn in double precision. -/
def quarterTurnDouble : Float := 1.570796326794896558

/-- The angle whose sine is `x`, undefined outside the interval from `-1` to `1`. A magnitude that
is tiny and yet normal is its own arcsine. -/
def arcsin (x : Float32) : Float32 :=
  let bits := magnitudeBits x
  if bits == 0x3f800000 then (x.toFloat * quarterTurnDouble).toFloat32
  else if 0x3f800000 < bits then 0.0 / (x - x)
  else if bits < 0x3f000000 then
    if 0x00800000 ≤ bits && bits < 0x39800000 then x else x + x * arcsinExcess (x * x)
  else
    let z := (1.0 - x.abs) * 0.5
    let root := z.toFloat.sqrt
    withSign (signBit x)
      (quarterTurnDouble - 2.0 * (root + root * (arcsinExcess z).toFloat)).toFloat32

end Attitude.Binary32
