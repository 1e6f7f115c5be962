/-!
# The arctangent at binary32

A polynomial approximation that is accurate to about one unit in the last place and does not round
correctly, so its steps are part of its meaning. An argument beyond 7/16 is first reduced: the
arctangent of `x` is a tabulated angle, held as a high and a low part, plus the arctangent of a
quotient close to zero. The ranges of the reduction are told apart by the bits of the magnitude.

## Main definitions

* `Binary32.arctan`, the angle whose tangent is given
* `Binary32.arctan2`, the angle of a point of the plane
-/

namespace Attitude.Binary32

/-- The bits of the magnitude; larger magnitudes have larger bits. -/
def magnitudeBits (x : Float32) : UInt32 := x.toBits &&& 0x7fffffff

/-- The sign bit is set, also on a zero. -/
def signBit (x : Float32) : Bool := 0x80000000 ≤ x.toBits

/-- The value with the sign reversed when `negative` holds. -/
def withSign (negative : Bool) (x : Float32) : Float32 := if negative then -x else x

/-- The number nearest to π. -/
def pi : Float32 := .ofBits 0x40490fdb

/-- What `pi` lacks of π. -/
def piRest : Float32 := .ofBits 0xb3bbbd2e

/-- A reduced argument: the angle sought is `high + low` and the arctangent of `argument`. -/
structure Reduction where
  argument : Float32
  high : Float32
  low : Float32

/-- The reduction of a magnitude of at least 7/16. -/
def Reduction.ofMagnitude (a : Float32) : Reduction :=
  let bits := magnitudeBits a
  if bits < 0x3f300000 then
    ⟨(2.0 * a - 1.0) / (2.0 + a), .ofBits 0x3eed6338, .ofBits 0x31ac3769⟩
  else if bits < 0x3f980000 then
    ⟨(a - 1.0) / (a + 1.0), .ofBits 0x3f490fda, .ofBits 0x33222168⟩
  else if bits < 0x401c0000 then
    ⟨(a - 1.5) / (1.0 + 1.5 * a), .ofBits 0x3f7b985e, .ofBits 0x33140fb4⟩
  else
    ⟨-1.0 / a, .ofBits 0x3fc90fda, .ofBits 0x33a22168⟩

/-- What the arctangent of `x` loses against `x`, divided by `x`, for a small `x`. The odd and the
even terms of the polynomial are summed apart. -/
def arctanLoss (x : Float32) : Float32 :=
  let z := x * x
  let w := z * z
  let odd := z * (3.3333328366e-01 + w * (1.4253635705e-01 + w * 6.1687607318e-02))
  let even := w * (-1.9999158382e-01 + w * -1.0648017377e-01)
  odd + even

/-- The angle whose tangent is `x`. -/
def arctan (x : Float32) : Float32 :=
  let bits := magnitudeBits x
  if 0x4c800000 ≤ bits then
    if x.isNaN then x else withSign (signBit x) (.ofBits 0x3fc90fda)
  else if bits < 0x39800000 then x
  else if bits < 0x3ee00000 then x - x * arctanLoss x
  else
    let r := Reduction.ofMagnitude x.abs
    withSign (signBit x) (r.high - ((r.argument * arctanLoss r.argument - r.low) - r.argument))

/-- The quotient of two magnitudes exceeds `2 ^ 26`, judged by their exponents. -/
def farExceeds (a b : Float32) : Bool := magnitudeBits b + 0x0d000000 < magnitudeBits a

/-- The angle of the point with ordinate `y` and abscissa `x`, in the half-open turn around zero.
A point on an axis keeps the sign of its zero. -/
def arctan2 (y x : Float32) : Float32 :=
  let west := signBit x
  let south := signBit y
  if x.isNaN || y.isNaN then x + y
  else if x == 1.0 then arctan y
  else if magnitudeBits y == 0 then
    if west then withSign south pi else y
  else if magnitudeBits x == 0 then withSign south (pi / 2.0)
  else if magnitudeBits x == 0x7f800000 then
    let angle :=
      if magnitudeBits y == 0x7f800000 then
        if west then 3.0 * pi / 4.0 else pi / 4.0
      else if west then pi
      else 0.0
    withSign south angle
  else if farExceeds y x || magnitudeBits y == 0x7f800000 then withSign south (pi / 2.0)
  else
    let angle := if west && farExceeds x y then 0.0 else arctan (y / x).abs
    match west, south with
    | false, _ => withSign south angle
    | true, false => pi - (angle - piRest)
    | true, true => (angle - piRest) - pi

end Attitude.Binary32
