import Attitude.Binary32.Arcsine

/-!
# Sine and cosine at binary32

Within an eighth of a turn around zero both are polynomials, evaluated in double precision and
rounded once. They are accurate to about `2 ^ (-34)`, so a result is nearly always the nearest
number, but not always: the steps are part of the meaning.

Any other argument is first reduced by quarter turns. Up to four of them are taken off at once. Up
to `2 ^ 28` of them are counted in double precision, and taken off in two parts. Beyond that a
double has no digits left for the rest, and the argument is multiplied by as many digits of `2 / π`
as its fraction needs.

## Main definitions

* `Binary32.QuarterTurns`, an argument by its quarter turns and the rest
* `Binary32.sin`, `Binary32.cos`
-/

namespace Attitude.Binary32

/-! ## The eighth of a turn around zero -/

/-- The sine of a reduced argument. -/
def reducedSin (x : Float) : Float32 :=
  let z := x * x
  let w := z * z
  let high := -0.000198393348360966317347 + z * 0.0000027183114939898219064
  let s := z * x
  ((x + s * (-0.166666666416265235595 + z * 0.0083333293858894631756)) + s * w * high).toFloat32

/-- The cosine of a reduced argument. -/
def reducedCos (x : Float) : Float32 :=
  let z := x * x
  let w := z * z
  let high := -0.00138867637746099294692 + z * 0.0000243904487962774090654
  (((1.0 + z * -0.499999997251031003120) + w * 0.0416666233237390631894) + (w * z) * high).toFloat32

/-! ## Reduction by quarter turns -/

/-- An angle as a number of quarter turns, up to whole turns, and a rest. -/
structure QuarterTurns where
  number : Nat
  rest : Float

/-- The opposite angle. -/
def QuarterTurns.neg (q : QuarterTurns) : QuarterTurns := ⟨3 * q.number, -q.rest⟩

/-- Take off the nearest number of quarter turns, which is less than `2 ^ 28`. Adding `3 * 2 ^ 51`
rounds to an integer, and leaves its last bits in the last bits of the sum. -/
def QuarterTurns.ofModerate (x : Float) : QuarterTurns :=
  let shift : Float := 6755399441055744.0
  let shifted := x * 0.636619772367581382433 + shift
  let number := shifted - shift
  { number := (shifted.toBits &&& 3).toNat
    rest := x - number * 1.57079631090164184570 - number * 1.58932547735281966916e-8 }

/-- The first 480 bits of `2 / π` behind the binary point. -/
def twoOverPi : Nat :=
  0xa2f9836e4e441529fc2757d1f534ddc0db6295993c439041fe5163abdebb <<< 240 +
  0xc561b7246e3a424dd2e006492eea09d1921cfe1deb1cb129a73ee88235f5

/-- The last bits of a number. -/
def lastBits (n bits : Nat) : Nat := n % (1 <<< bits)

/-- The digits of `2 / π` to the base `2 ^ 24`, from the one at `first` to the one at `last`. -/
def twoOverPiDigits (first last : Nat) : Nat :=
  lastBits (twoOverPi >>> (24 * (19 - last))) (24 * (last + 1 - first))

/-- A quarter turn in four parts of 24 bits each. -/
def quarterTurnParts : List Float :=
  [1.57079625129699707031, 7.54978941586159635335e-8, 5.39030252995776476554e-15,
    3.28200341580791294123e-22]

/-- The power of two with an exponent that is neither very large nor very small. -/
def powerOfTwo (e : Int) : Float := .ofBits ((e + 1023).toNat.toUInt64 <<< 52)

/-- The part `fraction / 2 ^ bits` of a quarter turn. The digits of the fraction to the base
`2 ^ 24` are multiplied with the parts of the turn; what belongs to one power of the base is added
up first, and the powers from the smallest one on. -/
def partOfQuarterTurn (fraction bits : Nat) : Float :=
  let leading := (List.range (fraction.log2 / 24 + 1)).reverse.map fun i =>
    (lastBits (fraction >>> (24 * i)) 24).toUInt64.toFloat * powerOfTwo ((24 * i : Nat) - bits)
  let terms := (List.range leading.length).map fun i =>
    (List.zipWith (· * ·) quarterTurnParts (leading.take (i + 1)).reverse).foldl (· + ·) 0.0
  terms.foldr (fun term sum => sum + term) 0.0

/-- Take off the nearest number of quarter turns of `mantissa * 2 ^ exponent`, with `count` digits
of `2 / π` behind the first one that matters. When the fraction begins with too many zeros, the
computation is repeated with more digits. -/
def QuarterTurns.ofLarge (mantissa exponent attempts count : Nat) : QuarterTurns :=
  let first := (exponent - 3) / 24
  let bits := 24 * (first + count + 1) - exponent
  let product := mantissa * twoOverPiDigits first (first + count)
  let whole := product >>> bits
  let fraction := lastBits product bits
  let beyond := decide (1 <<< (bits - 1) ≤ fraction)
  let rest := if beyond then (1 <<< bits) - fraction else fraction
  let turns : QuarterTurns :=
    if beyond then ⟨whole + 1, -partOfQuarterTurn rest bits⟩
    else ⟨whole, partOfQuarterTurn rest bits⟩
  match attempts with
  | 0 => turns
  | attempts + 1 =>
    if rest < 1 <<< 72 then ofLarge mantissa exponent attempts (count + 3 - rest.log2 / 24)
    else turns

/-- The quarter turns of a finite number. -/
def QuarterTurns.of (x : Float32) : QuarterTurns :=
  let bits := magnitudeBits x
  let few (n : Nat) : QuarterTurns :=
    let turns := n.toUInt64.toFloat * quarterTurnDouble
    if signBit x then ⟨4 - n, x.toFloat + turns⟩ else ⟨n, x.toFloat - turns⟩
  if bits ≤ 0x3f490fda then ⟨0, x.toFloat⟩
  else if bits ≤ 0x4016cbe3 then few 1
  else if bits ≤ 0x407b53d1 then few 2
  else if bits ≤ 0x40afeddf then few 3
  else if bits ≤ 0x40e231d5 then few 4
  else if bits < 0x4dc90fdb then .ofModerate x.toFloat
  else
    let mantissa := (bits &&& 0x007fffff ||| 0x00800000).toNat
    let turns := ofLarge mantissa ((bits >>> 23).toNat - 150) 2 3
    if signBit x then turns.neg else turns

/-! ## Sine and cosine -/

/-- The sine of an angle in radians. A magnitude below `2 ^ (-12)` is its own sine. -/
def sin (x : Float32) : Float32 :=
  let bits := magnitudeBits x
  if bits < 0x39800000 then x
  else if 0x7f800000 ≤ bits then x - x
  else
    let turns := QuarterTurns.of x
    match turns.number % 4 with
    | 0 => reducedSin turns.rest
    | 1 => reducedCos turns.rest
    | 2 => reducedSin (-turns.rest)
    | _ => -reducedCos turns.rest

/-- The cosine of an angle in radians. That of a magnitude below `2 ^ (-12)` is one. -/
def cos (x : Float32) : Float32 :=
  let bits := magnitudeBits x
  if bits < 0x39800000 then 1.0
  else if 0x7f800000 ≤ bits then x - x
  else
    let turns := QuarterTurns.of x
    match turns.number % 4 with
    | 0 => reducedCos turns.rest
    | 1 => reducedSin (-turns.rest)
    | 2 => -reducedCos turns.rest
    | _ => reducedSin turns.rest

end Attitude.Binary32
