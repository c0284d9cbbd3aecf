import CurveCalc.Number.Remainder

/-!
The gamma function by Lanczos' sum, with the reflection formula for negative arguments.
-/

set_option autoImplicit false
set_option relaxedAutoImplicit false

namespace CurveCalc.Number

namespace Gamma

def g : Float := 6.024680040776729583740234375
def gMinusHalf : Float := 5.524680040776729583740234375
def pi : Float := Float.ofBits 0x400921FB54442D18

/-- Coefficients of the numerator and the denominator of the sum, the constant ones first. -/
def coefficients : List (Float × Float) :=
  [(23531376880.410759688572007674451636754734846804940, 0.0),
    (42919803642.649098768957899047001988850926355848959, 39916800.0),
    (35711959237.355668049440185451547166705960488635843, 120543840.0),
    (17921034426.037209699919755754458931112671403265390, 150917976.0),
    (6039542586.3520280050642916443072979210699388420708, 105258076.0),
    (1439720407.3117216736632230727949123939715485786372, 45995730.0),
    (248874557.86205415651146038641322942321632125127801, 13339535.0),
    (31426415.585400194380614231628318205362874684987640, 2637558.0),
    (2876370.6289353724412254090516208496135991145378768, 357423.0),
    (186056.26539522349504029498971604569928220784236328, 32670.0),
    (8071.6720023658162106380029022722506138218516325024, 1925.0),
    (210.82427775157934587250973392071336271166969580291, 66.0),
    (2.5066282746310002701649081771338373386264310793408, 1.0)]

/-- The quotient of the two polynomials, evaluated from the end at which the terms are small. -/
def lanczosSum (x : Float) : Float :=
  let sums :=
    if x < 5.0 then
      coefficients.foldr (fun c s ↦ (s.1 * x + c.1, s.2 * x + c.2)) (0.0, 0.0)
    else
      coefficients.foldl (fun s c ↦ (s.1 / x + c.1, s.2 / x + c.2)) (0.0, 0.0)
  sums.1 / sums.2

/-- The sine of `pi * x`, reduced so that the argument of the sine or cosine is at most a
quarter turn. -/
def sinPi (x : Float) : Float :=
  let y := remainder x.abs 2.0
  let half := (2.0 * y).round
  let r :=
    if half == 0.0 then (pi * y).sin
    else if half == 1.0 then (pi * (y - 0.5)).cos
    else if half == 2.0 then (pi * (1.0 - y)).sin
    else if half == 3.0 then -(pi * (y - 1.5)).cos
    else (pi * (y - 2.0)).sin
  (if x.toBits >>> 63 == 1 then -1.0 else 1.0) * r

/-- `1 * 2 * … * n`. -/
def factorialOf : Nat → Nat
  | 0 => 1
  | n + 1 => (n + 1) * factorialOf n

/-- What rounding has lost in `ax + gMinusHalf`, scaled for the correction of the result. -/
def lostPart (ax y : Float) : Float :=
  let z :=
    if ax > gMinusHalf then
      let q := y - ax
      q - gMinusHalf
    else
      let q := y - gMinusHalf
      q - ax
  z * g / y

/-- The function at a number that is no integer and neither too small nor too large. -/
def general (x : Float) : Float :=
  let ax := x.abs
  let y := ax + gMinusHalf
  let z := lostPart ax y
  if x < 0.0 then
    let r := -pi / sinPi ax / ax * y.exp / lanczosSum ax
    let r := r - z * r
    if ax < 140.0 then r / y.pow (ax - 0.5)
    else
      let s := y.pow (ax / 2.0 - 0.25)
      r / s / s
  else
    let r := lanczosSum ax / y.exp
    let r := r + z * r
    if ax < 140.0 then r * y.pow (ax - 0.5)
    else
      let s := y.pow (ax / 2.0 - 0.25)
      r * s * s

end Gamma

/-- The gamma function; no number at its poles, and infinite wherever a result is too large. -/
def gamma (x : Float) : Float :=
  let infinity : Float := 1.0 / 0.0
  let none : Float := 0.0 / 0.0
  let bounded := fun r : Float ↦ if r.isInf then infinity else r
  if x.isNaN then x
  else if x.isInf then if x < 0.0 then none else x
  else if x == x.floor ∧ x ≤ 0.0 then none
  else if x == x.floor ∧ x ≤ 23.0 then Float.ofNat (Gamma.factorialOf (x.toUInt64.toNat - 1))
  else if x.abs < 1.0e-20 then bounded (1.0 / x)
  else if x.abs > 200.0 then if x < 0.0 then 0.0 / Gamma.sinPi x else infinity
  else bounded (Gamma.general x)

end CurveCalc.Number
