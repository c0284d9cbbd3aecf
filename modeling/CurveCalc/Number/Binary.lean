/-!
The exact value of a double: a sign and a natural number times a power of two, or one of the
values that are no number on the line.
-/

set_option autoImplicit false
set_option relaxedAutoImplicit false

namespace CurveCalc.Number

/-- What a double stands for; a finite one is `significand * 2 ^ exponent` with its sign. -/
inductive Binary where
  | nan
  | infinite (negative : Bool)
  | finite (negative : Bool) (significand : Nat) (exponent : Int)
  deriving DecidableEq

def Binary.ofFloat (x : Float) : Binary :=
  let bits := x.toBits.toNat
  let negative := bits / Nat.pow 2 63 == 1
  let biased : Nat := bits / Nat.pow 2 52 % Nat.pow 2 11
  let fraction : Nat := bits % Nat.pow 2 52
  if biased = 2047 then
    if fraction = 0 then .infinite negative else .nan
  else if biased = 0 then .finite negative fraction (-1074)
  else .finite negative (Nat.pow 2 52 + fraction) ((biased : Int) - 1075)

/-- Numerator and denominator of a magnitude `significand * 2 ^ exponent`. -/
def ratio (significand : Nat) (exponent : Int) : Nat × Nat :=
  (significand * Nat.pow 2 exponent.toNat, Nat.pow 2 (-exponent).toNat)

/-- The quotient rounded to the nearest whole number, a half to the even neighbour. -/
def divideHalfEven (numerator denominator : Nat) : Nat :=
  let whole := numerator / denominator
  let twice := 2 * (numerator % denominator)
  if twice < denominator then whole
  else if denominator < twice then whole + 1
  else whole + whole % 2

/-- The whole number a magnitude is at or just above. -/
def wholePart (significand : Nat) (exponent : Int) : Nat :=
  let r := ratio significand exponent
  r.1 / r.2

end CurveCalc.Number
