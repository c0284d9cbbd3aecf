import CurveCalc.Number.Binary

/-!
The remainder of a division that truncates, computed on the exact values.
-/

set_option autoImplicit false
set_option relaxedAutoImplicit false

namespace CurveCalc.Number

/-- The double `significand * 2 ^ exponent`, for a magnitude that is one: digits that do not fit are
zeros and are shifted out. -/
def ofMagnitude (significand : Nat) (exponent : Int) : Float :=
  if significand = 0 then 0.0
  else
    let size : Int := Nat.log2 significand + 1
    -- the least exponent with a significand of at most 53 binary digits
    let target : Int := max (-1074) (exponent + size - 53)
    let shift := target - exponent
    let aligned := significand * Nat.pow 2 (-shift).toNat / Nat.pow 2 shift.toNat
    let bits :=
      if aligned < Nat.pow 2 52 then aligned
      else (target + 1075).toNat * Nat.pow 2 52 + (aligned - Nat.pow 2 52)
    Float.ofBits (UInt64.ofNat bits)

/-- `significand * 2 ^ exponent` counted in units of `2 ^ unit`, for a unit no larger than its
own. -/
def inUnits (significand : Nat) (exponent unit : Int) : Nat :=
  significand * Nat.pow 2 (exponent - unit).toNat

/-- What is left of `x` once `y` has been taken from it as often as it goes in; it has the sign of
`x`. -/
def remainder (x y : Float) : Float :=
  match Binary.ofFloat x, Binary.ofFloat y with
  | .finite negative m e, .finite _ n f =>
    if n = 0 then 0.0 / 0.0
    else
      let unit := min e f
      let left := ofMagnitude (inUnits m e unit % inUnits n f unit) unit
      if negative then -left else left
  | .finite _ _ _, .infinite _ => x
  | _, _ => 0.0 / 0.0

end CurveCalc.Number
