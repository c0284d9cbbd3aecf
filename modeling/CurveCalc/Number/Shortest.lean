import CurveCalc.Number.Binary

/-!
The fewest decimal digits that read back as a given double. All reals between the midpoints to the
neighbouring doubles read back as it; the midpoints themselves do when its significand is even. A
grid of decimals with a given number of digits is tried at the two grid points around the value,
from one digit upwards, and of two hits the nearer one is taken.
-/

set_option autoImplicit false
set_option relaxedAutoImplicit false

namespace CurveCalc.Number

/-- The reals that read back as one double, in quarters of its last place: `value`, with the bounds
`low` and `high`, all over `unit`. -/
structure RoundingInterval where
  low : Nat
  value : Nat
  high : Nat
  unit : Nat
  closed : Bool

/-- The gap below a power of two is half as wide as the one above it. -/
def RoundingInterval.of (significand : Nat) (exponent : Int) : RoundingInterval :=
  let scale := Nat.pow 2 exponent.toNat
  let below := if significand = Nat.pow 2 52 ∧ -1074 < exponent then 1 else 2
  { low := (4 * significand - below) * scale
    value := 4 * significand * scale
    high := (4 * significand + 2) * scale
    unit := 4 * Nat.pow 2 (-exponent).toNat
    closed := significand % 2 = 0 }

/-- Whether `numerator / denominator` reads back as the double. -/
def RoundingInterval.holds (i : RoundingInterval) (numerator denominator : Nat) : Bool :=
  let x := numerator * i.unit
  let low := i.low * denominator
  let high := i.high * denominator
  if i.closed then low ≤ x && x ≤ high else low < x && x < high

def digitCount (n : Nat) : Nat := (Nat.toDigits 10 n).length

/-- The exponent `e` with `10 ^ e ≤ numerator / denominator < 10 ^ (e + 1)`, for a positive
quotient. -/
def decimalExponent (numerator denominator : Nat) : Int :=
  let guess : Int := (digitCount numerator : Int) - digitCount denominator
  if denominator * Nat.pow 10 guess.toNat ≤ numerator * Nat.pow 10 (-guess).toNat then guess
  else guess - 1

/-- A decimal `digits * 10 ^ exponent`. -/
structure Decimal where
  digits : Nat
  exponent : Int
  deriving DecidableEq

/-- The nearest decimal on the grid of the given exponent that reads back, if one does. -/
def RoundingInterval.onGrid (i : RoundingInterval) (exponent : Int) : Option Decimal :=
  let up := Nat.pow 10 exponent.toNat
  let down := Nat.pow 10 (-exponent).toNat
  -- the value is `numerator / denominator` grid steps
  let numerator := i.value * down
  let denominator := i.unit * up
  let below := numerator / denominator
  let fits := fun k : Nat ↦ i.holds (k * up) down
  match fits below, fits (below + 1) with
  | true, true =>
    let twice := 2 * (numerator % denominator)
    if twice < denominator ∨ (twice = denominator ∧ below % 2 = 0) then some ⟨below, exponent⟩
    else some ⟨below + 1, exponent⟩
  | true, false => some ⟨below, exponent⟩
  | false, true => some ⟨below + 1, exponent⟩
  | false, false => none

/-- Tries grids of `tried + 1`, `tried + 2`, … digits; the last of them, of seventeen digits, always
holds a decimal that reads back. -/
def RoundingInterval.search (i : RoundingInterval) (top : Int) : List Nat → Decimal
  | [] => ⟨i.value / i.unit, 0⟩
  | places :: rest =>
    match i.onGrid (top - places) with
    | some d => d
    | none => i.search top rest

/-- Shortest decimal of a positive magnitude. -/
def shortest (significand : Nat) (exponent : Int) : Decimal :=
  let i := RoundingInterval.of significand exponent
  i.search (decimalExponent i.value i.unit) (List.range 17)

end CurveCalc.Number
