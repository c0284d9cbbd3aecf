import CurveCalc.Number.Reading

/-!
The arithmetic that grids, derivatives and integrals are computed with. It is kept apart from the
values of formulas, so that the same curves can be read over exact numbers.
-/

set_option autoImplicit false
set_option relaxedAutoImplicit false

namespace CurveCalc

class Arithmetic (α : Type) extends Add α, Sub α, Mul α, Div α where
  zero : α
  two : α
  /-- What stands where a curve has no value. -/
  undefined : α
  isZero : α → Bool
  /-- Whether the first value is below the second; an undefined one is below none. -/
  less : α → α → Bool
  /-- A whole number, if it is within range. -/
  whole? : Int → Option α

instance : Arithmetic Float where
  zero := 0.0
  two := 2.0
  undefined := 0.0 / 0.0
  isZero := fun x ↦ x == 0.0
  less := fun x y ↦ x < y
  whole? := Number.floatOfInt?

end CurveCalc
