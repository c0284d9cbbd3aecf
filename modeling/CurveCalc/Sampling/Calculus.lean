import CurveCalc.Sampling.Arithmetic

/-!
Derivative and integral of a sampled curve.
-/

set_option autoImplicit false
set_option relaxedAutoImplicit false

namespace CurveCalc

variable {α : Type} [Arithmetic α]

/-- The slope from one point to the next, at the second of them. -/
def slope (p q : α × α) : α × α :=
  let dx := q.1 - p.1
  (q.1, if Arithmetic.isZero dx then Arithmetic.undefined else (q.2 - p.2) / dx)

/-- The slopes of all intervals, each at its right end. -/
def derivative : List (α × α) → List (α × α)
  | p :: q :: rest => slope p q :: derivative (q :: rest)
  | _ => []

/-- The area of the trapezoid between two points. -/
def trapezoid (p q : α × α) : α := (q.2 + p.2) * (q.1 - p.1) / Arithmetic.two

/-- The integral at each point that follows `last`, where it is `total`. -/
def integralFrom (total : α) (last : α × α) : List (α × α) → List (α × α)
  | [] => []
  | p :: rest =>
    let total := total + trapezoid last p
    (p.1, total) :: integralFrom total p rest

/-- The area under the curve up to each of its points, counted from `start` at the first. -/
def integral (start : α) (points : List (α × α)) : List (α × α) :=
  match points with
  | [] => []
  | p :: _ => integralFrom start p points

/-- The share of each point in the time all of them took. -/
def timePerPoint (points : Nat) (elapsed : Float) : Float :=
  if points = 0 then 0.0 else elapsed / Float.ofNat points

end CurveCalc
