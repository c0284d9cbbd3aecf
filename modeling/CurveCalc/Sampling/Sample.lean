import CurveCalc.Entries
import CurveCalc.Machine.Run
import CurveCalc.Sampling.Grid

/-!
Sampling: running one program at every point of a grid. The variable that is swept takes the
coordinate of the point; the others keep one value throughout.
-/

set_option autoImplicit false
set_option relaxedAutoImplicit false

namespace CurveCalc

/-- A sampled curve, and the first point at which it has no value. -/
structure Sampled (α : Type) where
  points : List (α × α)
  failure : Option (α × RunError)

/-- What the program's variables are given before the first point, and the slot of the swept one. -/
structure SampleValues (α : Type) where
  values : List α
  slot : Option Nat

variable {α : Type} [Primitives α] [Arithmetic α]

/-- Variables without a value are zero. -/
def sampleValues (names : List String) (swept : String) (bindings : Entries String α) :
    SampleValues α where
  values := names.map fun name ↦
    if name = swept then Arithmetic.zero else (bindings.get? name).getD Arithmetic.zero
  slot :=
    match names.reverse.idxOf? swept with
    | some i => some (names.length - 1 - i)
    | none => none

/-- The values with the swept one set to a coordinate. -/
def SampleValues.at (v : SampleValues α) (x : α) : List α :=
  match v.slot with
  | some slot => v.values.set slot x
  | none => v.values

/-- What running the program gives at each coordinate. The values at a point are those that the
point before has left, with the swept one set again. -/
def Program.outcomes (p : Program α) (v : SampleValues α) (capacity : Int) :
    List α → List (α × Except RunError α)
  | [] => []
  | x :: xs =>
    let values := v.at x
    (x, p.run values capacity) :: p.outcomes { v with values := values } capacity xs

/-- The point of an outcome; where running failed the curve is undefined. -/
def pointOf (outcome : α × Except RunError α) : α × α :=
  match outcome.2 with
  | .ok y => (outcome.1, y)
  | .error _ => (outcome.1, Arithmetic.undefined)

def failureOf (outcome : α × Except RunError α) : Option (α × RunError) :=
  match outcome.2 with
  | .ok _ => none
  | .error e => some (outcome.1, e)

/-- Samples a program at the evenly spaced points of a range. -/
def Program.sample (p : Program α) (capacity : Int) (range : Range α) (swept : String)
    (bindings : Entries String α) : Except GridError (Sampled α) :=
  range.grid.map fun xs ↦
    let outcomes := p.outcomes (sampleValues p.names swept bindings) capacity xs
    { points := outcomes.map pointOf, failure := outcomes.findSome? failureOf }

end CurveCalc
