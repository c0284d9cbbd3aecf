import CurveCalc.Sampling.Arithmetic

/-!
Ranges, and the points that divide them evenly.
-/

set_option autoImplicit false
set_option relaxedAutoImplicit false

namespace CurveCalc

/-- A range to be divided into `count` intervals of equal length. -/
structure Range (α : Type) where
  start : α
  stop : α
  count : Int

/-- What is wrong with a range. -/
inductive RangeIssue (α : Type) where
  | countTooSmall (count : Int)
  | stopBeforeStart (stop start : α)

/-- What is said of a number of intervals below one. -/
def countMessage (count : Int) : String := "count must be at least 1, got " ++ toString count

/-- Why a range cannot be divided. -/
inductive GridError where
  | countTooSmall (count : Int)
  | countTooLarge
  deriving DecidableEq

namespace GridError

def message : GridError → String
  | countTooSmall count => countMessage count
  | countTooLarge => "int too large to convert to float"

end GridError

variable {α : Type} [Arithmetic α]

def Range.issues (r : Range α) : List (RangeIssue α) :=
  (if r.count < 1 then [.countTooSmall r.count] else []) ++
    (if Arithmetic.less r.stop r.start then [.stopBeforeStart r.stop r.start] else [])

/-- The point a whole number of steps behind the start. -/
def gridPoint (start step : α) (i : Nat) : α :=
  start + step * (Arithmetic.whole? (i : Int)).getD Arithmetic.undefined

/-- The ends of the intervals of a range. -/
def Range.grid (r : Range α) : Except GridError (List α) :=
  if r.count < 1 then .error (.countTooSmall r.count)
  else
    match Arithmetic.whole? (α := α) r.count with
    | none => .error .countTooLarge
    | some n =>
      let step := (r.stop - r.start) / n
      .ok ((List.range (r.count.toNat + 1)).map (gridPoint r.start step))

end CurveCalc
