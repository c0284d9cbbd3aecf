import CurveCalc.Code.Instruction

/-!
What code needs of the values it works on. Folding and running both compute through this one
interface, so whatever is folded is what running would have computed.
-/

set_option autoImplicit false
set_option relaxedAutoImplicit false

namespace CurveCalc

/-- Why an argument of an instruction is of no use. -/
inductive OperandFault where
  /-- A place that does not exist. -/
  | outOfRange
  /-- A number too large to be a double, or infinite where a whole number is needed. -/
  | tooLarge
  /-- No number where a whole number is needed. -/
  | notANumber
  deriving DecidableEq

class Primitives (α : Type) where
  /-- What an untouched place of a stack holds. -/
  zero : α
  binary : BinaryOperator → α → α → α
  unary : UnaryOperator → α → α
  /-- A function at as many arguments as it takes. -/
  apply : Builtin → List α → α
  /-- A whole number as a value, if it is within range. -/
  ofInt? : Int → Option α
  /-- The whole number a value stands for once its places are cut off. -/
  toInt : α → Except OperandFault Int

end CurveCalc
