import CurveCalc.Machine.Primitives
import CurveCalc.Number.Gamma
import CurveCalc.Number.Reading

/-!
Doubles as the values that formulas compute with. Division by zero gives an infinity, results
outside the domain of a function are no number, and results that are too large are infinite.
-/

set_option autoImplicit false
set_option relaxedAutoImplicit false

namespace CurveCalc.Number

/-- Logarithm in a given base. -/
def logarithm (base x : Float) : Float := x.log / base.log

/-- The largest whole number not above `x`; no zero in the answer has a sign. -/
def floor (x : Float) : Float := x.floor + 0.0

/-- The smallest whole number not below `x`; no zero in the answer has a sign. -/
def ceiling (x : Float) : Float := x.ceil + 0.0

/-- The number without its places; a zero keeps the sign of `x`. -/
def truncate (x : Float) : Float := if x < 0.0 then x.ceil else x.floor

/-- The generalised factorial, `Γ (x + 1)`. -/
def factorial (x : Float) : Float := gamma (x + 1.0)

/-- The whole number that is left once the places of `x` are cut off. -/
def toInt (x : Float) : Except OperandFault Int :=
  match Binary.ofFloat x with
  | .nan => .error .notANumber
  | .infinite _ => .error .tooLarge
  | .finite negative significand exponent =>
    let n : Int := wholePart significand exponent
    .ok (if negative then -n else n)

def binaryOperation : BinaryOperator → Float → Float → Float
  | .add, x, y => x + y
  | .subtract, x, y => x - y
  | .multiply, x, y => x * y
  | .divide, x, y => x / y
  | .power, x, y => x.pow y
  | .modulo, x, y => remainder x y

def unaryOperation : UnaryOperator → Float → Float
  | .negate, x => -x
  | .factorial, x => factorial x

/-- A function at its arguments; no number where their count is wrong. -/
def applyBuiltin : Builtin → List Float → Float
  | .sin, [x] => x.sin
  | .asin, [x] => x.asin
  | .sinh, [x] => x.sinh
  | .cos, [x] => x.cos
  | .acos, [x] => x.acos
  | .cosh, [x] => x.cosh
  | .tan, [x] => x.tan
  | .atan, [x] => x.atan
  | .tanh, [x] => x.tanh
  | .ln, [x] => x.log
  | .log, [base, x] => logarithm base x
  | .sqrt, [x] => x.sqrt
  | .abs, [x] => x.abs
  | .floor, [x] => floor x
  | .ceil, [x] => ceiling x
  | .round, [x] => x.round
  | .trunc, [x] => truncate x
  | .exp, [x] => x.exp
  | _, _ => 0.0 / 0.0

instance : Primitives Float where
  zero := 0.0
  binary := binaryOperation
  unary := unaryOperation
  apply := applyBuiltin
  ofInt? := floatOfInt?
  toInt := toInt

end CurveCalc.Number
