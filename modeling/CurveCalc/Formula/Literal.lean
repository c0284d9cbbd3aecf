import CurveCalc.Formula.Token
import CurveCalc.Number.Reading

/-!
The numbers a formula is written with, before they become doubles.
-/

set_option autoImplicit false
set_option relaxedAutoImplicit false

namespace CurveCalc

inductive Literal where
  | named (c : NamedConstant)
  | decimal (d : Number.Decimal)
  deriving DecidableEq

namespace Literal

def toFloat : Literal → Float
  | named c => c.toFloat
  | decimal d => d.toFloat

/-- The number a number token stands for. -/
def ofToken? (t : Token) : Option Literal :=
  match t.value with
  | .constant c => some (.named c)
  | _ => (Number.readDecimal? t.lexeme.toList).map .decimal

end Literal

end CurveCalc
