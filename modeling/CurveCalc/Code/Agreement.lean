import CurveCalc.Code.Instruction

/-!
When two programs are the same: the same instructions in the same order and the same names.
Constants are compared by value, so zeros of either sign agree, and no number agrees with itself.
-/

set_option autoImplicit false
set_option relaxedAutoImplicit false

namespace CurveCalc

def agreeFloat (x y : Float) : Bool := x == y || (x.isNaN && y.isNaN)

def Operand.agrees : Operand Float → Operand Float → Bool
  | whole n, whole m => n == m
  | real x, real y => agreeFloat x y
  | _, _ => false

def Instruction.agrees : Instruction Float → Instruction Float → Bool
  | constant v, constant w => v.agrees w
  | load s, load t => s.agrees t
  | binary op, binary op' => op == op'
  | unary op, unary op' => op == op'
  | call f n, call g m => f.agrees g && n == m
  | unknown c, unknown d => c == d
  | _, _ => false

def Program.agrees (p q : Program Float) : Bool :=
  p.names == q.names && p.code.length == q.code.length &&
    (p.code.zip q.code).all fun pair ↦ pair.1.agrees pair.2

end CurveCalc
