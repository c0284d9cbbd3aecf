import CurveCalc.Formula.Builtin

/-!
The code formulas are compiled to: instructions for a machine that works on a stack of values. The
values are left open, so that code can be spoken of over doubles, over exact numbers and over the
literals of a formula alike.
-/

set_option autoImplicit false
set_option relaxedAutoImplicit false

namespace CurveCalc

inductive BinaryOperator where
  | add | subtract | multiply | divide | power | modulo
  deriving DecidableEq

inductive UnaryOperator where
  | negate | factorial
  deriving DecidableEq

/-- An argument of an instruction, as it was given. -/
inductive Operand (α : Type) where
  | whole (n : Int)
  | real (x : α)
  deriving DecidableEq

/-- One instruction. A call names its function by number and says how many values it takes. -/
inductive Instruction (α : Type) where
  | constant (value : Operand α)
  | load (slot : Operand α)
  | binary (op : BinaryOperator)
  | unary (op : UnaryOperator)
  | call (function : Operand α) (count : Int)
  /-- A code that stands for no instruction. -/
  | unknown (code : Int)
  deriving DecidableEq

/-- Code together with the names of the variables it loads, by slot. -/
structure Program (α : Type) where
  code : List (Instruction α)
  names : List String
  deriving DecidableEq

def Operand.map {α β : Type} (f : α → β) : Operand α → Operand β
  | .whole n => .whole n
  | .real x => .real (f x)

namespace Instruction

variable {α β : Type}

def map (f : α → β) : Instruction α → Instruction β
  | constant value => constant (value.map f)
  | load slot => load (slot.map f)
  | binary op => binary op
  | unary op => unary op
  | call function count => call (function.map f) count
  | unknown code => unknown code

/-- How many values the instruction takes off the stack. -/
def operandCount : Instruction α → Int
  | binary _ => 2
  | unary _ => 1
  | call _ count => count
  | constant _ => 0
  | load _ => 0
  | unknown _ => 0

/-- The instruction with the given code. -/
def ofCode (code : Int) (first : Operand α) (second : Int) : Instruction α :=
  if code = 1 then constant first
  else if code = 2 then load first
  else if code = 10 then binary .add
  else if code = 11 then binary .subtract
  else if code = 12 then binary .multiply
  else if code = 13 then binary .divide
  else if code = 14 then binary .power
  else if code = 15 then binary .modulo
  else if code = 20 then unary .negate
  else if code = 21 then unary .factorial
  else if code = 30 then call first second
  else unknown code

end Instruction

def Program.map {α β : Type} (f : α → β) (p : Program α) : Program β :=
  ⟨p.code.map (Instruction.map f), p.names⟩

/-- The element at a slot; negative slots count from the end. -/
def atSlot? {β : Type} (items : List β) (slot : Int) : Option β :=
  if 0 ≤ slot then items[slot.toNat]?
  else if slot.natAbs ≤ items.length then items[items.length - slot.natAbs]?
  else none

end CurveCalc
