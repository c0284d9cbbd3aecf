import CurveCalc.Machine.RunError
import CurveCalc.Machine.Stack

/-!
Running code on a stack of values.
-/

set_option autoImplicit false
set_option relaxedAutoImplicit false

namespace CurveCalc

namespace Machine

variable {α : Type}

def push (x : α) (s : Stack α) : Except RunError (Stack α) :=
  match s.push x with
  | (true, s) => .ok s
  | (false, s) => .error (.stackOverflow s.capacity)

def pop (s : Stack α) : Except RunError (α × Stack α) :=
  match s.pop with
  | (.value x, s) => .ok (x, s)
  | (.nothing, _) => .error .stackUnderflow
  | (.missing, _) => .error (.badOperand .outOfRange)

/-- The value for a slot. -/
def fetch (names : List String) (values : List α) (slot : Int) : Except RunError α :=
  if (values.length : Int) ≤ slot then
    .error (.undefinedVariable slot.toNat names values.length)
  else
    match atSlot? values slot with
    | some x => .ok x
    | none => .error (.badOperand .outOfRange)

variable [Primitives α]

/-- Carries out one instruction. -/
def step (names : List String) (values : List α) (s : Stack α) :
    Instruction α → Except RunError (Stack α)
  | .constant value => do
    push (← value.value) s
  | .load slot => do
    push (← fetch names values (← slot.index)) s
  | .binary op => do
    let (right, s) ← pop s
    let (left, s) ← pop s
    push (Primitives.binary op left right) s
  | .unary op => do
    let (x, s) ← pop s
    push (Primitives.unary op x) s
  | .call function count => do
    let number ← function.index
    match s.popN count with
    | (some arguments, s) => push (← Builtin.call number arguments) s
    | (none, _) => .error (.notEnoughArguments (← Builtin.resolve number))
  | .unknown code => .error (.invalidInstruction code)

/-- Carries out instructions one after the other. -/
def exec (names : List String) (values : List α) :
    List (Instruction α) → Stack α → Except RunError (Stack α)
  | [], s => .ok s
  | i :: code, s => do exec names values code (← step names values s i)

end Machine

/-- Runs a program on a stack with `capacity` places; its value is the one left on top. Values are
given in the order of the program's names, and values beyond those are not looked at. -/
def Program.run {α : Type} [Primitives α] (p : Program α) (values : List α) (capacity : Int) :
    Except RunError α := do
  if p.code.isEmpty then throw .noInstructions
  let s ← Machine.exec p.names values p.code (Stack.empty Primitives.zero capacity)
  return (← Machine.pop s).1

end CurveCalc
