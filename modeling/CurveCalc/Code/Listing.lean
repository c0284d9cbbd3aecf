import CurveCalc.Code.Fold
import CurveCalc.Machine.Float
import CurveCalc.Number.Layout
import CurveCalc.Text.Quoted

/-!
Code as text: single instructions, and numbered listings with a note on each variable and call.
-/

set_option autoImplicit false
set_option relaxedAutoImplicit false

namespace CurveCalc

def BinaryOperator.name : BinaryOperator → String
  | add => "ADD"
  | subtract => "SUBTRACT"
  | multiply => "MULTIPLY"
  | divide => "DIVIDE"
  | power => "POWER"
  | modulo => "MODULO"

def UnaryOperator.name : UnaryOperator → String
  | negate => "NEGATE"
  | factorial => "FACTORIAL"

def Operand.text : Operand Float → String
  | whole n => toString n
  | real x => Number.render x

/-- Why code cannot be listed. -/
inductive ListingError where
  /-- A code that stands for no instruction has no name. -/
  | unnamed
  | badOperand (fault : OperandFault)
  deriving DecidableEq

namespace Instruction

/-- The instruction by name, with its arguments; there is none for an unknown code. -/
def text? : Instruction Float → Option String
  | constant value => some ("CONSTANT " ++ value.text)
  | load slot => some ("GET_VAR " ++ slot.text)
  | binary op => some op.name
  | unary op => some op.name
  | call function count => some ("CALL " ++ function.text ++ " " ++ toString count)
  | unknown _ => none

def text (i : Instruction Float) : String := i.text?.getD ""

/-- The name a call shows for its function. -/
def functionName (function : Operand Float) : Except ListingError String :=
  let unknown := "<unknown-" ++ function.text ++ ">"
  match function.toInt with
  | .ok n => .ok (((Builtin.ofNumber? n).map Builtin.name).getD unknown)
  | .error .notANumber => .ok unknown
  | .error fault => .error (.badOperand fault)

/-- The name a load shows for its slot. -/
def slotName (names : List String) (slot : Operand Float) : Except ListingError String :=
  match slot.toInt with
  | .error fault => .error (.badOperand fault)
  | .ok n =>
    if (names.length : Int) ≤ n then .ok "<unknown>"
    else
      match atSlot? names n with
      | some name => .ok name
      | none => .error (.badOperand .outOfRange)

/-- What a listing says about an instruction besides its text. -/
def note (names : List String) : Instruction Float → Except ListingError String
  | load slot => do
    return "  ; Load variable '" ++ (← slotName names slot) ++ "'"
  | call function count => do
    return "  ; Call '" ++ (← functionName function) ++ "' with " ++ toString count ++
      (if count = 1 then " arg" else " args")
  | _ => .ok ""

def line (names : List String) (index : Nat) (i : Instruction Float) :
    Except ListingError String :=
  match i.text? with
  | none => .error .unnamed
  | some text => do
    return "    " ++ Text.padLeft 3 (toString index) ++ ": " ++ text ++ (← i.note names)

end Instruction

namespace Program

/-- The lines of instructions numbered from `index` on. -/
def lines (names : List String) : Nat → List (Instruction Float) →
    Except ListingError (List String)
  | _, [] => .ok []
  | index, i :: rest => do
    let first ← i.line names index
    return first :: (← lines names (index + 1) rest)

/-- The numbered listing of a program. -/
def listing (p : Program Float) : Except ListingError String := do
  let body ← lines p.names 0 p.code
  return String.intercalate "\n"
    (["Program: " ++ toString p.code.length ++ " instructions",
      "  Variables: " ++ Text.nameList p.names, "  Instructions:"] ++ body)

end Program

namespace FoldError

def details : FoldError Float → ErrorDetails
  | noInstructions => { message := "No instructions provided" }
  | underflow i needed available =>
    { message := "Stack underflow"
      context := i.text ++ " needs " ++ toString needed ++ " operand(s) but only " ++
        toString available ++ " are available" }
  | invalidInstruction code => { message := "Invalid instruction: opcode " ++ toString code }
  | run e => e.details

def message (e : FoldError Float) : String := e.details.message

def text (e : FoldError Float) : String := e.details.text

end FoldError

end CurveCalc
