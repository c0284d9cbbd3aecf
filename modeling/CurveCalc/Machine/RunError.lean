import CurveCalc.Machine.Primitives
import CurveCalc.Text.Quoted

/-!
Why running code fails, and how the failure is told. The machine is an ideal one: whole numbers are
told with all of their digits, there is room for a stack of any size, and every slot can be looked
up. Where the number of digits is limited, `Number.intText?` says so.
-/

set_option autoImplicit false
set_option relaxedAutoImplicit false

namespace CurveCalc

/-- A message with what is known about it; empty texts tell nothing. -/
structure ErrorDetails where
  message : String
  context : String := ""
  expected : String := ""
  received : String := ""
  suggestion : String := ""
  sample : String := ""
  position : Option Int := none

namespace ErrorDetails

/-- One line for each thing that is known. -/
def text (d : ErrorDetails) : String :=
  let line := fun (title content : String) ↦
    if content.isEmpty then [] else [title ++ ": " ++ content]
  let position := match d.position with
    | some p => ["Position: " ++ toString p]
    | none => []
  String.intercalate "\n"
    (["Error: " ++ d.message] ++ position ++ line "Received" d.received ++
      line "Expected" d.expected ++ line "Context" d.context ++ line "Suggestion" d.suggestion ++
      line "Example" d.sample)

end ErrorDetails

inductive RunError where
  | noInstructions
  | invalidInstruction (code : Int)
  | stackOverflow (capacity : Int)
  | stackUnderflow
  /-- No value was given for a slot. -/
  | undefinedVariable (slot : Nat) (names : List String) (given : Nat)
  /-- A call takes more values than there are. -/
  | notEnoughArguments (f : Builtin)
  | unknownFunction (number : Int)
  | wrongArgumentCount (f : Builtin) (given : Nat)
  | badOperand (fault : OperandFault)
  deriving DecidableEq

namespace RunError

/-- A number of arguments, in words. -/
def countOfArguments (n : Nat) : String :=
  toString n ++ " argument" ++ (if n = 1 then "" else "s")

def details : RunError → ErrorDetails
  | noInstructions => { message := "No instructions provided" }
  | invalidInstruction code => { message := "Invalid instruction: opcode " ++ toString code }
  | stackOverflow capacity =>
    { message := "Stack overflow (max: " ++ toString capacity ++ ")"
      suggestion := "Simplify the formula or reduce its nesting depth" }
  | stackUnderflow => { message := "Stack underflow" }
  | undefinedVariable slot names given =>
    { message := "Undefined variable: " ++
        (names[slot]?).getD ("<slot " ++ toString slot ++ ">")
      context := "The program uses " ++ toString names.length ++ " variable(s) but " ++
        toString given ++ " value(s) were provided"
      suggestion := "Provide values in the order " ++ Text.nameList names }
  | notEnoughArguments f =>
    { message := "Not enough arguments provided for function: " ++ f.name }
  | unknownFunction number =>
    { message := "Function with id " ++ toString number ++ " does not exist"
      context := "Function ids are assigned by the compiler from the builtin table" }
  | wrongArgumentCount f given =>
    { message := "Function " ++ f.name ++ " expects " ++ toString f.arity ++ " arguments, but " ++
        toString given ++ " were given"
      expected := countOfArguments f.arity
      received := countOfArguments given
      sample := if f = .log then "log(2, 8)" else f.name ++ "(x)" }
  | badOperand .outOfRange => { message := "list index out of range" }
  | badOperand .tooLarge => { message := "number out of range" }
  | badOperand .notANumber => { message := "cannot convert float NaN to integer" }

def message (e : RunError) : String := e.details.message

def text (e : RunError) : String := e.details.text

end RunError

namespace Operand

variable {α : Type} [Primitives α]

/-- The argument as a value. -/
def value : Operand α → Except RunError α
  | .real x => .ok x
  | .whole n =>
    match Primitives.ofInt? n with
    | some x => .ok x
    | none => .error (.badOperand .tooLarge)

/-- The argument as a whole number. -/
def toInt : Operand α → Except OperandFault Int
  | .whole n => .ok n
  | .real x => Primitives.toInt x

/-- The argument as the number of a slot or function. -/
def index (o : Operand α) : Except RunError Int := o.toInt.mapError .badOperand

end Operand

/-- The function with the given number. -/
def Builtin.resolve (number : Int) : Except RunError Builtin :=
  match Builtin.ofNumber? number with
  | some f => .ok f
  | none => .error (.unknownFunction number)

/-- Calls the function with the given number. -/
def Builtin.call {α : Type} [Primitives α] (number : Int) (arguments : List α) :
    Except RunError α := do
  let f ← Builtin.resolve number
  if arguments.length = f.arity then .ok (Primitives.apply f arguments)
  else .error (.wrongArgumentCount f arguments.length)

end CurveCalc
