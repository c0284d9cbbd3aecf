import CurveCalc.Machine.RunError

/-!
Folding: the parts of code that depend on no variable are replaced by their values. The code is read
once, with a stack of what is known about each value the machine would hold: either the value itself
or the code that computes it.
-/

set_option autoImplicit false
set_option relaxedAutoImplicit false

namespace CurveCalc

/-- Why code cannot be folded. -/
inductive FoldError (α : Type) where
  | noInstructions
  /-- An instruction takes more values than there are. -/
  | underflow (instruction : Instruction α) (needed : Int) (available : Nat)
  | invalidInstruction (code : Int)
  /-- An instruction on known values fails as it would fail when run. -/
  | run (e : RunError)
  deriving DecidableEq

/-- What is known about a value. -/
inductive Folded (α : Type) where
  | known (x : α)
  | residual (code : List (Instruction α))
  deriving DecidableEq

namespace Folded

variable {α : Type}

def code : Folded α → List (Instruction α)
  | known x => [.constant (.real x)]
  | residual code => code

/-- The values of the entries, if all of them are known. -/
def knownValues? : List (Folded α) → Option (List α)
  | [] => some []
  | known x :: rest => (knownValues? rest).map (x :: ·)
  | residual _ :: _ => none

variable [Primitives α]

/-- Carries out an instruction on the values it takes. -/
def evaluate : Instruction α → List α → Except (FoldError α) α
  | .binary op, [x, y] => .ok (Primitives.binary op x y)
  | .unary op, [x] => .ok (Primitives.unary op x)
  | .call function _, arguments =>
    (do Builtin.call (← function.index) arguments : Except RunError α).mapError .run
  | .unknown code, _ => .error (.invalidInstruction code)
  | _, _ => .error (.invalidInstruction 0)

/-- Replaces the values that an instruction takes, on top of the stack, by what is known about its
own. -/
def combine (i : Instruction α) (stack : List (Folded α)) :
    Except (FoldError α) (List (Folded α)) :=
  let count := i.operandCount
  if (stack.length : Int) < count then .error (.underflow i count stack.length)
  else
    let operands := (stack.take count.toNat).reverse
    let rest := stack.drop count.toNat
    match knownValues? operands with
    | some values => (evaluate i values).map fun x ↦ known x :: rest
    | none => .ok (residual (operands.flatMap code ++ [i]) :: rest)

def step (stack : List (Folded α)) (i : Instruction α) :
    Except (FoldError α) (List (Folded α)) :=
  match i with
  | .constant value => (value.value.mapError .run).map fun x ↦ known x :: stack
  | .load slot => .ok (residual [.load slot] :: stack)
  | i => combine i stack

/-- Reads instructions one after the other; the stack has its top first. -/
def steps : List (Instruction α) → List (Folded α) → Except (FoldError α) (List (Folded α))
  | [], stack => .ok stack
  | i :: rest, stack => do steps rest (← step stack i)

end Folded

/-- The program with every part that depends on no variable replaced by its value. -/
def Program.fold {α : Type} [Primitives α] (p : Program α) : Except (FoldError α) (Program α) := do
  if p.code.isEmpty then throw .noInstructions
  let stack ← Folded.steps p.code []
  return ⟨stack.reverse.flatMap Folded.code, p.names⟩

end CurveCalc
