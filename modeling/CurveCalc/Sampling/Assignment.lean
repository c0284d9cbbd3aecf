import CurveCalc.Toolchain

/-!
Values for variables written as assignments, and values that are formulas themselves.
-/

set_option autoImplicit false
set_option relaxedAutoImplicit false

namespace CurveCalc

/-- Why an assignment is refused. -/
inductive AssignmentError where
  /-- No equals sign, or no name in front of it. -/
  | malformed (assignment : String)
  | notANumber (value : String)
  deriving DecidableEq

def AssignmentError.message : AssignmentError → String
  | malformed assignment =>
    "Invalid variable assignment '" ++ assignment ++ "', expected name=value"
  | notANumber value => Number.notANumberMessage (Text.quoted value)

/-- The text before and behind the first equals sign, if there is one. -/
def splitAssignment (assignment : List Char) : Option (List Char × List Char) :=
  match assignment.dropWhile fun c ↦ c != '=' with
  | [] => none
  | _ :: value => some (assignment.takeWhile (fun c ↦ c != '='), value)

/-- Reads `name=value`. -/
def readAssignment (assignment : String) : Except AssignmentError (String × Float) :=
  match splitAssignment assignment.toList with
  | none => .error (.malformed assignment)
  | some (name, value) =>
    if name.isEmpty then .error (.malformed assignment)
    else
      match Number.readFloat? (String.ofList value) with
      | some x => .ok (String.ofList (Text.trimChars name), x)
      | none => .error (.notANumber (String.ofList value))

/-- Reads assignments; of two to the same name the later one counts. -/
def readAssignments (assignments : List String) : Except AssignmentError Bindings := do
  return Entries.ofList (← assignments.mapM readAssignment)

/-- A named value given as a formula, with what came of it. -/
structure Parameter where
  name : String
  formula : String
  outcome : Except FormulaError Float

/-- The value of a formula that may use no variable. -/
def Toolchain.constant (t : Toolchain) (formula : String) : Except FormulaError Float := do
  t.run (← t.compileFolded formula) []

def Toolchain.parameters (t : Toolchain) (formulas : Entries String String) : List Parameter :=
  formulas.map fun f ↦ { name := f.1, formula := f.2, outcome := t.constant f.2 }

end CurveCalc
