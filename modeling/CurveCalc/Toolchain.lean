import CurveCalc.Code.Listing
import CurveCalc.Entries
import CurveCalc.Formula.Compile
import CurveCalc.Machine.Run

/-!
Formulas from text to value: compiling, folding, running, and naming the values by variable.
-/

set_option autoImplicit false
set_option relaxedAutoImplicit false

namespace CurveCalc

/-- Whatever can be wrong with a formula. -/
inductive FormulaError where
  | compile (e : CompileError)
  | fold (e : FoldError Float)
  | run (e : RunError)

namespace FormulaError

def text : FormulaError → String
  | compile e => e.text
  | fold e => e.text
  | run e => e.text

/-- The text without its details. -/
def message : FormulaError → String
  | compile e => e.text
  | fold e => e.message
  | run e => e.message

end FormulaError

/-- Values by the names of variables. -/
abbrev Bindings := Entries String Float

/-- The values of a program's variables in the order of its names; the first name without a value
ends them. -/
def bindNames (bindings : Bindings) : List String → List Float
  | [] => []
  | name :: names =>
    match bindings.get? name with
    | some x => x :: bindNames bindings names
    | none => []

def Program.bind (p : Program Float) (bindings : Bindings) : List Float :=
  bindNames bindings p.names

/-- How formulas are compiled and run. -/
structure Toolchain where
  /-- Whether evaluating a formula folds it first. -/
  folding : Bool := true
  stackSize : Int := 64
  maxDepth : Int := 100

namespace Toolchain

def compile (t : Toolchain) (source : String) : Except FormulaError (Program Float) :=
  (CurveCalc.compile t.maxDepth source).mapError .compile

def fold (p : Program Float) : Except FormulaError (Program Float) := p.fold.mapError .fold

/-- Compiles a formula and folds it. -/
def compileFolded (t : Toolchain) (source : String) : Except FormulaError (Program Float) := do
  fold (← t.compile source)

def run (t : Toolchain) (p : Program Float) (values : List Float) : Except FormulaError Float :=
  (p.run values t.stackSize).mapError .run

/-- The program that evaluating a formula runs. -/
def programOf (t : Toolchain) (source : String) : Except FormulaError (Program Float) :=
  if t.folding then t.compileFolded source else t.compile source

def evaluate (t : Toolchain) (source : String) (bindings : Bindings) :
    Except FormulaError Float := do
  let p ← t.programOf source
  t.run p (p.bind bindings)

end Toolchain

end CurveCalc
