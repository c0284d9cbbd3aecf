import CurveCalc.Plot.Records

/-!
What is noted while formulas are compiled, folded and sampled. Notes follow from the results: each
function here gives the notes that belong to one step, in their order.
-/

set_option autoImplicit false
set_option relaxedAutoImplicit false

namespace CurveCalc.CommandLine

inductive LogLevel where
  | debug | warning
  deriving DecidableEq

def LogLevel.name : LogLevel → String
  | debug => "DEBUG"
  | warning => "WARNING"

structure LogNote where
  origin : String
  level : LogLevel
  message : String

namespace LogNote

/-- A note as a line; `stamp` tells its time. -/
def line (stamp : String) (n : LogNote) : String :=
  stamp ++ " - " ++ n.origin ++ " - " ++ n.level.name ++ " - " ++ n.message ++ "\n"

end LogNote

def compileNote (message : String) : LogNote := ⟨"FXLCompiler", .debug, message⟩

/-- Notes on compiling a formula: one for each problem, or one on the program. -/
def compileNotes (source : String) (result : Except FormulaError (Program Float)) :
    List LogNote :=
  match result with
  | .ok p =>
    [compileNote ("Compiled " ++ Text.quoted source ++ " to " ++ toString p.code.length ++
      " instructions, variables " ++ Text.nameTuple p.names)]
  | .error (.compile e) =>
    e.diagnostics.map fun d ↦ compileNote ("Compile diagnostic: " ++ d.text)
  | .error _ => []

/-- A note on a program that was folded. -/
def foldNotes (p : Program Float) (result : Except FormulaError (Program Float)) :
    List LogNote :=
  match result with
  | .ok q =>
    [⟨"FXLOptimizer", .debug, "Optimized " ++ toString p.code.length ++ " instructions to " ++
      toString q.code.length⟩]
  | .error _ => []

/-- Notes on compiling a formula and, if `folding` holds, folding its program. -/
def programNotes (t : Toolchain) (folding : Bool) (source : String) : List LogNote :=
  let result := t.compile source
  compileNotes source result ++
    (match result with
      | .ok p => if folding then foldNotes p (Toolchain.fold p) else []
      | .error _ => [])

def samplerNote (level : LogLevel) (message : String) : LogNote :=
  ⟨"FXLSampler", level, message⟩

def parameterNotes (t : Toolchain) (p : Parameter) : List LogNote :=
  programNotes t true p.formula ++
    (match p.outcome with
      | .ok _ => []
      | .error e =>
        [samplerNote .debug ("Parameter " ++ p.name ++ " = " ++ Text.quoted p.formula ++
          " failed: " ++ e.message)])

def recordNotes (t : Toolchain) (swept : String) (r : Record) : List LogNote :=
  programNotes t true r.formula ++
    (match r.error with
      | some (.point x e) =>
        [samplerNote .warning ("Sampling failed at " ++ swept ++ " = " ++ Number.render x ++
          ": " ++ e.message)]
      | _ => [])

/-- Notes on sampling a configuration. -/
def plotNotes (t : Toolchain) (c : PlotConfig) (result : Except PlotError (List Record)) :
    List LogNote :=
  (t.parameters c.parameters).flatMap (parameterNotes t) ++
    (match result with
      | .ok records => records.flatMap (recordNotes t c.swept)
      | .error _ => [])

end CurveCalc.CommandLine
