import CurveCalc.Plot.Config
import CurveCalc.Sampling.Assignment
import CurveCalc.Sampling.Calculus
import CurveCalc.Sampling.Sample

/-!
Sampling all curves of a configuration. Each curve gives a record of its own, and a curve that fails
says so in its record.
-/

set_option autoImplicit false
set_option relaxedAutoImplicit false

namespace CurveCalc

abbrev Point := Float × Float

/-- Why a curve was not sampled, or not everywhere. -/
inductive CurveError where
  | formula (e : FormulaError)
  /-- The first point at which the curve has no value. -/
  | point (x : Float) (e : RunError)

def CurveError.text : CurveError → String
  | formula e => e.text
  | point _ e => e.message

/-- What was sampled of one curve. -/
structure Record where
  formula : String
  error : Option CurveError
  points : List Point
  derivative : Option (List Point)
  integral : Option (List Point)

/-- The series a record has, by name and in order. -/
def Record.series (r : Record) : List (String × List Point) :=
  [("points", r.points)] ++ (r.derivative.map fun s ↦ ("derivative", s)).toList ++
    (r.integral.map fun s ↦ ("integral", s)).toList

/-- Why a configuration cannot be sampled at all. -/
inductive PlotError where
  | parameter (name formula : String) (e : FormulaError)
  | grid (e : GridError)

def PlotError.message : PlotError → String
  | parameter name formula e =>
    "Parameter '" ++ name ++ "' = '" ++ formula ++ "' failed:\n" ++ e.text
  | grid e => e.message

/-- The values of all parameters, or the first one that has none. -/
def parameterValues : List Parameter → Except PlotError Bindings
  | [] => .ok []
  | p :: rest =>
    match p.outcome with
    | .error e => .error (.parameter p.name p.formula e)
    | .ok x => (parameterValues rest).map fun values ↦ (p.name, x) :: values

namespace PlotConfig

/-- The record of one curve. -/
def record (c : PlotConfig) (t : Toolchain) (values : Bindings) (curve : Curve) :
    Except PlotError Record :=
  match t.compileFolded curve.formula with
  | .error e =>
    .ok { formula := curve.formula, error := some (.formula e), points := [], derivative := none,
          integral := none }
  | .ok p =>
    match p.sample t.stackSize c.range c.swept values with
    | .error e => .error (.grid e)
    | .ok s =>
      .ok { formula := curve.formula
            error := s.failure.map fun f ↦ .point f.1 f.2
            points := s.points
            derivative := if curve.derivative then some (CurveCalc.derivative s.points) else none
            integral :=
              if curve.integral then some (CurveCalc.integral curve.integralStart s.points)
              else none }

/-- The value of each variable but the swept one: a binding comes before a parameter. -/
def environment (c : PlotConfig) (t : Toolchain) (bindings : Bindings) :
    Except PlotError Bindings :=
  (parameterValues (t.parameters c.parameters)).map fun values ↦ Entries.update values bindings

/-- One record for each curve. -/
def records (c : PlotConfig) (t : Toolchain) (bindings : Bindings) :
    Except PlotError (List Record) := do
  let values ← c.environment t bindings
  c.curves.mapM (c.record t values)

end PlotConfig

end CurveCalc
