import CurveCalc.Document.Keys
import CurveCalc.Document.Shown
import CurveCalc.Entries
import CurveCalc.Sampling.Grid
import CurveCalc.Text.Blank

/-!
Plot configurations: a range, named parameters that are formulas themselves, and the curves to
sample.
-/

set_option autoImplicit false
set_option relaxedAutoImplicit false

namespace CurveCalc

structure Curve where
  formula : String
  derivative : Bool := false
  integral : Bool := false
  integralStart : Float := 0.0

structure PlotConfig where
  range : Range Float := ⟨0.0, 1.0, 1000⟩
  /-- The variable that is swept. -/
  swept : String := "x"
  parameters : Entries String String := []
  curves : List Curve := []

namespace Curve

/-- A curve is a formula, or a mapping that has one. -/
def ofValue (v : Value) : Except ValueError Curve :=
  match v.unfold with
  | .text formula => .ok { formula := formula }
  | .mapping entries => do
    let at? := Value.lookup? entries
    return {
      formula := ← ((at? "formula").getD (.text "")).toText
      derivative := ((at? "derivative").getD (.bool false)).truth
      integral := ((at? "integral").getD (.bool false)).truth
      integralStart := ← ((at? "integral_start").getD (.float 0.0)).toFloat }
  | _ => .error .notAMapping

def toValue (c : Curve) : Value :=
  .mapping
    [(.text "formula", .text c.formula), (.text "derivative", .bool c.derivative),
      (.text "integral", .bool c.integral), (.text "integral_start", .float c.integralStart)]

end Curve

/-- The values to read curves from: the items of a list, a pair or a set, the keys of a mapping, the
characters of a text, the numbers of bytes. -/
def curveValues (v : Value) : Except ValueError (List Value) :=
  if !v.truth then .ok []
  else
    match v.unfold with
    | .list items => .ok items
    | .pair first second => .ok [first, second]
    | .set items => .ok items
    | .mapping entries => .ok (entries.map Prod.fst)
    | .text s => .ok (s.toList.map fun c ↦ .text (String.singleton c))
    | .bytes b => .ok (b.map fun n ↦ .int n.toNat)
    | _ => .error .wrongType

def parameterEntries (v : Value) : Except ValueError (Entries String String) :=
  if !v.truth then .ok []
  else
    match v.unfold with
    | .mapping entries => do
      let texts ← entries.mapM fun e ↦ do return (← e.1.toText, ← e.2.toText)
      return Entries.ofList texts
    | _ => .error .notAMapping

namespace PlotConfig

/-- Reads a configuration from the entries of a mapping; what is not there has its default. -/
def ofEntries (entries : List (Value × Value)) : Except ValueError PlotConfig := do
  let at? := Value.lookup? entries
  let curves ← (← curveValues ((at? "curves").getD .null)).mapM Curve.ofValue
  let parameters ← parameterEntries ((at? "parameters").getD .null)
  let start ← ((at? "start").getD (.float 0.0)).toFloat
  let stop ← ((at? "stop").getD (.float 1.0)).toFloat
  let count ← ((at? "count").getD (.int 1000)).toInt
  let swept ← ((at? "variable").getD (.text "x")).toText
  return { range := ⟨start, stop, count⟩, swept, parameters, curves }

/-- The configuration as data, its keys in a fixed order. -/
def toEntries (c : PlotConfig) : List (Value × Value) :=
  [(.text "start", .float c.range.start), (.text "stop", .float c.range.stop),
    (.text "count", .int c.range.count),
    (.text "variable", .text c.swept),
    (.text "parameters", .mapping (c.parameters.map fun p ↦ (.text p.1, .text p.2))),
    (.text "curves", .list (c.curves.map Curve.toValue))]

/-- A configuration to begin with. -/
def sample : PlotConfig where
  range := ⟨-3.0, 3.0, 600⟩
  parameters := [("a", "2"), ("k", "pi/4")]
  curves :=
    [{ formula := "a*sin(k*x^2)", derivative := true }, { formula := "x^2", integral := true }]

/-- Whether two configurations are equal, numbers by value. -/
def agrees (c d : PlotConfig) : Bool :=
  let curveAgrees := fun (a b : Curve) ↦
    a.formula == b.formula && a.derivative == b.derivative && a.integral == b.integral &&
      a.integralStart == b.integralStart
  let parametersAgree :=
    c.parameters.length == d.parameters.length &&
      c.parameters.all fun p ↦ d.parameters.get? p.1 == some p.2
  c.range.start == d.range.start && c.range.stop == d.range.stop &&
    c.range.count == d.range.count && c.swept == d.swept && parametersAgree &&
    c.curves.length == d.curves.length &&
    (c.curves.zip d.curves).all fun pair ↦ curveAgrees pair.1 pair.2

/-- What is wrong with a configuration, one line each. -/
inductive Issue where
  | range (i : RangeIssue Float)
  | emptyVariable
  /-- The swept variable is a parameter as well. -/
  | variableIsParameter (name : String)
  /-- The formula of a curve, counted from one, is blank. -/
  | emptyFormula (curve : Nat)

namespace Issue

def message : Issue → String
  | range (.countTooSmall count) => countMessage count
  | range (.stopBeforeStart stop start) =>
    "stop (" ++ Number.render stop ++ ") is before start (" ++ Number.render start ++ ")"
  | emptyVariable => "variable name is empty"
  | variableIsParameter name => "variable '" ++ name ++ "' is also defined as a parameter"
  | emptyFormula curve => "curve " ++ toString curve ++ " has an empty formula"

end Issue

/-- The curves without a formula, counted from `index`. -/
def emptyFormulas : Nat → List Curve → List Issue
  | _, [] => []
  | index, c :: rest =>
    (if (Text.trimChars c.formula.toList).isEmpty then [.emptyFormula index] else []) ++
      emptyFormulas (index + 1) rest

def issues (c : PlotConfig) : List Issue :=
  c.range.issues.map .range ++
    (if c.swept.isEmpty then [.emptyVariable] else []) ++
    (if (c.parameters.get? c.swept).isSome then [.variableIsParameter c.swept] else []) ++
    emptyFormulas 1 c.curves

/-- The number of intervals in digits. -/
def countText (c : PlotConfig) : Except ValueError String :=
  match Number.intText? c.range.count with
  | some digits => .ok digits
  | none => .error (.tooManyDigits none)

/-- The messages of the issues. None can be given if one tells of a number that is too long to be
written. -/
def problems (c : PlotConfig) : Except ValueError (List String) := do
  if c.range.count < 1 then
    let _ ← c.countText
  return c.issues.map Issue.message

end PlotConfig

end CurveCalc
