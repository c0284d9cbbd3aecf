import CurveCalc.Document.Json
import CurveCalc.Toolchain

/-!
Measuring formulas: how long compiling, folding and running take. The clock moves by the same time
whenever it is looked at, so every interval that is measured has that length, and what is worth
measuring is the order in which failures come up.
-/

set_option autoImplicit false
set_option relaxedAutoImplicit false

namespace CurveCalc.Benchmark

/-- A formula to measure. -/
structure Case where
  name : String
  category : String
  expression : String
  iterations : Int := 20

/-- What was measured. Times of running are for one point. -/
structure Measurement where
  name : String
  category : String
  expression : String
  iterations : Int
  points : Int
  compileMean : Float
  optimizeMean : Float
  execMean : Float
  execMedian : Float
  optimizedExecMean : Float
  optimizedExecMedian : Float
  instructions : Int
  optimizedInstructions : Int

/-- Why measuring ends early. -/
inductive MeasureError where
  | formula (e : FormulaError)
  /-- No points to divide a time among. -/
  | noPoints
  /-- More points than a time can be divided among. -/
  | tooManyPoints
  /-- No iterations to take a mean of. -/
  | noIterations

/-- Runs a program at the points `from`, `from + 1`, …: the first variable takes their number, all
others are zero. -/
def runPoints (p : Program Float) (capacity : Int) : Nat → Nat → Except FormulaError Unit
  | 0, _ => .ok ()
  | left + 1, i =>
    let values := match p.names with
      | [] => []
      | _ :: rest => Float.ofNat i :: rest.map fun _ ↦ 0.0
    match p.run values capacity with
    | .error e => .error (.run e)
    | .ok _ => runPoints p capacity left (i + 1)

/-- Measures one formula. -/
def Case.measure (c : Case) (points : Int) (tick : Float) : Except MeasureError Measurement := do
  let t : Toolchain := {}
  let p ← (t.compile c.expression).mapError .formula
  let q ← (Toolchain.fold p).mapError .formula
  if c.iterations ≤ 0 then throw .noIterations
  (runPoints p t.stackSize points.toNat 0).mapError .formula
  if points = 0 then throw .noPoints
  let some count := Number.floatOfInt? points | throw .tooManyPoints
  (runPoints q t.stackSize points.toNat 0).mapError .formula
  let each := tick / count
  return {
    name := c.name
    category := c.category
    expression := c.expression
    iterations := c.iterations
    points := points
    compileMean := tick
    optimizeMean := tick
    execMean := each
    execMedian := each
    optimizedExecMean := each
    optimizedExecMedian := each
    instructions := p.code.length
    optimizedInstructions := q.code.length }

/-- A time in millionths of a second. -/
def micro (seconds : Float) (places : Nat) : String :=
  Number.fixed places (seconds * 1000000.0)

/-- Measures formulas one after the other and tells of each, the first one counted as `index`,
unless `verbose` is false. What was told before a failure stays. -/
def measureFrom (points : Int) (tick : Float) (verbose : Bool) (total : Nat) :
    Nat → List Case → String × Except MeasureError (List Measurement)
  | _, [] => ("", .ok [])
  | index, c :: rest =>
    let title :=
      if verbose then
        "[" ++ toString index ++ "/" ++ toString total ++ "] " ++ c.name ++ "... "
      else ""
    match c.measure points tick with
    | .error e => (title, .error e)
    | .ok m =>
      let told := if verbose then micro m.optimizedExecMean 2 ++ "us/point\n" else ""
      let more := measureFrom points tick verbose total (index + 1) rest
      (title ++ told ++ more.1, more.2.map fun ms ↦ m :: ms)

def measureAll (cases : List Case) (points : Int) (tick : Float) (verbose : Bool) :
    String × Except MeasureError (List Measurement) :=
  measureFrom points tick verbose cases.length 1 cases

namespace Measurement

def toJson (m : Measurement) : JsonData :=
  .object
    [("name", .text m.name), ("category", .text m.category), ("expression", .text m.expression),
      ("iterations", .int m.iterations), ("points", .int m.points),
      ("compile_mean", .float m.compileMean), ("optimize_mean", .float m.optimizeMean),
      ("exec_mean", .float m.execMean), ("exec_median", .float m.execMedian),
      ("optimized_exec_mean", .float m.optimizedExecMean),
      ("optimized_exec_median", .float m.optimizedExecMedian),
      ("instructions", .int m.instructions),
      ("optimized_instructions", .int m.optimizedInstructions)]

/-- How much faster the folded program runs; zero where that took no time. -/
def speedup (m : Measurement) : Float :=
  if m.optimizedExecMean > 0.0 then m.execMean / m.optimizedExecMean else 0.0

/-- A line of the table. -/
def line (m : Measurement) : String :=
  let sizes := toString m.instructions ++ "->" ++ toString m.optimizedInstructions
  let time := fun (seconds : Float) (places : Nat) ↦
    " " ++ Text.padLeft 9 (micro seconds places) ++ "us"
  Text.padRight 22 m.name ++ " " ++ Text.padRight 10 sizes ++ time m.compileMean 1 ++
    time m.optimizeMean 1 ++ time m.execMean 2 ++ time m.optimizedExecMean 2 ++ " " ++
    Text.padLeft 7 (Number.fixed 2 m.speedup) ++ "x\n"

end Measurement

/-- A line drawn across the table. -/
def rule (c : Char) : String := String.ofList (List.replicate 110 c) ++ "\n"

def heading : String :=
  String.intercalate " "
    [Text.padRight 22 "Benchmark", Text.padRight 10 "Instrs", Text.padRight 12 "Compile",
      Text.padRight 12 "Optimize", Text.padRight 12 "Exec/pt", Text.padRight 12 "Opt exec/pt",
      Text.padRight 8 "Speedup"] ++ "\n"

/-- The table of all measurements. -/
def table (ms : List Measurement) : String :=
  "\n" ++ rule '=' ++ "BENCHMARK RESULTS\n" ++ rule '=' ++ heading ++ rule '-' ++
    String.join (ms.map Measurement.line)

end CurveCalc.Benchmark
