import CurveCalc.Benchmark.Measure
import CurveCalc.CommandLine.Arguments
import CurveCalc.CommandLine.Files
import CurveCalc.CommandLine.Help

/-!
The benchmark as a program: which formulas it measures, its arguments, and what it prints and saves.
-/

set_option autoImplicit false
set_option relaxedAutoImplicit false

namespace CurveCalc.Benchmark

open CommandLine

def longFormula : String :=
  String.intercalate "+" (List.replicate 4 "3*x+sin(pi*x^2/4)+4*tan(pi*x)+x^2+2*x+1")

def cases : List Case :=
  [{ name := "quadratic", category := "polynomial", expression := "x^2+2*x+1" },
    { name := "implicit quadratic", category := "polynomial", expression := "3x^2 - 2x + 1" },
    { name := "constant heavy", category := "polynomial"
      expression := "2+3+3*x+sin(pi*x^2/4)+4*tan(pi*x)+4+3" },
    { name := "long formula", category := "polynomial", expression := longFormula },
    { name := "sine wave", category := "trig", expression := "2*sin(pi/4*x)" },
    { name := "gaussian", category := "trig", expression := "exp(-x^2/2)/sqrt(2pi)" },
    { name := "log base", category := "functions", expression := "log(2, x+1) + ln(x+1)" },
    { name := "factorial", category := "functions", expression := "(x % 10)! / 2^(x % 10)" }]

def usage : List String :=
  ["usage: fxl_benchmark.py [-h] [--points POINTS] [--category CAT] [--save FILE]",
    "                        [--quiet]"]

def help : List String :=
  ["FXL Performance Benchmark",
    "",
    "options:",
    "  -h, --help       show this help message and exit",
    "  --points POINTS  Sample points per iteration (default: 1000)",
    "  --category CAT   Run only benchmarks in this category",
    "  --save FILE      Save results to JSON file",
    "  --quiet          Minimal output"]

def grammar : Grammar where
  program := "fxl_benchmark.py"
  usage := Help.joined usage
  help := Help.text usage help
  options :=
    [⟨["-h", "--help"], .help⟩, ⟨["--points"], .value .int⟩, ⟨["--category"], .value .text⟩,
      ⟨["--save"], .value .text⟩, ⟨["--quiet"], .flag⟩]
  positional := .none
  exclusive := []

/-- What a run may not decide by itself: how far the clock moves at a time, and what a saved file
says about its circumstances. -/
structure Setting where
  tick : Float
  timestamp : String
  version : String

def lower (text : String) : String := String.ofList (text.toList.map Number.lowerAscii)

/-- The categories there are, in the order of the alphabet. -/
def categories : List String :=
  ((cases.map Case.category).eraseDups.mergeSort fun a b ↦ decide (a ≤ b))

/-- The cases of a category, or all of them if none is named. -/
def select (category : Option String) : List Case :=
  match category.filter fun c ↦ !c.isEmpty with
  | none => cases
  | some c => cases.filter fun k ↦ lower k.category == lower c

/-- What is saved of measurements. -/
def savedText (s : Setting) (ms : List Measurement) : String :=
  (JsonData.write? .named 0
    (.object
      [("timestamp", .text s.timestamp), ("python_version", .text s.version),
        ("results", .list (ms.map Measurement.toJson))])).getD ""

inductive Crash where
  | measure (e : MeasureError)
  | file (e : FileError)

inductive Exit where
  | code (n : Nat)
  | crash (c : Crash)

structure Outcome where
  exit : Exit
  out : String
  err : String
  /-- The usage that goes before an error about arguments. -/
  usage : String
  files : Files

/-- Measures cases, prints what is wanted of the results, and saves them if a path is given. -/
def measureAndSave (s : Setting) (points : Int) (quiet : Bool) (save : Option String)
    (chosen : List Case) (files : Files) : Outcome :=
  let r := measureAll chosen points s.tick (!quiet)
  match r.2 with
  | .error e => ⟨.crash (.measure e), r.1, "", "", files⟩
  | .ok ms =>
    let out := r.1 ++ (if quiet then "" else table ms)
    match save.filter fun path ↦ !path.isEmpty with
    | none => ⟨.code 0, out, "", "", files⟩
    | some path =>
      match files.write path (savedText s ms) with
      | .error e => ⟨.crash (.file e), out, "", "", files⟩
      | .ok files => ⟨.code 0, out ++ "\nResults saved to: " ++ path ++ "\n", "", "", files⟩

/-- Runs the benchmark with the given arguments. -/
def run (s : Setting) (arguments : List String) (files : Files) : Outcome :=
  let refuse := fun (e : ArgumentError) ↦
    (⟨.code 2, "", grammar.program ++ ": error: " ++ e.message, grammar.usage, files⟩ : Outcome)
  match grammar.read arguments with
  | .error .help => ⟨.code 0, grammar.help, "", "", files⟩
  | .error (.error e) => refuse e
  | .ok found =>
    if !found.extras.isEmpty then refuse (.unrecognized found.extras)
    else
      let category := found.text? "--category"
      let chosen := select category
      if chosen.isEmpty then
        ⟨.code 0, "No benchmarks found for category: " ++ category.getD "" ++
          "\nAvailable categories: " ++ String.intercalate ", " categories ++ "\n", "", "", files⟩
      else
        measureAndSave s ((found.int? "--points").getD 1000) (found.has "--quiet")
          (found.text? "--save") chosen files

end CurveCalc.Benchmark
