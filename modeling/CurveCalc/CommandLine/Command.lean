import CurveCalc.CommandLine.Arguments
import CurveCalc.CommandLine.Help

/-!
The commands of the program, and the arguments that ask for them.
-/

set_option autoImplicit false
set_option relaxedAutoImplicit false

namespace CurveCalc.CommandLine

inductive OutputFormat where
  | csv | json
  deriving DecidableEq

/-- What to sample, and where to put it. -/
structure SampleRequest where
  formula : Option String
  config : Option String
  start : Option Float
  stop : Option Float
  count : Option Int
  swept : Option String
  assignments : List String
  derivative : Bool
  integral : Bool
  format : OutputFormat
  output : Option String

inductive Command where
  | evaluate (formula : String) (assignments : List String) (folding : Bool)
  | disassemble (formula : String)
  | sample (request : SampleRequest)
  | init (path : String) (force : Bool)

/-- Where notes go, and which. -/
structure Logging where
  verbose : Bool
  file : Option String

/-- What the arguments of the program ask for. -/
inductive Request where
  /-- The help text, and the number to end with. -/
  | help (text : String) (exit : Nat)
  | usageError (usage program message : String)
  | run (logging : Logging) (command : Command)

def helpOption : OptionSpec := ⟨["-h", "--help"], .help⟩

def configOption : OptionSpec := ⟨["--config", "-c"], .value .text⟩

def varOption : OptionSpec := ⟨["--var"], .value .text⟩

def programGrammar : Grammar where
  program := "fxl"
  usage := Help.joined Help.programUsage
  help := Help.text Help.programUsage Help.programHelp
  options :=
    [helpOption, ⟨["--verbose", "-v"], .flag⟩, ⟨["--log-file"], .value .text⟩]
  positional := .command "command" ["eval", "disassemble", "sample", "init"]
  exclusive := []

def evaluateGrammar : Grammar where
  program := "fxl eval"
  usage := Help.joined Help.evalUsage
  help := Help.text Help.evalUsage Help.evalHelp
  options := [helpOption, varOption, ⟨["--no-optimize"], .flag⟩]
  positional := .required "formula"
  exclusive := []

def disassembleGrammar : Grammar where
  program := "fxl disassemble"
  usage := Help.joined Help.disassembleUsage
  help := Help.text Help.disassembleUsage Help.disassembleHelp
  options := [helpOption]
  positional := .required "formula"
  exclusive := []

def sampleGrammar : Grammar where
  program := "fxl sample"
  usage := Help.joined Help.sampleUsage
  help := Help.text Help.sampleUsage Help.sampleHelp
  options :=
    [helpOption, ⟨["--formula"], .value .text⟩, configOption, ⟨["--start"], .value .float⟩,
      ⟨["--stop"], .value .float⟩, ⟨["--count"], .value .int⟩, ⟨["--variable"], .value .text⟩,
      varOption, ⟨["--derivative"], .flag⟩, ⟨["--integral"], .flag⟩,
      ⟨["--format", "-f"], .value (.choice ["csv", "json"])⟩,
      ⟨["--output", "-o"], .value .text⟩]
  positional := .none
  exclusive := ["--formula", "--config/-c"]

def initGrammar : Grammar where
  program := "fxl init"
  usage := Help.joined Help.initUsage
  help := Help.text Help.initUsage Help.initHelp
  options := [helpOption, configOption, ⟨["--force"], .flag⟩]
  positional := .none
  exclusive := []

/-- The grammar of a command's own arguments, and how they are understood. -/
def commandOf (name : String) : Grammar × (Arguments → Command) :=
  if name = "eval" then
    (evaluateGrammar, fun a ↦
      .evaluate (a.positional.getD "") (a.texts "--var") (!a.has "--no-optimize"))
  else if name = "disassemble" then
    (disassembleGrammar, fun a ↦ .disassemble (a.positional.getD ""))
  else if name = "sample" then
    (sampleGrammar, fun a ↦ .sample
      { formula := a.text? "--formula"
        config := a.text? "--config"
        start := a.float? "--start"
        stop := a.float? "--stop"
        count := a.int? "--count"
        swept := a.text? "--variable"
        assignments := a.texts "--var"
        derivative := a.has "--derivative"
        integral := a.has "--integral"
        format := if a.text? "--format" = some "json" then .json else .csv
        output := a.text? "--output" })
  else
    (initGrammar, fun a ↦ .init ((a.text? "--config").getD "plot.yaml") (a.has "--force"))

def stopped (g : Grammar) : Stop → Request
  | .help => .help g.help 0
  | .error e => .usageError g.usage g.program e.message

/-- A text that says something, if there is one. -/
def nonEmpty (text : Option String) : Option String := text.filter fun s ↦ !s.isEmpty

/-- What arguments ask for. What a command leaves over is refused by the program itself, once the
command's own arguments are right. -/
def Request.ofArguments (arguments : List String) : Request :=
  match programGrammar.read arguments with
  | .error s => stopped programGrammar s
  | .ok found =>
    let refuse := fun (extras : List String) (otherwise : Request) ↦
      if extras.isEmpty then otherwise
      else stopped programGrammar (.error (.unrecognized extras))
    match found.command with
    | none => refuse found.extras (.help programGrammar.help 1)
    | some (name, rest) =>
      let command := commandOf name
      match command.1.read rest with
      | .error s => stopped command.1 s
      | .ok own =>
        refuse (found.extras ++ own.extras)
          (.run ⟨found.has "--verbose", nonEmpty (found.text? "--log-file")⟩ (command.2 own))

end CurveCalc.CommandLine
