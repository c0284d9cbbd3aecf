/-!
Help texts, each as the lines of its usage and the lines of what follows that.
-/

set_option autoImplicit false
set_option relaxedAutoImplicit false

namespace CurveCalc.CommandLine.Help

/-- Lines of text, each with its end. -/
def joined (lines : List String) : String :=
  String.join (lines.map fun line ↦ line ++ "\n")

/-- The whole text. -/
def text (usage help : List String) : String := joined (usage ++ "" :: help)

def programUsage : List String :=
  ["usage: fxl [-h] [--verbose] [--log-file LOG_FILE]",
    "           \x7beval,disassemble,sample,init\x7d ..."]

def programHelp : List String :=
  ["Formula expression compiler and evaluator",
    "",
    "positional arguments:",
    "  \x7beval,disassemble,sample,init\x7d",
    "                        Available commands",
    "    eval                Evaluate a formula",
    "    disassemble         Show compiled bytecode",
    "    sample              Sample formulas over a range",
    "    init                Create an example plot configuration",
    "",
    "options:",
    "  -h, --help            show this help message and exit",
    "  --verbose, -v         Verbose (debug) logging",
    "  --log-file LOG_FILE   Write logs to this file instead of stderr",
    "",
    "Examples:",
    "  fxl eval \"3x + sin(pi*x^2 / 4)\" --var x=1.5",
    "  fxl disassemble \"2*3 + x\"",
    "  fxl sample --formula \"x^2\" --start -1 --stop 1 --count 20",
    "  fxl init --config plot.yaml",
    "  fxl sample --config plot.yaml --format json --output out.json",
    "        "]

def evalUsage : List String :=
  ["usage: fxl eval [-h] [--var NAME=VALUE] [--no-optimize] formula"]

def evalHelp : List String :=
  ["positional arguments:",
    "  formula           Formula text",
    "",
    "options:",
    "  -h, --help        show this help message and exit",
    "  --var NAME=VALUE  Variable value (repeatable)",
    "  --no-optimize     Skip constant folding"]

def disassembleUsage : List String :=
  ["usage: fxl disassemble [-h] formula"]

def disassembleHelp : List String :=
  ["positional arguments:",
    "  formula     Formula text",
    "",
    "options:",
    "  -h, --help  show this help message and exit"]

def sampleUsage : List String :=
  ["usage: fxl sample [-h] (--formula FORMULA | --config CONFIG) [--start START]",
    "                  [--stop STOP] [--count COUNT] [--variable VARIABLE]",
    "                  [--var NAME=VALUE] [--derivative] [--integral]",
    "                  [--format \x7bcsv,json\x7d] [--output OUTPUT]"]

def sampleHelp : List String :=
  ["options:",
    "  -h, --help            show this help message and exit",
    "  --formula FORMULA     Formula to sample",
    "  --config CONFIG, -c CONFIG",
    "                        YAML plot configuration",
    "  --start START         First value of the swept variable",
    "  --stop STOP           Last value of the swept variable",
    "  --count COUNT         Number of intervals",
    "  --variable VARIABLE   Name of the swept variable",
    "  --var NAME=VALUE      Value of another variable (repeatable)",
    "  --derivative          Also output the derivative",
    "  --integral            Also output the integral",
    "  --format \x7bcsv,json\x7d, -f \x7bcsv,json\x7d",
    "                        Output format",
    "  --output OUTPUT, -o OUTPUT",
    "                        Output file path"]

def initUsage : List String :=
  ["usage: fxl init [-h] [--config CONFIG] [--force]"]

def initHelp : List String :=
  ["options:",
    "  -h, --help            show this help message and exit",
    "  --config CONFIG, -c CONFIG",
    "                        Configuration file path",
    "  --force               Overwrite existing configuration"]

end CurveCalc.CommandLine.Help
