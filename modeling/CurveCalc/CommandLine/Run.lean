import CurveCalc.CommandLine.Command
import CurveCalc.CommandLine.Files
import CurveCalc.CommandLine.Log
import CurveCalc.CommandLine.LogFile
import CurveCalc.Plot.File
import CurveCalc.Plot.Output

/-!
Carrying out a command on the files of a directory: what is printed, what the files hold afterwards,
and how the program ends.
-/

set_option autoImplicit false
set_option relaxedAutoImplicit false

namespace CurveCalc.CommandLine

/-- A failure that no message is made of. -/
inductive Crash where
  | config (e : ConfigFileError)
  | gridTooLarge
  /-- Neither a formula nor a configuration is named. -/
  | missingFormula
  /-- Code cannot be shown. -/
  | listing (e : ListingError)
  | logFile (e : FileError)

/-- How the program ends. -/
inductive Exit where
  | code (n : Nat)
  | crash (c : Crash)

/-- What a command has printed, and the files as it leaves them. -/
structure Console where
  logging : Logging
  /-- What tells the time of a note. -/
  stamp : String
  files : Files
  out : String
  err : String

namespace Console

def print (text : String) (c : Console) : Console := { c with out := c.out ++ text }

def printError (text : String) (c : Console) : Console := { c with err := c.err ++ text }

/-- Writes a note where notes go, if notes of its level are wanted. -/
def note (n : LogNote) (c : Console) : Console :=
  if n.level = .debug && !c.logging.verbose then c
  else
    match c.logging.file with
    | none => c.printError (n.line c.stamp)
    | some key => { c with files := c.files.note key (n.line c.stamp) }

def notes (ns : List LogNote) (c : Console) : Console :=
  ns.foldl (fun c n ↦ c.note n) c

/-- Ends with a message. -/
def refuse (text : String) (c : Console) : Console × Exit :=
  (c.printError (text ++ "\n"), .code 1)

/-- Ends with a message of one line. -/
def fail (message : String) (c : Console) : Console × Exit := c.refuse ("Error: " ++ message)

end Console

/-- Ends because of a configuration, with a message if there is one. -/
def configFailure (e : ConfigFileError) (c : Console) : Console × Exit :=
  match e.message? with
  | some message => c.fail message
  | none => (c, .crash (.config e))

def runEvaluate (formula : String) (assignments : List String) (folding : Bool) (c : Console) :
    Console × Exit :=
  match readAssignments assignments with
  | .error e => c.fail e.message
  | .ok bindings =>
    let t : Toolchain := { folding := folding }
    let c := c.notes (programNotes t folding formula)
    match t.evaluate formula bindings with
    | .error e => c.refuse e.text
    | .ok x => (c.print (Number.render x ++ "\n"), .code 0)

def runDisassemble (formula : String) (c : Console) : Console × Exit :=
  let t : Toolchain := {}
  let compiled := t.compile formula
  let c := c.notes (compileNotes formula compiled)
  match compiled with
  | .error e => c.refuse e.text
  | .ok p =>
    match p.listing with
    | .error e => (c, .crash (.listing e))
    | .ok text =>
      let c := c.print ("Compiled:\n" ++ text ++ "\n\nOptimized:\n")
      let folded := Toolchain.fold p
      let c := c.notes (foldNotes p folded)
      match folded with
      | .error e => c.refuse e.text
      | .ok q =>
        match q.listing with
        | .error e => (c, .crash (.listing e))
        | .ok text => (c.print (text ++ "\n"), .code 0)

/-- Reads a configuration from a file. -/
def loadConfig (format : DataFormat) (files : Files) (path : String) :
    Except ConfigFileError PlotConfig :=
  PlotConfig.ofFile format path (files.read? path)

/-- The configuration a request is about, before its own settings; `none` if it names none. -/
def baseConfig (format : DataFormat) (r : SampleRequest) (files : Files) :
    Option (Except ConfigFileError PlotConfig) :=
  match nonEmpty r.config with
  | some path => some (loadConfig format files path)
  | none => r.formula.map fun formula ↦
    .ok { curves := [{ formula := formula, derivative := r.derivative, integral := r.integral }] }

/-- A configuration with the settings of a request in place of its own. -/
def SampleRequest.adjust (r : SampleRequest) (c : PlotConfig) : PlotConfig :=
  { c with
    range := ⟨r.start.getD c.range.start, r.stop.getD c.range.stop, r.count.getD c.range.count⟩
    swept := (nonEmpty r.swept).getD c.swept }

/-- What is written for the records; `none` if they hold what the format has no form for. -/
def outputText? (format : OutputFormat) (records : List Record) : Option String :=
  match format with
  | .csv => some (csvText records)
  | .json => (jsonText? records).map fun text ↦ text ++ "\n"

/-- A line for each record that failed, the first of them counted as `index`. -/
def failureLines : Nat → List Record → List String
  | _, [] => []
  | index, r :: rest =>
    (match r.error with
      | some e => ["Curve " ++ toString index ++ " (" ++ r.formula ++ "): " ++ e.text ++ "\n"]
      | none => []) ++ failureLines (index + 1) rest

/-- Opens what the records are written to, and tells the file if it is one. A file is emptied by
that. -/
def openOutput (r : SampleRequest) (c : Console) : Except FileError (Option String × Console) :=
  match nonEmpty r.output with
  | none => .ok (none, c)
  | some path => (c.files.keyOf path).map fun key ↦
    (some key, { c with files := c.files.replace key "" })

/-- Writes a text to what has been opened. -/
def writeOutput (file : Option String) (text : String) (c : Console) : Console :=
  match file with
  | none => c.print text
  | some key => { c with files := c.files.replace key text }

def nonFiniteMessage : String := "Out of range float values are not JSON compliant"

/-- Samples a configuration that has no issues. -/
def runRecords (r : SampleRequest) (config : PlotConfig) (bindings : Bindings) (c : Console) :
    Console × Exit :=
  let t : Toolchain := {}
  let result := config.records t bindings
  let c := c.notes (plotNotes t config result)
  match result with
  | .error (.grid .countTooLarge) => (c, .crash .gridTooLarge)
  | .error e => c.fail e.message
  | .ok records =>
    match openOutput r c with
    | .error e => c.fail e.message
    | .ok (file, c) =>
      match outputText? r.format records with
      | none => c.fail nonFiniteMessage
      | some text =>
        let lines := failureLines 1 records
        ((writeOutput file text c).printError (String.join lines),
          .code (if lines.isEmpty then 0 else 1))

def problemsText (problems : List String) : String :=
  "Configuration errors found:\n" ++
    String.join (problems.map fun line ↦ "  - " ++ line ++ "\n")

def runSample (format : DataFormat) (r : SampleRequest) (c : Console) : Console × Exit :=
  match nonEmpty r.config with
  | some path =>
    if c.files.occupied path && (c.files.read? path).isNone then
      c.fail (FileError.isDirectory path).message
    else sampleBase c
  | none => sampleBase c
where
  sampleBase (c : Console) : Console × Exit :=
    match baseConfig format r c.files with
    | none => (c, .crash .missingFormula)
    | some (.error e) => configFailure e c
    | some (.ok base) =>
      let config := r.adjust base
      match config.problems with
      | .error e => configFailure (.value e) c
      | .ok [] =>
        match readAssignments r.assignments with
        | .error e => c.fail e.message
        | .ok bindings => runRecords r config bindings c
      | .ok problems => (c.printError (problemsText problems), .code 1)

def runInit (format : DataFormat) (path : String) (force : Bool) (c : Console) : Console × Exit :=
  if c.files.occupied path && !force then
    c.refuse ("Configuration file already exists: " ++ path ++ "\nUse --force to overwrite.")
  else
    match c.files.write path (PlotConfig.sample.toFile format) with
    | .error e => c.fail e.message
    | .ok files =>
      ({ c with files := files }.print ("Configuration written to: " ++ path ++ "\n"), .code 0)

def runCommand (format : DataFormat) : Command → Console → Console × Exit
  | .evaluate formula assignments folding => runEvaluate formula assignments folding
  | .disassemble formula => runDisassemble formula
  | .sample r => runSample format r
  | .init path force => runInit format path force

/-- What a run of the program leaves. -/
structure Outcome where
  exit : Exit
  out : String
  err : String
  /-- The usage that goes before an error about arguments. -/
  usage : String
  files : Files

/-- Runs the program with the given arguments. Configurations are in files of the given format. -/
def run (format : DataFormat) (stamp : String) (arguments : List String) (files : Files) :
    Outcome :=
  match Request.ofArguments arguments with
  | .help text exit => ⟨.code exit, text, "", "", files⟩
  | .usageError usage program message =>
    ⟨.code 2, "", program ++ ": error: " ++ message, usage, files⟩
  | .run logging command =>
    let opened : Except FileError (Option String) := match logging.file with
      | none => .ok none
      | some path => (files.keyOf (Files.straight path)).map some
    match opened with
    | .error e => ⟨.crash (.logFile e), "", "", "", files⟩
    | .ok file =>
      let files := match file with
        | none => files
        | some key => files.append key ""
      let r := runCommand format command ⟨⟨logging.verbose, file⟩, stamp, files, "", ""⟩
      ⟨r.2, r.1.out, r.1.err, "", r.1.files⟩

end CurveCalc.CommandLine
