import CurveCalc.CommandLine.Run
import CurveCalc.Yaml.Format

/-!
The program on the files of the working directory, with configurations in YAML. Every file that an
argument names, or that a log of that name is rolled over to, is read before the command is carried
out. Afterwards the ones it has changed are written, and those that are gone are removed.
-/

set_option autoImplicit false
set_option relaxedAutoImplicit false

namespace CurveCalc

open CommandLine

/-- What an argument may name: itself, or what stands behind its equals sign. -/
def candidatePaths (argument : String) : List String :=
  [argument, String.ofList ((argument.toList.dropWhile fun c ↦ c != '=').drop 1)]

/-- A path with those of its backups. -/
def generations (path : String) : List String :=
  (List.range (Files.backupCount + 1)).map (Files.generation path)

/-- The contents of the files at the given paths, as far as they can be read. -/
def loadFiles : List String → IO Files
  | [] => return []
  | path :: rest => do
    let files ← loadFiles rest
    try
      let text ← IO.FS.readFile path
      return Entries.set files (Files.straight path) text
    catch _ => return files

/-- Writes the files that differ from what they were. -/
def storeFiles (before : Files) : Files → IO Unit
  | [] => return ()
  | (path, text) :: rest => do
    if Entries.get? before path != some text then IO.FS.writeFile path text
    storeFiles before rest

/-- Removes the files that are gone. -/
def removeFiles (after : Files) : Files → IO Unit
  | [] => return ()
  | (path, _) :: rest => do
    if (Entries.get? after path).isNone then IO.FS.removeFile path
    removeFiles after rest

def exitCode : Exit → UInt32
  | .code n => n.toUInt32
  | .crash _ => 1

end CurveCalc

open CurveCalc CurveCalc.CommandLine in
def main (arguments : List String) : IO UInt32 := do
  let paths := "plot.yaml" :: arguments.flatMap candidatePaths
  let files ← loadFiles (paths.flatMap generations)
  let stamp := toString (← IO.monoMsNow)
  let outcome := CommandLine.run Yaml.format stamp arguments files
  IO.print outcome.out
  IO.eprint outcome.usage
  IO.eprint outcome.err
  if !outcome.usage.isEmpty then IO.eprintln ""
  storeFiles files outcome.files
  removeFiles outcome.files files
  return exitCode outcome.exit
