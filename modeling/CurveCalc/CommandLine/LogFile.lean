import CurveCalc.CommandLine.Files

/-!
Logs that are rolled over. A log that a line would fill makes room for a new one: it becomes the
first of its backups, each of these the next, and the last one is given up.
-/

set_option autoImplicit false
set_option relaxedAutoImplicit false

namespace CurveCalc.CommandLine.Files

/-- Number of bytes at which a log is full. -/
def fullLog : Nat := 1024 * 1024

def backupCount : Nat := 4

/-- What tells a log that has been rolled over so many times from a new one. -/
def ageMark : Nat → String
  | 0 => ""
  | n + 1 => "." ++ toString (n + 1)

/-- Where a log is kept after `n` rollovers. -/
def generation (log : String) (n : Nat) : String := log ++ ageMark n

/-- Where a file is kept after a move: with what it is in if that has moved, and nowhere if it has
made room. -/
def movedKey? (source target key : String) : Option String :=
  if key = target then none
  else if key = source then some target
  else if key.startsWith (source ++ "/") then
    some (target ++ String.ofList (key.toList.drop source.length))
  else some key

/-- Moves a file, or a directory with all that is in it, if there is one. A file makes room for it,
and a directory does not. -/
def move? (files : Files) (source target : String) : Option Files :=
  if !(files.holds source || files.holdsDirectory source) then some files
  else if files.holdsDirectory target then none
  else some (files.filterMap fun e ↦ (movedKey? source target e.1).map fun key ↦ (key, e.2))

/-- Makes each of the first `n` generations of a log one older, the oldest first. -/
def shift? (log : String) : Nat → Files → Option Files
  | 0, files => some files
  | n + 1, files => (files.move? (generation log n) (generation log (n + 1))).bind (shift? log n)

/-- Makes room for a new log, if that is possible. It is not if the name of a backup is too long. -/
def rollover? (files : Files) (log : String) : Option Files :=
  if longestName < ((log.splitOn "/").getLastD "").utf8ByteSize + 2 then none
  else shift? log backupCount files

/-- Whether a line would fill a log, its characters counted and not their bytes. Where everything is
lost nothing gets full. -/
def isFull (files : Files) (log line : String) : Bool :=
  log != sink && fullLog ≤ ((files.contents? log).getD "").utf8ByteSize + line.length

/-- Writes a line to a log. It is lost where there has to be room first and the file system makes
none. -/
def note (files : Files) (log line : String) : Files :=
  if files.isFull log line then
    match files.rollover? log with
    | some files => files.append log line
    | none => files
  else files.append log line

end CurveCalc.CommandLine.Files
