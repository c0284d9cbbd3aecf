import CurveCalc.Entries
import CurveCalc.Text.Quoted

/-!
The files of a directory, by path, and what keeps a path from being opened. A directory inside is
there if a file in it is. Outside there are the directories above, and one place where whatever is
written is lost.
-/

set_option autoImplicit false
set_option relaxedAutoImplicit false

namespace CurveCalc.CommandLine

/-- Contents by path. -/
abbrev Files := Entries String String

/-- Why a path cannot be opened. -/
inductive FileError where
  | missing (path : String)
  | isDirectory (path : String)
  | notDirectory (path : String)
  | nameTooLong (path : String)
  /-- The character of number zero in a path. -/
  | nullCharacter
  deriving DecidableEq

def FileError.message : FileError → String
  | missing path => "[Errno 2] No such file or directory: " ++ Text.quoted path
  | isDirectory path => "[Errno 21] Is a directory: " ++ Text.quoted path
  | notDirectory path => "[Errno 20] Not a directory: " ++ Text.quoted path
  | nameTooLong path => "[Errno 36] File name too long: " ++ Text.quoted path
  | nullCharacter => "embedded null byte"

namespace Files

/-- Where everything that is written is lost. -/
def sink : String := "/dev/null"

/-- Directories that are always there. -/
def knownDirectories : List String := ["/dev", "/tmp"]

/-- Longest name and longest path, in bytes. -/
def longestName : Nat := 255

def longestPath : Nat := 4095

/-- What a path leads to; a file that is not there yet can be made. -/
inductive Target where
  | directory
  | file (key : String)

/-- The directory around a directory. -/
def above (directory : String) : String :=
  if directory = "/" then "/"
  else
    let steps := directory.splitOn "/"
    if directory.isEmpty then ".."
    else if steps.getLast? = some ".." then directory ++ "/.."
    else if steps.length = 2 && directory.startsWith "/" then "/"
    else String.intercalate "/" steps.dropLast

/-- The one spelling of a path to something in a directory. -/
def within (directory name : String) : String :=
  if directory.isEmpty then name
  else if directory.endsWith "/" then directory ++ name
  else directory ++ "/" ++ name

/-- Whether there is a directory under a spelling. -/
def holdsDirectory (files : Files) (key : String) : Bool :=
  knownDirectories.contains key || files.any fun e ↦ e.1.startsWith (key ++ "/")

def holds (files : Files) (key : String) : Bool := key = sink || (files.get? key).isSome

/-- The contents of a file under its one spelling. -/
def contents? (files : Files) (key : String) : Option String :=
  if key = sink then some "" else files.get? key

/-- Follows the steps of a path from a directory on. -/
def follow (files : Files) (path : String) (directory : String) :
    List String → Except FileError String
  | [] => .ok directory
  | step :: rest =>
    if step = "" ∨ step = "." then follow files path directory rest
    else if step = ".." then follow files path (above directory) rest
    else if longestName < step.utf8ByteSize then .error (.nameTooLong path)
    else
      let key := within directory step
      if files.holdsDirectory key then follow files path key rest
      else if files.holds key then .error (.notDirectory path)
      else .error (.missing path)

/-- Where a path leads if it is opened for writing. With a slash at its end it can only mean a
directory. -/
def locate (files : Files) (path : String) : Except FileError Target := do
  if path.toList.contains '\x00' then throw .nullCharacter
  if path.isEmpty then throw (.missing path)
  if longestPath < path.utf8ByteSize then throw (.nameTooLong path)
  let steps := (path.splitOn "/").reverse
  let name := (steps.dropWhile fun step ↦ step = "").headD ""
  let around := (steps.dropWhile fun step ↦ step = "").tail.reverse
  let directory ← files.follow path (if path.startsWith "/" then "/" else "") around
  let key := within directory name
  if path.endsWith "/" || ["", ".", ".."].contains name || files.holdsDirectory key then
    return .directory
  if longestName < name.utf8ByteSize then throw (.nameTooLong path)
  return .file key

/-- What is at a path, if there is anything: a directory, or a file with its contents. -/
def find? (files : Files) (path : String) : Option (Option String) :=
  match files.locate path with
  | .error _ => none
  | .ok (.file key) => (files.contents? key).map some
  | .ok .directory =>
    -- with all its steps followed the path must lead to a directory
    match files.follow path (if path.startsWith "/" then "/" else "") (path.splitOn "/") with
    | .ok _ => some none
    | .error _ => none

def read? (files : Files) (path : String) : Option String := (files.find? path).join

/-- Whether there is anything at a path. -/
def occupied (files : Files) (path : String) : Bool := (files.find? path).isSome

/-- The spelling under which the file at a path is kept once it is opened for writing. -/
def keyOf (files : Files) (path : String) : Except FileError String :=
  match files.locate path with
  | .ok (.file key) => .ok key
  | .ok .directory => .error (.isDirectory path)
  | .error e => .error e

/-- Puts a text in the place of what a file held. -/
def replace (files : Files) (key text : String) : Files :=
  if key = sink then files else files.set key text

def write (files : Files) (path text : String) : Except FileError Files :=
  (files.keyOf path).map fun key ↦ files.replace key text

/-- Adds a text to the end of what a file held. -/
def append (files : Files) (key text : String) : Files :=
  files.replace key ((files.contents? key).getD "" ++ text)

/-- A path without its detours: each step up takes away the step before it. -/
def straight (path : String) : String :=
  let rooted := path.startsWith "/"
  let steps := (path.splitOn "/").foldl
    (fun steps step ↦
      if step = "" ∨ step = "." then steps
      else if step != ".." then step :: steps
      else
        match steps with
        | [] => if rooted then [] else [".."]
        | last :: rest => if last = ".." then ".." :: last :: rest else rest)
    []
  let text := String.intercalate "/" steps.reverse
  if rooted then "/" ++ text else if text.isEmpty then "." else text

end Files

end CurveCalc.CommandLine
