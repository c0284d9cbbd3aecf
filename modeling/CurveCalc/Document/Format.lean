import CurveCalc.Document.Value

/-!
Formats of files, as a library reads and writes them. What is read from a file and written to it is
up to the library: whatever follows from a format here follows for every one.
-/

set_option autoImplicit false
set_option relaxedAutoImplicit false

namespace CurveCalc

/-- Why there are no data in a file. -/
inductive LoadError where
  /-- The text is not in the format. -/
  | malformed
  /-- Reading the text comes to no end. -/
  | endless
  /-- Some value in it is of the right form and means nothing. -/
  | value (e : ValueError)
  deriving DecidableEq

/-- What is said of a file without data, if anything is. -/
def LoadError.message? : LoadError → Option String
  | malformed => none
  | endless => none
  | value e => e.message?

structure DataFormat where
  /-- The data in a file with these contents. -/
  load : String → Except LoadError Value
  /-- The contents of a file for a mapping with these entries. -/
  dump : List (Value × Value) → String

end CurveCalc
