import CurveCalc.Document.Format
import CurveCalc.Plot.Config

/-!
Configurations in files of some format.
-/

set_option autoImplicit false
set_option relaxedAutoImplicit false

namespace CurveCalc

/-- Why a file gives no configuration. -/
inductive ConfigFileError where
  | missing (path : String)
  | unloaded (e : LoadError)
  /-- The data of the file is no mapping. -/
  | notAMapping (path : String)
  | value (e : ValueError)
  deriving DecidableEq

/-- What is said of a file that gives no configuration, if anything is. -/
def ConfigFileError.message? : ConfigFileError → Option String
  | missing path => some ("Configuration file not found: " ++ path)
  | unloaded e => e.message?
  | notAMapping path => some ("Configuration file must contain a mapping: " ++ path)
  | value e => e.message?

namespace PlotConfig

/-- Reads the contents of a file, if it exists. A file without data has the defaults. -/
def ofFile (format : DataFormat) (path : String) (contents : Option String) :
    Except ConfigFileError PlotConfig := do
  match contents with
  | none => throw (.missing path)
  | some text =>
    match (← (format.load text).mapError .unloaded).unfold with
    | .null => (ofEntries []).mapError .value
    | .mapping entries => (ofEntries entries).mapError .value
    | _ => throw (.notAMapping path)

/-- The contents of a file that holds the configuration. -/
def toFile (format : DataFormat) (c : PlotConfig) : String := format.dump c.toEntries

end PlotConfig

end CurveCalc
