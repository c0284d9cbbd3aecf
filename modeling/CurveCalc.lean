import CurveCalc.Benchmark.Run
import CurveCalc.Code.Agreement
import CurveCalc.Main
import CurveCalc.Proofs.Code.Folding
import CurveCalc.Proofs.Formula.Compilation
import CurveCalc.Proofs.Code.Settled
import CurveCalc.Proofs.Code.WellFormed
import CurveCalc.Proofs.Code.Loads
import CurveCalc.Proofs.Code.Segments
import CurveCalc.Proofs.Expression.Listing
import CurveCalc.Proofs.Formula.Safety
import CurveCalc.Proofs.Formula.Closed
import CurveCalc.Proofs.Formula.MissingValues
import CurveCalc.Proofs.Formula.Pieces
import CurveCalc.Proofs.Formula.ExplicitProducts
import CurveCalc.Proofs.Formula.Renaming
import CurveCalc.Proofs.Plot.Records
import CurveCalc.Proofs.Machine.Peak
import CurveCalc.Proofs.Formula.Progress
import CurveCalc.Proofs.Formula.Diagnostics
import CurveCalc.Proofs.Formula.StrayCharacters
import CurveCalc.Proofs.Formula.StackNeed
import CurveCalc.Proofs.Formula.Allowance
import CurveCalc.Proofs.Machine.Faults
import CurveCalc.Proofs.Machine.History
import CurveCalc.Proofs.CommandLine.SampleCommand
import CurveCalc.Proofs.CommandLine.Crashes
import CurveCalc.Proofs.Number.Extended
import CurveCalc.Proofs.Number.Exact
import CurveCalc.Proofs.Number.WholeNumbers
import CurveCalc.Proofs.Plot.Saving
import CurveCalc.Proofs.Sampling.Areas
import CurveCalc.Proofs.Sampling.Grid
import CurveCalc.Proofs.Formula.Unreached
import CurveCalc.Proofs.Sampling.Assignments
import CurveCalc.Proofs.Number.ShortestDigits
import CurveCalc.Proofs.Number.Rendering
import CurveCalc.Proofs.Plot.Tables
import CurveCalc.Proofs.CommandLine.LogFile
