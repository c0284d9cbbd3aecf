import CurveCalc.Formula.Parser
import CurveCalc.Formula.Scan
import CurveCalc.Text.Blank

/-!
Compiling a formula: its blanks are dropped, its tokens read, and the code put out if nothing was
wrong.
-/

set_option autoImplicit false
set_option relaxedAutoImplicit false

namespace CurveCalc

/-- The state of the reader behind the last token of a formula. -/
def parse (maxDepth : Int) (source : String) : Parser :=
  let text := Text.withoutBlanks source
  Parser.run maxDepth (scan text) (scanFinish text)

/-- The code of a formula over its literals. -/
def compileLiterals (maxDepth : Int) (source : String) : Except CompileError (Program Literal) :=
  let s := parse maxDepth source
  if s.diagnostics.isEmpty then .ok ⟨s.code.toList, s.names⟩
  else .error ⟨s.diagnostics.toList⟩

/-- The code of a formula over doubles. -/
def compile (maxDepth : Int) (source : String) : Except CompileError (Program Float) :=
  (compileLiterals maxDepth source).map (Program.map Literal.toFloat)

end CurveCalc
