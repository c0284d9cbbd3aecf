import CurveCalc.Formula.Token

/-!
What can be wrong with a formula, and where. How deeply a formula may be nested is limited by the
bound that is given and by nothing else, as if there were no end to the calls of an interpreter. The
bound is told with all of its digits.
-/

set_option autoImplicit false
set_option relaxedAutoImplicit false

namespace CurveCalc

/-- Most arguments of one call. -/
def maxArguments : Nat := 255

inductive Problem where
  | unexpectedCharacter
  | expectedExpression
  | expectedEnd
  /-- A group is not closed. -/
  | unclosedGroup
  /-- A function name is not followed by its arguments. -/
  | missingArguments
  /-- The arguments of a call are not closed. -/
  | unclosedArguments
  | tooManyArguments
  | tooDeeplyNested (maxDepth : Int)
  | invalidNumber
  | invalidOperator
  deriving DecidableEq

def Problem.message : Problem → String
  | unexpectedCharacter => "Unexpected character"
  | expectedExpression => "Expected expression"
  | expectedEnd => "Expected end of expression"
  | unclosedGroup => "Expected ')' after expression"
  | missingArguments => "Expected '(' after function name"
  | unclosedArguments => "Expected ')' after function argument list"
  | tooManyArguments => "Cannot have more than " ++ toString maxArguments ++ " arguments"
  | tooDeeplyNested maxDepth =>
    "Expression too deeply nested (max depth: " ++ toString maxDepth ++ ")"
  | invalidNumber => "Invalid number"
  | invalidOperator => "Invalid binary operator"

/-- A problem with the token it was noticed at. -/
structure Diagnostic where
  problem : Problem
  lexeme : String
  position : Nat
  deriving DecidableEq

/-- One line for a message about the given piece of text. -/
def diagnosticLine (message : String) (lexeme : String) : String :=
  "Error: " ++ message ++ " at " ++ (if lexeme.isEmpty then "end" else lexeme)

def Diagnostic.text (d : Diagnostic) : String :=
  diagnosticLine d.problem.message d.lexeme

/-- All problems of a formula, in the order they were noticed. -/
structure CompileError where
  diagnostics : List Diagnostic
  deriving DecidableEq

namespace CompileError

def text (e : CompileError) : String :=
  String.intercalate "\n" (e.diagnostics.map Diagnostic.text)

/-- Where the first problem is. -/
def position? (e : CompileError) : Option Nat :=
  e.diagnostics.head?.map Diagnostic.position

end CompileError

end CurveCalc
