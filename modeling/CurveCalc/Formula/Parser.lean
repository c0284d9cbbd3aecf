import CurveCalc.Code.Instruction
import CurveCalc.Formula.Diagnostic
import CurveCalc.Formula.Literal
import CurveCalc.Formula.Precedence

/-!
Reading an expression by precedence climbing. There is no tree: each instruction is put out as soon
as its operator and operands have been read. A problem is noted and reading goes on, so that one
pass finds every mistake; only nesting beyond the limit ends it, by skipping what is left.

Every action that reads a subexpression is handed the reader to use for it. The readers are built up
from `Parser.expression`, which spends one unit of an allowance for each expression inside another.
-/

set_option autoImplicit false
set_option relaxedAutoImplicit false

namespace CurveCalc

/-- What the reader relies on never to happen. Each is noted where it would have to be dealt with.
-/
inductive Fault where
  /-- Expressions inside one another have used up the allowance. -/
  | allowanceSpent
  /-- A loop over operators or arguments has outlived the tokens. -/
  | tokensSpent
  /-- Nesting was found too deep a second time. -/
  | secondCutoff
  /-- A token behind an expression asks for an action that belongs at the start of one. -/
  | strayAction
  /-- A function token without its function. -/
  | missingFunction
  deriving DecidableEq

/-- The state of a reader between two tokens. -/
structure Parser where
  maxDepth : Int
  previous : Token
  current : Token
  /-- The tokens behind the current one, without the end. -/
  rest : List Token
  finish : Token
  code : Array (Instruction Literal)
  names : List String
  diagnostics : Array Diagnostic
  depth : Nat
  /-- Nesting was too deep, and what is left of the formula has been skipped. -/
  cutOff : Bool
  faults : List Fault

namespace Parser

def emit (i : Instruction Literal) (s : Parser) : Parser :=
  { s with code := s.code.push i }

def fault (f : Fault) (s : Parser) : Parser :=
  { s with faults := f :: s.faults }

/-- Notes a problem at a token, unless the rest has been skipped. -/
def reportAt (t : Token) (p : Problem) (s : Parser) : Parser :=
  if s.cutOff then s else { s with diagnostics := s.diagnostics.push ⟨p, t.lexeme, t.position⟩ }

def report (p : Problem) (s : Parser) : Parser := s.reportAt s.current p

/-- Makes the first proper token of the list the current one and notes the characters before it that
belong to no token. -/
def load : List Token → Parser → Parser
  | [], s => { s with current := s.finish, rest := [] }
  | t :: rest, s =>
    if t.kind = .error then load rest (s.reportAt t .unexpectedCharacter)
    else { s with current := t, rest := rest }

def advance (s : Parser) : Parser :=
  load s.rest { s with previous := s.current }

/-- Reads one token and notes a problem if it is of another kind. -/
def consume (kind : TokenKind) (p : Problem) (s : Parser) : Parser :=
  let s := s.advance
  if s.previous.kind = kind then s else s.report p

/-- Makes the end the current token without noting anything. -/
def skipTo : List Token → Parser → Parser
  | [], s =>
    if s.current.kind = .finish then s
    else { s with previous := s.current, current := s.finish, rest := [] }
  | t :: rest, s =>
    if t.kind = .error then skipTo rest s
    else skipTo rest { s with previous := s.current, current := t }

/-- Ends the reading because of its nesting. -/
def stopNesting (s : Parser) : Parser :=
  if s.cutOff then s.fault .secondCutoff
  else
    let s := s.report (.tooDeeplyNested s.maxDepth)
    skipTo s.rest { s with cutOff := true }

/-- Reads an expression one level below the current one. -/
def nested (sub : Precedence → Parser → Parser) (p : Precedence) (s : Parser) : Parser :=
  if s.maxDepth ≤ s.depth then s.stopNesting
  else
    let s := sub p { s with depth := s.depth + 1 }
    { s with depth := s.depth - 1 }

/-- The slot of a variable, with the names that include it. -/
def slotOf (names : List String) (name : String) : Nat × List String :=
  match names.idxOf? name with
  | some slot => (slot, names)
  | none => (names.length, names ++ [name])

def number (s : Parser) : Parser :=
  match Literal.ofToken? s.previous with
  | some x => s.emit (.constant (.real x))
  | none => s.report .invalidNumber

def identifier (s : Parser) : Parser :=
  let slot := slotOf s.names s.previous.lexeme
  { s with names := slot.2 }.emit (.load (.whole slot.1))

def grouping (sub : Precedence → Parser → Parser) (s : Parser) : Parser :=
  (s.nested sub .term).consume .rightParen .unclosedGroup

def unary (sub : Precedence → Parser → Parser) (s : Parser) : Parser :=
  let sign := s.previous.kind
  let s := s.nested sub .unary
  if sign = .minus then s.emit (.unary .negate) else s

def operator? : TokenKind → Option BinaryOperator
  | .plus => some .add
  | .minus => some .subtract
  | .star => some .multiply
  | .slash => some .divide
  | .caret => some .power
  | .percent => some .modulo
  | _ => none

def binary (sub : Precedence → Parser → Parser) (s : Parser) : Parser :=
  let kind := s.previous.kind
  let s := sub kind.rule.operandPrecedence s
  match operator? kind with
  | some op => s.emit (.binary op)
  | none => s.report .invalidOperator

/-- Reads arguments up to the last comma that separates two of them; `count` is how many have been
read before. -/
def arguments (sub : Precedence → Parser → Parser) : Nat → Nat → Parser → Nat × Parser
  | 0, count, s => (count, s.fault .tokensSpent)
  | steps + 1, count, s =>
    let s := s.nested sub .term
    let s := if count = maxArguments then s.report .tooManyArguments else s
    if s.current.kind = .comma then arguments sub steps (count + 1) s.advance else (count + 1, s)

def argumentList (sub : Precedence → Parser → Parser) (s : Parser) : Nat × Parser :=
  let r := if s.current.kind = .rightParen then (0, s) else arguments sub (s.rest.length + 2) 0 s
  (r.1, r.2.consume .rightParen .unclosedArguments)

def functionCall (sub : Precedence → Parser → Parser) (s : Parser) : Parser :=
  match s.previous.value with
  | .function f =>
    let s := s.consume .leftParen .missingArguments
    let r := s.argumentList sub
    r.2.emit (.call (.whole f.number) r.1)
  | _ => s.fault .missingFunction

/-- Does what the token just read asks for. -/
def act (sub : Precedence → Parser → Parser) (a : Action) (s : Parser) : Parser :=
  match a with
  | .none => s.report .expectedExpression
  | .number => s.number
  | .identifier => s.identifier
  | .grouping => s.grouping sub
  | .unary => s.unary sub
  | .binary => s.binary sub
  | .factorial => s.emit (.unary .factorial)
  | .functionCall => s.functionCall sub

/-- Does what a token behind an expression asks for. -/
def follow (sub : Precedence → Parser → Parser) (s : Parser) : Parser :=
  let a := s.previous.kind.rule.following
  let s := if a = .binary ∨ a = .factorial then s else s.fault .strayAction
  s.act sub a

/-- Reads operators for as long as they bind at least this tightly. -/
def operators (sub : Precedence → Parser → Parser) (p : Precedence) : Nat → Parser → Parser
  | 0, s => if p.level ≤ s.current.kind.rule.precedence.level then s.fault .tokensSpent else s
  | steps + 1, s =>
    if p.level ≤ s.current.kind.rule.precedence.level then
      operators sub p steps (s.advance.follow sub)
    else s

/-- Reads an expression whose operators bind at least as tightly as `p`. -/
def expression : Nat → Precedence → Parser → Parser
  | 0, _, s => s.fault .allowanceSpent
  | allowance + 1, p, s =>
    let s := s.advance
    let s := s.act (expression allowance) s.previous.kind.rule.opening
    operators (expression allowance) p (s.rest.length + 1) s

/-- Expressions inside one another that any formula can need: four for each level of nesting, and
four outside of all. -/
def allowance (maxDepth : Int) : Nat := 4 * (maxDepth.toNat + 1)

/-- The state before the first token. -/
def start (maxDepth : Int) (tokens : List Token) (finish : Token) : Parser where
  maxDepth := maxDepth
  previous := Token.finish 0
  current := Token.finish 0
  rest := tokens
  finish := finish
  code := #[]
  names := []
  diagnostics := #[]
  depth := 0
  cutOff := false
  faults := []

/-- Reads a whole formula. -/
def run (maxDepth : Int) (tokens : List Token) (finish : Token) : Parser :=
  let s := (start maxDepth tokens finish).advance
  let s := expression (allowance maxDepth) .term s
  if s.current.kind = .finish then s else s.report .expectedEnd

end Parser

end CurveCalc
