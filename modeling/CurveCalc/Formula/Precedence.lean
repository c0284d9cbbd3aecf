import CurveCalc.Formula.Token

/-!
How tightly operators bind, and what each kind of token does at the start of an expression and
behind one.
-/

set_option autoImplicit false
set_option relaxedAutoImplicit false

namespace CurveCalc

/-- Binding strengths, from the weakest to the strongest. -/
inductive Precedence where
  | none
  /-- Sums and differences. -/
  | term
  /-- A sign in front of its operand. -/
  | unary
  /-- Products, quotients and remainders. -/
  | factor
  | power
  | factorial
  /-- Calls and groups. -/
  | call
  | primary
  deriving DecidableEq

namespace Precedence

def all : List Precedence := [none, term, unary, factor, power, factorial, call, primary]

def level : Precedence → Nat
  | none => 0
  | term => 1
  | unary => 2
  | factor => 3
  | power => 4
  | factorial => 5
  | call => 6
  | primary => 7

def name : Precedence → String
  | none => "NONE"
  | term => "TERM"
  | unary => "UNARY"
  | factor => "FACTOR"
  | power => "POWER"
  | factorial => "FACTORIAL"
  | call => "CALL"
  | primary => "PRIMARY"

def ofName? (name : String) : Option Precedence :=
  all.find? fun p ↦ p.name == name

/-- The next stronger level; the strongest is its own successor. -/
def nextHigher : Precedence → Precedence
  | none => term
  | term => unary
  | unary => factor
  | factor => power
  | power => factorial
  | factorial => call
  | call => primary
  | primary => primary

end Precedence

/-- What is to be done at a token. -/
inductive Action where
  | none | number | identifier | grouping | unary | binary | factorial | functionCall
  deriving DecidableEq

def Action.name : Action → String
  | none => "none"
  | number => "number"
  | identifier => "variable"
  | grouping => "grouping"
  | unary => "unary"
  | binary => "binary"
  | factorial => "factorial"
  | functionCall => "function_call"

/-- What a token does at the start of an expression, what it does behind one, and how tightly it
then binds. -/
structure Rule where
  opening : Action
  following : Action
  precedence : Precedence
  deriving DecidableEq

/-- The strength at which the right operand of an operator is read. -/
def Rule.operandPrecedence (r : Rule) : Precedence :=
  if r.precedence = .none then .term else r.precedence.nextHigher

def TokenKind.rule : TokenKind → Rule
  | .number => ⟨.number, .none, .none⟩
  | .identifier => ⟨.identifier, .none, .none⟩
  | .function => ⟨.functionCall, .none, .none⟩
  | .leftParen => ⟨.grouping, .none, .none⟩
  | .plus => ⟨.unary, .binary, .term⟩
  | .minus => ⟨.unary, .binary, .term⟩
  | .star => ⟨.none, .binary, .factor⟩
  | .slash => ⟨.none, .binary, .factor⟩
  | .percent => ⟨.none, .binary, .factor⟩
  | .caret => ⟨.none, .binary, .power⟩
  | .bang => ⟨.none, .factorial, .factorial⟩
  | .rightParen => ⟨.none, .none, .none⟩
  | .comma => ⟨.none, .none, .none⟩
  | .finish => ⟨.none, .none, .none⟩
  | .error => ⟨.none, .none, .none⟩

end CurveCalc
