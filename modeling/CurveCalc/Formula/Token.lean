import CurveCalc.Formula.Builtin
import CurveCalc.Text.Quoted

/-!
The pieces a formula is read in.
-/

set_option autoImplicit false
set_option relaxedAutoImplicit false

namespace CurveCalc

inductive TokenKind where
  | number | plus | minus | star | slash | caret | percent | bang
  | leftParen | rightParen | comma | identifier | function | finish | error
  deriving DecidableEq

namespace TokenKind

def all : List TokenKind :=
  [number, plus, minus, star, slash, caret, percent, bang, leftParen, rightParen, comma, identifier,
    function, finish, error]

def name : TokenKind → String
  | number => "NUMBER"
  | plus => "PLUS"
  | minus => "MINUS"
  | star => "STAR"
  | slash => "SLASH"
  | caret => "CARET"
  | percent => "PERCENT"
  | bang => "BANG"
  | leftParen => "LPAREN"
  | rightParen => "RPAREN"
  | comma => "COMMA"
  | identifier => "IDENTIFIER"
  | function => "FUNCTION"
  | finish => "EOF"
  | error => "ERROR"

/-- What stands for the kind in a table of operators: its character, where it has only one. -/
def symbol : TokenKind → String
  | plus => "+"
  | minus => "-"
  | star => "*"
  | slash => "/"
  | caret => "^"
  | percent => "%"
  | bang => "!"
  | leftParen => "("
  | rightParen => ")"
  | comma => ","
  | kind => kind.name

def ofName? (name : String) : Option TokenKind :=
  all.find? fun kind ↦ kind.name == name

end TokenKind

/-- What the reader of tokens already knows of one besides its text. -/
inductive TokenValue where
  | absent
  | constant (c : NamedConstant)
  | function (f : Builtin)
  | unexpectedCharacter
  deriving DecidableEq

structure Token where
  kind : TokenKind
  lexeme : String
  position : Nat
  value : TokenValue
  deriving DecidableEq

namespace Token

/-- A token shown for debugging. -/
def describe (t : Token) : String :=
  "FXLToken(" ++ t.kind.name ++ ", " ++ Text.quoted t.lexeme ++ ", pos=" ++ toString t.position ++
    ")"

/-- What every reading beyond the last character gives. -/
def finish (position : Nat) : Token := ⟨.finish, "", position, .absent⟩

end Token

end CurveCalc
