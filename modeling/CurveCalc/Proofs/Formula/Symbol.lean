import CurveCalc.Formula.Parser

/-!
What a token says, apart from where it stands and how it is spelled. A sign and the operator of the
same character are one symbol. The parser goes by the symbols of its tokens alone.
-/

set_option autoImplicit false
set_option relaxedAutoImplicit false

namespace CurveCalc

theorem Precedence.level_le_primary (p : Precedence) : p.level ≤ Precedence.primary.level := by
  cases p <;> decide

namespace BinaryOperator

def kind : BinaryOperator → TokenKind
  | add => .plus
  | subtract => .minus
  | multiply => .star
  | divide => .slash
  | power => .caret
  | modulo => .percent

/-- How tightly an operator binds its operands. -/
def precedence : BinaryOperator → Precedence
  | add => .term
  | subtract => .term
  | multiply => .factor
  | divide => .factor
  | modulo => .factor
  | power => .power

theorem operator?_kind (op : BinaryOperator) : Parser.operator? op.kind = some op := by
  cases op <;> rfl

theorem following_kind (op : BinaryOperator) : op.kind.rule.following = .binary := by
  cases op <;> rfl

theorem level_lt_primary (op : BinaryOperator) :
    op.precedence.level < Precedence.primary.level := by cases op <;> decide

theorem level_pos (op : BinaryOperator) : 1 ≤ op.precedence.level := by
  cases op <;> decide

theorem eq_term_of_lt (op : BinaryOperator) (h : op.precedence.level < Precedence.unary.level) :
    op.precedence = .term := by
  cases op <;> first | rfl | exact absurd h (by decide)

/-- The strength at which the parser reads a right operand is the next one up. -/
theorem operandPrecedence_kind (op : BinaryOperator) :
    op.kind.rule.operandPrecedence = op.precedence.nextHigher := by
  cases op <;> rfl

theorem level_nextHigher (op : BinaryOperator) :
    op.precedence.nextHigher.level = op.precedence.level + 1 := by
  cases op <;> rfl

end BinaryOperator

/-- What a token says. Numbers and names are left open. -/
inductive Symbol (κ ν : Type) where
  | number (x : κ)
  | identifier (v : ν)
  | function (f : Builtin)
  | operator (op : BinaryOperator)
  | bang
  | leftParen
  | rightParen
  | comma
  deriving DecidableEq

namespace Symbol

variable {κ κ' ν ν' : Type}

def map (f : κ → κ') (g : ν → ν') : Symbol κ ν → Symbol κ' ν'
  | number x => number (f x)
  | identifier v => identifier (g v)
  | function h => function h
  | operator op => operator op
  | bang => bang
  | leftParen => leftParen
  | rightParen => rightParen
  | comma => comma

/-- The kind of the tokens that say this. -/
def kind : Symbol κ ν → TokenKind
  | number _ => .number
  | identifier _ => .identifier
  | function _ => .function
  | operator op => op.kind
  | bang => .bang
  | leftParen => .leftParen
  | rightParen => .rightParen
  | comma => .comma

/-- How tightly the symbol binds what stands before it. -/
def precedence : Symbol κ ν → Precedence
  | operator op => op.precedence
  | bang => .factorial
  | _ => .none

theorem rule_kind (x : Symbol κ ν) : x.kind.rule.precedence = x.precedence := by
  cases x with
  | operator op => cases op <;> rfl
  | _ => rfl

theorem kind_ne_finish (x : Symbol κ ν) : x.kind ≠ .finish := by
  cases x with
  | operator op => cases op <;> exact TokenKind.noConfusion
  | _ => exact TokenKind.noConfusion

theorem kind_ne_error (x : Symbol κ ν) : x.kind ≠ .error := by
  cases x with
  | operator op => cases op <;> exact TokenKind.noConfusion
  | _ => exact TokenKind.noConfusion

/-- Symbols that bring parts of a formula together but say nothing by themselves. -/
def IsMark : Symbol κ ν → Prop
  | leftParen => True
  | rightParen => True
  | comma => True
  | _ => False

theorem IsMark.eq_of_kind {x y : Symbol κ ν} (hy : y.IsMark) (h : x.kind = y.kind) : x = y := by
  cases y with
  | leftParen =>
    cases x with
    | leftParen => rfl
    | operator op => cases op <;> cases h
    | _ => cases h
  | rightParen =>
    cases x with
    | rightParen => rfl
    | operator op => cases op <;> cases h
    | _ => cases h
  | comma =>
    cases x with
    | comma => rfl
    | operator op => cases op <;> cases h
    | _ => cases h
  | _ => exact hy.elim

/-- How tightly the first of the symbols binds what stands before them; the end does not bind. -/
def strength : List (Symbol κ ν) → Nat
  | [] => 0
  | x :: _ => x.precedence.level

end Symbol

/-- What the token says, if it is a proper one. -/
def Token.symbol? (t : Token) : Option (Symbol Literal String) :=
  match t.kind with
  | .number => (Literal.ofToken? t).map .number
  | .identifier => some (.identifier t.lexeme)
  | .function =>
    match t.value with
    | .function f => some (.function f)
    | _ => none
  | .bang => some .bang
  | .leftParen => some .leftParen
  | .rightParen => some .rightParen
  | .comma => some .comma
  | kind => (Parser.operator? kind).map .operator

namespace Token

variable {t : Token} {x : Symbol Literal String}

theorem kind_of_symbol? (h : t.symbol? = some x) : t.kind = x.kind := by
  unfold symbol? at h
  cases hkind : t.kind <;> simp only [hkind, Parser.operator?, Option.map_some, Option.map_none,
    Option.map_eq_some_iff, Option.some.injEq, reduceCtorEq] at h
  case number =>
    obtain ⟨y, -, rfl⟩ := h
    rfl
  case function =>
    cases hvalue : t.value with
    | function f =>
      simp only [hvalue, Option.some.injEq] at h
      subst h
      rfl
    | _ => simp [hvalue] at h
  all_goals
    subst h
    rfl

end Token

end CurveCalc
