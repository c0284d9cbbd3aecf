import CurveCalc.Proofs.Expression.Tree
import CurveCalc.Proofs.Formula.Symbol

/-!
Formulas as they are written: trees that keep their parentheses and their signs. Not every tree can
be read off its symbols, only one that is grouped as the binding strengths want it
(`Formula.WellGrouped`): sums and differences bind loosest, then a sign in front of its operand,
then products, quotients and remainders, then powers, then factorials; operators of one strength are
read from left to right; and a sign takes in all that follows it up to the next sum or difference,
also where it stands behind another operator.
-/

set_option autoImplicit false
set_option relaxedAutoImplicit false

namespace CurveCalc

/-- A sign in front of an operand. -/
inductive Sign where
  | plus | minus
  deriving DecidableEq

namespace Sign

/-- The operator that is written with the same character. -/
def operator : Sign → BinaryOperator
  | plus => .add
  | minus => .subtract

def ofOperator? : BinaryOperator → Option Sign
  | .add => some plus
  | .subtract => some minus
  | _ => none

theorem ofOperator?_operator (sign : Sign) : ofOperator? sign.operator = some sign := by
  cases sign <;> rfl

theorem operator_of_ofOperator? {op : BinaryOperator} {sign : Sign}
    (h : ofOperator? op = some sign) : sign.operator = op := by
  cases op <;> cases h <;> rfl

end Sign

inductive Formula (κ ν : Type) where
  | number (x : κ)
  | identifier (v : ν)
  | group (inner : Formula κ ν)
  | signed (sign : Sign) (operand : Formula κ ν)
  | factorial (operand : Formula κ ν)
  | binary (op : BinaryOperator) (left right : Formula κ ν)
  | call (f : Builtin) (arguments : List (Formula κ ν))

namespace Formula

variable {κ κ' ν ν' : Type}

/-- Induction that gives the statement of every argument of a call. -/
@[elab_as_elim, induction_eliminator]
theorem induction {motive : Formula κ ν → Prop} (number : ∀ x, motive (.number x))
    (identifier : ∀ v, motive (.identifier v)) (group : ∀ e, motive e → motive (.group e))
    (signed : ∀ sign e, motive e → motive (.signed sign e))
    (factorial : ∀ e, motive e → motive (.factorial e))
    (binary : ∀ op left right, motive left → motive right → motive (.binary op left right))
    (call : ∀ f arguments, (∀ e ∈ arguments, motive e) → motive (.call f arguments)) :
    ∀ t, motive t
  | .number x => number x
  | .identifier v => identifier v
  | .group e => group e (induction number identifier group signed factorial binary call e)
  | .signed s e => signed s e (induction number identifier group signed factorial binary call e)
  | .factorial e => factorial e (induction number identifier group signed factorial binary call e)
  | .binary op l r =>
    binary op l r (induction number identifier group signed factorial binary call l)
      (induction number identifier group signed factorial binary call r)
  | .call f es =>
    call f es fun e _ ↦ induction number identifier group signed factorial binary call e

mutual

/-- What the formula says. Parentheses and plus signs say nothing. -/
def expression : Formula κ ν → Expression κ ν
  | number x => .constant x
  | identifier v => .var v
  | group e => expression e
  | signed .plus e => expression e
  | signed .minus e => .unary .negate (expression e)
  | factorial e => .unary .factorial (expression e)
  | binary op l r => .binary op (expression l) (expression r)
  | call f es => .call f (expressionAll es)

def expressionAll : List (Formula κ ν) → List (Expression κ ν)
  | [] => []
  | e :: es => expression e :: expressionAll es

end

mutual

/-- The symbols the formula is written with. -/
def symbols : Formula κ ν → List (Symbol κ ν)
  | number x => [.number x]
  | identifier v => [.identifier v]
  | group e => .leftParen :: (symbols e ++ [.rightParen])
  | signed sign e => .operator sign.operator :: symbols e
  | factorial e => symbols e ++ [.bang]
  | binary op l r => symbols l ++ .operator op :: symbols r
  | call f es => .function f :: .leftParen :: (symbolsAll es ++ [.rightParen])

/-- The symbols of arguments, with commas between them. -/
def symbolsAll : List (Formula κ ν) → List (Symbol κ ν)
  | [] => []
  | e :: es => symbols e ++ (if es.isEmpty then [] else .comma :: symbolsAll es)

end

mutual

/-- How deep the formula nests: groups, argument lists and signs count, chains of operators do not.
-/
def depth : Formula κ ν → Nat
  | number _ => 0
  | identifier _ => 0
  | group e => depth e + 1
  | signed _ e => depth e + 1
  | factorial e => depth e
  | binary _ l r => max (depth l) (depth r)
  | call _ es => depthAll es

/-- How deep arguments nest, if there are any, one level below their call. -/
def depthAll : List (Formula κ ν) → Nat
  | [] => 0
  | e :: es => max (depth e + 1) (depthAll es)

end

mutual

/-- The largest number of arguments of a call in the formula. -/
def width : Formula κ ν → Nat
  | number _ => 0
  | identifier _ => 0
  | group e => width e
  | signed _ e => width e
  | factorial e => width e
  | binary _ l r => max (width l) (width r)
  | call _ es => max es.length (widthAll es)

def widthAll : List (Formula κ ν) → Nat
  | [] => 0
  | e :: es => max (width e) (widthAll es)

end

mutual

/-- The names in the formula, in the order in which they are written. -/
def identifiers : Formula κ ν → List ν
  | number _ => []
  | identifier v => [v]
  | group e => identifiers e
  | signed _ e => identifiers e
  | factorial e => identifiers e
  | binary _ l r => identifiers l ++ identifiers r
  | call _ es => identifiersAll es

def identifiersAll : List (Formula κ ν) → List ν
  | [] => []
  | e :: es => identifiers e ++ identifiersAll es

end

mutual

/-- The formula over other numbers and names. -/
def map (f : κ → κ') (g : ν → ν') : Formula κ ν → Formula κ' ν'
  | number x => number (f x)
  | identifier v => identifier (g v)
  | group e => group (map f g e)
  | signed sign e => signed sign (map f g e)
  | factorial e => factorial (map f g e)
  | binary op l r => binary op (map f g l) (map f g r)
  | call h es => call h (mapAll f g es)

def mapAll (f : κ → κ') (g : ν → ν') : List (Formula κ ν) → List (Formula κ' ν')
  | [] => []
  | e :: es => map f g e :: mapAll f g es

end

/-- How tightly the outermost part of the formula binds. -/
def precedence : Formula κ ν → Precedence
  | signed _ _ => .unary
  | factorial _ => .factorial
  | binary op _ _ => op.precedence
  | _ => .primary

def IsSigned : Formula κ ν → Prop
  | signed _ _ => True
  | _ => False

/-- The formula ends with the operand of a sign that no parenthesis closes. -/
def EndsSigned : Formula κ ν → Prop
  | signed _ _ => True
  | binary _ _ r => EndsSigned r
  | _ => False

/-- The tree is the one that the binding strengths make of its symbols. A left operand binds at
least as tightly as its operator, and only a sum or difference ends the operand of a sign; a right
operand binds more tightly than its operator, or has a sign in front of it. -/
inductive WellGrouped : Formula κ ν → Prop where
  | number (x : κ) : WellGrouped (.number x)
  | identifier (v : ν) : WellGrouped (.identifier v)
  | group {e : Formula κ ν} (he : WellGrouped e) : WellGrouped (.group e)
  | signed (sign : Sign) {e : Formula κ ν} (he : WellGrouped e)
    (hbinds : Precedence.unary.level ≤ e.precedence.level) : WellGrouped (.signed sign e)
  | factorial {e : Formula κ ν} (he : WellGrouped e)
    (hbinds : Precedence.factorial.level ≤ e.precedence.level) : WellGrouped (.factorial e)
  | binary (op : BinaryOperator) {l r : Formula κ ν} (hl : WellGrouped l) (hr : WellGrouped r)
    (hleft : op.precedence.level ≤ l.precedence.level)
    (hends : l.EndsSigned → op.precedence = .term)
    (hright : op.precedence.level < r.precedence.level ∨ r.IsSigned) :
    WellGrouped (.binary op l r)
  | call (f : Builtin) {es : List (Formula κ ν)} (hes : ∀ e ∈ es, WellGrouped e) :
    WellGrouped (.call f es)

theorem expressionAll_eq (ts : List (Formula κ ν)) :
    expressionAll ts = ts.map expression := by
  induction ts with
  | nil => rfl
  | cons t ts ih => rw [expressionAll, ih, List.map_cons]

theorem identifiersAll_eq (ts : List (Formula κ ν)) :
    identifiersAll ts = ts.flatMap identifiers := by
  induction ts with
  | nil => rfl
  | cons t ts ih => rw [identifiersAll, ih, List.flatMap_cons]

theorem depthAll_eq (ts : List (Formula κ ν)) :
    depthAll ts = (ts.map fun t ↦ t.depth + 1).foldr max 0 := by
  induction ts with
  | nil => rfl
  | cons t ts ih => rw [depthAll, ih, List.map_cons, List.foldr_cons]

theorem widthAll_eq (ts : List (Formula κ ν)) : widthAll ts = (ts.map width).foldr max 0 := by
  induction ts with
  | nil => rfl
  | cons t ts ih => rw [widthAll, ih, List.map_cons, List.foldr_cons]

theorem vars_expression (t : Formula κ ν) : t.expression.vars = t.identifiers := by
  induction t with
  | number x => rfl
  | identifier v => rfl
  | group e ih => exact ih
  | signed sign e ih => cases sign <;> exact ih
  | factorial e ih => exact ih
  | binary op l r ihl ihr => rw [expression, Expression.vars, ihl, ihr, identifiers]
  | call f es ih =>
    rw [expression, Expression.vars, identifiers, expressionAll_eq, Expression.varsAll_eq,
      identifiersAll_eq, List.flatMap_map]
    exact List.flatMap_congr ih

/-! Over other numbers and names a formula is the same in all that depends on its form. -/

section Map

variable (f : κ → κ') (g : ν → ν')

theorem mapAll_eq (es : List (Formula κ ν)) : mapAll f g es = es.map (map f g) := by
  induction es with
  | nil => rfl
  | cons e es ih => rw [mapAll, ih, List.map_cons]

theorem symbolsAll_map {es : List (Formula κ ν)}
    (hes : ∀ e ∈ es, (e.map f g).symbols = e.symbols.map (Symbol.map f g)) :
    symbolsAll (mapAll f g es) = (symbolsAll es).map (Symbol.map f g) := by
  induction es with
  | nil => rfl
  | cons e es ih =>
    rw [mapAll, symbolsAll, symbolsAll, List.map_append, hes e List.mem_cons_self,
      ih fun u hu ↦ hes u (List.mem_cons_of_mem e hu)]
    cases es <;> rfl

theorem symbols_map (e : Formula κ ν) : (e.map f g).symbols = e.symbols.map (Symbol.map f g) := by
  induction e with
  | number x => rfl
  | identifier v => rfl
  | group e ih =>
    rw [map, symbols, symbols, ih, List.map_cons, List.map_append]
    rfl
  | signed sign e ih =>
    rw [map, symbols, symbols, ih, List.map_cons]
    rfl
  | factorial e ih =>
    rw [map, symbols, symbols, ih, List.map_append]
    rfl
  | binary op l r ihl ihr =>
    rw [map, symbols, symbols, ihl, ihr, List.map_append, List.map_cons]
    rfl
  | call h es ih =>
    rw [map, symbols, symbols, symbolsAll_map f g ih, List.map_cons, List.map_cons, List.map_append]
    rfl

theorem depth_map (e : Formula κ ν) : (e.map f g).depth = e.depth := by
  induction e with
  | call h es ih =>
    rw [map, depth, depth, mapAll_eq, depthAll_eq, depthAll_eq, List.map_map]
    exact congrArg (List.foldr max 0) (List.map_congr_left fun e he ↦ congrArg (· + 1) (ih e he))
  | _ => simp_all [map, depth]

theorem width_map (e : Formula κ ν) : (e.map f g).width = e.width := by
  induction e with
  | call h es ih =>
    have hall : es.map (width ∘ map f g) = es.map width := List.map_congr_left ih
    rw [map, width, width, mapAll_eq, widthAll_eq, widthAll_eq, List.map_map, hall,
      List.length_map]
  | _ => simp_all [map, width]

theorem expression_map (e : Formula κ ν) : (e.map f g).expression = e.expression.map f g := by
  induction e with
  | number x => rfl
  | identifier v => rfl
  | group e ih => exact ih
  | signed sign e ih =>
    cases sign with
    | plus => exact ih
    | minus => exact congrArg (Expression.unary .negate) ih
  | factorial e ih => exact congrArg (Expression.unary .factorial) ih
  | binary op l r ihl ihr =>
    rw [map, expression, expression, Expression.map, ihl, ihr]
  | call h es ih =>
    rw [map, expression, expression, Expression.map, mapAll_eq, expressionAll_eq, expressionAll_eq,
      Expression.mapAll_eq, List.map_map, List.map_map]
    exact congrArg (Expression.call h) (List.map_congr_left ih)

theorem precedence_map (e : Formula κ ν) : (e.map f g).precedence = e.precedence := by
  cases e <;> rfl

theorem isSigned_map (e : Formula κ ν) : (e.map f g).IsSigned ↔ e.IsSigned := by
  cases e <;> exact Iff.rfl

theorem endsSigned_map (e : Formula κ ν) : (e.map f g).EndsSigned ↔ e.EndsSigned := by
  induction e with
  | binary op l r ihl ihr => exact ihr
  | _ => exact Iff.rfl

theorem WellGrouped.map {e : Formula κ ν} (he : e.WellGrouped) : (e.map f g).WellGrouped := by
  induction he with
  | number x => exact .number (f x)
  | identifier v => exact .identifier (g v)
  | group _ ih => exact .group ih
  | signed sign _ hbinds ih => exact .signed sign ih (by rwa [precedence_map])
  | factorial _ hbinds ih => exact .factorial ih (by rwa [precedence_map])
  | binary op _ _ hleft hends hright ihl ihr =>
    refine .binary op ihl ihr (by rwa [precedence_map]) ?_ ?_
    · rwa [endsSigned_map]
    · rwa [precedence_map, isSigned_map]
  | call h hes ih =>
    refine .call h fun e he ↦ ?_
    rw [mapAll_eq] at he
    obtain ⟨u, hu, rfl⟩ := List.mem_map.mp he
    exact ih u hu

end Map

end Formula

end CurveCalc
