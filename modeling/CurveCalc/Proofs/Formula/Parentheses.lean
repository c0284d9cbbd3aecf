import CurveCalc.Proofs.Formula.Tree

/-!
Parentheses where the binding strengths require them. The formula of an expression tree has an
operand in parentheses if it would not be read as that operand without them (`Expression.formula`);
it is well grouped and says what the tree says.
-/

set_option autoImplicit false
set_option relaxedAutoImplicit false

namespace CurveCalc

namespace Formula

variable {κ ν : Type}

instance : (t : Formula κ ν) → Decidable t.IsSigned
  | signed _ _ => isTrue trivial
  | number _ => isFalse id
  | identifier _ => isFalse id
  | group _ => isFalse id
  | factorial _ => isFalse id
  | binary _ _ _ => isFalse id
  | call _ _ => isFalse id

instance decidableEndsSigned : (t : Formula κ ν) → Decidable t.EndsSigned
  | signed _ _ => isTrue trivial
  | binary _ _ r => decidableEndsSigned r
  | number _ => isFalse id
  | identifier _ => isFalse id
  | group _ => isFalse id
  | factorial _ => isFalse id
  | call _ _ => isFalse id

/-- The formula, in parentheses unless they are not needed. -/
def groupUnless (p : Prop) [Decidable p] (t : Formula κ ν) : Formula κ ν :=
  if p then t else group t

theorem expression_groupUnless (p : Prop) [Decidable p] (t : Formula κ ν) :
    (t.groupUnless p).expression = t.expression := by
  unfold groupUnless
  split <;> rfl

/-- A formula that is in parentheses unless it may be without them: what it is like in either case.
-/
theorem groupUnless_induction {motive : Formula κ ν → Prop} {p : Prop} [Decidable p]
    {t : Formula κ ν} (bare : p → motive t) (grouped : motive (group t)) :
    motive (t.groupUnless p) := by
  unfold groupUnless
  split
  · exact bare (by assumption)
  · exact grouped

theorem WellGrouped.groupUnless {t : Formula κ ν} (ht : t.WellGrouped) (p : Prop) [Decidable p] :
    (t.groupUnless p).WellGrouped := groupUnless_induction (fun _ ↦ ht) (.group ht)

theorem le_precedence_groupUnless (t : Formula κ ν) (p : Precedence) :
    p.level ≤ (t.groupUnless (p.level ≤ t.precedence.level)).precedence.level :=
  groupUnless_induction (motive := fun u ↦ p.level ≤ u.precedence.level) id p.level_le_primary

end Formula

mutual

/-- The formula of a tree, with those parentheses that it needs to be read as the tree again. -/
def Expression.formula {κ ν : Type} : Expression κ ν → Formula κ ν
  | .constant x => .number x
  | .var v => .identifier v
  | .unary .negate e =>
    .signed .minus (e.formula.groupUnless (Precedence.unary.level ≤ e.formula.precedence.level))
  | .unary .factorial e =>
    .factorial
      (e.formula.groupUnless (Precedence.factorial.level ≤ e.formula.precedence.level))
  | .binary op l r =>
    .binary op
      (l.formula.groupUnless (op.precedence.level ≤ l.formula.precedence.level ∧
        (l.formula.EndsSigned → op.precedence = .term)))
      (r.formula.groupUnless (op.precedence.level < r.formula.precedence.level ∨
        r.formula.IsSigned))
  | .call f es => .call f (Expression.formulaAll es)

def Expression.formulaAll {κ ν : Type} : List (Expression κ ν) → List (Formula κ ν)
  | [] => []
  | e :: es => e.formula :: Expression.formulaAll es

end

namespace Expression

variable {κ ν : Type}

theorem formulaAll_eq (es : List (Expression κ ν)) : formulaAll es = es.map formula := by
  induction es with
  | nil => rfl
  | cons e es ih => rw [formulaAll, ih, List.map_cons]

/-- The formula says what the tree says. -/
theorem expression_formula (e : Expression κ ν) : e.formula.expression = e := by
  induction e with
  | constant x => rfl
  | var v => rfl
  | unary op e ih =>
    cases op <;> rw [formula, Formula.expression, Formula.expression_groupUnless, ih]
  | binary op l r ihl ihr =>
    rw [formula, Formula.expression, Formula.expression_groupUnless,
      Formula.expression_groupUnless, ihl, ihr]
  | call f es ih =>
    have hall : Formula.expressionAll (formulaAll es) = es := by
      rw [Formula.expressionAll_eq, formulaAll_eq, List.map_map]
      exact (List.map_congr_left ih).trans (List.map_id es)
    rw [formula, Formula.expression, hall]

theorem wellGrouped_formula (e : Expression κ ν) : e.formula.WellGrouped := by
  induction e with
  | constant x => exact .number x
  | var v => exact .identifier v
  | unary op e ih =>
    cases op with
    | negate => exact .signed .minus (ih.groupUnless _) (e.formula.le_precedence_groupUnless .unary)
    | factorial =>
      exact .factorial (ih.groupUnless _) (e.formula.le_precedence_groupUnless .factorial)
  | binary op l r ihl ihr =>
    have hleft := Formula.groupUnless_induction (t := l.formula)
      (motive := fun u ↦ op.precedence.level ≤ u.precedence.level ∧
        (u.EndsSigned → op.precedence = .term)) id ⟨Nat.le_of_lt op.level_lt_primary, False.elim⟩
    have hright := Formula.groupUnless_induction (t := r.formula)
      (motive := fun u ↦ op.precedence.level < u.precedence.level ∨ u.IsSigned) id
      (Or.inl op.level_lt_primary)
    exact .binary op (ihl.groupUnless _) (ihr.groupUnless _) hleft.1 hleft.2 hright
  | call f es ih =>
    refine .call f fun t ht ↦ ?_
    rw [formulaAll_eq] at ht
    obtain ⟨e, he, rfl⟩ := List.mem_map.mp ht
    exact ih e he

end Expression

end CurveCalc
