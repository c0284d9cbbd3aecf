import CurveCalc.Proofs.Formula.Invariants

/-!
The parser does not look at where tokens stand. Positions go from the tokens into the problems that
are noted, and nothing is made to depend on them: to read tokens and then to forget all positions is
to forget the positions of the tokens first and then to read (`Parser.unplaced_run`). Each step of
the reader is of this kind, and so is what is built from such steps.
-/

set_option autoImplicit false
set_option relaxedAutoImplicit false

namespace CurveCalc

/-- The token with its place forgotten. -/
def Token.unplaced (t : Token) : Token := { t with position := 0 }

/-- The problem with its place forgotten. -/
def Diagnostic.unplaced (d : Diagnostic) : Diagnostic := { d with position := 0 }

namespace Parser

/-- The state with every place forgotten. -/
def unplaced (s : Parser) : Parser :=
  { s with
    previous := s.previous.unplaced
    current := s.current.unplaced
    rest := s.rest.map Token.unplaced
    finish := s.finish.unplaced
    diagnostics := s.diagnostics.map Diagnostic.unplaced }

/-- Where the reader decides something, it decides the same without the places. -/
theorem unplaced_ite {q : Prop} [Decidable q] {s t s' t' : Parser} (hs : s.unplaced = s')
    (ht : t.unplaced = t') : (if q then s else t).unplaced = if q then s' else t' := by
  rw [← hs, ← ht]
  exact apply_ite unplaced q s t

theorem unplaced_push (d : Diagnostic) (s : Parser) :
    unplaced { s with diagnostics := s.diagnostics.push d } =
      { s.unplaced with diagnostics := s.unplaced.diagnostics.push d.unplaced } := by
  simp only [unplaced, Array.map_push]

theorem length_rest_unplaced (s : Parser) : s.unplaced.rest.length = s.rest.length :=
  List.length_map _

theorem unplaced_reportAt (t : Token) (p : Problem) (s : Parser) :
    (s.reportAt t p).unplaced = s.unplaced.reportAt t.unplaced p :=
  unplaced_ite rfl (unplaced_push ⟨p, t.lexeme, t.position⟩ s)

theorem unplaced_report (p : Problem) (s : Parser) :
    (s.report p).unplaced = s.unplaced.report p := unplaced_reportAt s.current p s

theorem unplaced_load (ts : List Token) (s : Parser) :
    (load ts s).unplaced = load (ts.map Token.unplaced) s.unplaced := by
  induction ts generalizing s with
  | nil => rfl
  | cons t ts ih =>
    refine unplaced_ite ?_ rfl
    rw [ih, unplaced_reportAt]

theorem unplaced_advance (s : Parser) : s.advance.unplaced = s.unplaced.advance :=
  unplaced_load s.rest { s with previous := s.current }

theorem unplaced_skipTo (ts : List Token) (s : Parser) :
    (skipTo ts s).unplaced = skipTo (ts.map Token.unplaced) s.unplaced := by
  induction ts generalizing s with
  | nil => exact unplaced_ite rfl rfl
  | cons t ts ih => exact unplaced_ite (ih s) (ih { s with previous := s.current, current := t })

theorem unplaced_consume (kind : TokenKind) (p : Problem) (s : Parser) :
    (s.consume kind p).unplaced = s.unplaced.consume kind p := by
  unfold consume
  dsimp only
  rw [← unplaced_advance]
  exact unplaced_ite rfl (unplaced_report p s.advance)

theorem unplaced_stopNesting (s : Parser) : s.stopNesting.unplaced = s.unplaced.stopNesting := by
  refine unplaced_ite rfl ?_
  dsimp only
  rw [← unplaced_report]
  exact unplaced_skipTo _ _

theorem unplaced_number (s : Parser) : s.number.unplaced = s.unplaced.number := by
  have hvalue : Literal.ofToken? s.unplaced.previous = Literal.ofToken? s.previous := rfl
  unfold number
  rw [hvalue]
  cases Literal.ofToken? s.previous with
  | some x => rfl
  | none => exact unplaced_report .invalidNumber s

section Nested

variable {sub : Precedence → Parser → Parser}
  (hsub : ∀ p s, (sub p s).unplaced = sub p s.unplaced)

include hsub

theorem unplaced_nested (p : Precedence) (s : Parser) :
    (s.nested sub p).unplaced = s.unplaced.nested sub p := by
  refine unplaced_ite (unplaced_stopNesting s) ?_
  have hread := hsub p { s with depth := s.depth + 1 }
  exact congrArg (fun t : Parser ↦ { t with depth := t.depth - 1 }) hread

theorem unplaced_grouping (s : Parser) :
    (s.grouping sub).unplaced = s.unplaced.grouping sub := by
  unfold grouping
  rw [unplaced_consume, unplaced_nested hsub]

theorem unplaced_unary (s : Parser) : (s.unary sub).unplaced = s.unplaced.unary sub := by
  unfold unary
  dsimp only
  rw [← unplaced_nested hsub]
  exact unplaced_ite rfl rfl

theorem unplaced_binary (s : Parser) : (s.binary sub).unplaced = s.unplaced.binary sub := by
  have hkind : s.unplaced.previous.kind = s.previous.kind := rfl
  unfold binary
  dsimp only
  rw [hkind, ← hsub]
  cases operator? s.previous.kind with
  | some op => rfl
  | none => exact unplaced_report _ _

theorem unplaced_arguments (steps count : Nat) (s : Parser) :
    Prod.map id unplaced (arguments sub steps count s) = arguments sub steps count s.unplaced := by
  induction steps generalizing count s with
  | zero => rfl
  | succ steps ih =>
    have hcounted : ∀ t : Parser,
        (if count = maxArguments then t.report .tooManyArguments else t).unplaced =
          if count = maxArguments then t.unplaced.report .tooManyArguments else t.unplaced :=
      fun t ↦ unplaced_ite (unplaced_report _ t) rfl
    rw [arguments_succ, arguments_succ, ← unplaced_nested hsub]
    unfold afterArgument
    dsimp only
    rw [← hcounted]
    generalize (if count = maxArguments then _ else _ : Parser) = t
    by_cases hcomma : t.current.kind = .comma
    · rw [if_pos hcomma, if_pos (show t.unplaced.current.kind = .comma from hcomma), ih,
        unplaced_advance]
    · rw [if_neg hcomma, if_neg (show t.unplaced.current.kind ≠ .comma from hcomma)]
      rfl

theorem unplaced_argumentList (s : Parser) :
    Prod.map id unplaced (s.argumentList sub) = s.unplaced.argumentList sub := by
  have hread : Prod.map id unplaced (if s.current.kind = .rightParen then (0, s)
        else arguments sub (s.rest.length + 2) 0 s) =
      if s.unplaced.current.kind = .rightParen then (0, s.unplaced)
        else arguments sub (s.unplaced.rest.length + 2) 0 s.unplaced := by
    rw [← unplaced_arguments hsub, s.length_rest_unplaced]
    exact apply_ite _ _ _ _
  unfold argumentList
  dsimp only
  rw [← hread]
  exact Prod.ext rfl (unplaced_consume _ _ _)

theorem unplaced_functionCall (s : Parser) :
    (s.functionCall sub).unplaced = s.unplaced.functionCall sub := by
  have hvalue : s.unplaced.previous.value = s.previous.value := rfl
  unfold functionCall
  rw [hvalue]
  cases s.previous.value with
  | function f =>
    dsimp only
    rw [← unplaced_consume, ← unplaced_argumentList hsub]
    rfl
  | _ => rfl

theorem unplaced_act (a : Action) (s : Parser) : (s.act sub a).unplaced = s.unplaced.act sub a := by
  cases a with
  | none => exact unplaced_report _ s
  | number => exact unplaced_number s
  | identifier => rfl
  | grouping => exact unplaced_grouping hsub s
  | unary => exact unplaced_unary hsub s
  | binary => exact unplaced_binary hsub s
  | factorial => rfl
  | functionCall => exact unplaced_functionCall hsub s

theorem unplaced_follow (s : Parser) : (s.follow sub).unplaced = s.unplaced.follow sub := by
  unfold follow
  dsimp only
  rw [unplaced_act hsub]
  exact congrArg _ (unplaced_ite rfl rfl)

theorem unplaced_operators (p : Precedence) (steps : Nat) (s : Parser) :
    (operators sub p steps s).unplaced = operators sub p steps s.unplaced := by
  induction steps generalizing s with
  | zero => exact unplaced_ite rfl rfl
  | succ steps ih =>
    refine unplaced_ite ?_ rfl
    rw [ih, unplaced_follow hsub, unplaced_advance]

end Nested

theorem unplaced_expression (allowance : Nat) (p : Precedence) (s : Parser) :
    (expression allowance p s).unplaced = expression allowance p s.unplaced := by
  induction allowance generalizing p s with
  | zero => rfl
  | succ allowance ih =>
    have hopened := unplaced_act ih s.advance.previous.kind.rule.opening s.advance
    rw [expression, expression, unplaced_operators ih, ← length_rest_unplaced, hopened,
      ← unplaced_advance]
    rfl

theorem unplaced_start (maxDepth : Int) (ts : List Token) (finish : Token) :
    (start maxDepth ts finish).unplaced =
      start maxDepth (ts.map Token.unplaced) finish.unplaced := by
  simp only [unplaced, start, Array.map_empty]
  rfl

/-- Reading does not depend on where the tokens stand. -/
theorem unplaced_run (maxDepth : Int) (ts : List Token) (finish : Token) :
    (run maxDepth ts finish).unplaced =
      run maxDepth (ts.map Token.unplaced) finish.unplaced := by
  have hread : (expression (allowance maxDepth) .term (start maxDepth ts finish).advance).unplaced =
      expression (allowance maxDepth) .term
        (start maxDepth (ts.map Token.unplaced) finish.unplaced).advance := by
    rw [unplaced_expression, unplaced_advance, unplaced_start]
  unfold run
  dsimp only
  rw [← hread]
  exact unplaced_ite rfl (unplaced_report _ _)

end Parser

end CurveCalc
