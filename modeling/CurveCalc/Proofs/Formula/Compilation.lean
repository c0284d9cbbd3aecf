import CurveCalc.Machine.Float
import CurveCalc.Proofs.Expression.Evaluation
import CurveCalc.Proofs.Formula.Parentheses
import CurveCalc.Proofs.Formula.Printing

/-!
From text to value. A text that is compiled is compiled to the listing of its tree, and every tree
is what its text is compiled to. Running a listing works its tree out, so that compiling and running
a text gives the value of its tree.
-/

set_option autoImplicit false
set_option relaxedAutoImplicit false

namespace CurveCalc

/-- What the parser makes of a tree. -/
def Expression.written (e : Expression Constant VariableName) : Expression Literal String :=
  e.map Constant.literal VariableName.text

theorem Expression.written_formula (e : Expression Constant VariableName) :
    e.formula.written.expression = e.written := by
  rw [Formula.written, Formula.expression_map, e.expression_formula, Expression.written]

theorem compile_of_text {maxDepth : Int} {source : String} (e : Expression Constant VariableName)
    (htext : e.formula.text = source) (hdepth : e.formula.depth ≤ maxDepth.toNat)
    (hwidth : e.formula.width ≤ 255) : compile maxDepth source = .ok e.written.program := by
  rw [← htext, compile_text e.wellGrouped_formula hdepth hwidth, e.written_formula]

/-- A text that is compiled has exactly one well grouped formula. -/
theorem exists_of_compile {maxDepth : Int} {source : String} {p : Program Float}
    (h : compile maxDepth source = .ok p) :
    ∃ t : Formula Literal String, SpelledBy source t.symbols ∧ t.WellGrouped ∧
      (∀ u : Formula Literal String, SpelledBy source u.symbols → u.WellGrouped → u = t) ∧
      p = t.expression.program := by
  rcases compile_cases maxDepth source with ⟨t, hspelled, hgrouped, -, -, hok⟩ | ⟨e, herr, -, -⟩
  · refine ⟨t, hspelled, hgrouped, ?_, ?_⟩
    · intro u hu hugrouped
      exact hugrouped.eq_of_symbols hgrouped (hu.unique hspelled)
    · rw [h] at hok
      exact Except.ok.inj hok
  · rw [h] at herr
    cases herr

/-- Every accepted text has one tree under the binding strengths, the code of the text is the
listing of that tree, and the slots of its variables are in the order in which these first appear.
The other way round, the text of a tree, with the parentheses the tree requires, is compiled to the
listing of the tree, if it nests within the limit and its calls have at most 255 arguments. -/
theorem compile_postorder (maxDepth : Int) :
    (∀ source p, compile maxDepth source = .ok p →
      ∃ t : Formula Literal String, SpelledBy source t.symbols ∧ t.WellGrouped ∧
        (∀ u : Formula Literal String, SpelledBy source u.symbols → u.WellGrouped → u = t) ∧
        p.names = t.expression.vars.eraseDups ∧
        p.code = (t.expression.map Literal.toFloat p.names.idxOf).postorder) ∧
    ∀ e : Expression Constant VariableName, e.formula.depth ≤ maxDepth.toNat →
      e.formula.width ≤ 255 →
      ∃ p, compile maxDepth e.formula.text = .ok p ∧
        p.names = (e.vars.map VariableName.text).eraseDups ∧
        p.code = (e.map (fun k ↦ k.literal.toFloat) fun v ↦ p.names.idxOf v.text).postorder := by
  constructor
  · intro source p hok
    obtain ⟨t, hspelled, hgrouped, hunique, rfl⟩ := exists_of_compile hok
    exact ⟨t, hspelled, hgrouped, hunique, rfl, rfl⟩
  · intro e hdepth hwidth
    refine ⟨e.written.program, ?_, ?_, ?_⟩
    · rw [compile_text e.wellGrouped_formula hdepth hwidth, e.written_formula]
    · exact congrArg List.eraseDups (e.vars_map _ _)
    · change e.written.slotted.postorder = _
      rw [Expression.slotted, Expression.written, Expression.map_map]
      rfl

/-- A sign behind an operator needs no parentheses. -/
theorem compile_postorder_sign :
    ∃ p, compile 1 "2*-x" = .ok p ∧ p.names = ["x"] ∧
      p.code = [.constant (.real (Literal.decimal ⟨2, 0⟩).toFloat), .load (.whole 0),
        .unary .negate, .binary .multiply] ∧
      ∃ t : Formula Literal String, SpelledBy "2*-x" t.symbols ∧ t.WellGrouped ∧
        p.code = (t.expression.map Literal.toFloat p.names.idxOf).postorder := by
  let two : Constant := .numeral (.whole ⟨['2'], by decide, List.forall_mem_singleton.mpr rfl⟩)
  let x : VariableName := ⟨'x', [], by decide, List.forall_mem_nil _, by decide⟩
  let e : Expression Constant VariableName :=
    .binary .multiply (.constant two) (.unary .negate (.var x))
  obtain ⟨p, hok, hnames, hcode⟩ := (compile_postorder 1).2 e (by decide) (by decide)
  have htext : e.formula.text = "2*-x" := by decide
  rw [htext] at hok
  obtain ⟨t, hspelled, hgrouped, -, -, htree⟩ := (compile_postorder 1).1 "2*-x" p hok
  refine ⟨p, hok, hnames, ?_, t, hspelled, hgrouped, htree⟩
  rw [hcode, hnames]
  rfl

/-- On the machine, the listing of any tree ends with the value of the tree on top of what was on
the stack before, or fails as the tree does, if there is room for the tree. So running a compiled
text gives the value of the tree of the text. -/
theorem exec_listing (α : Type) [Primitives α] :
    (∀ (e : Expression α Nat) (names : List String) (values : List α) (capacity : Int) (xs : List α)
      (s : Stack α), Machine.Holds s capacity xs → xs.length + e.room ≤ capacity →
      (∀ x, e.evaluate names values = .ok x →
        ∃ t, Machine.exec names values e.postorder s = .ok t ∧
          Machine.Holds t capacity (x :: xs)) ∧
      ∀ err, e.evaluate names values = .error err →
        Machine.exec names values e.postorder s = .error err) ∧
    ∀ maxDepth source p, compile maxDepth source = .ok p →
      ∃ t : Formula Literal String, SpelledBy source t.symbols ∧ t.WellGrouped ∧
        (∀ u : Formula Literal String, SpelledBy source u.symbols → u.WellGrouped → u = t) ∧
        ∀ (values : List Float) (capacity : Int),
          (t.expression.map Literal.toFloat p.names.idxOf).room ≤ capacity →
          p.run values capacity =
            (t.expression.map Literal.toFloat p.names.idxOf).evaluate p.names values := by
  constructor
  · intro e names values capacity xs s hs hroom
    exact e.exec_postorder hs hroom
  · intro maxDepth source p hok
    obtain ⟨t, hspelled, hgrouped, hunique, rfl⟩ := exists_of_compile hok
    refine ⟨t, hspelled, hgrouped, hunique, ?_⟩
    intro values capacity hroom
    exact t.expression.slotted.run_postorder hroom

/-- Twice three on top of a one; and a text that says twice the first value. -/
theorem exec_listing_double :
    (∃ t, Machine.exec ["x"] [3.0]
        (Expression.postorder (.binary .multiply (.constant 2.0) (.var 0)))
        ⟨4, 0.0, [1.0], [], 0⟩ = .ok t ∧ Machine.Holds t 4 [(6.0 : Float), 1.0]) ∧
    ∃ p, compile 1 "2*x" = .ok p ∧ p.run [3.0] 2 = .ok 6.0 := by
  let two : Constant := .numeral (.whole ⟨['2'], by decide, List.forall_mem_singleton.mpr rfl⟩)
  let x : VariableName := ⟨'x', [], by decide, List.forall_mem_nil _, by decide⟩
  let e : Expression Constant VariableName := .binary .multiply (.constant two) (.var x)
  have hok : compile 1 e.formula.text = .ok e.formula.written.expression.program :=
    compile_text e.wellGrouped_formula (by decide) (by decide)
  refine ⟨((exec_listing Float).1 (.binary .multiply (.constant 2.0) (.var 0)) ["x"] [3.0] 4 [1.0]
    ⟨4, 0.0, [1.0], [], 0⟩ ⟨rfl, rfl, rfl⟩ (by decide)).1 6.0 (by rfl), _, hok, ?_⟩
  obtain ⟨t, -, -, hunique, hrun⟩ := (exec_listing Float).2 1 _ _ hok
  obtain rfl := hunique _ (spelledBy_text e.formula) (e.wellGrouped_formula.map _ _)
  rw [hrun [3.0] 2 (by decide)]
  decide +kernel

end CurveCalc
