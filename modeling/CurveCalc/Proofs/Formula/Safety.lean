import CurveCalc.Proofs.Expression.Listing
import CurveCalc.Proofs.Formula.Compilation

/-!
Compiled code is well formed. Its instructions never take more values than there are and leave one
in the end, it loads no slot without a name, and it calls functions only; and folding it keeps all
of this. So the failures of the machine that come of malformed code never come of a formula.
-/

set_option autoImplicit false
set_option relaxedAutoImplicit false

namespace CurveCalc

namespace Formula

variable {κ ν : Type}

theorem width_expression (t : Formula κ ν) : t.expression.width = t.width := by
  induction t with
  | number x => rfl
  | identifier v => rfl
  | group e ih => exact ih
  | signed sign e ih => cases sign <;> exact ih
  | factorial e ih => exact ih
  | binary op l r ihl ihr => rw [expression, Expression.width, width, ihl, ihr]
  | call f es ih =>
    have hall : es.map (Expression.width ∘ expression) = es.map width := List.map_congr_left ih
    rw [expression, Expression.width, width, expressionAll_eq, Expression.widthAll_eq, widthAll_eq,
      List.length_map, List.map_map, hall]

end Formula

/-- The slots of the names in a tree are below their number. -/
theorem Expression.lt_of_mem_vars_slotted (e : Expression Literal String) :
    ∀ slot ∈ e.slotted.vars, slot < e.names.length := by
  intro slot hslot
  rw [slotted, vars_map] at hslot
  obtain ⟨v, hv, rfl⟩ := List.mem_map.mp hslot
  exact List.idxOf_lt_length_iff.mpr (List.mem_eraseDups.mpr hv)

theorem wellFormed_of_compile {maxDepth : Int} {source : String} {p : Program Float}
    (h : compile maxDepth source = .ok p) : p.WellFormed := by
  rcases compile_cases maxDepth source with ⟨t, -, -, hwidth, -, hok⟩ | ⟨e, herr, -, -⟩
  · rw [h] at hok
    cases hok
    have hslotted : t.expression.slotted.width ≤ 255 := by
      rw [Expression.slotted, Expression.width_map, t.width_expression]
      exact hwidth
    exact Expression.wellFormed_postorder t.expression.lt_of_mem_vars_slotted hslotted
  · rw [h] at herr
    cases herr

/-- Every text is compiled to a well formed program. A well formed program is folded to a well
formed one over the same names, unless a call on known values has a wrong number of arguments. When
it is run it fails only because there is too little room, because a variable has no value, or
because of such a call. -/
theorem compile_wellFormed :
    (∀ maxDepth source p, compile maxDepth source = .ok p → p.WellFormed) ∧
    ∀ p : Program Float, p.WellFormed →
      (∀ q, p.fold = .ok q → q.WellFormed ∧ q.names = p.names) ∧
      (∀ e, p.fold = .error e →
        ∃ (f : Builtin) (n : Nat), n ≠ f.arity ∧ e = .run (.wrongArgumentCount f n)) ∧
      ∀ values capacity e, p.run values capacity = .error e →
        e = .stackOverflow capacity ∨
        (∃ slot, values.length ≤ slot ∧ slot < p.names.length ∧
          e = .undefinedVariable slot p.names values.length) ∨
        ∃ (f : Builtin) (n : Nat), n ≠ f.arity ∧ e = .wrongArgumentCount f n := by
  refine ⟨fun maxDepth source p h ↦ wellFormed_of_compile h, fun p hp ↦ ⟨?_, ?_, ?_⟩⟩
  · intro q hfold
    have hends := hp.fold
    rwa [hfold] at hends
  · intro e hfold
    have hends := hp.fold
    rw [hfold] at hends
    cases hends with
    | arguments harity => exact ⟨_, _, harity, rfl⟩
  · intro values capacity e hrun
    have hends := hp.run values capacity
    rw [hrun] at hends
    cases hends with
    | overflow => exact Or.inl rfl
    | undefined hgiven hslot => exact Or.inr (Or.inl ⟨_, hgiven, hslot, rfl⟩)
    | arguments harity => exact Or.inr (Or.inr ⟨_, _, harity, rfl⟩)

/-- A call with one argument too many is compiled to well formed code. With a variable in it the
call is folded to such code again, which fails without a value in one of the three ways; on
constants it is not folded. -/
theorem compile_wellFormed_call :
    (∃ p q e, compile 1 "sin(x,2)" = .ok p ∧ p.WellFormed ∧ p.fold = .ok q ∧
      (q.WellFormed ∧ q.names = p.names) ∧ q.run [] 2 = .error e ∧
      (e = .stackOverflow 2 ∨
        (∃ slot, 0 ≤ slot ∧ slot < q.names.length ∧ e = .undefinedVariable slot q.names 0) ∨
        ∃ (f : Builtin) (n : Nat), n ≠ f.arity ∧ e = .wrongArgumentCount f n)) ∧
    ∃ p e, compile 1 "sin(2,2)" = .ok p ∧ p.WellFormed ∧ p.fold = .error e ∧
      ∃ (f : Builtin) (n : Nat), n ≠ f.arity ∧ e = .run (.wrongArgumentCount f n) := by
  let two : Constant := .numeral (.whole ⟨['2'], by decide, List.forall_mem_singleton.mpr rfl⟩)
  let x : VariableName := ⟨'x', [], by decide, List.forall_mem_nil _, by decide⟩
  let e : Expression Constant VariableName := .call .sin [.var x, .constant two]
  let d : Expression Constant VariableName := .call .sin [.constant two, .constant two]
  have he : compile 1 "sin(x,2)" = .ok e.written.program :=
    compile_of_text e (by decide) (by decide) (by decide)
  have hd : compile 1 "sin(2,2)" = .ok d.written.program :=
    compile_of_text d (by decide) (by decide) (by decide)
  have hp := compile_wellFormed.1 1 _ _ he
  have hfold : e.written.program.fold = .ok e.written.program := by rfl
  constructor
  · exact ⟨_, _, .undefinedVariable 0 ["x"] 0, he, hp, hfold, (compile_wellFormed.2 _ hp).1 _ hfold,
      by rfl, (compile_wellFormed.2 _ hp).2.2 [] 2 _ (by rfl)⟩
  · have hq := compile_wellFormed.1 1 _ _ hd
    exact ⟨_, .run (.wrongArgumentCount .sin 2), hd, hq, by rfl,
      (compile_wellFormed.2 _ hq).2.1 _ (by rfl)⟩

end CurveCalc
