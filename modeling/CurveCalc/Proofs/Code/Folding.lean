import CurveCalc.Code.Fold
import CurveCalc.Machine.Float
import CurveCalc.Proofs.Machine.Effect

/-!
Folded code does what the code did. It may need less room and find a failure earlier, so the two are
compared up to a stack overflow of the code before folding (`UpToOverflow`). Entry by entry, the
code that folding has kept does the same as the code it has read (`steps_standsFor`), and each entry
leaves one value (`Pushes`), so where folding finds too few entries the machine finds too few
values. Hence a program that runs folds, and to the same value; folding adds no failure; and what
cannot be folded never runs (`Program.run_upToOverflow`, `Program.run_of_fold_error`).
-/

set_option autoImplicit false
set_option relaxedAutoImplicit false

namespace CurveCalc

open Machine

namespace Folded

variable {α : Type}

/-- The code of all entries of a stack, in the order in which it is run. -/
def kept (stack : List (Folded α)) : List (Instruction α) := stack.reverse.flatMap code

theorem kept_append (top rest : List (Folded α)) : kept (top ++ rest) = kept rest ++ kept top := by
  rw [kept, List.reverse_append, List.flatMap_append]
  rfl

theorem kept_cons (entry : Folded α) (rest : List (Folded α)) :
    kept (entry :: rest) = kept rest ++ entry.code := by
  rw [kept, List.reverse_cons, List.flatMap_append, List.flatMap_singleton]
  rfl

theorem kept_reverse (operands : List (Folded α)) :
    kept operands.reverse = operands.flatMap code := by
  rw [kept, List.reverse_reverse]

theorem flatMap_code_known (xs : List α) :
    (xs.map known).flatMap code = xs.map fun x ↦ .constant (.real x) := by
  induction xs with
  | nil => rfl
  | cons x xs ih => rw [List.map_cons, List.flatMap_cons, ih, List.map_cons, code]; rfl

theorem knownValues?_eq_some {entries : List (Folded α)} {xs : List α}
    (h : knownValues? entries = some xs) : entries = xs.map known := by
  induction entries generalizing xs with
  | nil =>
    cases h
    rfl
  | cons entry entries ih =>
    cases entry with
    | residual code => simp [knownValues?] at h
    | known x =>
      simp only [knownValues?, Option.map_eq_some_iff] at h
      obtain ⟨ys, hys, rfl⟩ := h
      rw [ih hys, List.map_cons]

/-- Some entry depends on a variable. -/
def Depends (entries : List (Folded α)) : Prop := ∃ code, residual code ∈ entries

theorem knownValues?_eq_none {entries : List (Folded α)} :
    knownValues? entries = none ↔ Depends entries := by
  unfold Depends
  induction entries with
  | nil => simp [knownValues?]
  | cons entry entries ih =>
    cases entry with
    | known x => simp [knownValues?, ih]
    | residual code => simp [knownValues?]

end Folded

/-- The outcome is another one, unless it is that there was too little room. -/
def UpToOverflow {β : Type} (capacity : Int) (a b : Except RunError β) : Prop :=
  a = .error (.stackOverflow capacity) ∨ a = b

namespace UpToOverflow

variable {β γ : Type} {capacity : Int}

theorem refl (a : Except RunError β) : UpToOverflow capacity a a := Or.inr rfl

theorem trans {a b c : Except RunError β} (hab : UpToOverflow capacity a b)
    (hbc : UpToOverflow capacity b c) : UpToOverflow capacity a c := by
  rcases hab with hab | rfl
  · exact Or.inl hab
  · exact hbc

theorem bind {a b : Except RunError β} {f g : β → Except RunError γ}
    (h : UpToOverflow capacity a b) (hfg : ∀ x, UpToOverflow capacity (f x) (g x)) :
    UpToOverflow capacity (a.bind f) (b.bind g) := by
  rcases h with rfl | rfl
  · exact Or.inl rfl
  · cases a with
    | error e => exact refl _
    | ok x => exact hfg x

end UpToOverflow

variable {α : Type} [Primitives α]

/-- The second code does what the first one does, with no more room. -/
def Shrinks (code kept : List (Instruction α)) : Prop :=
  ∀ capacity names values xs, UpToOverflow capacity (follow capacity names values code xs)
    (follow capacity names values kept xs)

/-- Code that, where it succeeds, leaves one value on top of those before. -/
def Pushes (code : List (Instruction α)) : Prop :=
  ∀ capacity names values xs ys, follow capacity names values code xs = .ok ys → ∃ y, ys = y :: xs

theorem Shrinks.refl (code : List (Instruction α)) : Shrinks code code :=
  fun _ _ _ _ ↦ UpToOverflow.refl _

theorem Shrinks.trans {a b c : List (Instruction α)} (hab : Shrinks a b) (hbc : Shrinks b c) :
    Shrinks a c :=
  fun capacity names values xs ↦
    (hab capacity names values xs).trans (hbc capacity names values xs)

theorem Shrinks.append {a b c d : List (Instruction α)} (hab : Shrinks a b) (hcd : Shrinks c d) :
    Shrinks (a ++ c) (b ++ d) := by
  intro capacity names values xs
  rw [follow_append, follow_append]
  exact (hab capacity names values xs).bind (hcd capacity names values)

section Room

variable {capacity : Int} {names : List String} {values : List α}

/-- Values pushed one after the other end up in reverse, the last one on top. -/
theorem follow_constants (capacity : Int) (names : List String) (values xs zs : List α) :
    UpToOverflow capacity
      (follow capacity names values (xs.map fun x ↦ .constant (.real x)) zs)
      (.ok (xs.reverse ++ zs)) := by
  induction xs generalizing zs with
  | nil => exact UpToOverflow.refl _
  | cons x xs ih =>
    have hpush : effect names values (.constant (.real x)) zs = .ok (x :: zs) := rfl
    rw [List.map_cons, follow_cons, within_of_effect hpush, fit]
    by_cases hfull : capacity < (x :: zs).length
    · rw [if_pos hfull]
      exact Or.inl rfl
    · rw [if_neg hfull, List.reverse_cons, List.append_assoc]
      exact ih (x :: zs)

end Room

namespace Folded

/-- Everything that can come of combining an instruction with the entries it takes. -/
theorem combine_cases (i : Instruction α) (stack : List (Folded α)) :
    ((stack.length : Int) < i.operandCount ∧ ∃ e, combine i stack = .error e) ∨
    (∃ operands rest, stack = operands.reverse ++ rest ∧
      operands.length = i.operandCount.toNat ∧
      ((∃ xs, operands = xs.map known ∧
          combine i stack = (evaluate i xs).map fun x ↦ known x :: rest) ∨
        (Depends operands ∧
          combine i stack = .ok (residual (operands.flatMap code ++ [i]) :: rest)))) := by
  simp only [combine]
  by_cases hcount : (stack.length : Int) < i.operandCount
  · exact Or.inl ⟨hcount, _, if_pos hcount⟩
  refine Or.inr ⟨(stack.take i.operandCount.toNat).reverse, stack.drop i.operandCount.toNat, ?_, ?_,
    ?_⟩
  · rw [List.reverse_reverse, List.take_append_drop]
  · rw [List.length_reverse, List.length_take]
    omega
  · rw [if_neg hcount]
    cases hknown : knownValues? (stack.take i.operandCount.toNat).reverse with
    | some xs => exact Or.inl ⟨xs, knownValues?_eq_some hknown, rfl⟩
    | none => exact Or.inr ⟨knownValues?_eq_none.mp hknown, rfl⟩

/-- The instruction is no entry of its own. -/
def Operates : Instruction α → Prop
  | .constant _ => False
  | .load _ => False
  | _ => True

/-- Constants and variables are entries of their own; every other instruction is combined with what
it takes. -/
theorem step_cases (i : Instruction α) (stack : List (Folded α)) :
    (∃ value, i = .constant value) ∨ (∃ slot, i = .load slot) ∨
      (Operates i ∧ step stack i = combine i stack) := by
  cases i with
  | constant value => exact Or.inl ⟨value, rfl⟩
  | load slot => exact Or.inr (Or.inl ⟨slot, rfl⟩)
  | binary op => exact Or.inr (Or.inr ⟨trivial, rfl⟩)
  | unary op => exact Or.inr (Or.inr ⟨trivial, rfl⟩)
  | call function count => exact Or.inr (Or.inr ⟨trivial, rfl⟩)
  | unknown code => exact Or.inr (Or.inr ⟨trivial, rfl⟩)

theorem step_constant_eq_ok {value : Operand α} {stack next : List (Folded α)} :
    step stack (.constant value) = .ok next ↔ ∃ x, value.value = .ok x ∧ known x :: stack = next :=
  Attempt.map_eq_ok.trans (exists_congr fun _ ↦ and_congr_left' Attempt.mapError_eq_ok)

/-- A call of known values gives a value when the machine's call of them does. -/
theorem evaluate_call_eq_ok {function : Operand α} {count : Int} {xs : List α} {x : α} :
    evaluate (.call function count) xs = .ok x ↔
      function.index.bind (fun number ↦ Builtin.call number xs) = .ok x :=
  Attempt.mapError_eq_ok

/-- Folding computes what the machine computes from the same values. -/
theorem effect_of_evaluate (names : List String) (values : List α) {i : Instruction α} {xs : List α}
    (hlen : xs.length = i.operandCount.toNat) {x : α} (h : evaluate i xs = .ok x) (zs : List α) :
    effect names values i (xs.reverse ++ zs) = .ok (x :: zs) := by
  cases i with
  | constant value => cases h
  | load slot => cases h
  | binary op =>
    match xs, hlen with
    | [left, right], _ =>
      cases h
      rfl
  | unary op =>
    match xs, hlen with
    | [y], _ =>
      cases h
      rfl
  | call function count =>
    rw [effect_call names values function (show xs.length = count.toNat from hlen),
      evaluate_call_eq_ok.mp h]
    rfl
  | unknown code => cases h

/-- Where folding fails on known values, so does the machine. -/
theorem effect_of_evaluate_error (names : List String) (values : List α) {i : Instruction α}
    {xs : List α} (hoperates : Operates i) (hlen : xs.length = i.operandCount.toNat) {e : FoldError α}
    (h : evaluate i xs = .error e)
    (zs : List α) : ∃ e', effect names values i (xs.reverse ++ zs) = .error e' := by
  cases i with
  | constant value => exact hoperates.elim
  | load slot => exact hoperates.elim
  | binary op =>
    match xs, hlen with
    | [left, right], _ => cases h
  | unary op =>
    match xs, hlen with
    | [y], _ => cases h
  | call function count =>
    rw [effect_call names values function (show xs.length = count.toNat from hlen)]
    cases hcall : function.index.bind fun number ↦ Builtin.call number xs with
    | error e => exact ⟨e, rfl⟩
    | ok y =>
      rw [evaluate_call_eq_ok.mpr hcall] at h
      cases h
  | unknown code => exact ⟨_, rfl⟩

/-- An entry leaves one value. -/
def Single (entry : Folded α) : Prop := Pushes entry.code

theorem single_known (x : α) : Single (known x) := by
  intro capacity names values xs ys h
  rw [code, follow_singleton] at h
  obtain ⟨-, y, hy⟩ := effect_ok (within_ok h)
  exact ⟨y, hy⟩

theorem single_load (slot : Operand α) : Single (residual [.load slot]) := by
  intro capacity names values xs ys h
  rw [code, follow_singleton] at h
  obtain ⟨-, y, hy⟩ := effect_ok (within_ok h)
  exact ⟨y, hy⟩

/-- Entries leave one value each. -/
theorem follow_kept {capacity : Int} {names : List String} {values : List α}
    {stack : List (Folded α)} (hstack : ∀ entry ∈ stack, Single entry) {xs ys : List α}
    (h : follow capacity names values (kept stack) xs = .ok ys) :
    ∃ zs, zs.length = stack.length ∧ ys = zs ++ xs := by
  induction stack generalizing ys with
  | nil =>
    cases h
    exact ⟨[], rfl, rfl⟩
  | cons entry rest ih =>
    rw [kept_cons, follow_append] at h
    obtain ⟨us, hrest, hentry⟩ := Attempt.bind_eq_ok.mp h
    obtain ⟨zs, hlen, rfl⟩ := ih (fun e he ↦ hstack e (List.mem_cons_of_mem entry he)) hrest
    obtain ⟨y, rfl⟩ := hstack entry List.mem_cons_self capacity names values _ _ hentry
    exact ⟨y :: zs, by rw [List.length_cons, List.length_cons, hlen], rfl⟩

theorem single_residual {i : Instruction α} {operands : List (Folded α)}
    (hoperands : ∀ entry ∈ operands, Single entry)
    (hlen : operands.length = i.operandCount.toNat) :
    Single (residual (operands.flatMap code ++ [i])) := by
  intro capacity names values xs ys h
  rw [code, follow_append, ← kept_reverse] at h
  obtain ⟨us, hcode, hlast⟩ := Attempt.bind_eq_ok.mp h
  obtain ⟨zs, hzs, rfl⟩ := follow_kept (fun e he ↦ hoperands e (List.mem_reverse.mp he)) hcode
  rw [follow_singleton] at hlast
  obtain ⟨-, y, rfl⟩ := effect_ok (within_ok hlast)
  refine ⟨y, ?_⟩
  rw [← hlen, ← List.length_reverse, ← hzs, List.drop_left]

/-- Known values that an instruction takes may be replaced by its own. -/
theorem shrinks_known {i : Instruction α} {xs : List α} (hlen : xs.length = i.operandCount.toNat)
    {x : α} (h : evaluate i xs = .ok x) :
    Shrinks ((xs.map known).flatMap code ++ [i]) (known x).code := by
  intro capacity names values zs
  have heffect := effect_of_evaluate names values hlen h zs
  rw [flatMap_code_known, follow_append, code, follow_singleton]
  rcases follow_constants capacity names values xs zs with hover | hdone
  · rw [hover]
    exact Or.inl rfl
  · rw [hdone]
    change UpToOverflow capacity (follow capacity names values [i] (xs.reverse ++ zs)) _
    rw [follow_singleton, within_of_effect heffect]
    exact UpToOverflow.refl _

/-- Entries stand for code: they leave one value each, and together they do what it does. -/
structure StandsFor (stack : List (Folded α)) (code : List (Instruction α)) : Prop where
  single : ∀ entry ∈ stack, Single entry
  shrinks : Shrinks code (kept stack)

theorem standsFor_nil : StandsFor ([] : List (Folded α)) [] := ⟨by simp, Shrinks.refl []⟩

/-- A stack stands for the code read if its top stands for what was read behind its other entries.
-/
theorem StandsFor.cons (top : List (Folded α)) {rest : List (Folded α)} {entry : Folded α}
    {read : List (Instruction α)} {i : Instruction α} (h : StandsFor (top ++ rest) read)
    (hentry : Single entry) (hshrinks : Shrinks (kept top ++ [i]) entry.code) :
    StandsFor (entry :: rest) (read ++ [i]) := by
  constructor
  · rintro e (_ | ⟨_, he⟩)
    · exact hentry
    · exact h.single e (List.mem_append_right top he)
  · have hread : Shrinks (read ++ [i]) (kept (top ++ rest) ++ [i]) :=
      h.shrinks.append (Shrinks.refl [i])
    rw [kept_append, List.append_assoc] at hread
    rw [kept_cons]
    exact hread.trans ((Shrinks.refl (kept rest)).append hshrinks)

theorem step_standsFor {i : Instruction α} {stack next : List (Folded α)}
    {read : List (Instruction α)} (hstack : StandsFor stack read) (h : step stack i = .ok next) :
    next ≠ [] ∧ StandsFor next (read ++ [i]) := by
  rcases step_cases i stack with ⟨value, rfl⟩ | ⟨slot, rfl⟩ | ⟨-, hcombine⟩
  · obtain ⟨x, hvalue, rfl⟩ := step_constant_eq_ok.mp h
    refine ⟨List.cons_ne_nil _ _, StandsFor.cons [] hstack (single_known x) ?_⟩
    intro capacity names values zs
    have heffect : effect names values (.constant value) zs = .ok (x :: zs) := by
      simp only [effect, hvalue, bind, Except.bind, pure, Except.pure]
    change UpToOverflow capacity (follow capacity names values [.constant value] zs)
      (follow capacity names values [.constant (.real x)] zs)
    rw [follow_singleton, follow_singleton, within_of_effect heffect,
      within_of_effect (i := .constant (.real x)) rfl]
    exact UpToOverflow.refl _
  · simp only [step, Except.ok.injEq] at h
    subst h
    exact ⟨List.cons_ne_nil _ _, StandsFor.cons [] hstack (single_load slot) (Shrinks.refl _)⟩
  · rw [hcombine] at h
    rcases combine_cases i stack with ⟨-, e, he⟩ | ⟨operands, rest, rfl, hlen, hresult⟩
    · rw [he] at h
      cases h
    have hoperands : ∀ entry ∈ operands, Single entry := fun e he ↦
      hstack.single e (List.mem_append_left rest (List.mem_reverse.mpr he))
    rcases hresult with ⟨xs, rfl, hknown⟩ | ⟨-, hresidual⟩
    · rw [hknown] at h
      obtain ⟨x, hvalue, rfl⟩ := Attempt.map_eq_ok.mp h
      rw [List.length_map] at hlen
      refine ⟨List.cons_ne_nil _ _, StandsFor.cons _ hstack (single_known x) ?_⟩
      rw [kept_reverse]
      exact shrinks_known hlen hvalue
    · rw [hresidual, Except.ok.injEq] at h
      subst h
      refine ⟨List.cons_ne_nil _ _, StandsFor.cons _ hstack (single_residual hoperands hlen) ?_⟩
      rw [kept_reverse]
      exact Shrinks.refl _

/-- The values that known entries on top of a stack leave. -/
theorem follow_kept_known {capacity : Int} {names : List String} {values xs us ys : List α}
    {rest : List (Folded α)}
    (h : follow capacity names values (kept ((xs.map known).reverse ++ rest)) us = .ok ys) :
    ∃ zs, ys = xs.reverse ++ zs := by
  rw [kept_append, follow_append, kept_reverse, flatMap_code_known] at h
  obtain ⟨zs, -, hconstants⟩ := Attempt.bind_eq_ok.mp h
  rcases follow_constants capacity names values xs zs with hover | hdone
  · rw [hover] at hconstants
    cases hconstants
  · rw [hdone, Except.ok.injEq] at hconstants
    exact ⟨zs, hconstants.symm⟩

/-- On the values that the entries leave, an instruction that cannot be folded fails. -/
theorem effect_of_step_error {i : Instruction α} {stack : List (Folded α)}
    (hstack : ∀ entry ∈ stack, Single entry) {e : FoldError α} (h : step stack i = .error e)
    {capacity : Int} {names : List String} {values ys : List α}
    (hkept : follow capacity names values (kept stack) [] = .ok ys) :
    ∃ e', effect names values i ys = .error e' := by
  rcases step_cases i stack with ⟨value, rfl⟩ | ⟨slot, rfl⟩ | ⟨hoperates, hcombine⟩
  · cases hvalue : value.value with
    | error e' => exact ⟨e', by simp only [effect, hvalue, bind, Except.bind]⟩
    | ok x =>
      rw [step_constant_eq_ok.mpr ⟨x, hvalue, rfl⟩] at h
      cases h
  · cases h
  rw [hcombine] at h
  rcases combine_cases i stack with ⟨hshort, -⟩ | ⟨operands, rest, rfl, hlen, hresult⟩
  · obtain ⟨zs, hzs, rfl⟩ := follow_kept hstack hkept
    cases heffect : effect names values i (zs ++ []) with
    | error e' => exact ⟨e', rfl⟩
    | ok us =>
      have hcount := (effect_ok heffect).1
      rw [List.append_nil] at hcount
      omega
  rcases hresult with ⟨xs, rfl, hknown⟩ | ⟨-, hresidual⟩
  · rw [List.length_map] at hlen
    rw [hknown] at h
    cases hvalue : evaluate i xs with
    | ok x => simp [hvalue, Except.map] at h
    | error e' =>
      obtain ⟨zs, rfl⟩ := follow_kept_known hkept
      exact effect_of_evaluate_error names values hoperates hlen hvalue zs
  · rw [hresidual] at h
    cases h

/-- An instruction that cannot be folded fails behind any code that its entries stand for. -/
theorem step_error {i : Instruction α} {stack : List (Folded α)} {read : List (Instruction α)}
    (hstack : StandsFor stack read) {e : FoldError α} (h : step stack i = .error e) (capacity : Int)
    (names : List String) (values : List α) :
    ∃ e', follow capacity names values (read ++ [i]) [] = .error e' := by
  rw [follow_append]
  cases hread : follow capacity names values read [] with
  | error e' => exact ⟨e', rfl⟩
  | ok ys =>
    have hkept : follow capacity names values (kept stack) [] = .ok ys := by
      rcases hstack.shrinks capacity names values [] with hover | hsame
      · rw [hread] at hover
        cases hover
      · rw [← hsame, hread]
    obtain ⟨e', he'⟩ := effect_of_step_error hstack.single h hkept
    refine ⟨e', ?_⟩
    change follow capacity names values [i] ys = _
    rw [follow_singleton, within_error he']

theorem steps_standsFor {code read : List (Instruction α)} {stack final : List (Folded α)}
    (hstack : StandsFor stack read) (h : steps code stack = .ok final) :
    StandsFor final (read ++ code) := by
  induction code generalizing stack read with
  | nil =>
    cases h
    rwa [List.append_nil]
  | cons i code ih =>
    obtain ⟨next, hstep, hnext⟩ := Attempt.bind_eq_ok.mp h
    rw [← List.singleton_append, ← List.append_assoc]
    exact ih (step_standsFor hstack hstep).2 hnext

theorem steps_ne_nil {code read : List (Instruction α)} {stack final : List (Folded α)}
    (hstack : StandsFor stack read) (h : steps code stack = .ok final)
    (hne : stack ≠ [] ∨ code ≠ []) : final ≠ [] := by
  induction code generalizing stack read with
  | nil =>
    cases h
    exact hne.resolve_right (fun hcode ↦ hcode rfl)
  | cons i code ih =>
    obtain ⟨next, hstep, hsteps⟩ := Attempt.bind_eq_ok.mp h
    have hnext := step_standsFor hstack hstep
    exact ih hnext.2 hsteps (Or.inl hnext.1)

/-- What is left of some code is some code, since it leaves values where it is run. -/
theorem kept_ne_nil {code : List (Instruction α)} {stack : List (Folded α)} (hcode : code ≠ [])
    (h : steps code [] = .ok stack) : kept stack ≠ [] := by
  have hstack := steps_standsFor standsFor_nil h
  obtain ⟨entry, rest, rfl⟩ := List.exists_cons_of_ne_nil
    (steps_ne_nil standsFor_nil h (Or.inr hcode))
  intro hnil
  rw [kept_cons, List.append_eq_nil_iff] at hnil
  have hpush := hstack.single entry List.mem_cons_self 0 [] [] [] []
  rw [hnil.2] at hpush
  obtain ⟨y, hy⟩ := hpush rfl
  cases hy

theorem steps_error {code read : List (Instruction α)} {stack : List (Folded α)}
    (hstack : StandsFor stack read) {e : FoldError α} (h : steps code stack = .error e)
    (capacity : Int) (names : List String) (values : List α) :
    ∃ e', follow capacity names values (read ++ code) [] = .error e' := by
  induction code generalizing stack read with
  | nil => cases h
  | cons i code ih =>
    rw [← List.singleton_append, ← List.append_assoc]
    cases hstep : step stack i with
    | error e' =>
      obtain ⟨e'', hfails⟩ := step_error hstack hstep capacity names values
      rw [follow_append, hfails]
      exact ⟨e'', rfl⟩
    | ok next =>
      simp only [steps, hstep, bind, Except.bind] at h
      exact ih (step_standsFor hstack hstep).2 h

end Folded

namespace Program

open Folded

theorem fold_eq (p : Program α) (hcode : p.code ≠ []) :
    p.fold = (steps p.code []).map fun stack ↦ ⟨kept stack, p.names⟩ := by
  have hempty : p.code.isEmpty = false := by simpa using hcode
  simp only [Program.fold, hempty, Bool.false_eq_true, if_false]
  cases steps p.code [] <;> rfl

/-- Everything that can come of folding. -/
theorem fold_cases (p : Program α) :
    (p.code = [] ∧ p.fold = .error .noInstructions) ∨
    (∃ e, p.code ≠ [] ∧ steps p.code [] = .error e ∧ p.fold = .error e) ∨
    ∃ stack, p.code ≠ [] ∧ steps p.code [] = .ok stack ∧ p.fold = .ok ⟨kept stack, p.names⟩ := by
  by_cases hcode : p.code = []
  · refine Or.inl ⟨hcode, ?_⟩
    rw [Program.fold, hcode]
    rfl
  rw [p.fold_eq hcode]
  cases hsteps : steps p.code [] with
  | error e => exact Or.inr (Or.inl ⟨e, hcode, rfl, rfl⟩)
  | ok stack => exact Or.inr (Or.inr ⟨stack, hcode, rfl, rfl⟩)

theorem exists_of_fold {p q : Program α} (h : p.fold = .ok q) :
    ∃ stack, p.code ≠ [] ∧ steps p.code [] = .ok stack ∧ q = ⟨kept stack, p.names⟩ := by
  rcases fold_cases p with ⟨-, hfold⟩ | ⟨e, -, -, hfold⟩ | ⟨stack, hcode, hsteps, hfold⟩
  · rw [hfold] at h
    cases h
  · rw [hfold] at h
    cases h
  · rw [hfold] at h
    cases h
    exact ⟨stack, hcode, hsteps, rfl⟩

theorem run_upToOverflow {p q : Program α} (h : p.fold = .ok q) (values : List α)
    (capacity : Int) : UpToOverflow capacity (p.run values capacity) (q.run values capacity) := by
  obtain ⟨stack, hcode, hsteps, rfl⟩ := exists_of_fold h
  have hstack := steps_standsFor standsFor_nil hsteps
  rw [run_eq p hcode, run_eq ⟨kept stack, p.names⟩ (kept_ne_nil hcode hsteps)]
  exact (hstack.shrinks capacity p.names values []).bind fun _ ↦ UpToOverflow.refl _

theorem run_of_fold_error {p : Program α} {e : FoldError α} (h : p.fold = .error e)
    (values : List α) (capacity : Int) : ∃ e', p.run values capacity = .error e' := by
  rcases fold_cases p with ⟨hcode, -⟩ | ⟨e', hcode, hsteps, -⟩ | ⟨stack, -, -, hfold⟩
  · obtain ⟨code, names⟩ := p
    cases hcode
    exact ⟨_, run_nil names values capacity⟩
  · obtain ⟨e'', hfails⟩ := steps_error standsFor_nil hsteps capacity p.names values
    rw [run_eq p hcode, ← List.nil_append p.code, hfails]
    exact ⟨e'', rfl⟩
  · rw [hfold] at h
    cases h

/-- What folding keeps of every run, over any values with any operations on them. A program that
runs can be folded and then runs to the same value. A folded program that runs, or fails, does what
the program did, unless that ran out of room. A program that cannot be folded never runs. -/
theorem fold_run (p : Program α) :
    (∀ values capacity x, p.run values capacity = .ok x →
      ∃ q, p.fold = .ok q ∧ q.run values capacity = .ok x) ∧
    (∀ q, p.fold = .ok q → ∀ values capacity,
      (∀ x, q.run values capacity = .ok x →
        p.run values capacity = .ok x ∨
          p.run values capacity = .error (.stackOverflow capacity)) ∧
      (∀ e, q.run values capacity = .error e →
        p.run values capacity = .error e ∨
          p.run values capacity = .error (.stackOverflow capacity))) ∧
    (∀ e, p.fold = .error e → ∀ values capacity, ∃ e', p.run values capacity = .error e') := by
  refine ⟨?_, ?_, ?_⟩
  · intro values capacity x hrun
    cases hfold : p.fold with
    | error e =>
      obtain ⟨e', hfails⟩ := run_of_fold_error hfold values capacity
      rw [hrun] at hfails
      cases hfails
    | ok q =>
      refine ⟨q, rfl, ?_⟩
      rcases run_upToOverflow hfold values capacity with hover | hsame
      · rw [hrun] at hover
        cases hover
      · rw [← hsame, hrun]
  · intro q hfold values capacity
    have hrun := run_upToOverflow hfold values capacity
    constructor
    · intro x hx
      rw [hx] at hrun
      exact hrun.symm
    · intro e he
      rw [he] at hrun
      exact hrun.symm
  · intro e hfold values capacity
    exact run_of_fold_error hfold values capacity

/-- The code of `x * (2 + 3)` at 4 runs with room for three values, and so does what it folds to.
With room for two only the folded code runs. A lone sum cannot be folded. -/
theorem fold_run_product :
    (∃ q, Program.fold (α := Float) ⟨[.load (.whole 0), .constant (.real 2.0),
        .constant (.real 3.0), .binary .add, .binary .multiply], ["x"]⟩ = .ok q ∧
      q.run [4.0] 3 = .ok 20.0) ∧
    (Program.run (α := Float) ⟨[.load (.whole 0), .constant (.real 2.0), .constant (.real 3.0),
        .binary .add, .binary .multiply], ["x"]⟩ [4.0] 2 = .ok 20.0 ∨
      Program.run (α := Float) ⟨[.load (.whole 0), .constant (.real 2.0), .constant (.real 3.0),
        .binary .add, .binary .multiply], ["x"]⟩ [4.0] 2 = .error (.stackOverflow 2)) ∧
    ∃ e, Program.run (α := Float) ⟨[.binary .add], []⟩ [] 64 = .error e := by
  refine ⟨(fold_run _).1 [4.0] 3 20.0 (by rfl), ?_,
    (fold_run _).2.2 (.underflow (.binary .add) 2 0) (by rfl) [] 64⟩
  exact ((fold_run _).2.1 ⟨[.load (.whole 0), .constant (.real 5.0), .binary .multiply], ["x"]⟩
    (by rfl) [4.0] 2).1 20.0 (by rfl)

end Program

end CurveCalc
