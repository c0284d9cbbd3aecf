import CurveCalc.Proofs.Code.Segments
import CurveCalc.Proofs.Formula.Compilation
import CurveCalc.Toolchain

/-!
How many values a formula can have on the stack. At one level of nesting at most three left operands
wait for their operators at the same time, since each of these binds more tightly than the one
before: a summand, a factor and the base of a power (`Precedence.pending`). A call adds the
arguments that wait for its last one. So the number of values is bounded by the depth of nesting and
the number of arguments, however long the formula is (`Formula.WellGrouped.room_le`), and folding
needs no more (`Program.peak_le_of_fold`).
-/

set_option autoImplicit false
set_option relaxedAutoImplicit false

namespace CurveCalc

open Machine

/-- A tree is worked out in the room it takes. -/
theorem Expression.peak_le_room {α : Type} [Primitives α] (e : Expression α Nat)
    (names : List String) (values : List α) :
    Program.peak ⟨e.postorder, names⟩ values ≤ e.room := by
  by_contra hmore
  have hover : Program.run ⟨e.postorder, names⟩ values e.room = .error (.stackOverflow e.room) :=
    Program.run_of_lt_peak (by omega)
  have hroom : Program.run ⟨e.postorder, names⟩ values
      (Program.peak ⟨e.postorder, names⟩ values : Int) =
        Program.runUnbounded ⟨e.postorder, names⟩ values :=
    Program.run_of_peak_le (by omega)
  -- the value of the tree is the same whatever room there is beyond the one it takes
  rw [run_postorder e (by omega), ← run_postorder e (Int.le_refl _), hover] at hroom
  exact Program.roomy_runUnbounded _ values _ hroom.symm

/-- How many left operands can wait at the same time for operators that bind at least this tightly,
at one level of nesting. -/
def Precedence.pending : Precedence → Nat
  | term => 3
  | factor => 2
  | power => 1
  | _ => 0

theorem Precedence.pending_le (p : Precedence) : p.pending ≤ 3 := by cases p <;> decide

theorem Precedence.pending_of_unary {p : Precedence} (h : Precedence.unary.level ≤ p.level) :
    p.pending ≤ 2 := by
  cases p <;> first | decide | exact absurd h (by decide)

theorem Precedence.pending_of_factorial {p : Precedence}
    (h : Precedence.factorial.level ≤ p.level) : p.pending = 0 := by
  cases p <;> first | rfl | exact absurd h (by decide)

namespace BinaryOperator

theorem pending_left (op : BinaryOperator) {p : Precedence}
    (h : op.precedence.level ≤ p.level) : p.pending ≤ op.precedence.pending := by
  cases op <;> cases p <;> first | decide | exact absurd h (by decide)

/-- While its right operand is worked out, the left one waits. -/
theorem pending_right (op : BinaryOperator) {p : Precedence}
    (h : op.precedence.level < p.level ∨ p = .unary) : p.pending < op.precedence.pending := by
  rcases h with h | rfl
  · cases op <;> cases p <;> first | decide | exact absurd h (by decide)
  · cases op <;> decide

end BinaryOperator

namespace Formula

variable {κ ν : Type}

theorem depth_lt_depthAll {e : Formula κ ν} {es : List (Formula κ ν)} (he : e ∈ es) :
    e.depth < depthAll es := by
  have hmem := List.mem_map_of_mem (f := fun t ↦ t.depth + 1) he
  rw [depthAll_eq]
  exact List.le_max_of_le' 0 hmem (Nat.le_refl _)

/-- The values of a formula: some for each level of nesting, and one for the formula itself and each
left operand that can wait for the operators of its outermost level. -/
theorem WellGrouped.room_le {k : Nat} {t : Formula κ ν} (ht : t.WellGrouped) (hwidth : t.width ≤ k)
    (hk : 1 ≤ k) : t.expression.room ≤ t.depth * (k + 2) + 1 + t.precedence.pending := by
  induction ht with
  | number x => exact Nat.le_add_left _ _
  | identifier v => exact Nat.le_add_left _ _
  | group he ih =>
    rename_i e
    have hroom := ih hwidth
    have hpending := e.precedence.pending_le
    rw [expression, depth, Nat.add_one_mul]
    omega
  | signed sign he hbinds ih =>
    rename_i e
    have hroom := ih hwidth
    have hpending := Precedence.pending_of_unary hbinds
    have hsame : (Formula.signed sign e).expression.room = e.expression.room := by
      cases sign <;> rfl
    rw [hsame, depth, Nat.add_one_mul]
    omega
  | factorial he hbinds ih =>
    rename_i e
    have hroom := ih hwidth
    rw [Precedence.pending_of_factorial hbinds] at hroom
    exact hroom
  | binary op hl hr hleft hends hright ihl ihr =>
    rename_i l r
    rw [width, Nat.max_le] at hwidth
    have hroomLeft := ihl hwidth.1
    have hroomRight := ihr hwidth.2
    have hpendingLeft := op.pending_left hleft
    have hpendingRight := op.pending_right (hright.imp_right IsSigned.precedence)
    have hdepthLeft : l.depth * (k + 2) ≤ max l.depth r.depth * (k + 2) :=
      Nat.mul_le_mul_right _ (Nat.le_max_left _ _)
    have hdepthRight : r.depth * (k + 2) ≤ max l.depth r.depth * (k + 2) :=
      Nat.mul_le_mul_right _ (Nat.le_max_right _ _)
    rw [expression, Expression.room, depth, precedence]
    omega
  | call f hes ih =>
    rename_i es
    rw [width, Nat.max_le] at hwidth
    rw [expression, Expression.room, depth, expressionAll_eq]
    cases hdepth : depthAll es with
    | zero =>
      cases es with
      | nil => exact Nat.le_add_left _ _
      | cons e es =>
        have hlt := depth_lt_depthAll (List.mem_cons_self (a := e) (l := es))
        omega
    | succ d =>
      have hroom : ∀ e ∈ es.map expression, e.room ≤ d * (k + 2) + 4 := by
        intro e he
        obtain ⟨u, hu, rfl⟩ := List.mem_map.mp he
        have hu' := ih u hu (Nat.le_trans (Reader.width_le_widthAll hu) hwidth.2)
        have hpending := u.precedence.pending_le
        have hlt := depth_lt_depthAll hu
        have hle : u.depth * (k + 2) ≤ d * (k + 2) := Nat.mul_le_mul_right _ (by omega)
        omega
      -- the last argument is worked out while all the others wait
      have hall := Expression.roomAll_lt (by omega) hroom
      rw [List.length_map] at hall
      rw [Nat.add_one_mul]
      omega

end Formula

/-- In no run of the program, whatever its values and the size of its stack, there are ever more
values than these on the stack. -/
def Program.StaysWithin (p : Program Float) (n : Nat) : Prop :=
  ∀ (values : List Float) (capacity : Int) (before : List (Instruction Float)) (s : Stack Float),
    before <+: p.code →
    exec p.names values before (Stack.empty Primitives.zero capacity) = .ok s → s.size ≤ n

theorem Program.staysWithin_of_peak {p : Program Float} {n : Nat}
    (h : ∀ values, p.peak values ≤ n) : p.StaysWithin n := by
  intro values capacity before s hbefore hexec
  exact Nat.le_trans (size_le_peak hbefore hexec) (h values)

theorem Program.run_ne_overflow {p : Program Float} {n : Nat} (h : ∀ values, p.peak values ≤ n)
    {capacity : Int} (hroom : (n : Int) ≤ capacity) (values : List Float) (c : Int) :
    p.run values capacity ≠ .error (.stackOverflow c) := by
  have hpeak := h values
  rw [run_of_peak_le (by omega)]
  exact roomy_runUnbounded p values c

theorem peak_le_of_compile {d k : Nat} (hk : 1 ≤ k) {source : String} {p : Program Float}
    (hp : compile d source = .ok p) {e : Phrase Literal String} (he : SpelledBy source e.symbols)
    (hcounts : ∀ n ∈ e.argumentCounts, n ≤ k) (values : List Float) :
    p.peak values ≤ d * (k + 2) + 4 := by
  rcases compile_cases d source with ⟨t, hspelled, hgrouped, -, hdepth, hok⟩ | ⟨err, herr, -, -⟩
  · obtain rfl : p = t.expression.program := Except.ok.inj (hp.symm.trans hok)
    obtain rfl : e.formula = t := Phrase.formula_eq hgrouped (he.unique hspelled)
    rw [Int.toNat_natCast] at hdepth
    have hwidth : e.formula.width ≤ k := (e.argumentCounts_le_iff k).mp hcounts
    have hpeak := e.formula.expression.slotted.peak_le_room e.formula.expression.names values
    have hroom := hgrouped.room_le hwidth hk
    have hpending := e.formula.precedence.pending_le
    have hnested : e.formula.depth * (k + 2) ≤ d * (k + 2) := Nat.mul_le_mul_right _ hdepth
    rw [Expression.slotted, Expression.room_map] at hpeak
    exact Nat.le_trans hpeak (by omega)
  · rw [hp] at herr
    cases herr

/-- What a formula needs of the stack is bounded by how deep it nests and by how many arguments its
calls have, however long it is, and the same holds of its code once it is folded. With calls of one
argument, the stack there is by default is what twenty levels of nesting need. -/
theorem compile_stackNeed {d k : Nat} (hk : 1 ≤ k) {source : String} {p : Program Float}
    (hp : compile d source = .ok p) {e : Phrase Literal String} (he : SpelledBy source e.symbols)
    (hcounts : ∀ n ∈ e.argumentCounts, n ≤ k) :
    (∀ q, q = p ∨ p.fold = .ok q → q.StaysWithin (d * (k + 2) + 4) ∧
      ∀ capacity : Int, ((d * (k + 2) + 4 : Nat) : Int) ≤ capacity → ∀ values c,
        q.run values capacity ≠ .error (.stackOverflow c)) ∧
    ((20 * (1 + 2) + 4 : Nat) : Int) = ({} : Toolchain).stackSize := by
  refine ⟨fun q hq ↦ ?_, rfl⟩
  have hpeak : ∀ values, q.peak values ≤ d * (k + 2) + 4 := by
    intro values
    have hcompiled := peak_le_of_compile hk hp he hcounts values
    rcases hq with rfl | hfold
    · exact hcompiled
    · exact Nat.le_trans (Program.peak_le_of_fold hfold values) hcompiled
  refine ⟨Program.staysWithin_of_peak hpeak, ?_⟩
  intro capacity hroom
  exact Program.run_ne_overflow hpeak hroom

/-- A sum, a product, a power and a call, twenty levels being allowed. -/
theorem compile_stackNeed_sum :
    ∃ p, compile (20 : Nat) "x+2*sin(x)^3" = .ok p ∧ p.StaysWithin 64 ∧
      ∀ values c, p.run values 64 ≠ .error (.stackOverflow c) := by
  let two : Constant := .numeral (.whole ⟨['2'], by decide, List.forall_mem_singleton.mpr rfl⟩)
  let three : Constant := .numeral (.whole ⟨['3'], by decide, List.forall_mem_singleton.mpr rfl⟩)
  let x : VariableName := ⟨'x', [], by decide, List.forall_mem_nil _, by decide⟩
  let t : Expression Constant VariableName := .binary .add (.var x)
    (.binary .multiply (.constant two) (.binary .power (.call .sin [.var x]) (.constant three)))
  let e : Phrase Literal String := .binary (.binary (.binary (.first [] (.identifier "x")) .add []
    (.number (.decimal ⟨2, 0⟩))) .multiply [] (.call .sin [.first [] (.identifier "x")]))
    .power [] (.number (.decimal ⟨3, 0⟩))
  have hp : compile (20 : Nat) "x+2*sin(x)^3" = .ok t.written.program :=
    compile_of_text t (by decide) (by decide) (by decide)
  have he : SpelledBy "x+2*sin(x)^3" e.symbols := by
    unfold SpelledBy
    decide +kernel
  have hneed := (compile_stackNeed (k := 1) (Nat.le_refl 1) hp he (by decide)).1 _ (Or.inl rfl)
  exact ⟨_, hp, hneed.1, hneed.2 64 (by decide)⟩

end CurveCalc
