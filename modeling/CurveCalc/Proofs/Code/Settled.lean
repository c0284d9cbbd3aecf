import CurveCalc.Proofs.Code.Loads
import CurveCalc.Proofs.Code.WellFormed

/-!
What folding leaves. An entry of its stack is a value, the load of a variable, or an instruction
behind the code of the entries it takes, and then some of these depend on a variable
(`Folded.Settled`). Whatever is on the stack before, such code is read back as the one entry it came
from (`Folded.Settled.steps`), so that folded code is folded to itself (`Program.fold_fold`). And in
folded code the operands of every instruction can be told, in one way only
(`Instruction.Takes.unique`), and some operand loads a variable (`Program.Settled.dependent`).
-/

set_option autoImplicit false
set_option relaxedAutoImplicit false

namespace CurveCalc

open Machine Instruction

namespace Instruction

variable {α : Type}

/-- The code in front of an instruction ends with the code of its operands, one behind the other.
Each of them puts one value on top of those before. -/
structure Takes (i : Instruction α) (before : List (Instruction α))
    (operands : List (List (Instruction α))) : Prop where
  suffix : operands.flatten <:+ before
  length : i.operandCount = operands.length
  balanced : ∀ code ∈ operands, Balanced code

theorem Takes.prepend {i : Instruction α} {before : List (Instruction α)}
    {operands : List (List (Instruction α))} (h : Takes i before operands)
    (more : List (Instruction α)) : Takes i (more ++ before) operands :=
  ⟨h.suffix.trans (List.suffix_append more before), h.length, h.balanced⟩

/-- Behind an instruction there is a value at least. -/
theorem height?_pos {code : List (Instruction α)} (hcode : code ≠ []) {n m : Int}
    (h : height? code n = some m) : 1 ≤ m := by
  induction code generalizing n with
  | nil => exact absurd rfl hcode
  | cons i code ih =>
    obtain ⟨hcount, hmore⟩ := height?_cons_eq_some.mp h
    cases code with
    | nil =>
      rw [height?, Option.some.injEq] at hmore
      omega
    | cons j code => exact ih (List.cons_ne_nil j code) hmore

/-- Code that leaves one value does not end with less code that does. -/
theorem Balanced.eq_nil_of_append {code more : List (Instruction α)} (hall : Balanced (code ++ more))
    (hmore : Balanced more) : code = [] := by
  by_contra hcode
  have hheight := hall 0 (Int.le_refl 0)
  rw [height?_append, Option.bind_eq_some_iff] at hheight
  obtain ⟨m, hm, hrest⟩ := hheight
  have hpos := height?_pos hcode hm
  rw [hmore m (by omega), Option.some.injEq] at hrest
  omega

theorem Balanced.eq_of_suffix {code other before : List (Instruction α)} (hcode : Balanced code)
    (hother : Balanced other) (hsuffix : code <:+ before) (hsuffix' : other <:+ before) :
    code = other := by
  rcases List.suffix_or_suffix_of_suffix hsuffix hsuffix' with ⟨more, rfl⟩ | ⟨more, rfl⟩
  · rw [hother.eq_nil_of_append hcode, List.nil_append]
  · rw [hcode.eq_nil_of_append hother, List.nil_append]

theorem eq_of_flatten_suffix {operands others : List (List (Instruction α))}
    (hlength : operands.length = others.length) (hoperands : ∀ code ∈ operands, Balanced code)
    (hothers : ∀ code ∈ others, Balanced code) {before : List (Instruction α)}
    (hsuffix : operands.flatten <:+ before) (hsuffix' : others.flatten <:+ before) :
    operands = others := by
  induction operands using List.reverseRecOn generalizing others before with
  | nil => exact (List.eq_nil_of_length_eq_zero hlength.symm).symm
  | append_singleton operands code ih =>
    cases others using List.reverseRecOn with
    | nil => simp at hlength
    | append_singleton others other =>
      rw [List.flatten_append, List.flatten_singleton] at hsuffix hsuffix'
      rw [List.length_append, List.length_append] at hlength
      rw [List.forall_mem_append, List.forall_mem_singleton] at hoperands hothers
      obtain rfl : code = other := hoperands.2.eq_of_suffix hothers.2
        ((List.suffix_append _ _).trans hsuffix) ((List.suffix_append _ _).trans hsuffix')
      obtain ⟨front, rfl⟩ := hsuffix
      rw [← List.append_assoc, List.suffix_append_self_iff] at hsuffix'
      rw [ih (Nat.add_right_cancel hlength) hoperands.1 hothers.1 (List.suffix_append _ _) hsuffix']

/-- The operands of an instruction are told by the code in front of it. -/
theorem Takes.unique {i : Instruction α} {before : List (Instruction α)}
    {operands others : List (List (Instruction α))} (h : Takes i before operands)
    (hothers : Takes i before others) : operands = others := by
  have hlength : (operands.length : Int) = others.length := h.length.symm.trans hothers.length
  exact eq_of_flatten_suffix (Int.ofNat_inj.mp hlength) h.balanced hothers.balanced h.suffix
    hothers.suffix

end Instruction

namespace Folded

variable {α : Type}

/-- An entry as folding leaves it. No instruction in it could have been worked out, since some
entry that it takes depends on a variable. -/
inductive Settled : Folded α → Prop
  | known (x : α) : Settled (known x)
  | load (slot : Operand α) : Settled (residual [.load slot])
  | operation {i : Instruction α} {operands : List (Folded α)} (hoperates : Operates i)
    (hcount : i.operandCount = operands.length) (hoperands : ∀ entry ∈ operands, Settled entry)
    (hdepends : Depends operands) : Settled (residual (operands.flatMap code ++ [i]))

namespace Settled

theorem balanced {entry : Folded α} (h : entry.Settled) : Balanced entry.code := by
  induction h with
  | known x => exact balanced_singleton rfl
  | load slot => exact balanced_singleton rfl
  | operation _ hcount _ _ ih => exact balanced_operation _ ih hcount

end Settled

theorem not_depends_known (xs : List α) : ¬ Depends (xs.map known) := by
  rintro ⟨code, hcode⟩
  obtain ⟨x, -, hx⟩ := List.mem_map.mp hcode
  cases hx

variable [Primitives α]

/-- What comes of combining an instruction with the entries it takes, where these are on top. -/
theorem combine_operands {i : Instruction α} {operands : List (Folded α)}
    (hcount : i.operandCount = operands.length) (rest : List (Folded α)) :
    (∃ xs, operands = xs.map known ∧
      combine i (operands.reverse ++ rest) = (evaluate i xs).map fun x ↦ known x :: rest) ∨
    (Depends operands ∧
      combine i (operands.reverse ++ rest) =
        .ok (residual (operands.flatMap code ++ [i]) :: rest)) := by
  rcases combine_cases i (operands.reverse ++ rest) with ⟨hshort, -⟩ |
    ⟨others, rest', hsplit, hlength, hresult⟩
  · rw [List.length_append, List.length_reverse] at hshort
    omega
  · obtain ⟨hothers, rfl⟩ := List.append_inj hsplit (by simp only [List.length_reverse]; omega)
    obtain rfl := List.reverse_injective hothers
    exact hresult

theorem combine_of_depends {i : Instruction α} {operands : List (Folded α)}
    (hcount : i.operandCount = operands.length) (hdepends : Depends operands)
    (rest : List (Folded α)) :
    combine i (operands.reverse ++ rest) =
      .ok (residual (operands.flatMap code ++ [i]) :: rest) := by
  rcases combine_operands hcount rest with ⟨xs, rfl, -⟩ | ⟨-, hresidual⟩
  · exact absurd hdepends (not_depends_known xs)
  · exact hresidual

theorem steps_append (read more : List (Instruction α)) (stack : List (Folded α)) :
    steps (read ++ more) stack = (steps read stack).bind (steps more) := by
  induction read generalizing stack with
  | nil => rfl
  | cons i read ih =>
    change (step stack i).bind (steps (read ++ more)) = ((step stack i).bind (steps read)).bind _
    cases step stack i with
    | error e => rfl
    | ok next => exact ih next

theorem steps_singleton (i : Instruction α) (stack : List (Folded α)) :
    steps [i] stack = step stack i := by
  change (step stack i).bind Except.ok = _
  cases step stack i <;> rfl

theorem steps_flatMap {entries : List (Folded α)}
    (hentries : ∀ entry ∈ entries, ∀ rest, steps entry.code rest = .ok (entry :: rest))
    (rest : List (Folded α)) : steps (entries.flatMap code) rest = .ok (entries.reverse ++ rest) := by
  induction entries generalizing rest with
  | nil => rfl
  | cons entry entries ih =>
    rw [List.flatMap_cons, steps_append, hentries entry List.mem_cons_self rest]
    change steps (entries.flatMap code) (entry :: rest) = _
    rw [ih (fun e he ↦ hentries e (List.mem_cons_of_mem entry he)), List.reverse_cons,
      List.append_assoc, List.singleton_append]

/-- The code of an entry is read back as this entry, whatever is on the stack before. -/
theorem Settled.steps {entry : Folded α} (h : entry.Settled) (rest : List (Folded α)) :
    steps entry.code rest = .ok (entry :: rest) := by
  induction h generalizing rest with
  | known x => rfl
  | load slot => rfl
  | @operation i operands hoperates hcount _ hdepends ih =>
    rw [code, steps_append, steps_flatMap ih]
    change Folded.steps [i] (operands.reverse ++ rest) = _
    rw [steps_singleton]
    rcases step_cases i (operands.reverse ++ rest) with ⟨value, rfl⟩ | ⟨slot, rfl⟩ | ⟨-, hcombine⟩
    · exact hoperates.elim
    · exact hoperates.elim
    · rw [hcombine, combine_of_depends hcount hdepends]

/-- Folding one more instruction leaves settled entries settled. -/
theorem step_settled {i : Instruction α} {stack next : List (Folded α)}
    (hstack : ∀ entry ∈ stack, entry.Settled) (h : step stack i = .ok next) :
    ∀ entry ∈ next, entry.Settled := by
  rcases step_cases i stack with ⟨value, rfl⟩ | ⟨slot, rfl⟩ | ⟨hoperates, hcombine⟩
  · obtain ⟨x, -, rfl⟩ := step_constant_eq_ok.mp h
    exact List.forall_mem_cons.mpr ⟨.known x, hstack⟩
  · cases h
    exact List.forall_mem_cons.mpr ⟨.load slot, hstack⟩
  rw [hcombine] at h
  rcases combine_cases i stack with ⟨-, e, he⟩ | ⟨operands, rest, rfl, hlength, hresult⟩
  · rw [he] at h
    cases h
  rw [List.forall_mem_append] at hstack
  rcases hresult with ⟨xs, -, hknown⟩ | ⟨hdepends, hresidual⟩
  · rw [hknown] at h
    obtain ⟨x, -, rfl⟩ := Attempt.map_eq_ok.mp h
    exact List.forall_mem_cons.mpr ⟨.known x, hstack.2⟩
  · rw [hresidual] at h
    cases h
    have hpos : 0 < operands.length := List.length_pos_of_mem hdepends.choose_spec
    have hoperands : ∀ entry ∈ operands, entry.Settled := fun entry hentry ↦
      hstack.1 entry (List.mem_reverse.mpr hentry)
    exact List.forall_mem_cons.mpr ⟨.operation hoperates (by omega) hoperands hdepends, hstack.2⟩

theorem steps_settled {code : List (Instruction α)} {stack final : List (Folded α)}
    (hstack : ∀ entry ∈ stack, entry.Settled) (h : steps code stack = .ok final) :
    ∀ entry ∈ final, entry.Settled := by
  induction code generalizing stack with
  | nil =>
    cases h
    exact hstack
  | cons i code ih =>
    obtain ⟨next, hstep, hnext⟩ := Attempt.bind_eq_ok.mp h
    exact ih (step_settled hstack hstep) hnext

end Folded

namespace Instruction

variable {α : Type}

/-- The operands of every operation in the code can be told, and one of them loads a variable. -/
def Dependent (code : List (Instruction α)) : Prop :=
  ∀ before i after, code = before ++ i :: after → Folded.Operates i →
    ∃ operands, Takes i before operands ∧ ∃ operand ∈ operands, loads operand ≠ []

theorem Dependent.append {code more : List (Instruction α)} (hcode : Dependent code)
    (hmore : Dependent more) : Dependent (code ++ more) := by
  intro before i after hsplit hi
  rcases List.append_eq_append_iff.mp hsplit with ⟨between, rfl, hafter⟩ | ⟨between, rfl, hafter⟩
  · obtain ⟨operands, htakes, hloads⟩ := hmore between i after hafter hi
    exact ⟨operands, htakes.prepend code, hloads⟩
  · cases between with
    | nil =>
      obtain ⟨operands, htakes, hloads⟩ := hmore [] i after hafter.symm hi
      exact ⟨operands, List.append_nil before ▸ htakes.prepend before, hloads⟩
    | cons j between =>
      cases hafter
      exact hcode before i between rfl hi

end Instruction

namespace Program

variable {α : Type}

/-- The program as folding leaves it. -/
structure Settled (p : Program α) : Prop where
  code_ne_nil : p.code ≠ []
  entries : ∃ entries : List (Folded α), (∀ entry ∈ entries, entry.Settled) ∧
    p.code = entries.flatMap Folded.code

variable [Primitives α]

theorem settled_of_fold {p q : Program α} (h : p.fold = .ok q) : q.Settled := by
  obtain ⟨stack, hcode, hsteps, rfl⟩ := exists_of_fold h
  have hstack := Folded.steps_settled (List.forall_mem_nil _) hsteps
  exact ⟨Folded.kept_ne_nil hcode hsteps, stack.reverse,
    fun entry hentry ↦ hstack entry (List.mem_reverse.mp hentry), rfl⟩

theorem Settled.fold_self {p : Program α} (hp : p.Settled) : p.fold = .ok p := by
  obtain ⟨entries, hentries, hcode⟩ := hp.entries
  have hsteps : Folded.steps p.code [] = .ok entries.reverse := by
    rw [hcode, Folded.steps_flatMap fun entry hentry ↦ (hentries entry hentry).steps,
      List.append_nil]
  rw [p.fold_eq hp.code_ne_nil, hsteps]
  change Except.ok (Program.mk (Folded.kept entries.reverse) p.names) = .ok p
  rw [Folded.kept_reverse, ← hcode]

/-- Folding what folding gives changes nothing, whatever the values and the operations on them. -/
theorem fold_fold {p q : Program α} (h : p.fold = .ok q) : q.fold = .ok q :=
  (settled_of_fold h).fold_self

/-- The code of `x * (2 + 3)`, and behind it a quotient that is no number. -/
theorem fold_fold_product :
    ∃ q, Program.fold (α := Float) ⟨[.load (.whole 0), .constant (.real 2.0),
        .constant (.real 3.0), .binary .add, .binary .multiply, .constant (.real 0.0),
        .constant (.real 0.0), .binary .divide], ["x"]⟩ = .ok q ∧ q.fold = .ok q := by
  have h : Program.fold (α := Float) ⟨[.load (.whole 0), .constant (.real 2.0),
      .constant (.real 3.0), .binary .add, .binary .multiply, .constant (.real 0.0),
      .constant (.real 0.0), .binary .divide], ["x"]⟩ =
      .ok ⟨[.load (.whole 0), .constant (.real 5.0), .binary .multiply,
        .constant (.real (0.0 / 0.0))], ["x"]⟩ := by rfl
  exact ⟨_, h, fold_fold h⟩

end Program

end CurveCalc
