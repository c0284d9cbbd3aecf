import CurveCalc.Proofs.Code.Folding

/-!
Code as formulas are compiled to: no instruction takes more values than there are, one value is left
in the end, and every argument of an instruction is one that a formula can lead to
(`Program.WellFormed`). Folding keeps all of this, and fails only for a call with a wrong number of
arguments (`Program.WellFormed.fold`). Of the failures of a run three are left for such code: too
little room, a variable without a value, and a call with a wrong number of arguments
(`Program.WellFormed.run`).
-/

set_option autoImplicit false
set_option relaxedAutoImplicit false

namespace CurveCalc

open Machine

/-- What is computed succeeds with a result of one kind or fails in one of some ways. -/
def Ends {ε β : Type} (allowed : ε → Prop) (post : β → Prop) : Except ε β → Prop
  | .ok y => post y
  | .error e => allowed e

namespace Ends

variable {ε β γ : Type} {allowed : ε → Prop}

theorem bind {post : β → Prop} {post' : γ → Prop} {a : Except ε β} {f : β → Except ε γ}
    (ha : Ends allowed post a) (hf : ∀ y, post y → Ends allowed post' (f y)) :
    Ends allowed post' (a.bind f) := by
  cases a with
  | error e => exact ha
  | ok y => exact hf y ha

theorem map {post : β → Prop} {post' : γ → Prop} {a : Except ε β} {f : β → γ}
    (ha : Ends allowed post a) (hf : ∀ y, post y → post' (f y)) :
    Ends allowed post' (a.map f) := by
  cases a with
  | error e => exact ha
  | ok y => exact hf y ha

end Ends

namespace Instruction

variable {α : Type}

/-- How many values there are behind the code where there are `n` before it, if no instruction takes
more than there are. -/
def height? : List (Instruction α) → Int → Option Int
  | [], n => some n
  | i :: code, n => if n < i.operandCount then none else height? code (n - i.operandCount + 1)

/-- The arguments of the instruction are such as formulas over so many names lead to. -/
def Proper (names : Nat) : Instruction α → Prop
  | constant (.real _) => True
  | load (.whole slot) => 0 ≤ slot ∧ slot < names
  | binary _ => True
  | unary _ => True
  | call (.whole number) count => (1 ≤ number ∧ number ≤ 18) ∧ 0 ≤ count ∧ count ≤ 255
  | _ => False

theorem height?_append (code more : List (Instruction α)) (n : Int) :
    height? (code ++ more) n = (height? code n).bind (height? more) := by
  induction code generalizing n with
  | nil => rfl
  | cons i code ih =>
    rw [List.cons_append, height?, height?]
    by_cases hcount : n < i.operandCount
    · rw [if_pos hcount, if_pos hcount, Option.bind_none]
    · rw [if_neg hcount, if_neg hcount, ih]

theorem height?_cons_eq_some {i : Instruction α} {code : List (Instruction α)} {n m : Int} :
    height? (i :: code) n = some m ↔
      i.operandCount ≤ n ∧ height? code (n - i.operandCount + 1) = some m := by
  rw [height?]
  by_cases hcount : n < i.operandCount
  · simp [hcount, Int.not_le.mpr hcount]
  · simp [hcount, Int.not_lt.mp hcount]

theorem height?_singleton {i : Instruction α} {n : Int} (hcount : i.operandCount ≤ n) :
    height? [i] n = some (n - i.operandCount + 1) := by
  rw [height?, if_neg (Int.not_lt.mpr hcount), height?]

/-- The code leaves one value on top of those before, and takes none of them. -/
def Balanced (code : List (Instruction α)) : Prop :=
  ∀ n : Int, 0 ≤ n → height? code n = some (n + 1)

theorem balanced_singleton {i : Instruction α} (hcount : i.operandCount = 0) : Balanced [i] := by
  intro n hn
  rw [height?_singleton (by omega), hcount, Int.sub_zero]

section Operands

variable {β : Type} {f : β → List (Instruction α)}

theorem height?_flatMap {operands : List β} (hoperands : ∀ b ∈ operands, Balanced (f b)) {n : Int}
    (hn : 0 ≤ n) :
    height? (operands.flatMap f) n = some (n + operands.length) := by
  induction operands generalizing n with
  | nil => simp [height?]
  | cons b operands ih =>
    have hfirst := hoperands b List.mem_cons_self n hn
    have hmore := ih (fun c hc ↦ hoperands c (List.mem_cons_of_mem b hc)) (n := n + 1) (by omega)
    rw [List.flatMap_cons, height?_append, hfirst, Option.bind_some, hmore, List.length_cons]
    congr 1
    omega

/-- An instruction behind the code of the operands it takes. -/
theorem balanced_operation {i : Instruction α} (operands : List β)
    (hoperands : ∀ b ∈ operands, Balanced (f b)) (hcount : i.operandCount = operands.length) :
    Balanced (operands.flatMap f ++ [i]) := by
  intro n hn
  rw [height?_append, height?_flatMap hoperands hn, Option.bind_some,
    height?_singleton (by omega), hcount]
  congr 1
  omega

end Operands

theorem Proper.operandCount_nonneg {names : Nat} {i : Instruction α} (hi : i.Proper names) :
    0 ≤ i.operandCount := by
  cases i with
  | call function count =>
    cases function with
    | whole number => exact hi.2.1
    | real x => exact hi.elim
  | binary op => exact Int.zero_le_ofNat 2
  | unary op => exact Int.zero_le_ofNat 1
  | _ => exact Int.le_refl 0

end Instruction

/-- Every number up to the last one is that of a function. -/
theorem Builtin.exists_number {n : Int} (h : 1 ≤ n ∧ n ≤ 18) :
    ∃ f : Builtin, n = f.number := by
  have hall : ∀ m : Fin 18, ∃ f ∈ Builtin.all, f.number = m.val + 1 := by decide
  obtain ⟨f, -, hf⟩ := hall ⟨(n - 1).toNat, by omega⟩
  refine ⟨f, ?_⟩
  rw [hf]
  dsimp only
  omega

/-- The failures that are left for the code of a formula where it is run. -/
inductive RunError.Ordinary (capacity : Int) (names : List String) (given : Nat) : RunError → Prop
  | overflow : Ordinary capacity names given (.stackOverflow capacity)
  | undefined {slot : Nat} (hgiven : given ≤ slot) (hslot : slot < names.length) :
    Ordinary capacity names given (.undefinedVariable slot names given)
  | arguments {f : Builtin} {n : Nat} (harity : n ≠ f.arity) :
    Ordinary capacity names given (.wrongArgumentCount f n)

/-- The failure that is left where it is folded. -/
inductive FoldError.Ordinary {α : Type} : FoldError α → Prop
  | arguments {f : Builtin} {n : Nat} (harity : n ≠ f.arity) :
    Ordinary (.run (.wrongArgumentCount f n))

structure Program.WellFormed {α : Type} (p : Program α) : Prop where
  height : Instruction.height? p.code 0 = some 1
  proper : ∀ i ∈ p.code, i.Proper p.names.length

theorem Program.WellFormed.code_ne_nil {α : Type} {p : Program α} (hp : p.WellFormed) :
    p.code ≠ [] := by
  intro hcode
  have hheight := hp.height
  rw [hcode, Instruction.height?] at hheight
  cases hheight

open Instruction

namespace Folded

variable {α : Type} {names : Nat}

/-- The code of an entry is proper and puts one value on top of those before. -/
structure Tidy (names : Nat) (entry : Folded α) : Prop where
  balanced : Balanced entry.code
  proper : ∀ i ∈ entry.code, i.Proper names

theorem proper_flatMap_code {entries : List (Folded α)}
    (hentries : ∀ entry ∈ entries, entry.Tidy names) :
    ∀ i ∈ entries.flatMap code, i.Proper names := by
  intro i hi
  obtain ⟨entry, hentry, hi⟩ := List.mem_flatMap.mp hi
  exact (hentries entry hentry).proper i hi

theorem tidy_known (x : α) : (known x).Tidy names :=
  ⟨balanced_singleton rfl, List.forall_mem_singleton.mpr trivial⟩

theorem tidy_load {slot : Operand α} (hslot : (load slot).Proper names) :
    (residual [.load slot]).Tidy names :=
  ⟨balanced_singleton rfl, List.forall_mem_singleton.mpr hslot⟩

theorem tidy_residual {i : Instruction α} (hi : i.Proper names) {operands : List (Folded α)}
    (hoperands : ∀ entry ∈ operands, entry.Tidy names)
    (hlength : operands.length = i.operandCount.toNat) :
    (residual (operands.flatMap code ++ [i])).Tidy names := by
  have hnonneg := hi.operandCount_nonneg
  constructor
  · have hbalanced : ∀ entry ∈ operands, Balanced entry.code := fun entry hentry ↦
      (hoperands entry hentry).balanced
    exact balanced_operation operands hbalanced (by omega)
  · intro j hj
    rcases List.mem_append.mp hj with hj | hj
    · exact proper_flatMap_code hoperands j hj
    · rwa [List.mem_singleton.mp hj]

end Folded

namespace Machine

variable {α : Type} {capacity : Int} {names : List String} {values : List α}

theorem fetch_ends {slot : Int} (h : 0 ≤ slot ∧ slot < names.length) :
    Ends (RunError.Ordinary capacity names values.length) (fun _ ↦ True)
      (fetch names values slot) := by
  unfold fetch
  by_cases hgiven : (values.length : Int) ≤ slot
  · rw [if_pos hgiven]
    exact .undefined (by omega) (by omega)
  · have hslot : slot.toNat < values.length := by omega
    rw [if_neg hgiven, atSlot?, if_pos h.1, List.getElem?_eq_getElem hslot]
    trivial

theorem fit_ends {ys : List α} {post : List α → Prop} (hys : post ys) :
    Ends (RunError.Ordinary capacity names values.length) post (fit capacity ys) := by
  unfold fit
  split
  · exact .overflow
  · exact hys

end Machine

variable {α : Type} [Primitives α]

theorem call_ends {number : Int} (h : 1 ≤ number ∧ number ≤ 18) (xs : List α) :
    (∃ x, Builtin.call number xs = .ok x) ∨
      ∃ f : Builtin, xs.length ≠ f.arity ∧
        Builtin.call number xs = .error (.wrongArgumentCount f xs.length) := by
  obtain ⟨f, rfl⟩ := Builtin.exists_number h
  rw [call_number]
  by_cases harity : xs.length = f.arity
  · exact Or.inl ⟨_, if_pos harity⟩
  · exact Or.inr ⟨f, harity, if_neg harity⟩

namespace Machine

section Running

variable {capacity : Int} {names : List String} {values : List α} {i : Instruction α} {xs : List α}

/-- An instruction that finds the values it takes leaves one in their place or fails in an ordinary
way. -/
theorem effect_ends (hi : i.Proper names.length) (hcount : i.operandCount ≤ xs.length) :
    Ends (RunError.Ordinary capacity names values.length)
      (fun ys ↦ (ys.length : Int) = xs.length - i.operandCount + 1)
      (effect names values i xs) := by
  cases i with
  | constant value =>
    cases value with
    | whole n => exact hi.elim
    | real x =>
      change ((x :: xs).length : Int) = _
      simp [operandCount]
  | load slot =>
    cases slot with
    | real x => exact hi.elim
    | whole slot =>
      change Ends _ _ ((fetch names values slot).bind fun x ↦ .ok (x :: xs))
      refine (fetch_ends hi).bind fun x _ ↦ ?_
      change ((x :: xs).length : Int) = _
      simp [operandCount]
  | binary op =>
    rcases xs with _ | ⟨right, _ | ⟨left, xs⟩⟩
    · simp [operandCount] at hcount
    · simp [operandCount] at hcount
    · change ((Primitives.binary op left right :: xs).length : Int) = _
      simp only [operandCount, List.length_cons]
      omega
  | unary op =>
    cases xs with
    | nil => simp [operandCount] at hcount
    | cons x xs =>
      change ((Primitives.unary op x :: xs).length : Int) = _
      simp [operandCount]
  | call function count =>
    cases function with
    | real x => exact hi.elim
    | whole number =>
      have hroom : ¬ (xs.length : Int) < count := Int.not_lt.mpr hcount
      have hnonneg : 0 ≤ count := hi.2.1
      simp only [effect, Operand.index, Operand.toInt, Attempt.mapError_ok, bind, Except.bind,
        if_neg hroom]
      rcases call_ends hi.1 (xs.take count.toNat).reverse with ⟨x, hx⟩ | ⟨f, harity, hcall⟩
      · rw [hx]
        change ((x :: xs.drop count.toNat).length : Int) = _
        rw [operandCount, List.length_cons, List.length_drop]
        omega
      · rw [hcall]
        exact .arguments harity
  | unknown code => exact hi.elim

theorem within_ends (hi : i.Proper names.length) (hcount : i.operandCount ≤ xs.length) :
    Ends (RunError.Ordinary capacity names values.length)
      (fun ys ↦ (ys.length : Int) = xs.length - i.operandCount + 1)
      (within capacity names values xs i) :=
  (effect_ends hi hcount).bind fun _ hlength ↦ fit_ends hlength

/-- Proper code on as many values as it takes leaves as many as it should or fails in an ordinary
way. -/
theorem follow_ends {code : List (Instruction α)} (hcode : ∀ i ∈ code, i.Proper names.length)
    {m : Int} (hheight : height? code xs.length = some m) :
    Ends (RunError.Ordinary capacity names values.length) (fun ys ↦ (ys.length : Int) = m)
      (follow capacity names values code xs) := by
  induction code generalizing xs with
  | nil => exact Option.some.inj hheight
  | cons i code ih =>
    obtain ⟨hcount, hmore⟩ := height?_cons_eq_some.mp hheight
    rw [follow_cons]
    refine (within_ends (hcode i List.mem_cons_self) hcount).bind fun ys hlength ↦ ?_
    refine ih (fun j hj ↦ hcode j (List.mem_cons_of_mem i hj)) ?_
    rw [hlength, hmore]

end Running

end Machine

namespace Folded

variable {names : Nat}

theorem evaluate_ends {i : Instruction α} (hoperates : Operates i) (hi : i.Proper names)
    {xs : List α} (hlength : xs.length = i.operandCount.toNat) :
    Ends FoldError.Ordinary (fun _ ↦ True) (evaluate i xs) := by
  cases i with
  | constant value => exact hoperates.elim
  | load slot => exact hoperates.elim
  | binary op =>
    match xs, hlength with
    | [x, y], _ => trivial
  | unary op =>
    match xs, hlength with
    | [x], _ => trivial
  | call function count =>
    cases function with
    | real x => exact hi.elim
    | whole number =>
      change Ends _ _ ((Builtin.call number xs).mapError FoldError.run)
      rcases call_ends hi.1 xs with ⟨x, hx⟩ | ⟨f, harity, hcall⟩
      · rw [hx]
        trivial
      · rw [hcall]
        exact .arguments harity
  | unknown code => exact hi.elim

/-- Folding an instruction that finds the entries it takes leaves one in their place or fails in the
ordinary way. -/
theorem step_ends {i : Instruction α} (hi : i.Proper names) {stack : List (Folded α)}
    (hstack : ∀ entry ∈ stack, entry.Tidy names) (hcount : i.operandCount ≤ stack.length) :
    Ends FoldError.Ordinary
      (fun next ↦ (∀ entry ∈ next, entry.Tidy names) ∧
        (next.length : Int) = stack.length - i.operandCount + 1)
      (step stack i) := by
  have hnonneg := hi.operandCount_nonneg
  rcases step_cases i stack with ⟨value, rfl⟩ | ⟨slot, rfl⟩ | ⟨hoperates, hcombine⟩
  · cases value with
    | whole n => exact hi.elim
    | real x => exact ⟨List.forall_mem_cons.mpr ⟨tidy_known x, hstack⟩, by simp [operandCount]⟩
  · exact ⟨List.forall_mem_cons.mpr ⟨tidy_load hi, hstack⟩, by simp [operandCount]⟩
  rw [hcombine]
  rcases combine_cases i stack with ⟨hshort, -⟩ | ⟨operands, rest, rfl, hlength, hresult⟩
  · omega
  have hrest : ∀ entry ∈ rest, entry.Tidy names := fun entry hentry ↦
    hstack entry (List.mem_append_right _ hentry)
  have hnext : ∀ entry : Folded α, ((entry :: rest).length : Int) =
      (operands.reverse ++ rest).length - i.operandCount + 1 := by
    intro entry
    rw [List.length_cons, List.length_append, List.length_reverse, hlength]
    omega
  rcases hresult with ⟨xs, rfl, hknown⟩ | ⟨-, hresidual⟩
  · rw [hknown]
    rw [List.length_map] at hlength
    exact (evaluate_ends hoperates hi hlength).map fun x _ ↦
      ⟨List.forall_mem_cons.mpr ⟨tidy_known x, hrest⟩, hnext _⟩
  · rw [hresidual]
    have hoperands : ∀ entry ∈ operands, entry.Tidy names := fun entry hentry ↦
      hstack entry (List.mem_append_left rest (List.mem_reverse.mpr hentry))
    exact ⟨List.forall_mem_cons.mpr ⟨tidy_residual hi hoperands hlength, hrest⟩, hnext _⟩

theorem steps_ends {code : List (Instruction α)} (hcode : ∀ i ∈ code, i.Proper names)
    {stack : List (Folded α)} (hstack : ∀ entry ∈ stack, entry.Tidy names) {m : Int}
    (hheight : height? code stack.length = some m) :
    Ends FoldError.Ordinary
      (fun final ↦ (∀ entry ∈ final, entry.Tidy names) ∧ (final.length : Int) = m)
      (steps code stack) := by
  induction code generalizing stack with
  | nil => exact ⟨hstack, Option.some.inj hheight⟩
  | cons i code ih =>
    obtain ⟨hcount, hmore⟩ := height?_cons_eq_some.mp hheight
    refine (step_ends (hcode i List.mem_cons_self) hstack hcount).bind fun next hnext ↦ ?_
    refine ih (fun j hj ↦ hcode j (List.mem_cons_of_mem i hj)) hnext.1 ?_
    rw [hnext.2, hmore]

end Folded

namespace Program.WellFormed

open Folded

variable {p : Program α}

/-- A run of a well formed program gives a value or fails in an ordinary way. -/
theorem run (hp : p.WellFormed) (values : List α) (capacity : Int) :
    Ends (RunError.Ordinary capacity p.names values.length) (fun _ ↦ True)
      (p.run values capacity) := by
  rw [run_eq p hp.code_ne_nil]
  have hheight : height? p.code ([] : List α).length = some 1 := hp.height
  refine (follow_ends hp.proper hheight).bind fun ys hlength ↦ ?_
  cases ys with
  | nil => cases hlength
  | cons y ys => trivial

/-- A well formed program folds to a well formed one, or fails in the ordinary way. -/
theorem fold (hp : p.WellFormed) :
    Ends FoldError.Ordinary (fun q ↦ q.WellFormed ∧ q.names = p.names) p.fold := by
  have hheight : height? p.code ([] : List (Folded α)).length = some 1 := hp.height
  have hsteps := steps_ends hp.proper (List.forall_mem_nil _) hheight
  rcases fold_cases p with ⟨hcode, -⟩ | ⟨e, -, he, hfold⟩ | ⟨stack, -, hstack, hfold⟩
  · exact absurd hcode hp.code_ne_nil
  · rw [hfold]
    rwa [he] at hsteps
  · rw [hfold]
    rw [hstack] at hsteps
    obtain ⟨htidy, hlength⟩ := hsteps
    have hentries : ∀ entry ∈ stack.reverse, entry.Tidy p.names.length := fun entry hentry ↦
      htidy entry (List.mem_reverse.mp hentry)
    refine ⟨⟨?_, proper_flatMap_code hentries⟩, rfl⟩
    have hkept := height?_flatMap (fun entry hentry ↦ (hentries entry hentry).balanced)
      (Int.le_refl 0)
    rwa [List.length_reverse, hlength] at hkept

end Program.WellFormed

end CurveCalc
