import CurveCalc.Machine.Float
import CurveCalc.Proofs.Machine.Effect
import Mathlib.Order.Bounds.Defs

/-!
How much room a run needs. With room for any number of values there is one run of a program on given
values (`Program.runUnbounded`), and there is a largest number of values it ever has on its stack
(`Program.peak`). A stack with that many places makes no difference to the run, and a stack with
fewer overflows (`Program.run_eq_ite`); nothing else of a run depends on the size of its stack.
-/

set_option autoImplicit false
set_option relaxedAutoImplicit false

namespace CurveCalc

namespace Machine

section Room

variable {α β γ : Type}

/-- What is computed does not fail for want of room. -/
def Roomy (a : Except RunError β) : Prop := ∀ capacity, a ≠ .error (.stackOverflow capacity)

theorem roomy_ok (x : β) : Roomy (.ok x) := fun _ ↦ nofun

theorem Roomy.bind {a : Except RunError β} {f : β → Except RunError γ} (ha : Roomy a)
    (hf : ∀ x, Roomy (f x)) : Roomy (a.bind f) := by
  cases a with
  | error e => exact fun capacity h ↦ ha capacity (congrArg Except.error (Except.error.inj h))
  | ok x => exact hf x

theorem roomy_fetch (names : List String) (values : List α) (slot : Int) :
    Roomy (fetch names values slot) := by
  unfold fetch
  split
  · exact fun _ ↦ nofun
  · split <;> exact fun _ ↦ nofun

theorem roomy_top (xs : List α) : Roomy (top xs) := by
  cases xs with
  | nil => exact fun _ ↦ nofun
  | cons x xs => exact roomy_ok x

end Room

variable {α : Type} [Primitives α]

section Heights

variable (names : List String) (values : List α)

/-- The effects of instructions one after the other, with room for any number of values. -/
def unbounded (code : List (Instruction α)) (xs : List α) : Except RunError (List α) :=
  code.foldlM (fun xs i ↦ effect names values i xs) xs

/-- The largest number of values there are at any time, up to the end of the code or to the first
instruction that fails. -/
def peak : List (Instruction α) → List α → Nat
  | [], xs => xs.length
  | i :: code, xs =>
    match effect names values i xs with
    | .ok ys => max xs.length (peak code ys)
    | .error _ => xs.length

/-- These values are on the stack at some time, before the code or behind one of its instructions.
-/
def Reaches (code : List (Instruction α)) (xs ys : List α) : Prop :=
  ∃ before, before <+: code ∧ unbounded names values before xs = .ok ys

theorem unbounded_cons (i : Instruction α) (code : List (Instruction α)) (xs : List α) :
    unbounded names values (i :: code) xs =
      (effect names values i xs).bind (unbounded names values code) := rfl

theorem unbounded_append (code more : List (Instruction α)) (xs : List α) :
    unbounded names values (code ++ more) xs =
      (unbounded names values code xs).bind (unbounded names values more) := List.foldlM_append

theorem unbounded_singleton (i : Instruction α) (xs : List α) :
    unbounded names values [i] xs = effect names values i xs := by
  rw [unbounded_cons]
  cases effect names values i xs <;> rfl

end Heights

section Steps

variable {names : List String} {values : List α} {i : Instruction α} {code : List (Instruction α)}
  {xs ys zs : List α} {e : RunError}

theorem peak_cons_ok (h : effect names values i xs = .ok ys) :
    peak names values (i :: code) xs = max xs.length (peak names values code ys) := by
  rw [peak, h]

theorem peak_cons_error (h : effect names values i xs = .error e) :
    peak names values (i :: code) xs = xs.length := by
  rw [peak, h]

theorem reaches_refl (code : List (Instruction α)) (xs : List α) :
    Reaches names values code xs xs := ⟨[], List.nil_prefix, rfl⟩

/-- Apart from the values at the beginning, there are those that the rest of the code comes to. -/
theorem reaches_cons :
    Reaches names values (i :: code) xs zs ↔
      xs = zs ∨ ∃ ys, effect names values i xs = .ok ys ∧ Reaches names values code ys zs := by
  constructor
  · rintro ⟨before, hbefore, h⟩
    cases before with
    | nil => exact Or.inl (Except.ok.inj h)
    | cons j before =>
      obtain ⟨rfl, hrest⟩ := List.cons_prefix_cons.mp hbefore
      obtain ⟨ys, heffect, hrun⟩ := Attempt.bind_eq_ok.mp h
      exact Or.inr ⟨ys, heffect, before, hrest, hrun⟩
  · rintro (rfl | ⟨ys, heffect, before, hbefore, h⟩)
    · exact reaches_refl _ _
    · refine ⟨i :: before, List.cons_prefix_cons.mpr ⟨rfl, hbefore⟩, ?_⟩
      rw [unbounded_cons, heffect]
      exact h

theorem Reaches.length_le_peak (h : Reaches names values code xs ys) :
    ys.length ≤ peak names values code xs := by
  induction code generalizing xs with
  | nil =>
    obtain ⟨before, hbefore, h⟩ := h
    obtain rfl := List.prefix_nil.mp hbefore
    obtain rfl : xs = ys := Except.ok.inj h
    exact Nat.le_refl _
  | cons i code ih =>
    cases heffect : effect names values i xs with
    | error e =>
      rw [peak_cons_error heffect]
      rcases reaches_cons.mp h with rfl | ⟨zs, hok, -⟩
      · exact Nat.le_refl _
      · rw [heffect] at hok
        cases hok
    | ok zs =>
      rw [peak_cons_ok heffect]
      rcases reaches_cons.mp h with rfl | ⟨us, hok, hrest⟩
      · exact Nat.le_max_left _ _
      · obtain rfl : zs = us := Except.ok.inj (heffect.symm.trans hok)
        exact Nat.le_trans (ih hrest) (Nat.le_max_right _ _)

theorem exists_reaches_peak (code : List (Instruction α)) (xs : List α) :
    ∃ ys, Reaches names values code xs ys ∧ ys.length = peak names values code xs := by
  induction code generalizing xs with
  | nil => exact ⟨xs, reaches_refl _ _, rfl⟩
  | cons i code ih =>
    cases heffect : effect names values i xs with
    | error e => exact ⟨xs, reaches_refl _ _, (peak_cons_error heffect).symm⟩
    | ok ys =>
      rw [peak_cons_ok heffect]
      rcases Nat.le_total (peak names values code ys) xs.length with hle | hle
      · exact ⟨xs, reaches_refl _ _, (Nat.max_eq_left hle).symm⟩
      · obtain ⟨zs, hreaches, hlength⟩ := ih ys
        refine ⟨zs, reaches_cons.mpr (Or.inr ⟨ys, heffect, hreaches⟩), ?_⟩
        rw [hlength, Nat.max_eq_right hle]

theorem length_le_peak (code : List (Instruction α)) (xs : List α) :
    xs.length ≤ peak names values code xs := (reaches_refl code xs).length_le_peak

end Steps

section Unlimited

theorem roomy_index (o : Operand α) : Roomy o.index := by
  unfold Operand.index
  cases o.toInt with
  | error fault => exact fun _ ↦ nofun
  | ok n => exact roomy_ok n

theorem roomy_resolve (number : Int) : Roomy (Builtin.resolve number) := by
  unfold Builtin.resolve
  split <;> exact fun _ ↦ nofun

theorem roomy_call (number : Int) (xs : List α) : Roomy (Builtin.call number xs) := by
  refine (roomy_resolve number).bind fun f ↦ ?_
  split <;> exact fun _ ↦ nofun

variable (names : List String) (values : List α)

theorem roomy_effect (i : Instruction α) (xs : List α) : Roomy (effect names values i xs) := by
  cases i with
  | constant value =>
    refine Roomy.bind ?_ fun x ↦ roomy_ok (x :: xs)
    cases value with
    | real x => exact roomy_ok x
    | whole n =>
      unfold Operand.value
      dsimp only
      split <;> exact fun _ ↦ nofun
  | load slot =>
    exact (roomy_index slot).bind fun n ↦ (roomy_fetch names values n).bind fun x ↦
      roomy_ok (x :: xs)
  | binary op =>
    match xs with
    | [] => exact fun _ ↦ nofun
    | [right] => exact fun _ ↦ nofun
    | right :: left :: xs => exact roomy_ok _
  | unary op =>
    cases xs with
    | nil => exact fun _ ↦ nofun
    | cons x xs => exact roomy_ok _
  | call function count =>
    refine (roomy_index function).bind fun number ↦ ?_
    split
    · exact (roomy_resolve number).bind fun f ↦ fun _ ↦ nofun
    · exact (roomy_call number _).bind fun x ↦ roomy_ok _
  | unknown code => exact fun _ ↦ nofun

theorem roomy_unbounded (code : List (Instruction α)) (xs : List α) :
    Roomy (unbounded names values code xs) := by
  induction code generalizing xs with
  | nil => exact roomy_ok xs
  | cons i code ih => exact (roomy_effect names values i xs).bind ih

end Unlimited

section Threshold

variable {names : List String} {values : List α} {capacity : Int} {code : List (Instruction α)}
  {xs ys : List α}

/-- Code that is followed to its end within some room is followed to the same values without. -/
theorem unbounded_of_follow (h : follow capacity names values code xs = .ok ys) :
    unbounded names values code xs = .ok ys := by
  induction code generalizing xs with
  | nil => exact h
  | cons i code ih =>
    rw [follow_cons] at h
    obtain ⟨zs, hfirst, hrest⟩ := Attempt.bind_eq_ok.mp h
    rw [unbounded_cons, within_ok hfirst]
    exact ih hrest

/-- Where there is room for the peak the room makes no difference; where there is less, it runs out.
-/
theorem follow_eq_ite (code : List (Instruction α)) (hxs : (xs.length : Int) ≤ max capacity 0) :
    follow capacity names values code xs =
      if (peak names values code xs : Int) ≤ max capacity 0 then unbounded names values code xs
      else .error (.stackOverflow capacity) := by
  induction code generalizing xs with
  | nil => exact (if_pos hxs).symm
  | cons i code ih =>
    rw [follow_cons, unbounded_cons]
    cases heffect : effect names values i xs with
    | error e =>
      rw [within_error heffect, peak_cons_error heffect, if_pos hxs]
      rfl
    | ok ys =>
      rw [within_of_effect heffect, peak_cons_ok heffect, fit]
      -- an instruction that succeeds leaves a value, so even of no room there is too little
      obtain ⟨y, hy⟩ := (effect_ok heffect).2
      have hpos : 0 < ys.length := by rw [hy]; exact Nat.succ_pos _
      have hpeak : ys.length ≤ peak names values code ys := length_le_peak code ys
      by_cases hfull : capacity < ys.length
      · have hover :
            ¬ ((max xs.length (peak names values code ys) : Nat) : Int) ≤ max capacity 0 := by
          omega
        rw [if_pos hfull, if_neg hover]
        rfl
      · have hroom : ((max xs.length (peak names values code ys) : Nat) : Int) ≤ max capacity 0 ↔
            (peak names values code ys : Int) ≤ max capacity 0 := by
          omega
        rw [if_neg hfull]
        change follow capacity names values code ys = _
        rw [ih (by omega)]
        simp only [hroom]
        rfl

end Threshold

end Machine

namespace Program

variable {α : Type} [Primitives α]

open Machine

/-- Running a program on a stack without an end. -/
def runUnbounded (p : Program α) (values : List α) : Except RunError α :=
  if p.code.isEmpty then .error .noInstructions
  else (unbounded p.names values p.code []).bind top

/-- The largest number of values that a run of the program has on its stack, up to its end or to the
first instruction that fails, if there is room for any number. -/
def peak (p : Program α) (values : List α) : Nat := Machine.peak p.names values p.code []

theorem roomy_runUnbounded (p : Program α) (values : List α) : Roomy (p.runUnbounded values) := by
  unfold runUnbounded
  split
  · exact fun _ ↦ nofun
  · exact (roomy_unbounded p.names values p.code []).bind roomy_top

/-- The peak decides what the size of the stack does to a run. -/
theorem run_eq_ite (p : Program α) (values : List α) (capacity : Int) :
    p.run values capacity =
      if (p.peak values : Int) ≤ max capacity 0 then p.runUnbounded values
      else .error (.stackOverflow capacity) := by
  unfold peak runUnbounded
  by_cases hcode : p.code = []
  · obtain ⟨code, names⟩ := p
    cases hcode
    exact (if_pos (Int.le_max_right capacity 0)).symm
  · have hempty : p.code.isEmpty = false := by simpa using hcode
    rw [run_eq p hcode, follow_eq_ite p.code (Int.le_max_right capacity 0), hempty]
    split <;> rfl

theorem run_of_peak_le {p : Program α} {values : List α} {capacity : Int}
    (h : (p.peak values : Int) ≤ max capacity 0) :
    p.run values capacity = p.runUnbounded values := by
  rw [run_eq_ite, if_pos h]

theorem run_of_lt_peak {p : Program α} {values : List α} {capacity : Int}
    (h : max capacity 0 < (p.peak values : Int)) :
    p.run values capacity = .error (.stackOverflow capacity) := by
  rw [run_eq_ite, if_neg (Int.not_le.mpr h)]

/-- A run has never more values on its stack than the peak, however large the stack. -/
theorem size_le_peak {p : Program α} {values : List α} {capacity : Int}
    {before : List (Instruction α)} {s : Stack α} (hbefore : before <+: p.code)
    (h : exec p.names values before (Stack.empty Primitives.zero capacity) = .ok s) :
    s.size ≤ p.peak values := by
  rcases (exec_shows p.names values (holds_empty Primitives.zero capacity) before).cases with
    ⟨e, hexec, -⟩ | ⟨t, xs, hexec, hfollow, ht⟩
  · rw [h] at hexec
    cases hexec
  · obtain rfl : s = t := Except.ok.inj (h.symm.trans hexec)
    rw [ht.size]
    exact Reaches.length_le_peak ⟨before, hbefore, unbounded_of_follow hfollow⟩

/-- The size of the stack is a threshold and nothing else. With room for any number of values a run
on given values has one outcome, which is no stack overflow, and a largest number of values on its
stack, the peak. A stack with at least so many places gives the same outcome, and every other stack
overflows. So on a larger stack there is another outcome only in place of an overflow. -/
theorem run_threshold (p : Program α) (values : List α) :
    IsGreatest {n | ∃ xs, Reaches p.names values p.code [] xs ∧ xs.length = n} (p.peak values) ∧
    (∀ capacity, p.runUnbounded values ≠ .error (.stackOverflow capacity)) ∧
    ∀ capacity : Int,
      ((p.peak values : Int) ≤ max capacity 0 → p.run values capacity = p.runUnbounded values) ∧
      (max capacity 0 < (p.peak values : Int) →
        p.run values capacity = .error (.stackOverflow capacity)) ∧
      (RunError.stackOverflow capacity).message =
        "Stack overflow (max: " ++ toString capacity ++ ")" ∧
      ∀ larger, capacity ≤ larger → p.run values capacity ≠ .error (.stackOverflow capacity) →
        p.run values larger = p.run values capacity := by
  refine ⟨⟨exists_reaches_peak p.code [], ?_⟩, p.roomy_runUnbounded values, fun capacity ↦ ?_⟩
  · rintro n ⟨xs, hreaches, rfl⟩
    exact hreaches.length_le_peak
  · refine ⟨run_of_peak_le, run_of_lt_peak, rfl, fun larger hlarger hrun ↦ ?_⟩
    have hpeak : (p.peak values : Int) ≤ max capacity 0 :=
      Int.not_lt.mp fun hless ↦ hrun (run_of_lt_peak hless)
    rw [run_of_peak_le hpeak, run_of_peak_le (by omega)]

/-- The code of `x * (2 + 3)` has three values on its stack at most: with three places or more it
runs to the same value, with two it overflows. -/
theorem run_threshold_product :
    Program.run (α := Float) ⟨[.load (.whole 0), .constant (.real 2.0), .constant (.real 3.0),
        .binary .add, .binary .multiply], ["x"]⟩ [4.0] 3 =
      Program.runUnbounded ⟨[.load (.whole 0), .constant (.real 2.0), .constant (.real 3.0),
        .binary .add, .binary .multiply], ["x"]⟩ [4.0] ∧
    Program.run (α := Float) ⟨[.load (.whole 0), .constant (.real 2.0), .constant (.real 3.0),
        .binary .add, .binary .multiply], ["x"]⟩ [4.0] 2 = .error (.stackOverflow 2) ∧
    Program.run (α := Float) ⟨[.load (.whole 0), .constant (.real 2.0), .constant (.real 3.0),
        .binary .add, .binary .multiply], ["x"]⟩ [4.0] 64 =
      Program.run ⟨[.load (.whole 0), .constant (.real 2.0), .constant (.real 3.0),
        .binary .add, .binary .multiply], ["x"]⟩ [4.0] 3 := by
  refine ⟨((run_threshold _ _).2.2 3).1 (by decide), ((run_threshold _ _).2.2 2).2.1 (by decide),
    ((run_threshold _ _).2.2 3).2.2.2 64 (by decide) ?_⟩
  intro h
  cases h

end Program

end CurveCalc
