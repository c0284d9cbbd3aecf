import CurveCalc.Sampling.Arithmetic
import Mathlib.Algebra.Order.Field.Rat

/-!
Exact numbers with the special values of doubles. A rational number stands for itself; beside the
rational numbers there are two infinities and one value that is no number. Nothing is rounded, and
the special values come and go by the rules for doubles: what is left of two infinities that cancel
out, and an infinity taken zero times, is no number, and nothing becomes of no number but itself.

Grids, derivatives and integrals are defined over any arithmetic, so they can be read over this one.
-/

set_option autoImplicit false
set_option relaxedAutoImplicit false

namespace CurveCalc

/-- A zero has no sign; where it is divided by, it counts as positive. -/
inductive Extended where
  | finite (q : ℚ)
  | infinite (negative : Bool)
  | nan
  deriving DecidableEq

namespace Extended

def neg : Extended → Extended
  | finite q => finite (-q)
  | infinite negative => infinite (!negative)
  | nan => nan

def add : Extended → Extended → Extended
  | nan, _ => nan
  | _, nan => nan
  | finite p, finite q => finite (p + q)
  | finite _, infinite negative => infinite negative
  | infinite negative, finite _ => infinite negative
  | infinite s, infinite t => if s = t then infinite s else nan

def mul : Extended → Extended → Extended
  | nan, _ => nan
  | _, nan => nan
  | finite p, finite q => finite (p * q)
  | finite p, infinite t => if p = 0 then nan else infinite (decide (p < 0) ^^ t)
  | infinite s, finite q => if q = 0 then nan else infinite (s ^^ decide (q < 0))
  | infinite s, infinite t => infinite (s ^^ t)

def div : Extended → Extended → Extended
  | nan, _ => nan
  | _, nan => nan
  | finite p, finite q =>
    if q = 0 then if p = 0 then nan else infinite (decide (p < 0)) else finite (p / q)
  | finite _, infinite _ => finite 0
  | infinite s, finite q => infinite (s ^^ decide (q < 0))
  | infinite _, infinite _ => nan

/-- What is no number is below nothing, and nothing is below it. -/
def less : Extended → Extended → Bool
  | nan, _ => false
  | _, nan => false
  | finite p, finite q => p < q
  | finite _, infinite negative => !negative
  | infinite negative, finite _ => negative
  | infinite s, infinite t => s && !t

/-- A whole number is used where doubles are, so it has to be within their range. -/
instance : Arithmetic Extended where
  add := add
  sub x y := add x (neg y)
  mul := mul
  div := div
  zero := finite 0
  two := finite 2
  undefined := nan
  isZero x := x = finite 0
  less := less
  whole? n := (Number.floatOfInt? n).map fun _ ↦ finite n

/-- A rational number. -/
def IsFinite (x : Extended) : Prop := ∃ q, x = finite q

variable {q : ℚ} {x y : Extended}

@[simp]
theorem isFinite_finite (q : ℚ) : (finite q).IsFinite := ⟨q, rfl⟩

@[simp]
theorem not_isFinite_infinite (negative : Bool) : ¬ (infinite negative).IsFinite := by
  simp [IsFinite]

@[simp]
theorem not_isFinite_nan : ¬ nan.IsFinite := by
  simp [IsFinite]

@[simp]
theorem finite_add_finite (p q : ℚ) : finite p + finite q = finite (p + q) := rfl

@[simp]
theorem finite_mul_finite (p q : ℚ) : finite p * finite q = finite (p * q) := rfl

@[simp]
theorem finite_sub_finite (p q : ℚ) : finite p - finite q = finite (p - q) := by
  rw [sub_eq_add_neg]
  rfl

theorem finite_div_finite (p : ℚ) (hq : q ≠ 0) : finite p / finite q = finite (p / q) := if_neg hq

@[simp]
theorem nan_add (x : Extended) : nan + x = nan := rfl

@[simp]
theorem add_nan (x : Extended) : x + nan = nan := by
  cases x <;> rfl

@[simp]
theorem nan_div (x : Extended) : nan / x = nan := rfl

@[simp]
theorem add_zero (x : Extended) : x + finite 0 = x := by
  cases x with
  | finite p => simp
  | infinite negative => rfl
  | nan => rfl

/-- Only a number gives a number when it is taken zero times. -/
theorem mul_zero_of_not_isFinite (hx : ¬ x.IsFinite) : x * finite 0 = nan := by
  cases x with
  | finite p => exact absurd (isFinite_finite p) hx
  | infinite negative =>
    change (if (0 : ℚ) = 0 then nan else infinite (negative ^^ decide ((0 : ℚ) < 0))) = nan
    rw [if_pos rfl]
  | nan => rfl

theorem isFinite_add_iff : (x + y).IsFinite ↔ x.IsFinite ∧ y.IsFinite := by
  cases x with
  | nan => simp
  | finite p =>
    cases y with
    | nan => simp
    | finite q => simp
    | infinite t => exact iff_of_false (not_isFinite_infinite t) (by simp)
  | infinite s =>
    cases y with
    | nan => simp
    | finite q => exact iff_of_false (not_isFinite_infinite s) (by simp)
    | infinite t =>
      refine iff_of_false ?_ (by simp)
      change ¬ (if s = t then infinite s else nan).IsFinite
      split_ifs
      · exact not_isFinite_infinite s
      · exact not_isFinite_nan

theorem isFinite_sub_iff : (x - y).IsFinite ↔ x.IsFinite ∧ y.IsFinite := by
  have hneg : y.neg.IsFinite ↔ y.IsFinite := by
    cases y <;> simp [neg]
  rw [← hneg]
  exact isFinite_add_iff

theorem isFinite_div_iff (hq : q ≠ 0) : (x / finite q).IsFinite ↔ x.IsFinite := by
  cases x with
  | finite p => simp [finite_div_finite p hq]
  | infinite s => exact iff_of_false (not_isFinite_infinite _) (not_isFinite_infinite s)
  | nan => simp

end Extended

end CurveCalc
