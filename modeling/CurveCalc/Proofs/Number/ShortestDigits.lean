import CurveCalc.Number.Shortest
import CurveCalc.Proofs.Number.Exact
import Mathlib.Tactic.FieldSimp

/-!
The shortest digits of a double are digits of no other one. The numbers that read back as a double
lie around it up to half the way to its neighbours (`lowerMidpoint`, `upperMidpoint`), and those of
two doubles do not overlap: they share a midpoint at most, and of two neighbours only one has an
even significand (`RoundingInterval.eq_of_contains`). The shortest decimal is such a number
(`contains_shortest`), since a grid of seventeen digits is narrower than the space between the
midpoints.
-/

set_option autoImplicit false
set_option relaxedAutoImplicit false

namespace CurveCalc.Number

/-- The number a decimal stands for. -/
def Decimal.value (d : Decimal) : ℚ := d.digits * 10 ^ d.exponent

/-- A power with the negative part of its exponent in the denominator. -/
theorem pow_toNat_div_pow {b : ℚ} (hb : b ≠ 0) (e : ℤ) :
    b ^ e.toNat / b ^ (-e).toNat = b ^ e := by
  rw [← zpow_natCast, ← zpow_natCast, ← zpow_sub₀ hb]
  congr 1
  omega

/-! The place of the first digit. -/

theorem lt_pow_digitCount (n : ℕ) : n < 10 ^ digitCount n :=
  (Nat.length_toDigits_le_iff (by norm_num) Nat.length_toDigits_pos).mp le_rfl

theorem pow_digitCount_le {n : ℕ} (hn : 0 < n) : 10 ^ (digitCount n - 1) ≤ n := by
  by_cases hone : digitCount n = 1
  · rwa [hone]
  · have hpos : 0 < digitCount n := Nat.length_toDigits_pos
    have hfewer : ¬ digitCount n ≤ digitCount n - 1 := by omega
    exact not_lt.mp (mt (Nat.length_toDigits_le_iff (by norm_num) (by omega)).mpr hfewer)

theorem pow_decimalExponent_le {p q : ℕ} (hp : 0 < p) (hq : 0 < q) :
    (10 : ℚ) ^ decimalExponent p q ≤ p / q := by
  have hq' : (0 : ℚ) < q := by exact_mod_cast hq
  unfold decimalExponent
  dsimp only
  split_ifs with hguess
  · generalize ((digitCount p : ℤ) - digitCount q) = guess at *
    rw [← pow_toNat_div_pow (by norm_num), div_le_div_iff₀ (by positivity) hq', mul_comm]
    exact_mod_cast hguess
  · have hlow : ((10 ^ (digitCount p - 1) : ℕ) : ℚ) ≤ p := by exact_mod_cast pow_digitCount_le hp
    have hhigh : (q : ℚ) ≤ (10 ^ digitCount q : ℕ) := by exact_mod_cast (lt_pow_digitCount q).le
    have hpos : 0 < digitCount p := Nat.length_toDigits_pos
    calc
      (10 : ℚ) ^ ((digitCount p : ℤ) - digitCount q - 1) =
          (10 ^ (digitCount p - 1) : ℕ) / (10 ^ digitCount q : ℕ) := by
        rw [Nat.cast_pow, Nat.cast_pow, ← zpow_natCast, ← zpow_natCast, ← zpow_sub₀ (by norm_num)]
        congr 1
        omega
      _ ≤ p / q := by gcongr

/-! The grids of a rounding interval. -/

namespace RoundingInterval

/-- Whether a number reads back as the double. -/
def Contains (i : RoundingInterval) (q : ℚ) : Prop :=
  if i.closed then i.low ≤ q * i.unit ∧ q * i.unit ≤ i.high
  else i.low < q * i.unit ∧ q * i.unit < i.high

variable {i : RoundingInterval} {q : ℚ} {exponent : ℤ}

theorem contains_of_lt (hlow : i.low < q * i.unit) (hhigh : q * i.unit < i.high) :
    i.Contains q := by
  unfold Contains
  split_ifs
  · exact ⟨hlow.le, hhigh.le⟩
  · exact ⟨hlow, hhigh⟩

theorem holds_iff (i : RoundingInterval) (n : ℕ) {d : ℕ} (hd : 0 < d) :
    i.holds n d = true ↔ i.Contains (n / d) := by
  have hd' : (0 : ℚ) < d := by exact_mod_cast hd
  unfold holds Contains
  dsimp only
  simp only [div_mul_eq_mul_div, le_div_iff₀ hd', div_le_iff₀ hd', lt_div_iff₀ hd',
    div_lt_iff₀ hd']
  split_ifs
  · rw [Bool.and_eq_true, decide_eq_true_iff, decide_eq_true_iff]
    exact_mod_cast Iff.rfl
  · rw [Bool.and_eq_true, decide_eq_true_iff, decide_eq_true_iff]
    exact_mod_cast Iff.rfl

/-- The numbers of a grid that are tried. -/
theorem holds_grid_iff (i : RoundingInterval) (k : ℕ) (exponent : ℤ) :
    i.holds (k * Nat.pow 10 exponent.toNat) (Nat.pow 10 (-exponent).toNat) = true ↔
      i.Contains (Decimal.value ⟨k, exponent⟩) := by
  have hdown : 0 < Nat.pow 10 (-exponent).toNat := Nat.pow_pos (by norm_num)
  rw [holds_iff i _ hdown, Decimal.value, ← pow_toNat_div_pow (by norm_num), ← mul_div_assoc]
  simp

theorem contains_of_onGrid {d : Decimal} (h : i.onGrid exponent = some d) : i.Contains d.value := by
  unfold onGrid at h
  dsimp only at h
  split at h
  · rename_i hbelow habove
    split_ifs at h
    · cases h
      exact (i.holds_grid_iff _ _).mp hbelow
    · cases h
      exact (i.holds_grid_iff _ _).mp habove
  · rename_i hbelow _
    cases h
    exact (i.holds_grid_iff _ _).mp hbelow
  · rename_i _ habove
    cases h
    exact (i.holds_grid_iff _ _).mp habove
  · cases h

/-- The number of the grid the value is at or just above. -/
def gridBelow (i : RoundingInterval) (exponent : ℤ) : ℕ :=
  i.value * Nat.pow 10 (-exponent).toNat / (i.unit * Nat.pow 10 exponent.toNat)

theorem not_contains_of_onGrid (h : i.onGrid exponent = none) :
    ¬ i.Contains (Decimal.value ⟨i.gridBelow exponent, exponent⟩) ∧
      ¬ i.Contains (Decimal.value ⟨i.gridBelow exponent + 1, exponent⟩) := by
  rw [← holds_grid_iff, ← holds_grid_iff]
  unfold onGrid at h
  dsimp only at h
  split at h
  · split_ifs at h
  · cases h
  · cases h
  · rename_i hbelow habove
    exact ⟨Bool.not_eq_true _ ▸ hbelow, Bool.not_eq_true _ ▸ habove⟩

/-- The value lies between two numbers of the grid. -/
theorem gridBelow_le (i : RoundingInterval) (exponent : ℤ) (hunit : 0 < i.unit) :
    Decimal.value ⟨i.gridBelow exponent, exponent⟩ * i.unit ≤ i.value ∧
      i.value < Decimal.value ⟨i.gridBelow exponent + 1, exponent⟩ * i.unit := by
  have hdown : (0 : ℚ) < 10 ^ (-exponent).toNat := by positivity
  have hstep : 0 < i.unit * Nat.pow 10 exponent.toNat :=
    Nat.mul_pos hunit (Nat.pow_pos (by norm_num))
  have hvalue : ∀ k : ℕ, Decimal.value ⟨k, exponent⟩ * i.unit =
      k * (i.unit * 10 ^ exponent.toNat) / 10 ^ (-exponent).toNat := by
    intro k
    rw [Decimal.value, ← pow_toNat_div_pow (by norm_num) exponent]
    ring
  rw [hvalue, hvalue, div_le_iff₀ hdown, lt_div_iff₀ hdown]
  constructor
  · exact_mod_cast Nat.div_mul_le_self (i.value * Nat.pow 10 (-exponent).toNat) _
  · rw [mul_comm (_ : ℚ) (_ * _)]
    exact_mod_cast Nat.lt_mul_div_succ (i.value * Nat.pow 10 (-exponent).toNat) hstep

/-- Of the two numbers around the value one is found if they are closer to each other than the two
ends of the interval. -/
theorem exists_onGrid (hunit : 0 < i.unit) (hlow : i.low < i.value) (hhigh : i.value < i.high)
    (hstep : (10 : ℚ) ^ exponent * i.unit < i.high - i.low) : ∃ d, i.onGrid exponent = some d := by
  rw [← Option.ne_none_iff_exists']
  intro hnone
  obtain ⟨hbelow, habove⟩ := not_contains_of_onGrid hnone
  obtain ⟨hle, hlt⟩ := i.gridBelow_le exponent hunit
  have hlow' : (i.low : ℚ) < i.value := by exact_mod_cast hlow
  have hhigh' : (i.value : ℚ) < i.high := by exact_mod_cast hhigh
  have hfirst : Decimal.value ⟨i.gridBelow exponent, exponent⟩ * i.unit ≤ i.low :=
    not_lt.mp fun h ↦ hbelow (contains_of_lt h (hle.trans_lt hhigh'))
  have hsecond : i.high ≤ Decimal.value ⟨i.gridBelow exponent + 1, exponent⟩ * i.unit :=
    not_lt.mp fun h ↦ habove (contains_of_lt (hlow'.trans hlt) h)
  have hnext : Decimal.value ⟨i.gridBelow exponent + 1, exponent⟩ * i.unit =
      Decimal.value ⟨i.gridBelow exponent, exponent⟩ * i.unit + 10 ^ exponent * i.unit := by
    unfold Decimal.value
    push_cast
    ring
  linarith

/-- The search ends with a number that reads back, if one of the grids has it. -/
theorem contains_search (top : ℤ) (places : List ℕ)
    (h : ∃ k ∈ places, ∃ d, i.onGrid (top - k) = some d) :
    i.Contains (i.search top places).value := by
  induction places with
  | nil => simp at h
  | cons k places ih =>
    unfold search
    cases hk : i.onGrid (top - k) with
    | some d => exact contains_of_onGrid hk
    | none =>
      obtain ⟨k', hmem, d, hd⟩ := h
      rcases List.mem_cons.mp hmem with rfl | hmem
      · simp [hk] at hd
      · exact ih ⟨k', hmem, d, hd⟩

end RoundingInterval

/-! The midpoints around a double. -/

/-- Half the way to the next smaller magnitude, which is closer below a power of two. -/
def lowerMidpoint (m : ℕ) (e : ℤ) : ℚ :=
  if m = 2 ^ 52 ∧ -1074 < e then (m - 1 / 4) * 2 ^ e else (m - 1 / 2) * 2 ^ e

/-- Half the way to the next larger magnitude. -/
def upperMidpoint (m : ℕ) (e : ℤ) : ℚ := (m + 1 / 2) * 2 ^ e

section

variable {m n : ℕ} {e f : ℤ} {q : ℚ}

theorem lowerMidpoint_pos (hpos : 0 < m) (e : ℤ) : 0 < lowerMidpoint m e := by
  have hm : (1 : ℚ) ≤ m := by exact_mod_cast hpos
  have hlast : (0 : ℚ) < 2 ^ e := by positivity
  unfold lowerMidpoint
  split_ifs
  · exact mul_pos (by linarith) hlast
  · exact mul_pos (by linarith) hlast

theorem lowerMidpoint_lt (m : ℕ) (e : ℤ) : lowerMidpoint m e < m * 2 ^ e := by
  have hlast : (0 : ℚ) < 2 ^ e := by positivity
  unfold lowerMidpoint
  split_ifs <;> linarith

theorem lt_upperMidpoint (m : ℕ) (e : ℤ) : m * 2 ^ e < upperMidpoint m e := by
  have hlast : (0 : ℚ) < 2 ^ e := by positivity
  unfold upperMidpoint
  linarith

/-- Between two binary digits of the same place the midpoint is shared by neighbours only. -/
theorem upperMidpoint_le_same (hm : Binary.Standard m e) (hmn : m < n) :
    upperMidpoint m e ≤ lowerMidpoint n e ∧
      (upperMidpoint m e = lowerMidpoint n e → m % 2 = 1 ∨ n % 2 = 1) := by
  obtain ⟨-, hme, hmfull⟩ := hm
  have hpos : (0 : ℚ) < 2 ^ e := by positivity
  have hpower : ¬ (n = 2 ^ 52 ∧ -1074 < e) := by omega
  have hmn' : (m : ℚ) + 1 ≤ n := by exact_mod_cast hmn
  unfold upperMidpoint lowerMidpoint
  rw [if_neg hpower]
  constructor
  · gcongr
    linarith
  · intro heq
    have hhalf : (m : ℚ) + 1 / 2 = n - 1 / 2 := mul_right_cancel₀ hpos.ne' heq
    have hnext : (m : ℚ) + 1 = n := by linarith
    have hnext' : m + 1 = n := by exact_mod_cast hnext
    omega

/-- With a larger exponent only a power of two shares a midpoint, and with an odd significand. -/
theorem upperMidpoint_le_larger (hm : Binary.Standard m e) (hn : Binary.Standard n f)
    (hef : e < f) : upperMidpoint m e ≤ lowerMidpoint n f ∧
      (upperMidpoint m e = lowerMidpoint n f → m % 2 = 1 ∨ n % 2 = 1) := by
  obtain ⟨hmtop, hme, -⟩ := hm
  obtain ⟨-, -, hnfull⟩ := hn
  have hpos : (0 : ℚ) < 2 ^ e := by positivity
  have hm : (m : ℚ) + 1 ≤ 2 ^ 53 := by exact_mod_cast hmtop
  have hstep : (2 : ℚ) ^ e * 2 ≤ 2 ^ f := by
    rw [← zpow_add_one₀ (by norm_num)]
    gcongr
    · norm_num
    · omega
  unfold upperMidpoint lowerMidpoint
  split_ifs with hpower
  · obtain ⟨rfl, -⟩ := hpower
    push_cast
    constructor
    · nlinarith
    · intro heq
      -- the midpoint is reached from the largest significand only
      have hlast : (2 : ℚ) ^ 53 ≤ m + 1 := by nlinarith
      have hlast' : 2 ^ 53 ≤ m + 1 := by exact_mod_cast hlast
      omega
  · have hfull : 2 ^ 52 + 1 ≤ n := by omega
    have hfull' : (2 : ℚ) ^ 52 + 1 ≤ n := by exact_mod_cast hfull
    have hlt : ((m : ℚ) + 1 / 2) * 2 ^ e < (n - 1 / 2) * 2 ^ f := by nlinarith
    exact ⟨hlt.le, fun heq ↦ absurd heq hlt.ne⟩

/-- A larger magnitude begins where a magnitude ends or beyond, and of two that share a midpoint one
is odd. -/
theorem upperMidpoint_le (hm : Binary.Standard m e) (hn : Binary.Standard n f)
    (h : e < f ∨ e = f ∧ m < n) : upperMidpoint m e ≤ lowerMidpoint n f ∧
      (upperMidpoint m e = lowerMidpoint n f → m % 2 = 1 ∨ n % 2 = 1) := by
  rcases h with hef | ⟨rfl, hmn⟩
  · exact upperMidpoint_le_larger hm hn hef
  · exact upperMidpoint_le_same hm hmn

namespace RoundingInterval

theorem unit_pos (m : ℕ) (e : ℤ) : 0 < (of m e).unit :=
  Nat.mul_pos (by norm_num) (Nat.pow_pos (by norm_num))

/-- A quarter of the last place, counted in units. -/
theorem quarter_mul_unit (m : ℕ) (e : ℤ) : 2 ^ e / 4 * ((of m e).unit : ℚ) = 2 ^ e.toNat := by
  have hunit : ((of m e).unit : ℚ) = 4 * 2 ^ (-e).toNat := by simp [of]
  rw [hunit, ← pow_toNat_div_pow (by norm_num)]
  field_simp

theorem of_value (m : ℕ) (e : ℤ) : ((of m e).value : ℚ) = m * 2 ^ e * (of m e).unit := by
  have hvalue : ((of m e).value : ℚ) = 4 * m * 2 ^ e.toNat := by simp [of]
  rw [hvalue, ← quarter_mul_unit m]
  ring

theorem of_high (m : ℕ) (e : ℤ) : ((of m e).high : ℚ) = upperMidpoint m e * (of m e).unit := by
  have hhigh : ((of m e).high : ℚ) = (4 * m + 2) * 2 ^ e.toNat := by simp [of]
  rw [hhigh, upperMidpoint, ← quarter_mul_unit m]
  ring

theorem of_low (hm : 0 < m) (e : ℤ) :
    ((of m e).low : ℚ) = lowerMidpoint m e * (of m e).unit := by
  have hlow : ((of m e).low : ℚ) =
      (4 * m - (if m = 2 ^ 52 ∧ -1074 < e then 1 else 2)) * 2 ^ e.toNat := by
    unfold of
    dsimp only
    rw [Nat.cast_mul, Nat.cast_sub (by split_ifs <;> omega), Nat.pow_eq]
    simp
  rw [hlow, lowerMidpoint, ← quarter_mul_unit m]
  split_ifs <;> ring

theorem low_lt_value (hm : 0 < m) (e : ℤ) : (of m e).low < (of m e).value := by
  have hunit : (0 : ℚ) < (of m e).unit := by exact_mod_cast unit_pos m e
  have hlt : ((of m e).low : ℚ) < (of m e).value := by
    rw [of_low hm, of_value]
    gcongr
    exact lowerMidpoint_lt m e
  exact_mod_cast hlt

theorem value_lt_high (m : ℕ) (e : ℤ) : (of m e).value < (of m e).high := by
  have hunit : (0 : ℚ) < (of m e).unit := by exact_mod_cast unit_pos m e
  have hlt : ((of m e).value : ℚ) < (of m e).high := by
    rw [of_value, of_high]
    gcongr
    exact lt_upperMidpoint m e
  exact_mod_cast hlt

theorem lowerMidpoint_mul_le (m : ℕ) (e : ℤ) :
    lowerMidpoint m e * (of m e).unit ≤ (of m e).low := by
  by_cases hm : 0 < m
  · exact (of_low hm e).ge
  · obtain rfl : m = 0 := by omega
    have hneg : lowerMidpoint 0 e = -(1 / 2 * 2 ^ e) := by simp [lowerMidpoint]
    calc
      lowerMidpoint 0 e * (of 0 e).unit = -(1 / 2 * 2 ^ e * (of 0 e).unit) := by rw [hneg, neg_mul]
      _ ≤ 0 := neg_nonpos.mpr (by positivity)
      _ ≤ (of 0 e).low := Nat.cast_nonneg _

/-- What reads back as a double lies between its midpoints, and is none of them where the
significand is odd. -/
theorem midpoints_of_contains (h : (of m e).Contains q) :
    lowerMidpoint m e ≤ q ∧ q ≤ upperMidpoint m e ∧
      (m % 2 = 1 → lowerMidpoint m e < q ∧ q < upperMidpoint m e) := by
  have hunit : (0 : ℚ) < (of m e).unit := by exact_mod_cast unit_pos m e
  have hlow := lowerMidpoint_mul_le m e
  have hhigh := of_high m e
  unfold Contains at h
  split_ifs at h with hclosed
  · have heven : m % 2 = 0 := by simpa [of] using hclosed
    refine ⟨le_of_mul_le_mul_right (hlow.trans h.1) hunit,
      le_of_mul_le_mul_right (h.2.trans hhigh.le) hunit, fun hodd ↦ ?_⟩
    omega
  · have hlt : lowerMidpoint m e < q := lt_of_mul_lt_mul_right (hlow.trans_lt h.1) hunit.le
    have hgt : q < upperMidpoint m e := lt_of_mul_lt_mul_right (h.2.trans_le hhigh.le) hunit.le
    exact ⟨hlt.le, hgt.le, fun _ ↦ ⟨hlt, hgt⟩⟩

/-- No number reads back as two doubles. -/
theorem eq_of_contains (hm : Binary.Standard m e) (hn : Binary.Standard n f)
    (hmq : (of m e).Contains q) (hnq : (of n f).Contains q) : m = n ∧ e = f := by
  have hapart : ∀ {m n : ℕ} {e f : ℤ}, Binary.Standard m e → Binary.Standard n f →
      (of m e).Contains q → (of n f).Contains q → ¬ (e < f ∨ e = f ∧ m < n) := by
    intro m n e f hm hn hmq hnq h
    obtain ⟨hle, hodd⟩ := upperMidpoint_le hm hn h
    obtain ⟨-, hq, hmodd⟩ := midpoints_of_contains hmq
    obtain ⟨hq', -, hnodd⟩ := midpoints_of_contains hnq
    rcases hodd (hle.antisymm (hq'.trans hq)) with hodd | hodd
    · exact absurd ((hmodd hodd).2.trans_le hle) hq'.not_gt
    · exact absurd (hle.trans_lt (hnodd hodd).1) hq.not_gt
  have hmn := hapart hm hn hmq hnq
  have hnm := hapart hn hm hnq hmq
  omega

/-- The step of a grid of seventeen digits is narrower than the space between the midpoints. -/
theorem step_lt (hm : Binary.Standard m e) {top : ℤ}
    (htop : (10 : ℚ) ^ top ≤ m * 2 ^ e) :
    (10 : ℚ) ^ (top - (16 : ℕ)) < upperMidpoint m e - lowerMidpoint m e := by
  have hstep : (10 : ℚ) ^ (top - (16 : ℕ)) * 10 ^ 16 ≤ m * 2 ^ e := by
    rw [← zpow_natCast, ← zpow_add₀ (by norm_num)]
    simpa using htop
  have hlast : (0 : ℚ) < 2 ^ e := by positivity
  have hm' : (m : ℚ) ≤ 2 ^ 53 := by exact_mod_cast hm.1.le
  unfold upperMidpoint lowerMidpoint
  generalize (10 : ℚ) ^ (top - (16 : ℕ)) = step at *
  generalize (2 : ℚ) ^ e = last at *
  split_ifs with hpower
  · obtain ⟨rfl, -⟩ := hpower
    push_cast at hstep ⊢
    linarith
  · have hbound : m * last ≤ 2 ^ 53 * last := by gcongr
    linarith

end RoundingInterval

/-- The shortest decimal of a double reads back as it. -/
theorem contains_shortest (hm : Binary.Standard m e) (hpos : 0 < m) :
    (RoundingInterval.of m e).Contains (shortest m e).value := by
  have hunit := RoundingInterval.unit_pos m e
  have hunit' : (0 : ℚ) < (RoundingInterval.of m e).unit := by exact_mod_cast hunit
  have hlow := RoundingInterval.low_lt_value hpos e
  have hvalue : ((RoundingInterval.of m e).value : ℚ) / (RoundingInterval.of m e).unit =
      m * 2 ^ e := by
    rw [RoundingInterval.of_value, mul_div_cancel_right₀ _ hunit'.ne']
  refine RoundingInterval.contains_search _ _ ⟨16, by simp,
    RoundingInterval.exists_onGrid hunit hlow (RoundingInterval.value_lt_high m e) ?_⟩
  rw [RoundingInterval.of_low hpos, RoundingInterval.of_high, ← sub_mul]
  gcongr
  exact RoundingInterval.step_lt hm
    ((pow_decimalExponent_le (Nat.zero_lt_of_lt hlow) hunit).trans hvalue.le)

theorem digits_shortest_pos (hm : Binary.Standard m e) (hpos : 0 < m) :
    0 < (shortest m e).digits := by
  have hvalue := (RoundingInterval.midpoints_of_contains (contains_shortest hm hpos)).1
  by_contra hzero
  have hzero' : (shortest m e).value = 0 := by
    rw [Decimal.value, Nat.eq_zero_of_not_pos hzero, Nat.cast_zero, zero_mul]
  exact absurd ((lowerMidpoint_pos hpos e).trans_le hvalue) hzero'.not_gt

end

end CurveCalc.Number
