import CurveCalc.Proofs.Number.Extended
import Mathlib.Algebra.Order.Field.Power
import Mathlib.Tactic.Linarith
import Mathlib.Tactic.Ring

/-!
Doubles as exact numbers. A double that is a number is a significand times a power of two; it is
laid out with all the binary digits that its size allows (`Number.Binary.Standard`), so that the
exponents decide which of two magnitudes is the smaller one, and only between equal exponents the
significands (`Number.Binary.lt_iff`). That is how doubles are compared; so comparing them is
comparing the exact numbers they stand for (`Extended.less_ofFloat`), whether they are numbers or
not.
-/

set_option autoImplicit false
set_option relaxedAutoImplicit false

namespace CurveCalc

open Float.Model Float.Model.UnpackedFloat

namespace Number.Binary

/-- What an unpacked double stands for. -/
def ofUnpacked : UnpackedFloat → Binary
  | .infinity s => infinite (s == .negative)
  | .notANumber => nan
  | .zero s => finite (s == .negative) 0 (-1074)
  | .finite s m e _ => finite (s == .negative) m e

section Fields

variable (b : BitVec Format.binary64.numBits)

theorem toNat_unpackExponent : (unpackExponent b).toNat = b.toNat / 2 ^ 52 % 2 ^ 11 := by
  simp [unpackExponent, Nat.shiftRight_eq_div_pow]

theorem toNat_unpackMantissa : (unpackMantissa b).toNat = b.toNat % 2 ^ 52 := by
  simp [unpackMantissa]

theorem toNat_implicit : (1#1 ++ unpackMantissa b).toNat = 2 ^ 52 + (unpackMantissa b).toNat := by
  rw [BitVec.toNat_append, ← Nat.shiftLeft_add_eq_or_of_lt (unpackMantissa b).isLt]
  rfl

theorem unpackSign_beq :
    (Sign.ofBitVec (unpackSign b) == .negative) = (b.toNat / 2 ^ 63 == 1) := by
  have hb : b.toNat < 2 ^ 64 := b.isLt
  have hsign : (unpackSign b).toNat = b.toNat / 2 ^ 63 := by
    change b.toNat >>> 63 % 2 ^ 1 = _
    rw [Nat.shiftRight_eq_div_pow]
    omega
  rw [← hsign]
  generalize unpackSign b = s
  revert s
  decide

/-- What the fields of a double are unpacked to. -/
inductive Unpacks : UnpackedFloat → Prop
  | infinity (htop : unpackExponent b = -1#_) (hnothing : unpackMantissa b = 0#_) :
    Unpacks (.infinity (.ofBitVec (unpackSign b)))
  | notANumber (htop : unpackExponent b = -1#_) (hsome : unpackMantissa b ≠ 0#_) :
    Unpacks .notANumber
  | zero (hbottom : unpackExponent b = 0#_) (hnothing : unpackMantissa b = 0#_) :
    Unpacks (.zero (.ofBitVec (unpackSign b)))
  | small (hbottom : unpackExponent b = 0#_) (hm : 0 < (unpackMantissa b).toNat) :
    Unpacks (.finite (.ofBitVec (unpackSign b)) (unpackMantissa b).toNat (-1074) hm)
  | normal (htop : unpackExponent b ≠ -1#_) (hbottom : unpackExponent b ≠ 0#_)
    (hm : 0 < (1#1 ++ unpackMantissa b).toNat) :
    Unpacks (.finite (.ofBitVec (unpackSign b)) (1#1 ++ unpackMantissa b).toNat
      ((unpackExponent b).toNat - 1075) hm)

/-- The only proof that looks at the conditions; what is unpacked depends on them through the proofs
that significands are positive. -/
theorem unpacks : Unpacks b (UnpackedFloat.unpack Format.binary64 b) := by
  unfold UnpackedFloat.unpack
  dsimp only
  by_cases htop : unpackExponent b = -1#_
  · rw [if_pos htop]
    by_cases hnothing : unpackMantissa b = 0#_
    · rw [if_pos hnothing]
      exact .infinity htop hnothing
    · rw [if_neg hnothing]
      exact .notANumber htop hnothing
  · rw [if_neg htop]
    by_cases hbottom : unpackExponent b = 0#_
    · rw [if_pos hbottom]
      by_cases hnothing : unpackMantissa b = 0#_
      · rw [dif_pos hnothing]
        exact .zero hbottom hnothing
      · rw [dif_neg hnothing, hbottom]
        exact .small hbottom _
    · rw [if_neg hbottom]
      exact .normal htop hbottom _

theorem ofFloat_of_bits {x : Float} (hbits : x.toBits.toNat = b.toNat) : ofFloat x =
    if unpackExponent b = -1#_ then
      if unpackMantissa b = 0#_ then .infinite (Sign.ofBitVec (unpackSign b) == .negative)
      else .nan
    else if unpackExponent b = 0#_ then
      .finite (Sign.ofBitVec (unpackSign b) == .negative) (unpackMantissa b).toNat (-1074)
    else
      .finite (Sign.ofBitVec (unpackSign b) == .negative) (1#1 ++ unpackMantissa b).toNat
        ((unpackExponent b).toNat - 1075) := by
  have hexponent : b.toNat / Nat.pow 2 52 % Nat.pow 2 11 = (unpackExponent b).toNat :=
    (toNat_unpackExponent b).symm
  have hmantissa : b.toNat % Nat.pow 2 52 = (unpackMantissa b).toNat :=
    (toNat_unpackMantissa b).symm
  have hsign : (b.toNat / Nat.pow 2 63 == 1) = (Sign.ofBitVec (unpackSign b) == .negative) :=
    (unpackSign_beq b).symm
  have htop : (unpackExponent b).toNat = 2047 ↔ unpackExponent b = -1#_ := by
    rw [← BitVec.toNat_inj]
    rfl
  have hbottom : (unpackExponent b).toNat = 0 ↔ unpackExponent b = 0#_ := by
    rw [← BitVec.toNat_inj]
    rfl
  have hzero : (unpackMantissa b).toNat = 0 ↔ unpackMantissa b = 0#_ := by
    rw [← BitVec.toNat_inj]
    rfl
  rw [toNat_implicit]
  unfold ofFloat
  simp only [hbits, hexponent, hmantissa, hsign, htop, hbottom, hzero]
  rfl

end Fields

/-- Reading the bits of a double is unpacking it. -/
theorem ofFloat_eq (x : Float) : ofFloat x = ofUnpacked x.toModel.unpack := by
  let b : BitVec Format.binary64.numBits := x.toModel.toBits.toBitVec
  have hbits : x.toBits.toNat = b.toNat := rfl
  rw [ofFloat_of_bits b hbits]
  have hu : Unpacks b x.toModel.unpack := unpacks b
  generalize x.toModel.unpack = u at hu
  have htop_ne : (0#11 : BitVec 11) ≠ -1#11 := by decide
  cases hu with
  | infinity htop hnothing =>
    rw [if_pos htop, if_pos hnothing]
    rfl
  | notANumber htop hsome =>
    rw [if_pos htop, if_neg hsome]
    rfl
  | zero hbottom hnothing =>
    rw [if_neg (hbottom ▸ htop_ne), if_pos hbottom, hnothing]
    rfl
  | small hbottom hm =>
    rw [if_neg (hbottom ▸ htop_ne), if_pos hbottom]
    rfl
  | normal htop hbottom hm =>
    rw [if_neg htop, if_neg hbottom]
    rfl

/-- A magnitude of 53 binary digits, or of fewer if it has the least exponent there is. -/
def Standard (m : ℕ) (e : ℤ) : Prop := m < 2 ^ 53 ∧ -1074 ≤ e ∧ (2 ^ 52 ≤ m ∨ e = -1074)

theorem standard_unpack {x : Float.Model} {s : Sign} {m : ℕ} {e : ℤ} {hm : 0 < m}
    (h : x.unpack = .finite s m e hm) : Standard m e := by
  let b : BitVec Format.binary64.numBits := x.toBits.toBitVec
  have hfraction : (unpackMantissa b).toNat < 2 ^ 52 := (unpackMantissa b).isLt
  have hu : Unpacks b x.unpack := unpacks b
  rw [h] at hu
  cases hu with
  | small hbottom hm => exact ⟨by omega, by omega, Or.inr rfl⟩
  | normal htop hbottom hm =>
    have hleast : 2 ^ 52 ≤ (1#1 ++ unpackMantissa b).toNat := by
      rw [toNat_implicit]
      exact Nat.le_add_right _ _
    have hleastExponent : (unpackExponent b).toNat ≠ 0 := fun h ↦
      hbottom (BitVec.eq_of_toNat_eq h)
    exact ⟨(toNat_implicit b).trans_lt (by omega), by omega, Or.inl hleast⟩

section Order

variable {m n : ℕ} {e f : ℤ}

theorem Standard.lt_of_lt_or (hm : Standard m e) (hn : Standard n f) (h : e < f ∨ e = f ∧ m < n) :
    (m : ℚ) * 2 ^ e < n * 2 ^ f := by
  rcases h with hef | ⟨rfl, hmn⟩
  · have hfull : 2 ^ 52 ≤ n := hn.2.2.resolve_right (hm.2.1.trans_lt hef).ne'
    calc
      (m : ℚ) * 2 ^ e < 2 ^ 53 * 2 ^ e := by
        gcongr
        exact_mod_cast hm.1
      _ = 2 ^ 52 * 2 ^ (e + 1) := by
        rw [zpow_add_one₀ (by norm_num)]
        ring
      _ ≤ n * 2 ^ f := by
        gcongr
        · exact_mod_cast hfull
        · norm_num
        · omega
  · gcongr

/-- Magnitudes are told apart by their exponents first. -/
theorem Standard.lt_iff (hm : Standard m e) (hn : Standard n f) :
    (m : ℚ) * 2 ^ e < n * 2 ^ f ↔ e < f ∨ e = f ∧ m < n := by
  refine ⟨fun h ↦ ?_, hm.lt_of_lt_or hn⟩
  rcases lt_trichotomy e f with hef | rfl | hfe
  · exact Or.inl hef
  · refine Or.inr ⟨rfl, lt_of_not_ge fun hnm ↦ h.not_ge ?_⟩
    gcongr
  · exact absurd h (hn.lt_of_lt_or hm (Or.inl hfe)).not_gt

theorem compare_then_eq_lt :
    (compare e f).then (compare m n) = .lt ↔ e < f ∨ e = f ∧ m < n := by
  rw [Ordering.then_eq_lt, compare_lt_iff_lt, compare_eq_iff_eq, compare_lt_iff_lt]

theorem compare_then_eq_gt :
    (compare e f).then (compare m n) = .gt ↔ f < e ∨ f = e ∧ n < m := by
  rw [Ordering.then_eq_gt, compare_gt_iff_gt, compare_eq_iff_eq, compare_gt_iff_gt, eq_comm]

end Order

end Number.Binary

namespace Extended

def ofBinary : Number.Binary → Extended
  | .nan => nan
  | .infinite negative => infinite negative
  | .finite negative m e => finite ((if negative then -m else m : ℚ) * 2 ^ e)

/-- The exact value of a double. -/
def ofFloat (x : Float) : Extended := ofBinary (.ofFloat x)

theorem less_finite (s t : Sign) {m n : ℕ} {e f : ℤ} {hm : 0 < m} {hn : 0 < n}
    (hme : Number.Binary.Standard m e) (hnf : Number.Binary.Standard n f) :
    less (ofBinary (.ofUnpacked (.finite s m e hm))) (ofBinary (.ofUnpacked (.finite t n f hn))) =
      ((UnpackedFloat.finite s m e hm).compare (.finite t n f hn) == some .lt) := by
  have hp : 0 < (m : ℚ) * 2 ^ e := by positivity
  have hq : 0 < (n : ℚ) * 2 ^ f := by positivity
  rw [Bool.eq_iff_iff]
  cases s with
  | negative =>
    cases t with
    | negative =>
      change decide (-(m : ℚ) * 2 ^ e < -(n : ℚ) * 2 ^ f) = true ↔
        (some ((compare e f).then (compare m n)).swap == some .lt) = true
      simp [Ordering.swap_eq_lt, Number.Binary.compare_then_eq_gt, hnf.lt_iff hme]
    | positive =>
      change decide (-(m : ℚ) * 2 ^ e < (n : ℚ) * 2 ^ f) = true ↔
        (some Ordering.lt == some .lt) = true
      simp
      linarith
  | positive =>
    cases t with
    | negative =>
      change decide ((m : ℚ) * 2 ^ e < -(n : ℚ) * 2 ^ f) = true ↔
        (some Ordering.gt == some .lt) = true
      simp
      linarith
    | positive =>
      change decide ((m : ℚ) * 2 ^ e < (n : ℚ) * 2 ^ f) = true ↔
        (some ((compare e f).then (compare m n)) == some .lt) = true
      simp [Number.Binary.compare_then_eq_lt, hme.lt_iff hnf]

theorem ofBinary_zero (s : Sign) : ofBinary (.ofUnpacked (.zero s)) = finite 0 := by
  change finite ((if (s == .negative) = true then -((0 : ℕ) : ℚ) else (0 : ℕ)) *
    2 ^ (-1074 : ℤ)) = _
  rw [Nat.cast_zero, neg_zero, ite_self, zero_mul]

/-- Comparing doubles is comparing what they stand for. -/
theorem less_ofFloat (x y : Float) : less (ofFloat x) (ofFloat y) = decide (x < y) := by
  have hlt : decide (x < y) = (x.toModel.unpack.compare y.toModel.unpack == some .lt) := by
    rw [Bool.eq_iff_iff, decide_eq_true_iff]
    change decide (x.toModel < y.toModel) = true ↔ _
    rw [decide_eq_true_iff]
    rfl
  rw [hlt, ofFloat, ofFloat, Number.Binary.ofFloat_eq, Number.Binary.ofFloat_eq]
  cases hx : x.toModel.unpack with
  | notANumber => rfl
  | infinity s =>
    cases y.toModel.unpack with
    | notANumber => rfl
    | infinity t => cases s <;> cases t <;> rfl
    | zero t => cases s <;> rfl
    | finite t n f hn => cases s <;> rfl
  | zero s =>
    cases y.toModel.unpack with
    | notANumber => rfl
    | infinity t => cases t <;> rfl
    | zero t =>
      rw [ofBinary_zero, ofBinary_zero]
      exact decide_eq_false (lt_irrefl 0)
    | finite t n f hn =>
      have hq : 0 < (n : ℚ) * 2 ^ f := by positivity
      rw [ofBinary_zero]
      cases t with
      | negative =>
        have hless : ¬ 0 < -(n : ℚ) * 2 ^ f := by linarith
        exact decide_eq_false hless
      | positive => exact decide_eq_true hq
  | finite s m e hm =>
    cases hy : y.toModel.unpack with
    | notANumber => rfl
    | infinity t => cases t <;> rfl
    | zero t =>
      have hp : 0 < (m : ℚ) * 2 ^ e := by positivity
      rw [ofBinary_zero]
      cases s with
      | negative =>
        have hless : -(m : ℚ) * 2 ^ e < 0 := by linarith
        exact decide_eq_true hless
      | positive => exact decide_eq_false hp.not_gt
    | finite t n f hn =>
      exact less_finite s t (Number.Binary.standard_unpack hx) (Number.Binary.standard_unpack hy)

end Extended

end CurveCalc
