import CurveCalc.Proofs.Number.Exact

/-!
Whole numbers as doubles. Rounding keeps 53 binary digits and sends a number halfway between two
doubles to the even one; it is a division by a power of two, `rounded`, and where the quotient grows
by a digit the exponent does (`round_cases`). So a whole number of magnitude `2 ^ 1024 - 2 ^ 970`,
halfway between the greatest double and what would come next, is the first that has no double
nearest to it (`floatOfInt?_eq_none_iff`), and with a whole number every smaller one is within range
(`floatOfInt?_ne_none_of_le`).
-/

set_option autoImplicit false
set_option relaxedAutoImplicit false

namespace CurveCalc.Number

open Float.Model Float.Model.UnpackedFloat

/-- The two marks that shifting right leaves behind compare the remainder with half of a unit. -/
theorem shiftRight_exact (m k : ℕ) :
    (ExtendedMantissa.mk m false false) >>> k =
      ⟨m / 2 ^ k, decide (2 ^ k ≤ 2 * (m % 2 ^ k)),
        decide (m % 2 ^ k ≠ 0 ∧ 2 * (m % 2 ^ k) ≠ 2 ^ k)⟩ := by
  change Nat.repeat ExtendedMantissa.shiftRightOne k ⟨m, false, false⟩ = _
  induction k with
  | zero => simp [Nat.repeat, Nat.mod_one]
  | succ k ih =>
    have hsplit : m % 2 ^ (k + 1) = m % 2 ^ k + 2 ^ k * (m / 2 ^ k % 2) := Nat.mod_pow_succ
    have hlt : m % 2 ^ k < 2 ^ k := Nat.mod_lt _ (by positivity)
    rw [Nat.repeat, ih, ExtendedMantissa.shiftRightOne, hsplit, pow_succ, ← Nat.div_div_eq_div_mul]
    rcases Nat.mod_two_eq_zero_or_one (m / 2 ^ k) with hbit | hbit
    · simp only [hbit]
      congr 1
      · simp; omega
      · rw [Bool.eq_iff_iff]
        simp
        omega
    · simp only [hbit]
      congr 1
      · simp; omega
      · rw [Bool.eq_iff_iff]
        simp
        omega

theorem roundedMantissa_shiftRight (m k : ℕ) :
    ((ExtendedMantissa.mk m false false) >>> k).roundedMantissa = divideHalfEven m (2 ^ k) := by
  have hlt : m % 2 ^ k < 2 ^ k := Nat.mod_lt _ (by positivity)
  rw [shiftRight_exact]
  unfold ExtendedMantissa.roundedMantissa divideHalfEven
  dsimp only
  rcases lt_trichotomy (2 * (m % 2 ^ k)) (2 ^ k) with hlow | heq | hhigh
  · rw [if_pos hlow, decide_eq_false hlow.not_ge]
    cases decide (m % 2 ^ k ≠ 0 ∧ 2 * (m % 2 ^ k) ≠ 2 ^ k) <;> rfl
  · rw [if_neg heq.not_lt, if_neg heq.not_gt, decide_eq_true heq.ge, decide_eq_false (by simp [heq])]
    rfl
  · rw [if_neg hhigh.not_gt, if_pos hhigh, decide_eq_true hhigh.le, decide_eq_true (by omega)]
    rfl

theorem le_divideHalfEven (m n : ℕ) : m / n ≤ divideHalfEven m n := by
  unfold divideHalfEven
  dsimp only
  split_ifs <;> omega

theorem divideHalfEven_le (m n : ℕ) : divideHalfEven m n ≤ m / n + 1 := by
  unfold divideHalfEven
  dsimp only
  split_ifs <;> omega

theorem unpackExponent_of_isInf {b : BitVec Format.binary64.numBits}
    (h : (UnpackedFloat.unpack Format.binary64 b).isInf = true) : unpackExponent b = -1#_ := by
  have hu := Binary.unpacks b
  generalize UnpackedFloat.unpack Format.binary64 b = u at h hu
  cases hu with
  | infinity htop _ => exact htop
  | _ => cases h

theorem exponent_unpack {b : BitVec Format.binary64.numBits} {s : Sign} {m : ℕ} {e : ℤ}
    {hm : 0 < m} (h : UnpackedFloat.unpack Format.binary64 b = .finite s m e hm) :
    e = max (unpackExponent b).toNat 1 - 1075 := by
  have hu := Binary.unpacks b
  rw [h] at hu
  cases hu with
  | small hbottom hm =>
    rw [hbottom]
    rfl
  | normal htop hbottom hm =>
    have hpos : (unpackExponent b).toNat ≠ 0 := fun h0 ↦ hbottom (BitVec.eq_of_toNat_eq h0)
    omega

theorem unpackExponent_pack {s : Sign} {m : ℕ} {e : ℤ} {hm : 0 < m} (he : e < 972) :
    ((unpackExponent (UnpackedFloat.pack Format.binary64 (.finite s m e hm))).toNat : ℤ) ≤
      max (e + 1075) 0 := by
  have hbias : Format.binary64.exponentBias = 1023 := rfl
  unfold UnpackedFloat.pack
  dsimp only
  rw [hbias]
  split_ifs with hlarge hfull
  · omega
  · rw [unpackExponent_packComponents, BitVec.toNat_ofNat]
    have := Nat.mod_le (e + 1023 + 52).toNat (2 ^ 11)
    omega
  · rw [unpackExponent_packComponents]
    simp

theorem isInf_pack_finite {s : Sign} {m : ℕ} {e : ℤ} {hm : 0 < m} :
    (Float.Model.pack (.finite s m e hm)).isInf = true ↔ 972 ≤ e := by
  let b := UnpackedFloat.pack Format.binary64 (.finite s m e hm)
  constructor
  · intro h
    by_contra he
    have hfield : unpackExponent b = -1#_ := unpackExponent_of_isInf h
    have hle : ((unpackExponent b).toNat : ℤ) ≤ max (e + 1075) 0 :=
      unpackExponent_pack (not_le.mp he)
    rw [hfield] at hle
    change (2047 : ℤ) ≤ _ at hle
    omega
  · intro he
    have hpack : b = packedInfinity Format.binary64 s := by
      have hbias : Format.binary64.exponentBias = 1023 := rfl
      unfold b UnpackedFloat.pack
      dsimp only
      rw [hbias, if_pos (by omega)]
    change (UnpackedFloat.unpack Format.binary64 b).isInf = true
    rw [hpack]
    cases s <;> rfl

/-- The exponent at which a number has 53 binary digits, or the least one there is. -/
def targetExponent (m : ℕ) (e : ℤ) : ℤ := max (m.log2 + 1 + e - 53) (-1074)

/-- How many binary digits have to go. -/
def shift (m : ℕ) (e : ℤ) : ℕ := (targetExponent m e - e).toNat

def rounded (m : ℕ) (e : ℤ) : ℕ := divideHalfEven m (2 ^ shift m e)

theorem rounded_le (m : ℕ) (e : ℤ) : rounded m e ≤ 2 ^ 53 := by
  have hle := divideHalfEven_le m (2 ^ shift m e)
  have hlt : m / 2 ^ shift m e < 2 ^ 53 := by
    rw [Nat.div_lt_iff_lt_mul (by positivity), ← pow_add]
    refine Nat.lt_log2_self.trans_le (Nat.pow_le_pow_right (by norm_num) ?_)
    unfold shift targetExponent
    omega
  unfold rounded
  omega

/-- An unpacked double of a significand that may be nothing. -/
def ofSignificand (s : Sign) (m : ℕ) (e : ℤ) : UnpackedFloat :=
  if h : m = 0 then .zero s else .finite s m e (Nat.pos_of_ne_zero h)

theorem roundWithAccuracy_eq (s : Sign) (m : ℕ) (e : ℤ) :
    roundWithAccuracy Format.binary64 s m e .exact =
      ofSignificand s (rounded m e / 2 ^ shift (rounded m e) (e + shift m e))
        (e + shift m e + shift (rounded m e) (e + shift m e)) := by
  have hshift (m : ℕ) (e : ℤ) : shiftToTargetExponent Format.binary64 m e .exact =
      (ExtendedMantissa.mk m false false >>> shift m e, e + shift m e) := rfl
  change (let first := shiftToTargetExponent Format.binary64 m e .exact
    let last := shiftToTargetExponent Format.binary64 first.1.roundedMantissa first.2 .exact
    ofSignificand s last.1.mantissa last.2) = _
  dsimp only
  rw [hshift m e, roundedMantissa_shiftRight, hshift, shiftRight_exact]
  rfl

/-- After rounding, one digit more has to go if the number has become a power of two. -/
theorem shift_rounded (m : ℕ) (e : ℤ) :
    shift (rounded m e) (e + shift m e) = if rounded m e = 2 ^ 53 then 1 else 0 := by
  have hle := rounded_le m e
  have hleast : -1074 ≤ e + shift m e := by
    unfold shift targetExponent
    omega
  split_ifs with hfull
  · rw [hfull, shift, targetExponent, Nat.log2_two_pow]
    omega
  · have hlog : (rounded m e).log2 ≤ 52 := by
      by_cases hzero : rounded m e = 0
      · rw [hzero]
        decide
      · have := (Nat.log2_lt hzero).mpr (lt_of_le_of_ne hle hfull)
        omega
    conv_lhs => rw [shift, targetExponent]
    omega

/-- Rounding gives zero, or a number whose exponent is one more where the digits ran over. -/
theorem round_cases (s : Sign) (m : ℕ) (e : ℤ) :
    (rounded m e = 0 ∧ roundWithAccuracy Format.binary64 s m e .exact = .zero s) ∨
    ∃ n hn, roundWithAccuracy Format.binary64 s m e .exact =
      .finite s n (e + shift m e + (if rounded m e = 2 ^ 53 then 1 else 0 : ℕ)) hn := by
  rw [roundWithAccuracy_eq, shift_rounded]
  by_cases hzero : rounded m e / 2 ^ (if rounded m e = 2 ^ 53 then 1 else 0) = 0
  · refine Or.inl ⟨?_, dif_pos hzero⟩
    split_ifs at hzero with hfull
    · rw [hfull] at hzero
      norm_num at hzero
    · simpa using hzero
  · exact Or.inr ⟨_, Nat.pos_of_ne_zero hzero, dif_neg hzero⟩

theorem lt_divideHalfEven_iff {m n b : ℕ} (hn : 0 < n) (hb : b % 2 = 1) :
    b < divideHalfEven m n ↔ (2 * b + 1) * n ≤ 2 * m := by
  have hsplit := Nat.div_add_mod m n
  have hlt := Nat.mod_lt m hn
  have hhalf : (2 * b + 1) * n = 2 * (n * b) + n := by ring
  rw [hhalf]
  unfold divideHalfEven
  dsimp only
  rcases lt_trichotomy (m / n) b with hq | rfl | hq
  · have hmul : n * (m / n) + n ≤ n * b := Nat.mul_le_mul_left n hq
    refine iff_of_false ?_ (by omega)
    split_ifs <;> omega
  · split_ifs <;> omega
  · have hmul : n * b + n ≤ n * (m / n) := Nat.mul_le_mul_left n hq
    refine iff_of_true ?_ (by omega)
    split_ifs <;> omega

theorem log2_mul_two_pow {m : ℕ} (hm : m ≠ 0) (k : ℕ) : (m * 2 ^ k).log2 = m.log2 + k := by
  rw [Nat.log2_eq_iff (by positivity), pow_add, add_right_comm, pow_add]
  exact ⟨Nat.mul_le_mul_right _ (Nat.log2_self_le hm),
    Nat.mul_lt_mul_of_pos_right Nat.lt_log2_self (by positivity)⟩

section Scaled

/-! A whole number of at least 54 binary digits is scaled before it is rounded. -/

variable {m : ℕ}

theorem ofScientific_eq (hm : m ≠ 0) : Float.Model.ofScientific m 0 = .pack
    (roundWithAccuracy Format.binary64 .positive (m * 2 ^ 53) (-53) .exact) := by
  unfold Float.Model.ofScientific UnpackedFloat.ofScientific
  rw [dif_neg hm, if_neg (by norm_num), if_neg (not_lt.mpr (neg_nonpos.mpr (by positivity))),
    if_pos le_rfl]
  have hmul (p q : ℕ) (e f : ℤ) (hp : 0 < p) (hq : 0 < q) :
      UnpackedFloat.mul Format.binary64 (.finite .positive p e hp) (.finite .positive q f hq) =
        roundWithAccuracy Format.binary64 .positive (p * q) (e + f) .exact := rfl
  rw [hmul, Nat.shiftLeft_eq, Int.toNat_zero, pow_zero, mul_one, add_zero]
  rfl

theorem shift_scaled (hm : 2 ^ 53 ≤ m) : shift (m * 2 ^ 53) (-53) = m.log2 + 1 := by
  have hpos : m ≠ 0 := by omega
  have hlow : 53 ≤ m.log2 := (Nat.le_log2 hpos).mpr hm
  rw [shift, targetExponent, log2_mul_two_pow hpos]
  omega

theorem rounded_scaled_ne_zero (hm : 2 ^ 53 ≤ m) : rounded (m * 2 ^ 53) (-53) ≠ 0 := by
  have hself : 2 ^ m.log2 ≤ m := Nat.log2_self_le (by omega)
  have hle := le_divideHalfEven (m * 2 ^ 53) (2 ^ (m.log2 + 1))
  have hdiv : 1 ≤ m * 2 ^ 53 / 2 ^ (m.log2 + 1) := by
    rw [Nat.one_le_div_iff (by positivity), pow_succ]
    calc
      2 ^ m.log2 * 2 ≤ m * 2 := by gcongr
      _ ≤ m * 2 ^ 53 := by gcongr; norm_num
  rw [rounded, shift_scaled hm]
  omega

theorem isInf_ofScientific (hm : 2 ^ 53 ≤ m) :
    (Float.Model.ofScientific m 0).isInf = true ↔ 2 ^ 1024 - 2 ^ 970 ≤ m := by
  have hpos : m ≠ 0 := by omega
  have hself := Nat.log2_self_le hpos
  have hlt : m < 2 ^ (m.log2 + 1) := Nat.lt_log2_self
  obtain ⟨hzero, -⟩ | ⟨n, hn, hfinite⟩ := round_cases .positive (m * 2 ^ 53) (-53)
  · exact absurd hzero (rounded_scaled_ne_zero hm)
  rw [ofScientific_eq hpos, hfinite, isInf_pack_finite, shift_scaled hm]
  have hbound : 2 ^ 1024 - 2 ^ 970 = (2 * (2 ^ 53 - 1) + 1) * 2 ^ 970 := by decide +kernel
  rw [hbound]
  -- The power stays a power; worked out, it would be in the way of what follows.
  generalize hk : 970 = k
  have hunit : 0 < 2 ^ k := by positivity
  -- Only among numbers of the greatest width that is within range does rounding decide.
  rcases lt_trichotomy m.log2 (53 + k) with hsmall | heq | hlarge
  · have hpow : 2 ^ (m.log2 + 1) ≤ 2 ^ (53 + k) := Nat.pow_le_pow_right (by norm_num) hsmall
    rw [pow_add 2 53 k] at hpow
    refine iff_of_false ?_ (by omega)
    split_ifs <;> omega
  · have hwidth : 2 ^ (53 + k + 1) = 2 * 2 ^ 53 * 2 ^ k := by ring
    have hfull : 2 ^ 53 - 1 < rounded (m * 2 ^ 53) (-53) ↔ (2 * (2 ^ 53 - 1) + 1) * 2 ^ k ≤ m := by
      rw [rounded, shift_scaled hm, heq, lt_divideHalfEven_iff (by positivity) (by norm_num), hwidth]
      omega
    have hle := rounded_le (m * 2 ^ 53) (-53)
    rw [← hfull, heq]
    split_ifs <;> omega
  · have hpow : 2 ^ (54 + k) ≤ 2 ^ m.log2 := Nat.pow_le_pow_right (by norm_num) (by omega)
    rw [pow_add] at hpow
    refine iff_of_true ?_ (by omega)
    split_ifs <;> omega

end Scaled

/-- A double in pieces that is not infinite, and whose exponent is bounded. -/
def WithinExponent (bound : ℤ) : UnpackedFloat → Prop
  | .infinity _ => False
  | .finite _ _ e _ => e ≤ bound
  | _ => True

namespace WithinExponent

variable {bound : ℤ} {u : UnpackedFloat}

theorem mono {bound' : ℤ} (h : WithinExponent bound u) (hbound : bound ≤ bound') :
    WithinExponent bound' u := by
  cases u with
  | finite s m e hm => exact le_trans h hbound
  | _ => exact h

theorem roundWithAccuracy (s : Sign) (m : ℕ) (e : ℤ) :
    WithinExponent (max e (targetExponent m e) + 1)
      (UnpackedFloat.roundWithAccuracy Format.binary64 s m e .exact) := by
  obtain ⟨-, hzero⟩ | ⟨n, hn, hfinite⟩ := round_cases s m e
  · rw [hzero]
    trivial
  · rw [hfinite]
    change e + shift m e + _ ≤ _
    unfold shift
    split_ifs <;> omega

theorem isInf_pack (h : WithinExponent bound u) (hbound : bound < 972) :
    (Float.Model.pack u).isInf = false := by
  cases u with
  | infinity s => exact h.elim
  | notANumber => rfl
  | zero s => cases s <;> rfl
  | finite s m e hm =>
    rw [Bool.eq_false_iff, ne_eq, isInf_pack_finite]
    exact (h.trans_lt hbound).not_ge

theorem unpack_pack (h : WithinExponent bound u) (hbound : bound < 972) (hleast : -1074 ≤ bound) :
    WithinExponent bound (Float.Model.pack u).unpack := by
  cases u with
  | infinity s => exact h.elim
  | notANumber => trivial
  | zero s => cases s <;> trivial
  | finite s m e hm =>
    let b := UnpackedFloat.pack Format.binary64 (.finite s m e hm)
    have hfield : ((unpackExponent b).toNat : ℤ) ≤ max (e + 1075) 0 :=
      unpackExponent_pack (h.trans_lt hbound)
    have hinf := isInf_pack h hbound
    cases hu : (Float.Model.pack (.finite s m e hm)).unpack with
    | infinity s =>
      rw [Float.Model.isInf, hu] at hinf
      cases hinf
    | notANumber => trivial
    | zero s => trivial
    | finite t n f hn =>
      have hf : f = max (unpackExponent b).toNat 1 - 1075 := exponent_unpack hu
      have he : e ≤ bound := h
      change f ≤ bound
      omega

end WithinExponent

/-! A whole number of at most 53 binary digits is a double, and is multiplied by one. -/

theorem toModel_toFloat {m : ℕ} (hpos : m ≠ 0) (hm : m < 2 ^ 53) : m.toUInt64.toFloat.toModel =
    .pack (UnpackedFloat.round Format.binary64 .positive m 0) := by
  have hnat : m.toUInt64.toNat = m := by
    simp
    omega
  change Float.Model.pack
    (UnpackedFloat.normalize Format.binary64 (m.toUInt64.toNat : ℤ) 0 .positive) = _
  rw [hnat, UnpackedFloat.normalize, compare_gt_iff_gt.mpr (by omega)]
  rfl

open WithinExponent in
theorem within_mul_one {u : UnpackedFloat} (hu : WithinExponent 1 u)
    (hstandard : ∀ s n e hn, u = .finite s n e hn → n < 2 ^ 53) :
    WithinExponent 2 (UnpackedFloat.mul Format.binary64 u
      (.finite .positive (2 ^ 52) (-52) (Nat.two_pow_pos 52))) := by
  cases u with
  | infinity s => exact hu.elim
  | notANumber => trivial
  | zero s => trivial
  | finite s n e hn =>
    have he : e ≤ 1 := hu
    have hwidth : n.log2 < 53 := (Nat.log2_lt hn.ne').mpr (hstandard s n e hn rfl)
    refine mono (roundWithAccuracy (s * .positive) (n * 2 ^ 52) (e + -52)) ?_
    rw [targetExponent, log2_mul_two_pow hn.ne']
    omega

open WithinExponent in
theorem isInf_toFloat_mul_one {m : ℕ} (hpos : m ≠ 0) (hm : m < 2 ^ 53) :
    (m.toUInt64.toFloat * Float.ofBits 4607182418800017408).isInf = false := by
  let a : Float.Model := .pack (UnpackedFloat.round Format.binary64 .positive m 0)
  have hlog : m.log2 < 53 := (Nat.log2_lt hpos).mpr hm
  have hsmall : WithinExponent 1 a.unpack := by
    refine unpack_pack (mono (roundWithAccuracy .positive _ _) ?_) (by norm_num) (by norm_num)
    rw [targetExponent, Nat.shiftLeft_eq, log2_mul_two_pow hpos]
    omega
  have hproduct := within_mul_one hsmall fun s n e hn h ↦ (Binary.standard_unpack h).1
  have hresult : (m.toUInt64.toFloat * Float.ofBits 4607182418800017408).isInf =
      (Float.Model.pack (UnpackedFloat.mul Format.binary64 a.unpack
        (.finite .positive (2 ^ 52) (-52) (Nat.two_pow_pos 52)))).isInf := by
    change (Float.Model.pack (UnpackedFloat.mul Format.binary64 m.toUInt64.toFloat.toModel.unpack
      (Float.ofBits 4607182418800017408).toModel.unpack)).isInf = _
    rw [toModel_toFloat hpos hm]
    rfl
  rw [hresult, hproduct.isInf_pack (by norm_num)]

/-- The magnitudes that are beyond the doubles. -/
theorem isInf_toFloat_iff (m : ℕ) :
    (Decimal.toFloat ⟨m, 0⟩).isInf = true ↔ 2 ^ 1024 - 2 ^ 970 ≤ m := by
  have hleast : 2 ^ 53 ≤ 2 ^ 1024 - 2 ^ 970 := by decide +kernel
  by_cases hzero : m = 0
  · subst hzero
    decide +kernel
  have hfirst : Decimal.toFloat ⟨m, 0⟩ =
      if 400 < digitCount m then 1.0 / 0.0 else Float.ofScientific m false 0 := by
    have hcount : ¬ ((digitCount m : ℤ) < -400) := by omega
    simp [Decimal.toFloat, hzero, hcount]
  rw [hfirst]
  split_ifs with hmany
  · have hlarge : 10 ^ 400 ≤ m := by
      rw [← not_lt, ← Nat.length_toDigits_le_iff (by norm_num) (by norm_num)]
      exact hmany.not_ge
    have hbeyond : 2 ^ 1024 - 2 ^ 970 ≤ 10 ^ 400 := by decide +kernel
    exact iff_of_true (by decide +kernel) (hbeyond.trans hlarge)
  · rcases lt_or_ge m (2 ^ 53) with hm | hm
    · have hquick : Float.ofScientific m false 0 =
          m.toUInt64.toFloat * Float.ofBits 4607182418800017408 := dif_pos ⟨hm, by norm_num⟩
      rw [hquick, isInf_toFloat_mul_one hzero hm]
      exact iff_of_false Bool.false_ne_true (hm.trans_le hleast).not_ge
    · have hslow : Float.ofScientific m false 0 = .ofModel (.ofScientific m 0) :=
        dif_neg fun h ↦ h.1.not_ge hm
      rw [hslow, ← isInf_ofScientific hm]
      rfl

/-- Only whole numbers that round beyond the doubles have no double nearest to them. -/
theorem floatOfInt?_eq_none_iff (n : ℤ) : floatOfInt? n = none ↔ 2 ^ 1024 - 2 ^ 970 ≤ n.natAbs := by
  rw [← isInf_toFloat_iff, floatOfInt?]
  simp

theorem floatOfInt?_ne_none_of_le {i n : ℤ} (hi : 0 ≤ i) (hn : i ≤ n) (h : floatOfInt? n ≠ none) :
    floatOfInt? i ≠ none := by
  rw [ne_eq, floatOfInt?_eq_none_iff] at h ⊢
  omega

end CurveCalc.Number
