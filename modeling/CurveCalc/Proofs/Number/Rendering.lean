import CurveCalc.Document.Json
import CurveCalc.Proofs.Formula.Numeral
import CurveCalc.Proofs.Number.ShortestDigits
import Mathlib.Data.List.TakeWhile

/-!
The text of a double says which double it is (`render_injective`). A magnitude is laid out in place
or with a mark, and is read as the decimal that has been laid out (`Written`, `written_text`); that
decimal reads back as one double only, the bits of a double tell it apart from all others
(`Binary.ofFloat_injective`), and the names of the values that are no numbers are read as no
decimal. So these names are written for what is not finite and for nothing else (`render_mem_iff`).
-/

set_option autoImplicit false
set_option relaxedAutoImplicit false

namespace CurveCalc.Number

/-! Digits put together. -/

theorem ofDigits_append (ds es : List Char) :
    ofDigits (ds ++ es) = Nat.ofDigitChars 10 es (ofDigits ds) := Nat.ofDigitChars_append 0

theorem ofDigits_append_zeros (ds : List Char) (k : ℕ) :
    ofDigits (ds ++ List.replicate k '0') = 10 ^ k * ofDigits ds := by
  rw [ofDigits_append, Nat.ofDigitChars_replicate_zero]

theorem ofDigits_zeros_append (k : ℕ) (ds : List Char) :
    ofDigits (List.replicate k '0' ++ ds) = ofDigits ds := by
  rw [ofDigits_append]
  change Nat.ofDigitChars 10 ds (Nat.ofDigitChars 10 (List.replicate k '0') 0) = _
  rw [Nat.ofDigitChars_replicate_zero, mul_zero]
  rfl

theorem ofDigits_toDigits (n : ℕ) : ofDigits (Nat.toDigits 10 n) = n :=
  Nat.ofDigitChars_toDigits (by norm_num) le_rfl

theorem isNumeral_of_mem_toDigits {n : ℕ} {c : Char} (hc : c ∈ Nat.toDigits 10 n) :
    isNumeral c = true := by
  have hdigit := Nat.isDigit_of_mem_toDigits (by norm_num) le_rfl hc
  simpa [Char.isDigit, isNumeral, Char.le_def] using hdigit

theorem isNumeral_of_mem_zeros {k : ℕ} {c : Char} (hc : c ∈ List.replicate k '0') :
    isNumeral c = true := by
  rw [List.eq_of_mem_replicate hc]
  rfl

/-- The digits of a whole number, with zeros in front. -/
def paddedDigits (k n : ℕ) : Digits where
  chars := List.replicate k '0' ++ Nat.toDigits 10 n
  nonempty := by simp [Nat.toDigits_ne_nil]
  numerals := by
    intro c hc
    exact (List.mem_append.mp hc).elim isNumeral_of_mem_zeros isNumeral_of_mem_toDigits

theorem ofDigits_paddedDigits (k n : ℕ) : ofDigits (paddedDigits k n).chars = n := by
  rw [paddedDigits, ofDigits_zeros_append, ofDigits_toDigits]

/-- The number of digits that begin in the place of an exponent. -/
def placeValue (ds : List Char) (exponent : ℤ) : ℚ :=
  ofDigits ds * 10 ^ (exponent + 1 - ds.length)

/-! Written magnitudes. -/

/-- What a sign in front of digits makes of them. -/
def signedDigits (negative : Bool) (x : Digits) : ℤ :=
  if negative then -(ofDigits x.chars : ℤ) else ofDigits x.chars

/-- Texts of a magnitude: a numeral, or a numeral and an exponent behind a mark. -/
inductive Written : List Char → ℚ → Prop
  | inPlace (n : Numeral) : Written n.chars n.decimal.value
  | marked (n : Numeral) (negative : Bool) (x : Digits) :
    Written (n.chars ++ 'e' :: (if negative then '-' else '+') :: x.chars)
      (n.decimal.value * 10 ^ signedDigits negative x)

theorem readExponent?_marked (negative : Bool) (x : Digits) :
    readExponent? ('e' :: (if negative then '-' else '+') :: x.chars) =
      some (signedDigits negative x) := by
  have hdigits := takeDigits_append x [] nofun
  rw [List.append_nil] at hdigits
  have hsign : takeSign ((if negative then '-' else '+') :: x.chars) = (negative, x.chars) := by
    cases negative <;> rfl
  obtain ⟨c, more, hcons⟩ := List.exists_cons_of_ne_nil x.nonempty
  unfold readExponent?
  simp only [true_or, if_true, hsign, hdigits, signedDigits]
  simp only [hcons]

theorem readDecimal?_marked (n : Numeral) (negative : Bool) (x : Digits) :
    readDecimal? (n.chars ++ 'e' :: (if negative then '-' else '+') :: x.chars) =
      some ⟨n.decimal.digits, signedDigits negative x + n.decimal.exponent⟩ := by
  have hexponent := readExponent?_marked negative x
  generalize (if negative then '-' else '+') :: x.chars = more at *
  have hmark : ∀ c cs, 'e' :: more = c :: cs → isDigit c = false ∧ c ≠ '_' := by
    rintro c cs ⟨⟩
    decide
  cases n with
  | whole w =>
    have hsplit := takeDigits_append w ('e' :: more) hmark
    have hempty : w.chars.isEmpty = false := by simpa using w.nonempty
    unfold readDecimal? Numeral.chars
    simp [hsplit, takePlaces, hempty, hexponent, Numeral.decimal]
  | fraction w places =>
    have hsplit := takeDigits_append w ('.' :: (places.chars ++ 'e' :: more)) (by simp; decide)
    have hplaces := takeDigits_append places ('e' :: more) hmark
    have hempty : w.chars.isEmpty = false := by simpa using w.nonempty
    unfold readDecimal? Numeral.chars
    simp [hsplit, takePlaces, hplaces, hempty, hexponent, Numeral.decimal, sub_eq_add_neg]

namespace Written

variable {chars : List Char} {q : ℚ}

/-- A written magnitude is read as what it has been written for. -/
theorem read (h : Written chars q) : ∃ d, readDecimal? chars = some d ∧ d.value = q := by
  cases h with
  | inPlace n => exact ⟨_, n.readDecimal?_chars, rfl⟩
  | marked n negative x =>
    refine ⟨_, readDecimal?_marked n negative x, ?_⟩
    unfold Decimal.value
    rw [zpow_add₀ (by norm_num)]
    ring

theorem exists_first (h : Written chars q) :
    ∃ first more, chars = first :: more ∧ isNumeral first = true := by
  cases h with
  | inPlace n => exact n.chars_eq_cons
  | marked n negative x =>
    obtain ⟨first, more, hcons, hfirst⟩ := n.chars_eq_cons
    exact ⟨first, _, by rw [hcons, List.cons_append], hfirst⟩

theorem takeSign_eq (h : Written chars q) : takeSign chars = (false, chars) := by
  obtain ⟨first, more, rfl, hfirst⟩ := h.exists_first
  unfold takeSign
  split
  · simp_all [isNumeral]
  · simp_all [isNumeral]
  · rfl

/-- What a magnitude is written with. -/
theorem mem_chars (h : Written chars q) {c : Char} (hc : c ∈ chars) :
    isNumeral c = true ∨ c ∈ ['.', 'e', '-', '+'] := by
  cases h with
  | inPlace n => exact (n.isNumeral_or_eq_point hc).imp_right (by simp_all)
  | marked n negative x =>
    rcases List.mem_append.mp hc with hc | hc
    · exact (n.isNumeral_or_eq_point hc).imp_right (by simp_all)
    · rcases List.mem_cons.mp hc with rfl | hc
      · simp
      · rcases List.mem_cons.mp hc with rfl | hc
        · cases negative <;> simp
        · exact Or.inl (x.numerals c hc)

end Written

/-- Zeros around digits do not count, if the point stands where it has to. -/
theorem written_fraction {whole places : Digits} {ds : List Char} {j k : ℕ} {exponent : ℤ}
    (hdigits : whole.chars ++ places.chars =
      List.replicate j '0' ++ (ds ++ List.replicate k '0'))
    (hpoint : (k : ℤ) - places.chars.length = exponent + 1 - ds.length) :
    Written (whole.chars ++ '.' :: places.chars) (placeValue ds exponent) := by
  have hvalue : (Numeral.fraction whole places).decimal.value = placeValue ds exponent := by
    unfold Decimal.value Numeral.decimal placeValue
    dsimp only
    rw [hdigits, ofDigits_zeros_append, ofDigits_append_zeros, ← hpoint, sub_eq_add_neg,
      zpow_add₀ (by norm_num), zpow_natCast]
    push_cast
    ring
  exact hvalue ▸ .inPlace (.fraction whole places)

/-- A single zero, in front of the point or behind it. -/
def zeroDigit : Digits := ⟨['0'], by simp, List.forall_mem_singleton.mpr rfl⟩

/-- Below one there may be zeros between the point and the first digit. -/
theorem written_below_one (w : Digits) {exponent : ℤ} (hneg : exponent < 0) :
    Written (inPlace w.chars exponent).toList (placeValue w.chars exponent) := by
  let places : Digits := ⟨List.replicate (-exponent - 1).toNat '0' ++ w.chars,
    by simp [w.nonempty], fun c hc ↦
      (List.mem_append.mp hc).elim isNumeral_of_mem_zeros (w.numerals c)⟩
  have hchars : (inPlace w.chars exponent).toList = zeroDigit.chars ++ '.' :: places.chars := by
    simp [inPlace, hneg, zeros, zeroDigit, places]
  rw [hchars]
  refine written_fraction (j := (-exponent - 1).toNat + 1) (k := 0) ?_ ?_
  · simp [zeroDigit, places, List.replicate_succ]
  · simp [places]
    omega

/-- Where the digits end before the point there may be zeros up to it. -/
theorem written_whole (w : Digits) {exponent : ℤ} (hpos : 0 ≤ exponent)
    (hshort : w.chars.length ≤ exponent.toNat + 1) :
    Written (inPlace w.chars exponent).toList (placeValue w.chars exponent) := by
  let whole : Digits := ⟨w.chars ++ List.replicate (exponent.toNat + 1 - w.chars.length) '0',
    by simp [w.nonempty], fun c hc ↦
      (List.mem_append.mp hc).elim (w.numerals c) isNumeral_of_mem_zeros⟩
  have hchars : (inPlace w.chars exponent).toList = whole.chars ++ '.' :: zeroDigit.chars := by
    simp [inPlace, hpos.not_gt, zeros, List.take_of_length_le hshort,
      List.drop_of_length_le hshort, whole, zeroDigit]
  rw [hchars]
  refine written_fraction (j := 0) (k := exponent.toNat + 1 - w.chars.length + 1) ?_ ?_
  · simp [whole, zeroDigit, List.replicate_succ']
  · simp [zeroDigit]
    omega

/-- The point may stand between two of the digits. -/
theorem written_between (w : Digits) {exponent : ℤ} (hpos : 0 ≤ exponent)
    (hlong : exponent.toNat + 1 < w.chars.length) :
    Written (inPlace w.chars exponent).toList (placeValue w.chars exponent) := by
  let whole : Digits := ⟨w.chars.take (exponent.toNat + 1), by simp [w.nonempty],
    fun c hc ↦ w.numerals c (List.mem_of_mem_take hc)⟩
  let places : Digits := ⟨w.chars.drop (exponent.toNat + 1), by simpa using hlong,
    fun c hc ↦ w.numerals c (List.mem_of_mem_drop hc)⟩
  have hlength : (w.chars.take (exponent.toNat + 1)).length = exponent.toNat + 1 :=
    List.length_take_of_le hlong.le
  have hchars : (inPlace w.chars exponent).toList = whole.chars ++ '.' :: places.chars := by
    simp only [inPlace, if_neg hpos.not_gt, hlength]
    simp [zeros, hlong.not_ge, whole, places]
  rw [hchars]
  refine written_fraction (j := 0) (k := 0) ?_ ?_
  · simp [whole, places]
  · simp [places]
    omega

theorem written_inPlace (w : Digits) (exponent : ℤ) :
    Written (inPlace w.chars exponent).toList (placeValue w.chars exponent) := by
  by_cases hneg : exponent < 0
  · exact written_below_one w hneg
  · by_cases hshort : w.chars.length ≤ exponent.toNat + 1
    · exact written_whole w (not_lt.mp hneg) hshort
    · exact written_between w (not_lt.mp hneg) (not_le.mp hshort)

/-- The exponent behind a mark has two digits at least. -/
theorem toList_marked (first : Char) (rest : List Char) (exponent : ℤ) :
    (marked Style.answer (first :: rest) exponent).toList =
      first :: (if rest = [] then [] else '.' :: rest) ++
        'e' :: (if exponent < 0 then '-' else '+') ::
          (paddedDigits (2 - (Nat.toDigits 10 exponent.natAbs).length) exponent.natAbs).chars := by
  have hsize : (toString exponent.natAbs).toList = Nat.toDigits 10 exponent.natAbs := by simp
  have hmark : Style.answer.mark = "e" := rfl
  have hleast : Style.answer.leastExponentDigits = 2 := rfl
  have hpoint : Style.answer.pointBeforeMark = false := rfl
  unfold marked
  cases rest with
  | nil => split_ifs <;> simp_all [zeros, paddedDigits, ← String.length_toList]
  | cons second rest => split_ifs <;> simp_all [zeros, paddedDigits, ← String.length_toList]

/-- One digit before the point, and the others behind it. -/
theorem exists_numeral {first : Char} {rest : List Char}
    (hnumerals : ∀ c ∈ first :: rest, isNumeral c = true) (exponent : ℤ) :
    ∃ n : Numeral, n.chars = first :: (if rest = [] then [] else '.' :: rest) ∧
      n.decimal.value * 10 ^ exponent = placeValue (first :: rest) exponent := by
  let whole : Digits := ⟨[first], by simp, by simpa using hnumerals first (by simp)⟩
  by_cases hrest : rest = []
  · refine ⟨.whole whole, by simp [hrest, Numeral.chars, whole], ?_⟩
    simp [hrest, Numeral.decimal, Decimal.value, placeValue, whole]
  · let places : Digits := ⟨rest, hrest, fun c hc ↦ hnumerals c (List.mem_cons_of_mem _ hc)⟩
    refine ⟨.fraction whole places, by simp [hrest, Numeral.chars, whole, places], ?_⟩
    have hpoint : exponent + 1 - (first :: rest).length = -rest.length + exponent := by
      simp
      ring
    rw [placeValue, hpoint, zpow_add₀ (by norm_num), ← mul_assoc]
    rfl

theorem signedDigits_natAbs (k : ℕ) (n : ℤ) :
    signedDigits (decide (n < 0)) (paddedDigits k n.natAbs) = n := by
  rw [signedDigits, ofDigits_paddedDigits]
  split_ifs with hneg
  · simp only [decide_eq_true_eq] at hneg
    omega
  · simp only [decide_eq_true_eq] at hneg
    omega

theorem written_marked (w : Digits) (exponent : ℤ) :
    Written (marked Style.answer w.chars exponent).toList (placeValue w.chars exponent) := by
  obtain ⟨first, rest, hcons⟩ := List.exists_cons_of_ne_nil w.nonempty
  obtain ⟨n, hn, hvalue⟩ := exists_numeral (hcons ▸ w.numerals) exponent
  have hwritten := Written.marked n (decide (exponent < 0)) (paddedDigits
    (2 - (Nat.toDigits 10 exponent.natAbs).length) exponent.natAbs)
  rw [signedDigits_natAbs, hvalue] at hwritten
  rw [hcons, toList_marked, ← hn]
  simpa using hwritten

/-- The digits of a positive number without the zeros behind them. -/
theorem exists_strip {n : ℕ} (hn : 0 < n) : ∃ (w : Digits) (k : ℕ),
    w.chars = ((Nat.toDigits 10 n).reverse.dropWhile fun c ↦ c = '0').reverse ∧
      Nat.toDigits 10 n = w.chars ++ List.replicate k '0' := by
  let zeros := (Nat.toDigits 10 n).reverse.takeWhile fun c ↦ c = '0'
  let kept := (Nat.toDigits 10 n).reverse.dropWhile fun c ↦ c = '0'
  have hzeros : zeros = List.replicate zeros.length '0' :=
    List.eq_replicate_of_mem fun c hc ↦ by simpa using List.mem_takeWhile_imp hc
  have hall : Nat.toDigits 10 n = kept.reverse ++ List.replicate zeros.length '0' := by
    rw [← List.reverse_inj, List.reverse_append, List.reverse_replicate, ← hzeros,
      List.reverse_reverse]
    exact List.takeWhile_append_dropWhile.symm
  have hkept : kept.reverse ≠ [] := by
    intro hnil
    have hn' := ofDigits_toDigits n
    rw [hall, ofDigits_append_zeros, hnil] at hn'
    simp [ofDigits] at hn'
    omega
  refine ⟨⟨kept.reverse, hkept, fun c hc ↦ ?_⟩, zeros.length, rfl, hall⟩
  apply isNumeral_of_mem_toDigits (n := n)
  rw [hall]
  exact List.mem_append_left _ hc

/-- A decimal is written as what it stands for. -/
theorem written_text {d : Decimal} (hd : 0 < d.digits) :
    Written (d.text Style.answer).toList d.value := by
  obtain ⟨w, k, hw, hall⟩ := exists_strip hd
  have hvalue : d.value = placeValue w.chars
      (d.exponent + (Nat.toDigits 10 d.digits).length - 1) := by
    rw [Decimal.value, placeValue]
    have hdigits : d.digits = 10 ^ k * ofDigits w.chars := by
      rw [← ofDigits_append_zeros, ← hall, ofDigits_toDigits]
    have hplaces : d.exponent + (Nat.toDigits 10 d.digits).length - 1 + 1 - w.chars.length =
        k + d.exponent := by
      rw [hall]
      simp
      ring
    rw [hplaces, hdigits, zpow_add₀ (by norm_num), zpow_natCast]
    push_cast
    ring
  rw [hvalue]
  unfold Decimal.text
  dsimp only
  rw [← hw]
  split_ifs
  · exact written_inPlace w _
  · exact written_marked w _

/-! The bits of a double. -/

namespace Binary

open Float.Model Float.Model.UnpackedFloat

theorem standard_of_finite {x : Float} {s : Bool} {m : ℕ} {e : ℤ}
    (h : ofFloat x = finite s m e) : Standard m e := by
  unfold ofFloat at h
  simp only [Nat.pow_eq] at h
  split_ifs at h with htop hinfinite hsmall
  · cases h
    exact ⟨by omega, by omega, Or.inr rfl⟩
  · cases h
    exact ⟨by omega, by omega, Or.inl (by omega)⟩

/-- The bits of the double that stands for something. -/
def bits : Binary → ℕ
  | nan => (packedNaN Format.binary64).toNat
  | infinite negative => negative.toNat * 2 ^ 63 + 2047 * 2 ^ 52
  | finite negative m e => negative.toNat * 2 ^ 63 +
      if m < 2 ^ 52 then m else (e + 1075).toNat * 2 ^ 52 + (m - 2 ^ 52)

/-- All values that are no number have the same bits. -/
theorem toBits_of_nan {x : Float} (h : ofFloat x = nan) :
    x.toModel.toBits.toBitVec = packedNaN Format.binary64 := by
  unfold ofFloat at h
  simp only [Nat.pow_eq] at h
  split_ifs at h with htop hfraction
  refine x.toModel.valid.eq_packedNaN ?_ fun hzero ↦ hfraction ?_
  · apply BitVec.eq_of_toNat_eq
    rw [toNat_unpackExponent]
    exact htop
  · have hmantissa := congrArg BitVec.toNat hzero
    rw [toNat_unpackMantissa] at hmantissa
    exact hmantissa

theorem bits_ofFloat (x : Float) : (ofFloat x).bits = x.toBits.toNat := by
  by_cases hnan : ofFloat x = nan
  · rw [hnan]
    exact (congrArg BitVec.toNat (toBits_of_nan hnan)).symm
  · have hlt : x.toBits.toNat < 2 ^ 64 := x.toBits.toNat_lt
    have hsign : (x.toBits.toNat / 2 ^ 63 == 1).toNat = x.toBits.toNat / 2 ^ 63 := by
      rcases (by omega : x.toBits.toNat / 2 ^ 63 = 0 ∨ x.toBits.toNat / 2 ^ 63 = 1) with h | h
      · rw [h]
        rfl
      · rw [h]
        rfl
    unfold ofFloat at hnan ⊢
    simp only [Nat.pow_eq] at hnan ⊢
    split_ifs at hnan ⊢ with htop hinfinite hsmall
    · rw [bits, hsign]
      omega
    · exact absurd rfl hnan
    · rw [bits, hsign, if_pos (by omega)]
      omega
    · rw [bits, hsign, if_neg (by omega)]
      omega

/-- Doubles that stand for the same are the same. -/
theorem ofFloat_injective : Function.Injective ofFloat := by
  intro x y h
  have hbits : x.toBits = y.toBits := by
    rw [← UInt64.toNat_inj, ← bits_ofFloat, ← bits_ofFloat, h]
  obtain ⟨⟨bits, hvalid⟩⟩ := x
  obtain ⟨⟨bits', hvalid'⟩⟩ := y
  obtain rfl : bits = bits' := hbits
  rfl

/-- A double is finite if it is a number on the line. -/
theorem isFinite_iff {x : Float} :
    JsonData.isFinite x = true ↔ ∃ s m e, ofFloat x = finite s m e := by
  have hnan : x.isNaN = x.toModel.unpack.isNaN := rfl
  have hinfinite : x.isInf = x.toModel.unpack.isInf := rfl
  rw [JsonData.isFinite, hnan, hinfinite, ofFloat_eq]
  cases x.toModel.unpack with
  | infinity s => exact iff_of_false nofun nofun
  | notANumber => exact iff_of_false nofun nofun
  | zero s => exact iff_of_true rfl ⟨_, _, _, rfl⟩
  | finite s m e hm => exact iff_of_true rfl ⟨_, _, _, rfl⟩

end Binary

/-! Texts of doubles. -/

/-- The sign and the number that a text is read as. -/
def readSigned? (chars : List Char) : Option (Bool × ℚ) :=
  let sign := takeSign chars
  (readDecimal? sign.2).map fun d ↦ (sign.1, d.value)

theorem Written.readSigned?_signed {text : String} {q : ℚ} (h : Written text.toList q)
    (negative : Bool) : readSigned? (signed negative text).toList = some (negative, q) := by
  obtain ⟨d, hd, rfl⟩ := h.read
  unfold readSigned? signed
  cases negative with
  | true => simp [takeSign, hd]
  | false => simp [h.takeSign_eq, hd]

/-- A number is written with its sign, and as a magnitude that reads back as it. -/
theorem exists_render {x : Float} {s : Bool} {m : ℕ} {e : ℤ}
    (h : Binary.ofFloat x = .finite s m e) : ∃ text q, render x = signed s text ∧
      Written text.toList q ∧ (RoundingInterval.of m e).Contains q := by
  have hm := Binary.standard_of_finite h
  unfold render text
  rw [h]
  cases m with
  | zero =>
    refine ⟨"0.0", 0, rfl, ?_, ?_⟩
    · have hvalue : (Numeral.fraction zeroDigit zeroDigit).decimal.value = 0 := by
        simp [Numeral.decimal, Decimal.value, zeroDigit, ofDigits, digitValue]
      exact hvalue ▸ .inPlace (.fraction zeroDigit zeroDigit)
    · simp [RoundingInterval.Contains, RoundingInterval.of]
  | succ m =>
    exact ⟨_, _, rfl, written_text (digits_shortest_pos hm m.succ_pos),
      contains_shortest hm m.succ_pos⟩

/-- The name of a value that is not finite. -/
def Binary.name : Binary → String
  | infinite false => "inf"
  | infinite true => "-inf"
  | _ => "nan"

theorem Binary.name_mem (b : Binary) : b.name ∈ ["nan", "inf", "-inf"] := by
  unfold name
  split <;> simp

theorem Binary.name_injOn : Set.InjOn name {b | ∀ s m e, b ≠ finite s m e} := by
  intro b hb c hc h
  cases b with
  | nan =>
    cases c with
    | nan => rfl
    | infinite t => cases t <;> simp [name] at h
    | finite t n f => exact absurd rfl (hc t n f)
  | infinite s =>
    cases c with
    | nan => cases s <;> simp [name] at h
    | infinite t => cases s <;> cases t <;> simp_all [name]
    | finite t n f => exact absurd rfl (hc t n f)
  | finite s m e => exact absurd rfl (hb s m e)

theorem Binary.ne_finite {x : Float} (h : JsonData.isFinite x = false) (s : Bool) (m : ℕ) (e : ℤ) :
    ofFloat x ≠ finite s m e := by
  intro hx
  simp [isFinite_iff.mpr ⟨s, m, e, hx⟩] at h

theorem render_of_not_isFinite {x : Float} (h : JsonData.isFinite x = false) :
    render x = (Binary.ofFloat x).name := by
  unfold render text
  cases hx : Binary.ofFloat x with
  | nan => rfl
  | infinite negative => cases negative <;> rfl
  | finite s m e => exact absurd hx (Binary.ne_finite h s m e)

theorem readSigned?_of_mem_names {name : String} (h : name ∈ ["nan", "inf", "-inf"]) :
    readSigned? name.toList = none := by
  revert name
  decide +kernel

/-- The names of what is not finite are written for nothing else. -/
theorem render_mem_iff (x : Float) :
    render x ∈ ["nan", "inf", "-inf"] ↔ JsonData.isFinite x = false := by
  constructor
  · intro hname
    rw [← Bool.not_eq_true]
    intro hx
    obtain ⟨s, m, e, hx⟩ := Binary.isFinite_iff.mp hx
    obtain ⟨text, q, htext, hwritten, -⟩ := exists_render hx
    have hread := hwritten.readSigned?_signed s
    rw [← htext, readSigned?_of_mem_names hname] at hread
    simp at hread
  · intro hx
    rw [render_of_not_isFinite hx]
    exact Binary.name_mem _

/-- Different doubles have different texts. -/
theorem render_injective : Function.Injective render := by
  intro x y h
  apply Binary.ofFloat_injective
  have hfinite : JsonData.isFinite x = JsonData.isFinite y := by
    rw [Bool.eq_iff_iff, ← Bool.not_eq_false, ← Bool.not_eq_false, ← render_mem_iff,
      ← render_mem_iff, h]
  cases hx : JsonData.isFinite x with
  | true =>
    obtain ⟨s, m, e, hx'⟩ := Binary.isFinite_iff.mp hx
    obtain ⟨t, n, f, hy'⟩ := Binary.isFinite_iff.mp (hfinite ▸ hx)
    obtain ⟨text, q, htext, hwritten, hq⟩ := exists_render hx'
    obtain ⟨text', q', htext', hwritten', hq'⟩ := exists_render hy'
    have hread := hwritten.readSigned?_signed s
    rw [← htext, h, htext', hwritten'.readSigned?_signed t] at hread
    simp only [Option.some.injEq, Prod.mk.injEq] at hread
    obtain ⟨rfl, rfl⟩ := hread
    obtain ⟨rfl, rfl⟩ := RoundingInterval.eq_of_contains (Binary.standard_of_finite hx')
      (Binary.standard_of_finite hy') hq hq'
    rw [hx', hy']
  | false =>
    rw [render_of_not_isFinite hx, render_of_not_isFinite (hfinite ▸ hx)] at h
    exact Binary.name_injOn (Binary.ne_finite hx) (Binary.ne_finite (hfinite ▸ hx)) h

/-- What a double is written with. -/
theorem mem_render {x : Float} {c : Char} (hc : c ∈ (render x).toList) :
    isNumeral c = true ∨ c ∈ ['.', 'e', '-', '+', 'n', 'a', 'i', 'f'] := by
  cases hx : JsonData.isFinite x with
  | true =>
    obtain ⟨s, m, e, hx⟩ := Binary.isFinite_iff.mp hx
    obtain ⟨text, q, htext, hwritten, -⟩ := exists_render hx
    have hmem : c = '-' ∨ c ∈ text.toList := by
      rw [htext] at hc
      cases s <;> simp_all [signed]
    rcases hmem with rfl | hmem
    · simp
    · exact (hwritten.mem_chars hmem).imp_right (by simp +contextual [or_imp])
  | false =>
    have hnames : ∀ name ∈ ["nan", "inf", "-inf"], ∀ c ∈ name.toList,
        c ∈ ['.', 'e', '-', '+', 'n', 'a', 'i', 'f'] := by simp
    rw [render_of_not_isFinite hx] at hc
    exact Or.inr (hnames _ (Binary.name_mem _) c hc)

end CurveCalc.Number
