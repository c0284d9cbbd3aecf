import CurveCalc.Formula.Literal
import CurveCalc.Formula.Scan

/-!
Numbers as they are written in formulas: digits, or digits with a point and more digits behind it.
Whatever number is at the front of a text, it is written in one of these ways
(`Numeral.exists_of_isNumeral`), and all that are written so are read as decimals
(`Numeral.readDecimal?_chars`), and read as doubles as these (`Numeral.readFloat?_chars`).
-/

set_option autoImplicit false
set_option relaxedAutoImplicit false

namespace CurveCalc

/-- One digit or more. -/
structure Digits where
  chars : List Char
  nonempty : chars ≠ []
  numerals : ∀ c ∈ chars, isNumeral c = true

inductive Numeral where
  | whole (digits : Digits)
  | fraction (digits places : Digits)

namespace Numeral

def chars : Numeral → List Char
  | whole digits => digits.chars
  | fraction digits places => digits.chars ++ '.' :: places.chars

/-- The decimal that is written. -/
def decimal : Numeral → Number.Decimal
  | whole digits => ⟨Number.ofDigits digits.chars, 0⟩
  | fraction digits places =>
    ⟨Number.ofDigits (digits.chars ++ places.chars), -places.chars.length⟩

/-- The number does not go on with these characters. -/
def Ends : Numeral → List Char → Prop
  | whole _, rest => (∀ c more, rest = c :: more → isNumeral c = false) ∧
      ∀ c more, rest = '.' :: c :: more → isNumeral c = false
  | fraction _ _, rest => ∀ c more, rest = c :: more → isNumeral c = false

end Numeral

theorem toNat_of_isNumeral {c : Char} (h : isNumeral c = true) :
    48 ≤ c.toNat ∧ c.toNat ≤ 57 := by
  simp only [isNumeral, Bool.and_eq_true, decide_eq_true_eq] at h
  exact h

namespace Number

variable {p : Char → Bool}

theorem takeRun_cons {c : Char} {rest : List Char} (hc : p c = true)
    (hrest : ∀ more, rest ≠ '_' :: more) :
    takeRun p (c :: rest) = (c :: (takeRun p rest).1, (takeRun p rest).2) := by
  cases rest with
  | nil => simp [takeRun, hc]
  | cons d more =>
    have hd : d ≠ '_' := fun h ↦ hrest more (by rw [h])
    cases more with
    | nil => rw [takeRun.eq_2 p c [d] (by simp), if_pos hc]
    | cons e more => rw [takeRun.eq_2 p c (d :: e :: more) (by simp [hd]), if_pos hc]

theorem takeRun_of_stop {rest : List Char} (hrest : ∀ c more, rest = c :: more → p c = false) :
    takeRun p rest = ([], rest) := by
  cases rest with
  | nil => rfl
  | cons c more =>
    have hc := hrest c more rfl
    unfold takeRun
    split <;> simp_all

/-- A run without underscores in it is split off as it is. -/
theorem takeRun_append {ds rest : List Char} (hds : ∀ c ∈ ds, p c = true)
    (hunderscore : p '_' = false) (hrest : ∀ c more, rest = c :: more → p c = false ∧ c ≠ '_') :
    takeRun p (ds ++ rest) = (ds, rest) := by
  induction ds with
  | nil => exact takeRun_of_stop fun c more h ↦ (hrest c more h).1
  | cons d ds ih =>
    have hmore : ∀ more, ds ++ rest ≠ '_' :: more := by
      intro more h
      cases ds with
      | nil => exact (hrest '_' more h).2 rfl
      | cons e ds =>
        have he := hds e (List.mem_cons_of_mem d List.mem_cons_self)
        rw [(List.cons_eq_cons.mp h).1, hunderscore] at he
        cases he
    rw [List.cons_append, takeRun_cons (hds d List.mem_cons_self) hmore,
      ih fun c hc ↦ hds c (List.mem_cons_of_mem d hc)]

theorem takeDigits_append (w : Digits) (rest : List Char)
    (hrest : ∀ c more, rest = c :: more → isDigit c = false ∧ c ≠ '_') :
    takeDigits (w.chars ++ rest) = (w.chars, rest) := takeRun_append w.numerals rfl hrest

theorem plainChar_of_isNumeral {c : Char} (hc : isNumeral c = true) : plainChar c = c := by
  obtain ⟨hlow, hhigh⟩ := toNat_of_isNumeral hc
  have hvalue : Text.decimalValue? c = some (c.toNat - 48) := by
    unfold Text.decimalValue? Text.zeroDigits
    rw [List.find?_cons_of_pos (by simp [hlow, hhigh])]
    rfl
  unfold plainChar
  rw [hvalue]
  change Char.ofNat (48 + (c.toNat - 48)) = c
  rw [Nat.add_sub_cancel' hlow, Char.ofNat_toNat]

theorem lowerAscii_of_isNumeral {c : Char} (hc : isNumeral c = true) : lowerAscii c = c := by
  obtain ⟨-, hhigh⟩ := toNat_of_isNumeral hc
  unfold lowerAscii
  refine if_neg fun hupper ↦ ?_
  simp only [Bool.and_eq_true, decide_eq_true_eq] at hupper
  have hletter : 65 ≤ c.toNat := hupper.1
  omega

theorem trimBy_eq_self {chars : List Char} (h : ∀ c ∈ chars, p c = false) :
    Text.trimBy p chars = chars := by
  have hdrop : ∀ cs : List Char, (∀ c ∈ cs, p c = false) → cs.dropWhile p = cs := by
    intro cs hcs
    cases cs with
    | nil => rfl
    | cons c cs => rw [List.dropWhile_cons, hcs c List.mem_cons_self, if_neg Bool.false_ne_true]
  unfold Text.trimBy
  rw [hdrop chars h, hdrop _ fun c hc ↦ h c (List.mem_reverse.mp hc), List.reverse_reverse]

end Number

namespace Numeral

theorem chars_eq_cons (n : Numeral) :
    ∃ first more, n.chars = first :: more ∧ isNumeral first = true := by
  have hdigits : ∀ w : Digits, ∃ first more, w.chars = first :: more ∧ isNumeral first = true := by
    rintro ⟨ds, hne, hds⟩
    cases ds with
    | nil => exact absurd rfl hne
    | cons d ds => exact ⟨d, ds, rfl, hds d List.mem_cons_self⟩
  cases n with
  | whole w => exact hdigits w
  | fraction w places =>
    obtain ⟨first, more, hw, hfirst⟩ := hdigits w
    exact ⟨first, more ++ '.' :: places.chars, by rw [chars, hw, List.cons_append], hfirst⟩

theorem readDecimal?_chars (n : Numeral) : Number.readDecimal? n.chars = some n.decimal := by
  cases n with
  | whole w =>
    have hsplit := Number.takeDigits_append w [] nofun
    rw [List.append_nil] at hsplit
    have hempty : w.chars.isEmpty = false := by simpa using w.nonempty
    unfold Number.readDecimal? chars
    simp [hsplit, Number.takePlaces, hempty, Number.readExponent?, decimal]
  | fraction w places =>
    have hsplit := Number.takeDigits_append w ('.' :: places.chars) (by simp; decide)
    have hplaces := Number.takeDigits_append places [] nofun
    rw [List.append_nil] at hplaces
    have hempty : w.chars.isEmpty = false := by simpa using w.nonempty
    unfold Number.readDecimal? chars
    simp [hsplit, Number.takePlaces, hplaces, hempty, Number.readExponent?, decimal]

theorem isNumeral_or_eq_point (n : Numeral) {c : Char} (hc : c ∈ n.chars) :
    isNumeral c = true ∨ c = '.' := by
  cases n with
  | whole w => exact Or.inl (w.numerals c hc)
  | fraction w places =>
    rcases List.mem_append.mp hc with hc | hc
    · exact Or.inl (w.numerals c hc)
    · rcases List.mem_cons.mp hc with hc | hc
      · exact Or.inr hc
      · exact Or.inl (places.numerals c hc)

theorem numberChars_chars (n : Numeral) : Number.numberChars (String.ofList n.chars) = n.chars := by
  have hplain : n.chars.map Number.plainChar = n.chars := by
    refine (List.map_congr_left fun c hc ↦ ?_).trans (List.map_id _)
    rcases n.isNumeral_or_eq_point hc with hnumeral | rfl
    · exact Number.plainChar_of_isNumeral hnumeral
    · decide
  unfold Number.numberChars
  rw [String.toList_ofList, hplain]
  refine Number.trimBy_eq_self fun c hc ↦ decide_eq_false ?_
  rintro rfl
  rcases n.isNumeral_or_eq_point hc with hnumeral | hpoint
  · cases hnumeral
  · cases hpoint

/-- What begins with a digit is read neither as a sign nor as a word. -/
theorem readFloat?_chars (n : Numeral) :
    Number.readFloat? (String.ofList n.chars) = some n.decimal.toFloat := by
  obtain ⟨first, more, hcons, hfirst⟩ := n.chars_eq_cons
  have hne : ∀ c, isNumeral c = false → first ≠ c := by
    rintro c hc rfl
    rw [hc] at hfirst
    cases hfirst
  have hsign : Number.takeSign n.chars = (false, n.chars) := by
    rw [hcons]
    unfold Number.takeSign
    split
    · rename_i h
      exact absurd (List.cons_eq_cons.mp h).1 (hne '-' rfl)
    · rename_i h
      exact absurd (List.cons_eq_cons.mp h).1 (hne '+' rfl)
    · rfl
  have hword : ∀ word c cs, word = String.ofList (c :: cs) → isNumeral c = false →
      String.ofList (n.chars.map Number.lowerAscii) ≠ word := by
    rintro word c cs rfl hc h
    rw [String.ofList_inj, hcons, List.map_cons, Number.lowerAscii_of_isNumeral hfirst] at h
    exact hne c hc (List.cons_eq_cons.mp h).1
  have hinf := hword "inf" 'i' ['n', 'f'] rfl rfl
  have hinfinity := hword "infinity" 'i' ['n', 'f', 'i', 'n', 'i', 't', 'y'] rfl rfl
  have hnan := hword "nan" 'n' ['a', 'n'] rfl rfl
  unfold Number.readFloat?
  rw [n.numberChars_chars, hsign]
  unfold Number.readMagnitude?
  dsimp only
  rw [if_neg (not_or.mpr ⟨hinf, hinfinity⟩), if_neg hnan, n.readDecimal?_chars]
  rfl

theorem takeWhile_append {ds rest : List Char} (hds : ∀ c ∈ ds, isNumeral c = true)
    (hrest : ∀ c more, rest = c :: more → isNumeral c = false) :
    (ds ++ rest).takeWhile isNumeral = ds ∧ (ds ++ rest).dropWhile isNumeral = rest := by
  rw [List.takeWhile_append_of_pos hds, List.dropWhile_append_of_pos hds]
  cases rest with
  | nil => exact ⟨List.append_nil ds, rfl⟩
  | cons c more =>
    rw [List.takeWhile_cons, List.dropWhile_cons, hrest c more rfl, if_neg Bool.false_ne_true,
      if_neg Bool.false_ne_true]
    exact ⟨List.append_nil ds, rfl⟩

/-- A number is read to its end. -/
theorem numberLength_append (n : Numeral) {rest : List Char} (hrest : n.Ends rest) :
    numberLength (n.chars ++ rest) = n.chars.length := by
  cases n with
  | whole w =>
    obtain ⟨hdigit, hpoint⟩ := hrest
    unfold numberLength chars
    rw [(takeWhile_append w.numerals hdigit).1, (takeWhile_append w.numerals hdigit).2]
    split
    · rename_i d more
      rw [hpoint d more rfl, if_neg Bool.false_ne_true]
    · rfl
  | fraction w places =>
    have hpoint : ∀ c more, '.' :: (places.chars ++ rest) = c :: more → isNumeral c = false := by
      intro c more h
      rw [← (List.cons_eq_cons.mp h).1]
      rfl
    unfold chars
    rw [List.append_assoc, List.cons_append]
    unfold numberLength
    rw [(takeWhile_append w.numerals hpoint).1, (takeWhile_append w.numerals hpoint).2]
    obtain ⟨ds, hne, hds⟩ := places
    cases ds with
    | nil => exact absurd rfl hne
    | cons d ds =>
      have hmore := (takeWhile_append (fun c hc ↦ hds c (List.mem_cons_of_mem d hc)) hrest).1
      change (if isNumeral d then
          w.chars.length + 2 + ((ds ++ rest).takeWhile isNumeral).length
        else _) = (w.chars ++ '.' :: d :: ds).length
      rw [hds d List.mem_cons_self, if_pos rfl, hmore, List.length_append, List.length_cons,
        List.length_cons]
      omega

/-- The digits at the front of characters that begin with one. -/
theorem exists_digits {first : Char} (h : isNumeral first = true) (tail : List Char) :
    ∃ (w : Digits) (rest : List Char), first :: tail = w.chars ++ rest ∧
      ∀ c more, rest = c :: more → isNumeral c = false := by
  refine ⟨⟨first :: tail.takeWhile isNumeral, List.cons_ne_nil _ _, ?_⟩,
    tail.dropWhile isNumeral, ?_, ?_⟩
  · rintro c (_ | ⟨_, hc⟩)
    · exact h
    · exact List.all_eq_true.mp List.all_takeWhile c hc
  · rw [List.cons_append, List.takeWhile_append_dropWhile]
  · intro c more hrest
    have hhead := List.head?_dropWhile_not isNumeral tail
    rw [hrest] at hhead
    exact hhead

/-- Characters that begin with a digit begin with a number. -/
theorem exists_of_isNumeral {first : Char} (h : isNumeral first = true) (tail : List Char) :
    ∃ (n : Numeral) (rest : List Char), first :: tail = n.chars ++ rest ∧ n.Ends rest := by
  obtain ⟨w, rest, hsplit, hrest⟩ := exists_digits h tail
  by_cases hpoint : ∃ c more, rest = '.' :: c :: more ∧ isNumeral c = true
  · obtain ⟨c, more, rfl, hc⟩ := hpoint
    obtain ⟨places, rest', hplaces, hrest'⟩ := exists_digits hc more
    refine ⟨.fraction w places, rest', ?_, hrest'⟩
    rw [hsplit, hplaces, chars, List.append_assoc, List.cons_append]
  · refine ⟨.whole w, rest, hsplit, hrest, fun c more hmore ↦ ?_⟩
    exact Bool.eq_false_iff.mpr fun hc ↦ hpoint ⟨c, more, hmore, hc⟩

end Numeral

end CurveCalc
