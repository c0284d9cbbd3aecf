import CurveCalc.Proofs.Formula.Numeral
import Mathlib.Data.List.Basic
import Mathlib.Data.Nat.Find

/-!
A text cut into pieces. From left to right each piece is the longest number, name or single
character that the rest begins with (`Splits`), and the tokens of the text are those of its pieces,
with a star between two of them where a value is followed by a name or an opening parenthesis
(`laidOut`). Every text can be cut so (`exists_splits`), and no piece goes on with what stands
behind it (`Splits.separated`).
-/

set_option autoImplicit false
set_option relaxedAutoImplicit false

namespace CurveCalc

/-- A letter or underscore, and as many letters, underscores and digits as there may be behind it.
-/
structure Word where
  first : Char
  more : List Char
  isNameStart_first : isNameStart first = true
  isNamePart_more : ∀ c ∈ more, isNamePart c = true

inductive Piece where
  | number (n : Numeral)
  | name (w : Word)
  /-- A character with which neither a number nor a name begins. -/
  | character (c : Char) (hnumeral : isNumeral c = false) (hstart : isNameStart c = false)

namespace Word

def chars (w : Word) : List Char := w.first :: w.more

def text (w : Word) : String := String.ofList w.chars

/-- Constants are numbers, and what is neither a constant nor a function is a variable. -/
def kind (w : Word) : TokenKind :=
  if w.text = "pi" ∨ w.text = "e" then .number
  else if w.text ∈ Builtin.all.map Builtin.name then .function
  else .identifier

end Word

/-- The kind of a character that stands by itself. -/
def characterKind : Char → TokenKind
  | '+' => .plus
  | '-' => .minus
  | '*' => .star
  | '/' => .slash
  | '^' => .caret
  | '%' => .percent
  | '!' => .bang
  | '(' => .leftParen
  | ')' => .rightParen
  | ',' => .comma
  | _ => .error

namespace Piece

def chars : Piece → List Char
  | number n => n.chars
  | name w => w.chars
  | character c _ _ => [c]

def text (p : Piece) : String := String.ofList p.chars

def kind : Piece → TokenKind
  | number _ => .number
  | name w => w.kind
  | character c _ _ => characterKind c

def value : Piece → TokenValue
  | number _ => .absent
  | name w => (classifyName w.text).2
  | character c _ _ => if characterKind c = .error then .unexpectedCharacter else .absent

/-- The piece as a token. -/
def token (p : Piece) (position : Nat) : Token := ⟨p.kind, p.text, position, p.value⟩

/-- The piece ends a value: it is a number or constant, a variable or a closing parenthesis. -/
def endsValue (p : Piece) : Bool :=
  p.kind == .number || p.kind == .identifier || p.kind == .rightParen

/-- The piece begins with a letter, an underscore or an opening parenthesis. -/
def opens (p : Piece) : Bool := p.chars.head?.any fun c ↦ isNameStart c || c == '('

end Piece

/-- The star between two factors that are written side by side. -/
def Token.star (position : Nat) : Token := ⟨.star, "*", position, .absent⟩

/-- The characters are those of the pieces, and each piece is the longest one that stands where it
does. -/
inductive Splits : List Char → List Piece → Prop
  | nil : Splits [] []
  | cons {p : Piece} {rest : List Char} {ps : List Piece}
    (hlongest : ∀ q : Piece, q.chars <+: p.chars ++ rest → q.chars.length ≤ p.chars.length)
    (hrest : Splits rest ps) : Splits (p.chars ++ rest) (p :: ps)

/-- The tokens of pieces that stand one behind the other from a position on. -/
def laidOut : Nat → List Piece → List Token
  | _, [] => []
  | position, [p] => [p.token position]
  | position, p :: q :: ps =>
    let behind := position + p.chars.length
    p.token position ::
      ((if p.endsValue && q.opens then [Token.star behind] else []) ++ laidOut behind (q :: ps))

theorem toNat_of_isNameStart {c : Char} (h : isNameStart c = true) :
    97 ≤ c.toNat ∧ c.toNat ≤ 122 ∨ 65 ≤ c.toNat ∧ c.toNat ≤ 90 ∨ c.toNat = 95 := by
  simp only [isNameStart, Bool.or_eq_true, Bool.and_eq_true, decide_eq_true_eq, beq_iff_eq] at h
  rcases h with (h | h) | rfl
  · exact Or.inl h
  · exact Or.inr (Or.inl h)
  · exact Or.inr (Or.inr rfl)

theorem isNumeral_of_isNameStart {c : Char} (h : isNameStart c = true) : isNumeral c = false := by
  refine Bool.eq_false_iff.mpr fun hnumeral ↦ ?_
  have hstart := toNat_of_isNameStart h
  have hdigit := toNat_of_isNumeral hnumeral
  omega

theorem Word.isNamePart_chars (w : Word) : ∀ c ∈ w.chars, isNamePart c = true := by
  rintro c (_ | ⟨_, hc⟩)
  · rw [isNamePart, w.isNameStart_first, Bool.true_or]
  · exact w.isNamePart_more c hc

namespace Piece

theorem chars_eq_cons (p : Piece) : ∃ first more, p.chars = first :: more := by
  cases p with
  | number n =>
    obtain ⟨first, more, hchars, -⟩ := n.chars_eq_cons
    exact ⟨first, more, hchars⟩
  | name w => exact ⟨w.first, w.more, rfl⟩
  | character c hnumeral hstart => exact ⟨c, [], rfl⟩

theorem length_chars_pos (p : Piece) : 0 < p.chars.length := by
  obtain ⟨first, more, hchars⟩ := p.chars_eq_cons
  rw [hchars]
  exact Nat.succ_pos _

theorem chars_ne_nil (p : Piece) : p.chars ≠ [] := List.ne_nil_of_length_pos p.length_chars_pos

theorem opens_number (n : Numeral) : (number n).opens = false := by
  obtain ⟨digit, digits, hdigits, hdigit⟩ := n.chars_eq_cons
  have hstart : isNameStart digit = false := Bool.eq_false_iff.mpr fun h ↦ by
    rw [isNumeral_of_isNameStart h] at hdigit
    cases hdigit
  have hparen : (digit == '(') = false := beq_false_of_ne fun h ↦ by
    rw [h] at hdigit
    cases hdigit
  rw [opens, chars, hdigits]
  exact Bool.or_eq_false_iff.mpr ⟨hstart, hparen⟩

/-- The piece does not go on with these characters. -/
def Ends : Piece → List Char → Prop
  | number n, rest => n.Ends rest
  | name _, rest => ∀ c more, rest = c :: more → isNamePart c = false
  | character _ _ _, _ => True

/-- Nothing in the text goes on with a piece behind its end that is the longest there. -/
theorem ends_of_longest {p : Piece} {rest : List Char}
    (hlongest : ∀ q : Piece, q.chars <+: p.chars ++ rest → q.chars.length ≤ p.chars.length) :
    p.Ends rest := by
  have hmore : ∀ (q : Piece) (extra behind : List Char), q.chars = p.chars ++ extra →
      rest = extra ++ behind → extra = [] := by
    intro q extra behind hq hrest
    have hlength := hlongest q ⟨behind, by rw [hq, hrest, List.append_assoc]⟩
    rw [hq, List.length_append] at hlength
    exact List.eq_nil_of_length_eq_zero (by omega)
  have hdigits : ∀ (w : Digits) {c : Char}, isNumeral c = true →
      ∃ v : Digits, v.chars = w.chars ++ [c] := by
    intro w c hc
    exact ⟨⟨w.chars ++ [c], by simp, List.forall_mem_append.mpr
      ⟨w.numerals, List.forall_mem_singleton.mpr hc⟩⟩, rfl⟩
  cases p with
  | number n =>
    cases n with
    | whole w =>
      constructor
      · intro c more hrest
        by_contra hc
        obtain ⟨v, hv⟩ := hdigits w (eq_true_of_ne_false hc)
        cases hmore (.number (.whole v)) [c] more hv hrest
      · intro c more hrest
        by_contra hc
        let places : Digits :=
          ⟨[c], by simp, List.forall_mem_singleton.mpr (eq_true_of_ne_false hc)⟩
        cases hmore (.number (.fraction w places)) ['.', c] more rfl hrest
    | fraction w places =>
      intro c more hrest
      by_contra hc
      obtain ⟨v, hv⟩ := hdigits places (eq_true_of_ne_false hc)
      have hchars : (Numeral.fraction w v).chars = (Numeral.fraction w places).chars ++ [c] := by
        rw [Numeral.chars, Numeral.chars, hv, List.append_assoc, List.cons_append]
      cases hmore (.number (.fraction w v)) [c] more hchars hrest
  | name w =>
    intro c more hrest
    by_contra hc
    let longer : Word := ⟨w.first, w.more ++ [c], w.isNameStart_first, List.forall_mem_append.mpr
      ⟨w.isNamePart_more, List.forall_mem_singleton.mpr (eq_true_of_ne_false hc)⟩⟩
    cases hmore (.name longer) [c] more rfl hrest
  | character c hnumeral hstart => trivial

end Piece

/-- Whatever text there is begins with a piece. -/
theorem exists_piece {chars : List Char} (h : chars ≠ []) : ∃ p : Piece, p.chars <+: chars := by
  cases chars with
  | nil => exact absurd rfl h
  | cons c rest =>
    by_cases hnumeral : isNumeral c = true
    · exact ⟨.number (.whole ⟨[c], by simp, List.forall_mem_singleton.mpr hnumeral⟩), rest, rfl⟩
    by_cases hstart : isNameStart c = true
    · exact ⟨.name ⟨c, [], hstart, List.forall_mem_nil _⟩, rest, rfl⟩
    · exact ⟨.character c (eq_false_of_ne_true hnumeral) (eq_false_of_ne_true hstart), rest, rfl⟩

theorem exists_longest {chars : List Char} (h : chars ≠ []) : ∃ (p : Piece) (rest : List Char),
    chars = p.chars ++ rest ∧ ∀ q : Piece, q.chars <+: chars → q.chars.length ≤ p.chars.length := by
  classical
  let begins : Nat → Prop := fun n ↦ ∃ p : Piece, p.chars <+: chars ∧ p.chars.length = n
  obtain ⟨p, hp⟩ := exists_piece h
  obtain ⟨longest, ⟨rest, hrest⟩, hlength⟩ :=
    Nat.findGreatest_spec (P := begins) hp.length_le ⟨p, hp, rfl⟩
  refine ⟨longest, rest, hrest.symm, fun q hq ↦ ?_⟩
  rw [hlength]
  exact Nat.le_findGreatest hq.length_le ⟨q, hq, rfl⟩

/-- Every text can be cut into pieces. -/
theorem exists_splits (chars : List Char) : ∃ ps, Splits chars ps := by
  by_cases h : chars = []
  · exact ⟨[], h ▸ .nil⟩
  obtain ⟨p, rest, hsplit, hlongest⟩ := exists_longest h
  have hshorter : rest.length < chars.length := by
    have hpos := p.length_chars_pos
    rw [hsplit, List.length_append]
    omega
  obtain ⟨ps, hps⟩ := exists_splits rest
  subst hsplit
  exact ⟨p :: ps, .cons hlongest hps⟩
termination_by chars.length

/-- No piece goes on with what stands behind it. -/
def Separated : List Piece → Prop
  | [] => True
  | p :: ps => p.Ends (ps.flatMap Piece.chars) ∧ Separated ps

theorem Splits.flatMap_chars {chars : List Char} {ps : List Piece} (h : Splits chars ps) :
    ps.flatMap Piece.chars = chars := by
  induction h with
  | nil => rfl
  | cons _ _ ih => rw [List.flatMap_cons, ih]

theorem Splits.separated {chars : List Char} {ps : List Piece} (h : Splits chars ps) :
    Separated ps := by
  induction h with
  | nil => trivial
  | cons hlongest hrest ih => exact ⟨hrest.flatMap_chars ▸ Piece.ends_of_longest hlongest, ih⟩

/-- The texts of pieces put together. -/
theorem toList_join_text (ps : List Piece) :
    (String.join (ps.map Piece.text)).toList = ps.flatMap Piece.chars := by
  rw [String.toList_join, List.flatMap_map]
  exact List.flatMap_congr fun p _ ↦ String.toList_ofList

theorem length_laidOut_le (position : Nat) (ps : List Piece) :
    (laidOut position ps).length ≤ 2 * (ps.flatMap Piece.chars).length := by
  induction position, ps using laidOut.induct with
  | case1 position => exact Nat.le_refl 0
  | case2 position p =>
    have hpos := p.length_chars_pos
    rw [laidOut, List.flatMap_singleton, List.length_singleton]
    omega
  | case3 position p q ps behind ih =>
    have hpos := p.length_chars_pos
    have hstar : ∀ n, (if p.endsValue && q.opens then [Token.star n] else []).length ≤ 1 := by
      intro n
      split <;> simp
    have hfront := hstar (position + p.chars.length)
    change (laidOut (position + p.chars.length) (q :: ps)).length ≤ _ at ih
    rw [laidOut, List.flatMap_cons, List.length_cons, List.length_append, List.length_append]
    omega

end CurveCalc
