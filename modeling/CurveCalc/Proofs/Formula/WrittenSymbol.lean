import CurveCalc.Proofs.Formula.Scanning
import Mathlib.Data.List.Chain

/-!
Symbols as text. Every symbol over names and numbers as they can be written has its characters, none
of them blank, and from these the symbol is read again wherever it may stand: names and numbers not
before more letters or digits, and nothing before which a star would be understood behind an operand
(`Symbol.tokens_chars`).
-/

set_option autoImplicit false
set_option relaxedAutoImplicit false

namespace CurveCalc

/-- A name that a formula may give to a variable: one that is not taken by a constant or function.
-/
structure VariableName where
  first : Char
  more : List Char
  isNameStart_first : isNameStart first = true
  isNamePart_more : ∀ c ∈ more, isNamePart c = true
  free : classifyName (String.ofList (first :: more)) = (.identifier, .absent)

def VariableName.text (v : VariableName) : String := String.ofList (v.first :: v.more)

/-- A constant as it is written. -/
inductive Constant where
  | named (c : NamedConstant)
  | numeral (n : Numeral)

def Constant.literal : Constant → Literal
  | named c => .named c
  | numeral n => .decimal n.decimal

def BinaryOperator.char : BinaryOperator → Char
  | add => '+'
  | subtract => '-'
  | multiply => '*'
  | divide => '/'
  | power => '^'
  | modulo => '%'

namespace Symbol

/-- The characters the symbol is written with. -/
def chars : Symbol Constant VariableName → List Char
  | number (.named c) => c.name.toList
  | number (.numeral n) => n.chars
  | identifier v => v.first :: v.more
  | function f => f.name.toList
  | operator op => [op.char]
  | bang => ['!']
  | leftParen => ['(']
  | rightParen => [')']
  | comma => [',']

/-- What the parser makes of the symbol. -/
def written (x : Symbol Constant VariableName) : Symbol Literal String :=
  x.map Constant.literal VariableName.text

variable {κ ν : Type}

/-- The symbol ends an operand, so that a name or parenthesis behind it would be multiplied by it.
-/
def EndsValue : Symbol κ ν → Prop
  | number _ => True
  | identifier _ => True
  | rightParen => True
  | _ => False

/-- The symbol goes on with what stands before it. -/
def Continues : Symbol κ ν → Prop
  | operator _ => True
  | bang => True
  | rightParen => True
  | comma => True
  | _ => False

/-- The symbol is made of letters or digits, so that more of them behind it would belong to it. -/
def IsWord : Symbol κ ν → Prop
  | number _ => True
  | identifier _ => True
  | function _ => True
  | _ => False

/-- The second symbol may stand behind the first without changing how that is read. -/
def MayPrecede : Symbol κ ν → Symbol κ ν → Prop
  | number _, y => y.Continues
  | identifier _, y => y.Continues
  | rightParen, y => y.Continues
  | function _, y => y = leftParen
  | _, _ => True

end Symbol

/-! Reading the characters of a symbol. -/

/-- What is behind a word does not belong to it. -/
def Separate (rest : List Char) : Prop :=
  ∀ c more, rest = c :: more → isNamePart c = false ∧ c ≠ '.'

theorem Separate.ends {rest : List Char} (h : Separate rest) (n : Numeral) : n.Ends rest := by
  have hdigit : ∀ c more, rest = c :: more → isNumeral c = false := fun c more hrest ↦
    (Bool.or_eq_false_iff.mp (h c more hrest).1).2
  cases n with
  | whole w => exact ⟨hdigit, fun c more hrest ↦ absurd rfl (h '.' (c :: more) hrest).2⟩
  | fraction w places => exact hdigit

theorem of_symbolKind? {c : Char} {kind : TokenKind} (h : symbolKind? c = some kind) :
    isNamePart c = false ∧ c ≠ '(' ∧ c ≠ '.' := by
  unfold symbolKind? at h
  repeat' split at h
  all_goals
    first
    | rename_i hc
      subst hc
      decide
    | cases h

namespace Cursor

variable {c : Cursor} {rest : List Char}

/-- A word is read as a whole, where no star is understood before it. -/
theorem next_word {first : Char} {more : List Char} (hfirst : isNameStart first = true)
    (hmore : ∀ d ∈ more, isNamePart d = true) (hrest : c.rest = first :: more ++ rest)
    (hafter : c.afterValue = false) (hseparate : Separate rest) {kind : TokenKind}
    {value : TokenValue} (hname : classifyName (String.ofList (first :: more)) = (kind, value)) :
    c.next.1.kind = kind ∧ c.next.1.lexeme = String.ofList (first :: more) ∧
      c.next.1.value = value ∧ c.next.2.rest = rest ∧
      c.next.2.afterValue = (kind != .function) := by
  let w : Word := ⟨first, more, hfirst, hmore⟩
  have hkind : w.kind = kind := w.kind_eq.trans (congrArg Prod.fst hname)
  have hplain : (c.afterValue && (Piece.name w).opens) = false := by rw [hafter, Bool.false_and]
  rw [next_of_plain (p := .name w) hrest (fun d tail h ↦ (hseparate d tail h).1) hplain]
  exact ⟨hkind, rfl, congrArg Prod.snd hname, rfl, by rw [w.endsValue_eq, hkind]⟩

/-- Characters that are a token by themselves are read so wherever they stand. -/
theorem next_character {first : Char} {kind : TokenKind} (h : symbolKind? first = some kind)
    (hrest : c.rest = first :: rest) :
    c.next.1.kind = kind ∧ c.next.2.rest = rest ∧ c.next.2.afterValue = (kind == .rightParen) := by
  obtain ⟨hpart, hparen, -⟩ := of_symbolKind? h
  obtain ⟨hstart, hnumeral⟩ := Bool.or_eq_false_iff.mp hpart
  obtain ⟨hkind, -, hnumber, hvariable⟩ := characterKind_of_symbolKind? h
  let p : Piece := .character first hnumeral hstart
  have hopens : p.opens = false := Bool.or_eq_false_iff.mpr ⟨hstart, beq_false_of_ne hparen⟩
  have hends : p.endsValue = (kind == .rightParen) := by
    change (characterKind first == .number || characterKind first == .identifier ||
      characterKind first == .rightParen) = _
    rw [hkind, beq_false_of_ne hnumber, beq_false_of_ne hvariable, Bool.false_or, Bool.false_or]
  rw [next_of_plain (p := p) hrest trivial (by rw [hopens, Bool.and_false])]
  exact ⟨hkind, rfl, hends⟩

theorem next_numeral {n : Numeral} (hrest : c.rest = n.chars ++ rest) (hends : n.Ends rest) :
    c.next.1.symbol? = some (.number (.decimal n.decimal)) ∧ c.next.2.rest = rest ∧
      c.next.2.afterValue = true := by
  have hplain : (c.afterValue && (Piece.number n).opens) = false := by
    rw [Piece.opens_number, Bool.and_false]
  rw [next_of_plain (p := .number n) hrest hends hplain]
  exact ⟨Piece.symbol?_token_number n c.position, rfl, rfl⟩

end Cursor

theorem classifyName_constant (k : NamedConstant) :
    classifyName k.name = (.number, .constant k) := by cases k <;> decide

theorem classifyName_builtin (f : Builtin) : classifyName f.name = (.function, .function f) := by
  cases f <;> decide

/-- The names of constants and functions are words as well. -/
theorem NamedConstant.toList_name (k : NamedConstant) : ∃ first more,
    k.name.toList = first :: more ∧ isNameStart first = true ∧ ∀ d ∈ more, isNamePart d = true := by
  cases k <;> exact ⟨_, _, rfl, by decide, List.all_eq_true.mp rfl⟩

theorem Builtin.toList_name (f : Builtin) : ∃ first more,
    f.name.toList = first :: more ∧ isNameStart first = true ∧ ∀ d ∈ more, isNamePart d = true := by
  cases f <;> exact ⟨_, _, rfl, by decide, List.all_eq_true.mp rfl⟩

theorem BinaryOperator.symbolKind?_char (op : BinaryOperator) :
    symbolKind? op.char = some op.kind := by cases op <;> decide

theorem Cursor.next_leftParen {c : Cursor} {rest : List Char} (hrest : c.rest = '(' :: rest)
    (hafter : c.afterValue = false) :
    c.next.1.kind = .leftParen ∧ c.next.2.rest = rest ∧ c.next.2.afterValue = false := by
  let p : Piece := .character '(' rfl rfl
  rw [next_of_plain (p := p) hrest trivial (by rw [hafter, Bool.false_and])]
  exact ⟨rfl, rfl, rfl⟩

namespace Token

variable {t : Token}

theorem symbol?_constant {k : NamedConstant} (hkind : t.kind = .number)
    (hvalue : t.value = .constant k) : t.symbol? = some (.number (.named k)) := by
  unfold symbol? Literal.ofToken?
  rw [hkind, hvalue]
  rfl

theorem symbol?_function {f : Builtin} (hkind : t.kind = .function)
    (hvalue : t.value = .function f) : t.symbol? = some (.function f) := by
  unfold symbol?
  rw [hkind, hvalue]

theorem symbol?_identifier (hkind : t.kind = .identifier) :
    t.symbol? = some (.identifier t.lexeme) := by
  unfold symbol?
  rw [hkind]

theorem symbol?_operator {op : BinaryOperator} (hkind : t.kind = op.kind) :
    t.symbol? = some (.operator op) := by
  unfold symbol?
  rw [hkind]
  cases op <;> rfl

/-- Tokens that are always spelled the same say what their kind says. -/
theorem symbol?_of_kind {x : Symbol Literal String} (hx : x.IsMark ∨ x = .bang)
    (hkind : t.kind = x.kind) : t.symbol? = some x := by
  unfold symbol?
  rw [hkind]
  rcases hx with hx | rfl
  · cases x with
    | leftParen => rfl
    | rightParen => rfl
    | comma => rfl
    | _ => exact hx.elim
  · rfl

end Token

namespace Symbol

/-- The next symbol in a text is read as it was written. -/
theorem next_chars (x : Symbol Constant VariableName) {c : Cursor} {rest : List Char}
    (hrest : c.rest = x.chars ++ rest) (hafter : c.afterValue = true → x.Continues)
    (hseparate : x.IsWord → Separate rest) :
    c.next.1.symbol? = some x.written ∧ c.next.2.rest = rest ∧
      (c.next.2.afterValue = true → x.EndsValue) := by
  have hstart : ¬ x.Continues → c.afterValue = false := fun hx ↦
    Bool.eq_false_iff.mpr fun h ↦ hx (hafter h)
  cases x with
  | number k =>
    cases k with
    | named k =>
      obtain ⟨first, more, hchars, hfirst, hmore⟩ := k.toList_name
      have hname := classifyName_constant k
      rw [← String.ofList_toList (s := k.name), hchars] at hname
      rw [chars, hchars] at hrest
      obtain ⟨hkind, -, hvalue, hbehind, -⟩ :=
        Cursor.next_word hfirst hmore hrest (hstart id) (hseparate trivial) hname
      exact ⟨Token.symbol?_constant hkind hvalue, hbehind, fun _ ↦ trivial⟩
    | numeral n =>
      obtain ⟨hsymbol, hbehind, -⟩ := Cursor.next_numeral hrest ((hseparate trivial).ends n)
      exact ⟨hsymbol, hbehind, fun _ ↦ trivial⟩
  | identifier v =>
    obtain ⟨hkind, hlexeme, -, hbehind, -⟩ := Cursor.next_word v.isNameStart_first
      v.isNamePart_more hrest (hstart id) (hseparate trivial) v.free
    refine ⟨?_, hbehind, fun _ ↦ trivial⟩
    rw [Token.symbol?_identifier hkind, hlexeme]
    rfl
  | function f =>
    obtain ⟨first, more, hchars, hfirst, hmore⟩ := f.toList_name
    have hname := classifyName_builtin f
    rw [← String.ofList_toList (s := f.name), hchars] at hname
    rw [chars, hchars] at hrest
    obtain ⟨hkind, -, hvalue, hbehind, hvalued⟩ :=
      Cursor.next_word hfirst hmore hrest (hstart id) (hseparate trivial) hname
    refine ⟨Token.symbol?_function hkind hvalue, hbehind, fun h ↦ ?_⟩
    rw [hvalued] at h
    cases h
  | operator op =>
    obtain ⟨hkind, hbehind, hvalued⟩ := Cursor.next_character op.symbolKind?_char hrest
    refine ⟨Token.symbol?_operator hkind, hbehind, fun h ↦ ?_⟩
    rw [hvalued] at h
    cases op <;> cases h
  | bang =>
    obtain ⟨hkind, hbehind, hvalued⟩ :=
      Cursor.next_character (rfl : symbolKind? '!' = some .bang) hrest
    refine ⟨Token.symbol?_of_kind (x := .bang) (Or.inr rfl) hkind, hbehind, fun h ↦ ?_⟩
    rw [hvalued] at h
    cases h
  | leftParen =>
    obtain ⟨hkind, hbehind, hvalued⟩ := Cursor.next_leftParen hrest (hstart id)
    refine ⟨Token.symbol?_of_kind (x := .leftParen) (Or.inl trivial) hkind, hbehind, fun h ↦ ?_⟩
    rw [hvalued] at h
    cases h
  | rightParen =>
    obtain ⟨hkind, hbehind, -⟩ :=
      Cursor.next_character (rfl : symbolKind? ')' = some .rightParen) hrest
    exact ⟨Token.symbol?_of_kind (x := .rightParen) (Or.inl trivial) hkind, hbehind,
      fun _ ↦ trivial⟩
  | comma =>
    obtain ⟨hkind, hbehind, hvalued⟩ :=
      Cursor.next_character (rfl : symbolKind? ',' = some .comma) hrest
    refine ⟨Token.symbol?_of_kind (x := .comma) (Or.inl trivial) hkind, hbehind, fun h ↦ ?_⟩
    rw [hvalued] at h
    cases h

theorem chars_ne_nil (x : Symbol Constant VariableName) : x.chars ≠ [] := by
  cases x with
  | number k =>
    cases k with
    | named k =>
      obtain ⟨first, more, hchars, -⟩ := k.toList_name
      rw [chars, hchars]
      exact List.cons_ne_nil first more
    | numeral n =>
      obtain ⟨first, more, hchars, -⟩ := n.chars_eq_cons
      rw [chars, hchars]
      exact List.cons_ne_nil first more
  | function f =>
    obtain ⟨first, more, hchars, -⟩ := f.toList_name
    rw [chars, hchars]
    exact List.cons_ne_nil first more
  | _ => exact List.cons_ne_nil _ _

/-- Symbols that may stand behind a word are apart from it. -/
theorem separate_chars {x y : Symbol Constant VariableName} (hx : x.IsWord) (hy : x.MayPrecede y)
    (rest : List Char) : Separate (y.chars ++ rest) := by
  have hcharacter : ∀ {d : Char}, (isNamePart d = false ∧ d ≠ '.') → Separate (d :: rest) := by
    rintro d hd c more hrest
    obtain ⟨rfl, -⟩ := List.cons_eq_cons.mp hrest
    exact hd
  have hkind : ∀ {d : Char} (kind : TokenKind), symbolKind? d = some kind → Separate (d :: rest) :=
    fun _ h ↦ hcharacter ⟨(of_symbolKind? h).1, (of_symbolKind? h).2.2⟩
  have hcases : y.Continues ∨ y = leftParen := by
    cases x with
    | number k => exact Or.inl hy
    | identifier v => exact Or.inl hy
    | function f => exact Or.inr hy
    | _ => exact hx.elim
  rcases hcases with hcontinues | rfl
  · cases y with
    | operator op => exact hkind op.kind op.symbolKind?_char
    | bang => exact hkind .bang rfl
    | rightParen => exact hkind .rightParen rfl
    | comma => exact hkind .comma rfl
    | _ => exact hcontinues.elim
  · exact hcharacter ⟨rfl, by decide⟩

theorem continues_of_endsValue {x y : Symbol Constant VariableName} (hx : x.EndsValue)
    (hy : x.MayPrecede y) : y.Continues := by
  cases x with
  | number k => exact hy
  | identifier v => exact hy
  | rightParen => exact hy
  | _ => exact hx.elim

/-- A text is read symbol by symbol, if each may stand where it does. -/
theorem tokens_chars {xs : List (Symbol Constant VariableName)} (hchain : xs.IsChain MayPrecede)
    {c : Cursor} (hrest : c.rest = xs.flatMap chars)
    (hafter : c.afterValue = true → ∀ x ∈ xs.head?, x.Continues) :
    c.tokens.map Token.symbol? = (xs.map written).map some := by
  induction xs generalizing c with
  | nil =>
    rw [Cursor.tokens_nil hrest]
    rfl
  | cons x xs ih =>
    obtain ⟨hfirst, hmore⟩ := List.isChain_cons.mp hchain
    rw [List.flatMap_cons] at hrest
    have hne : c.rest ≠ [] := by
      rw [hrest]
      exact fun h ↦ x.chars_ne_nil (List.append_eq_nil_iff.mp h).1
    have hseparate : x.IsWord → Separate (xs.flatMap chars) := by
      intro hx
      cases xs with
      | nil => exact nofun
      | cons y ys =>
        rw [List.flatMap_cons]
        exact separate_chars hx (hfirst y rfl) _
    obtain ⟨hsymbol, hbehind, hvalued⟩ := x.next_chars hrest (fun h ↦ hafter h x rfl) hseparate
    rw [Cursor.tokens_cons hne, List.map_cons, hsymbol, ih hmore hbehind fun h y hy ↦
      continues_of_endsValue (hvalued h) (hfirst y hy)]
    rfl

end Symbol

theorem isBlank_eq_false {c : Char} (h : 33 ≤ c.toNat ∧ c.toNat ≤ 126) :
    Text.isBlank c = false := by
  simp only [Text.isBlank, Text.isWhiteSpace, Text.isSeparator, Text.whiteSpaceRanges,
    List.any_cons, List.any_nil, Bool.or_eq_false_iff, Bool.and_eq_false_iff,
    decide_eq_false_iff_not, and_true]
  omega

theorem isBlank_of_isNamePart {c : Char} (h : isNamePart c = true) : Text.isBlank c = false := by
  refine isBlank_eq_false ?_
  rcases Bool.or_eq_true_iff.mp h with hstart | hdigit
  · have hrange := toNat_of_isNameStart hstart
    omega
  · have hrange := toNat_of_isNumeral hdigit
    omega

theorem isBlank_of_isNameStart {c : Char} (h : isNameStart c = true) : Text.isBlank c = false :=
  isBlank_of_isNamePart (by rw [isNamePart, h, Bool.true_or])

theorem Numeral.isBlank_chars (n : Numeral) : ∀ c ∈ n.chars, Text.isBlank c = false := by
  have hdigits : ∀ w : Digits, ∀ c ∈ w.chars, Text.isBlank c = false := fun w c hc ↦
    isBlank_of_isNamePart (by rw [isNamePart, w.numerals c hc, Bool.or_true])
  cases n with
  | whole w => exact hdigits w
  | fraction w places =>
    intro c hc
    rcases List.mem_append.mp hc with hc | hc
    · exact hdigits w c hc
    · rcases List.mem_cons.mp hc with rfl | hc
      · rfl
      · exact hdigits places c hc

/-- Nothing in a symbol is blank. -/
theorem Symbol.isBlank_chars (x : Symbol Constant VariableName) :
    ∀ c ∈ x.chars, Text.isBlank c = false := by
  have hword : ∀ {first : Char} {more : List Char}, isNameStart first = true →
      (∀ d ∈ more, isNamePart d = true) → ∀ c ∈ first :: more, Text.isBlank c = false := by
    rintro first more hfirst hmore c (_ | ⟨_, hc⟩)
    · exact isBlank_of_isNameStart hfirst
    · exact isBlank_of_isNamePart (hmore c hc)
  cases x with
  | number k =>
    cases k with
    | named k =>
      obtain ⟨first, more, hchars, hfirst, hmore⟩ := k.toList_name
      rw [chars, hchars]
      exact hword hfirst hmore
    | numeral n => exact n.isBlank_chars
  | identifier v => exact hword v.isNameStart_first v.isNamePart_more
  | function f =>
    obtain ⟨first, more, hchars, hfirst, hmore⟩ := f.toList_name
    rw [chars, hchars]
    exact hword hfirst hmore
  | operator op => cases op <;> exact List.forall_mem_singleton.mpr rfl
  | _ => exact List.forall_mem_singleton.mpr rfl

end CurveCalc
