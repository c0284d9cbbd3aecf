import CurveCalc.Formula.Token

/-!
From text to tokens, one at a time. Besides its place in the text a cursor remembers whether the
last token ended a value: a letter or an opening parenthesis that follows at once is then multiplied
by it, and the reader gives a star for that before it gives the letter or parenthesis itself. Values
are numbers, the named constants, variables and closing parentheses; a function name is none, and
digits behind a name belong to the name.
-/

set_option autoImplicit false
set_option relaxedAutoImplicit false

namespace CurveCalc

/-- Letters that may begin a name. -/
def isNameStart (c : Char) : Bool :=
  ('a' ≤ c && c ≤ 'z') || ('A' ≤ c && c ≤ 'Z') || c == '_'

def isNumeral (c : Char) : Bool := '0' ≤ c && c ≤ '9'

def isNamePart (c : Char) : Bool := isNameStart c || isNumeral c

/-- Characters that are a token by themselves. -/
def symbolKind? (c : Char) : Option TokenKind :=
  if c = '+' then some .plus
  else if c = '-' then some .minus
  else if c = '*' then some .star
  else if c = '/' then some .slash
  else if c = '^' then some .caret
  else if c = '%' then some .percent
  else if c = '!' then some .bang
  else if c = ')' then some .rightParen
  else if c = ',' then some .comma
  else none

/-- How many characters of a number are at the front: its digits, and a point with the digits behind
it if there is one at least. -/
def numberLength (chars : List Char) : Nat :=
  let whole := (chars.takeWhile isNumeral).length
  match chars.dropWhile isNumeral with
  | '.' :: d :: rest => if isNumeral d then whole + 2 + (rest.takeWhile isNumeral).length else whole
  | _ => whole

/-- How many characters of a name are at the front. -/
def nameLength (chars : List Char) : Nat :=
  (chars.takeWhile isNamePart).length

/-- The kind and value of a name. -/
def classifyName (name : String) : TokenKind × TokenValue :=
  match NamedConstant.ofName? name with
  | some c => (.number, .constant c)
  | none =>
    match Builtin.ofName? name with
    | some f => (.function, .function f)
    | none => (.identifier, .absent)

/-- A place in a text that is being read. -/
structure Cursor where
  rest : List Char
  position : Nat
  /-- The last token ended a value. -/
  afterValue : Bool
  deriving DecidableEq

namespace Cursor

def start (source : String) : Cursor := ⟨source.toList, 0, false⟩

/-- The cursor behind the next `size` characters. -/
def skip (c : Cursor) (size : Nat) (afterValue : Bool) : Cursor :=
  ⟨c.rest.drop size, c.position + size, afterValue⟩

/-- The next `size` characters as a token. -/
def token (c : Cursor) (size : Nat) (kind : TokenKind) (value : TokenValue) : Token :=
  ⟨kind, String.ofList (c.rest.take size), c.position, value⟩

/-- The star between two factors that are written side by side; nothing is read over. -/
def impliedStar (c : Cursor) : Token × Cursor :=
  (⟨.star, "*", c.position, .absent⟩, { c with afterValue := false })

def nextName (c : Cursor) : Token × Cursor :=
  let size := nameLength c.rest
  let name := classifyName (String.ofList (c.rest.take size))
  (c.token size name.1 name.2, c.skip size (name.1 != .function))

def nextNumber (c : Cursor) : Token × Cursor :=
  let size := numberLength c.rest
  (c.token size .number .absent, c.skip size true)

/-- Whether a star is understood in front of the character. -/
def impliesStar (c : Cursor) (first : Char) : Bool :=
  c.afterValue && (isNameStart first || first == '(')

/-- The next token, and the cursor behind it. Behind the last character the end is read for ever. -/
def next (c : Cursor) : Token × Cursor :=
  match c.rest with
  | [] => (Token.finish c.position, c)
  | first :: _ =>
    if c.impliesStar first then c.impliedStar
    else if isNumeral first then c.nextNumber
    else if isNameStart first then c.nextName
    else if first = '(' then (c.token 1 .leftParen .absent, c.skip 1 false)
    else
      match symbolKind? first with
      | some kind => (c.token 1 kind .absent, c.skip 1 (kind == .rightParen))
      | none => (c.token 1 .error .unexpectedCharacter, c.skip 1 false)

/-- Each reading makes this smaller: a star that is understood clears the memory of the value, and
every other token reads over a character. -/
def work (c : Cursor) : Nat := 2 * c.rest.length + (if c.afterValue then 1 else 0)

theorem work_skip_lt (c : Cursor) (size : Nat) (afterValue : Bool) (hsize : 0 < size)
    (hrest : c.rest ≠ []) : (c.skip size afterValue).work < c.work := by
  have hlen : 0 < c.rest.length := List.length_pos_iff.mpr hrest
  simp only [work, skip, List.length_drop]
  cases afterValue <;> cases c.afterValue <;> simp only [if_true, Bool.false_eq_true, if_false] <;>
    omega

theorem numberLength_pos {first : Char} (tail : List Char) (h : isNumeral first = true) :
    0 < numberLength (first :: tail) := by
  unfold numberLength
  simp only [List.takeWhile_cons, h, if_true, List.length_cons]
  split
  · split <;> omega
  · omega

theorem nameLength_pos {first : Char} (tail : List Char) (h : isNameStart first = true) :
    0 < nameLength (first :: tail) := by
  simp [nameLength, isNamePart, h]

theorem work_next_lt (c : Cursor) (h : c.rest ≠ []) : c.next.2.work < c.work := by
  obtain ⟨rest, position, afterValue⟩ := c
  cases rest with
  | nil => exact absurd rfl h
  | cons first tail =>
    simp only [next]
    split
    · rename_i himp
      have hv : afterValue = true := by
        simp only [impliesStar, Bool.and_eq_true] at himp
        exact himp.1
      simp [impliedStar, work, hv]
    · split
      · rename_i hnum
        exact work_skip_lt _ _ _ (numberLength_pos tail hnum) h
      · split
        · rename_i hname
          exact work_skip_lt _ _ _ (nameLength_pos tail hname) h
        · split
          · exact work_skip_lt _ _ _ Nat.one_pos h
          · split
            · exact work_skip_lt _ _ _ Nat.one_pos h
            · exact work_skip_lt _ _ _ Nat.one_pos h

/-- The tokens from a cursor to the end of its text, the end itself left out. -/
def tokens (c : Cursor) : List Token :=
  if _h : c.rest = [] then []
  else c.next.1 :: c.next.2.tokens
termination_by c.work
decreasing_by exact work_next_lt c _h

end Cursor

/-- Every token of a text but the end. -/
def scan (source : String) : List Token := (Cursor.start source).tokens

/-- The end of a text, as a token. -/
def scanFinish (source : String) : Token := Token.finish source.length

end CurveCalc
