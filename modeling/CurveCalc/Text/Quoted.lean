import CurveCalc.Text.Printable

/-!
Text shown inside messages: a string between quotes with its unprintable characters escaped, and
lists of names.
-/

set_option autoImplicit false
set_option relaxedAutoImplicit false

namespace CurveCalc.Text

/-- The number in base sixteen with at least `width` digits, letters in lower case. -/
def hex (width : Nat) (n : Nat) : String :=
  let digits := Nat.toDigits 16 n
  String.ofList (List.replicate (width - digits.length) '0' ++ digits)

/-- An unprintable character by its code point. -/
def escapedCode (c : Char) : String :=
  if c.toNat < 0x100 then "\\x" ++ hex 2 c.toNat
  else if c.toNat < 0x10000 then "\\u" ++ hex 4 c.toNat
  else "\\U" ++ hex 8 c.toNat

def escapedChar (quote : Char) (c : Char) : String :=
  if c = '\\' then "\\\\"
  else if c = quote then String.ofList ['\\', c]
  else if c = '\n' then "\\n"
  else if c = '\r' then "\\r"
  else if c = '\t' then "\\t"
  else if isPrintable c then String.singleton c
  else escapedCode c

/-- Single quotes surround a text, or double ones if it holds a single quote and no double one. -/
def quoteFor (text : String) : Char :=
  if text.toList.contains '\x27' && !text.toList.contains '"' then '"' else '\x27'

def quoted (text : String) : String :=
  let quote := quoteFor text
  String.singleton quote ++ String.join (text.toList.map (escapedChar quote)) ++
    String.singleton quote

/-- Names in square brackets. -/
def nameList (names : List String) : String :=
  "[" ++ String.intercalate ", " (names.map quoted) ++ "]"

/-- Names in round brackets; a single name is followed by a comma. -/
def nameTuple : List String → String
  | [name] => "(" ++ quoted name ++ ",)"
  | names => "(" ++ String.intercalate ", " (names.map quoted) ++ ")"

/-- The text moved to the right end of a field of the given width. -/
def padLeft (width : Nat) (text : String) : String :=
  String.ofList (List.replicate (width - text.length) ' ') ++ text

/-- The text moved to the left end of a field of the given width. -/
def padRight (width : Nat) (text : String) : String :=
  text ++ String.ofList (List.replicate (width - text.length) ' ')

end CurveCalc.Text
