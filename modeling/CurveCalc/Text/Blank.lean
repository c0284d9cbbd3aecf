/-!
Blank characters. White space surrounds numbers; in a formula and around a name the four information
separators are blank as well.
-/

set_option autoImplicit false
set_option relaxedAutoImplicit false

namespace CurveCalc.Text

/-- First and last code point of each run of characters with the white-space property. -/
def whiteSpaceRanges : List (Nat × Nat) :=
  [(0x09, 0x0D), (0x20, 0x20), (0x85, 0x85), (0xA0, 0xA0), (0x1680, 0x1680), (0x2000, 0x200A),
    (0x2028, 0x2029), (0x202F, 0x202F), (0x205F, 0x205F), (0x3000, 0x3000)]

def isWhiteSpace (c : Char) : Bool :=
  whiteSpaceRanges.any fun range ↦ range.1 ≤ c.toNat && c.toNat ≤ range.2

/-- The separators of files, groups, records and units. -/
def isSeparator (c : Char) : Bool := 0x1C ≤ c.toNat && c.toNat ≤ 0x1F

def isBlank (c : Char) : Bool := isWhiteSpace c || isSeparator c

/-- The text without any of its blank characters. -/
def withoutBlanks (text : String) : String :=
  String.ofList (text.toList.filter fun c ↦ !isBlank c)

/-- The characters without those of a class at either end. -/
def trimBy (p : Char → Bool) (chars : List Char) : List Char :=
  ((chars.dropWhile p).reverse.dropWhile p).reverse

/-- The characters without the blanks at either end. -/
def trimChars (chars : List Char) : List Char := trimBy isBlank chars

/-- The characters without a line break at their end. -/
def withoutLastBreak (chars : List Char) : List Char :=
  if chars.getLast? = some '\n' then chars.dropLast else chars

/-- The text without the blanks at either end. -/
def trim (text : String) : String :=
  String.ofList (trimChars text.toList)

end CurveCalc.Text
