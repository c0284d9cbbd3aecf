import CurveCalc.Text.Blank
import CurveCalc.Yaml.Stamp

/-!
What a part of a text is said to be: by its tag, or by its form if it is a plain scalar without one.
-/

set_option autoImplicit false
set_option relaxedAutoImplicit false

namespace CurveCalc.Yaml

inductive Kind where
  | null | bool | int | float | binary | stamp | str
  | seq | map | set
  /-- Pairs of which the order matters. -/
  | omap
  | pairs
  /-- A key that asks for the entries of other mappings. -/
  | merge
  /-- A key whose value stands for the whole mapping where a scalar is needed. -/
  | valueMark
  | unknown
  deriving DecidableEq

/-- The kinds that have a tag of their own, by what follows `coreTag` in it. -/
def kindNames : List (String × Kind) :=
  [("null", .null), ("bool", .bool), ("int", .int), ("float", .float), ("binary", .binary),
    ("timestamp", .stamp), ("str", .str), ("seq", .seq), ("map", .map), ("set", .set),
    ("omap", .omap), ("pairs", .pairs), ("merge", .merge), ("value", .valueMark)]

def coreTag : String := "tag:yaml.org,2002:"

def nullWords : List String := ["~", "null", "Null", "NULL"]

def trueWords : List String := ["yes", "true", "on"]

def falseWords : List String := ["no", "false", "off"]

/-- A word in the three ways of writing it: small, with a capital, and in capitals. -/
def spellings (word : String) : List String := [word, word.capitalize, word.toUpper]

def boolWords : List String := (trueWords ++ falseWords).flatMap spellings

def withoutSign (chars : List Char) : List Char := (Number.takeSign chars).2

def isDigitOrGap (c : Char) : Bool := Number.isDigit c || c = '_'

def isOctalOrGap (c : Char) : Bool := ('0' ≤ c && c ≤ '7') || c = '_'

def isHexOrGap (c : Char) : Bool :=
  isDigitOrGap c || ('a' ≤ c && c ≤ 'f') || ('A' ≤ c && c ≤ 'F')

/-- One or two digits that count up to sixty. -/
def isSixtieth : List Char → Bool
  | [c] => Number.isDigit c
  | [d, c] => '0' ≤ d && d ≤ '5' && Number.isDigit c
  | _ => false

/-- The pieces between colons. -/
def splitColons (chars : List Char) : List (List Char) :=
  chars.foldr
    (fun c pieces ↦
      if c = ':' then [] :: pieces
      else
        match pieces with
        | [] => [[c]]
        | piece :: rest => (c :: piece) :: rest)
    [[]]

def isBaseSixty (whole : List Char → Bool) (chars : List Char) : Bool :=
  match splitColons chars with
  | first :: second :: rest => whole first && (second :: rest).all isSixtieth
  | _ => false

/-- A digit other than zero, followed by digits and gaps. -/
def isPlainWhole : List Char → Bool
  | c :: rest => '1' ≤ c && c ≤ '9' && rest.all isDigitOrGap
  | [] => false

def isInt (chars : List Char) : Bool :=
  match withoutSign chars with
  | '0' :: 'b' :: rest => !rest.isEmpty && rest.all fun c ↦ c = '0' || c = '1' || c = '_'
  | '0' :: 'x' :: rest => !rest.isEmpty && rest.all isHexOrGap
  | ['0'] => true
  | '0' :: rest => rest.all isOctalOrGap
  | chars => isPlainWhole chars || isBaseSixty isPlainWhole chars

/-- An exponent has a sign. -/
def isExponent : List Char → Bool
  | [] => true
  | c :: sign :: rest =>
    (c = 'e' || c = 'E') && (sign = '-' || sign = '+') && !rest.isEmpty &&
      rest.all Number.isDigit
  | _ => false

/-- Digits and gaps with a digit in front. -/
def isRun : List Char → Bool
  | [] => false
  | c :: rest => Number.isDigit c && rest.all isDigitOrGap

/-- A number with a point. It has a sign only if a digit or the word for infinity follows it. -/
def isFloat (chars : List Char) : Bool :=
  let body := withoutSign chars
  let signed := body.length != chars.length
  let whole := body.takeWhile isDigitOrGap
  match body.dropWhile isDigitOrGap with
  | '.' :: rest =>
    let places := rest.takeWhile isDigitOrGap
    let tail := rest.dropWhile isDigitOrGap
    if whole.isEmpty then
      ["inf", "Inf", "INF"].contains (String.ofList rest) ||
        (!signed &&
          (["nan", "NaN", "NAN"].contains (String.ofList rest) ||
            (isRun places && isExponent tail)))
    else isRun whole && isExponent tail
  | ':' :: _ =>
    match body.reverse.dropWhile isDigitOrGap with
    | '.' :: front => isBaseSixty isRun front.reverse
    | _ => false
  | _ => false

def isStamp (chars : List Char) : Bool :=
  match Stamp.ofChars? chars with
  | some s => s.isPlain
  | none => false

namespace Kind

def ofTag (tag : String) : Kind :=
  match kindNames.find? fun k ↦ coreTag ++ k.1 == tag with
  | some k => k.2
  | none => .unknown

/-- What the characters of a scalar have the form of. -/
def ofForm (chars : List Char) : Kind :=
  let text := String.ofList chars
  if nullWords.contains text then .null
  else if boolWords.contains text then .bool
  else if text = "<<" then .merge
  else if text = "=" then .valueMark
  else if isInt chars then .int
  else if isFloat chars then .float
  else if isStamp chars then .stamp
  else .str

/-- What a scalar is by its form. Nothing at all is null, and one line break at the end does not
count. -/
def ofPlain (text : String) : Kind :=
  if text.isEmpty then .null else ofForm (Text.withoutLastBreak text.toList)

/-- Whether a kind is one of collections. -/
def isCollection : Kind → Bool
  | seq | map | set | omap | pairs => true
  | _ => false

end Kind

end CurveCalc.Yaml
