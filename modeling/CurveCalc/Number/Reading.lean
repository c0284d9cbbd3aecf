import CurveCalc.Number.Shortest
import CurveCalc.Text.Blank
import CurveCalc.Text.Digits

/-!
Reading numbers: decimal literals, the named values, and whole numbers. Digits may be of any script,
single underscores may stand between two of them, and white space at either end is ignored.
-/

set_option autoImplicit false
set_option relaxedAutoImplicit false

namespace CurveCalc.Number

def isDigit (c : Char) : Bool := '0' ≤ c && c ≤ '9'

def digitValue (c : Char) : Nat := c.toNat - '0'.toNat

/-- The number that decimal digits spell. -/
def ofDigits (digits : List Char) : Nat :=
  digits.foldl (fun n c ↦ 10 * n + digitValue c) 0

/-- Splits a run of a class off the front, dropping the single underscores between its members. -/
def takeRun (p : Char → Bool) : List Char → List Char × List Char
  | c :: '_' :: d :: rest =>
    if p c then
      if p d then
        let r := takeRun p (d :: rest)
        (c :: r.1, r.2)
      else ([c], '_' :: d :: rest)
    else ([], c :: '_' :: d :: rest)
  | c :: rest =>
    if p c then
      let r := takeRun p rest
      (c :: r.1, r.2)
    else ([], c :: rest)
  | [] => ([], [])

/-- Splits a run of digits off the front, dropping the single underscores between them. -/
def takeDigits (chars : List Char) : List Char × List Char := takeRun isDigit chars

/-- A sign in front, true for minus. -/
def takeSign : List Char → Bool × List Char
  | '-' :: rest => (true, rest)
  | '+' :: rest => (false, rest)
  | rest => (false, rest)

/-- The digits behind a point, if there is one. -/
def takePlaces : List Char → List Char × List Char
  | '.' :: rest => takeDigits rest
  | rest => ([], rest)

/-- The exponent of a literal, zero where none is written; `none` where the mark has no digits. -/
def readExponent? : List Char → Option Int
  | [] => some 0
  | c :: rest =>
    if c = 'e' ∨ c = 'E' then
      let sign := takeSign rest
      match takeDigits sign.2 with
      | ([], _) => none
      | (digits, []) => some (if sign.1 then -(ofDigits digits : Int) else ofDigits digits)
      | (_, _ :: _) => none
    else none

/-- An unsigned decimal literal. -/
def readDecimal? (chars : List Char) : Option Decimal :=
  let whole := takeDigits chars
  let places := takePlaces whole.2
  if whole.1.isEmpty && places.1.isEmpty then none
  else (readExponent? places.2).map fun exponent ↦
    { digits := ofDigits (whole.1 ++ places.1), exponent := exponent - places.1.length }

/-- The double nearest to a decimal, infinite beyond their range. A decimal far outside the range is
decided by the place of its first digit alone. -/
def Decimal.toFloat (d : Decimal) : Float :=
  if d.digits = 0 then 0.0
  else
    let first : Int := d.exponent + digitCount d.digits
    if 400 < first then 1.0 / 0.0
    else if first < -400 then 0.0
    else Float.ofScientific d.digits (d.exponent < 0) d.exponent.natAbs

def lowerAscii (c : Char) : Char :=
  if 'A' ≤ c && c ≤ 'Z' then Char.ofNat (c.toNat + 32) else c

/-- An unsigned literal or one of the words for infinity and for no number. -/
def readMagnitude? (chars : List Char) : Option Float :=
  let word := String.ofList (chars.map lowerAscii)
  if word = "inf" ∨ word = "infinity" then some (1.0 / 0.0)
  else if word = "nan" then some (0.0 / 0.0)
  else (readDecimal? chars).map Decimal.toFloat

/-- A character in the form that numbers are read in: a digit of any script by its value, and white
space as a space. -/
def plainChar (c : Char) : Char :=
  match Text.decimalValue? c with
  | some d => Char.ofNat ('0'.toNat + d)
  | none => if Text.isWhiteSpace c then ' ' else c

/-- The characters of a number, without the white space around it. -/
def numberChars (text : String) : List Char :=
  Text.trimBy (fun c ↦ c = ' ') (text.toList.map plainChar)

def readFloat? (text : String) : Option Float :=
  let sign := takeSign (numberChars text)
  (readMagnitude? sign.2).map fun x ↦ if sign.1 then -x else x

/-- What is said of what should be a number and is none; `shown` is the form it is shown in. -/
def notANumberMessage (shown : String) : String := "could not convert string to float: " ++ shown

/-! Whole numbers. -/

/-- What a letter or digit counts in a base of up to thirty-six. -/
def letterValue (c : Char) : Nat :=
  let c := lowerAscii c
  if isDigit c then digitValue c
  else if 'a' ≤ c && c ≤ 'z' then c.toNat - 'a'.toNat + 10
  else 36

def isDigitIn (base : Nat) (c : Char) : Bool := letterValue c < base

/-- The number that digits of a base spell. -/
def ofDigitsIn (base : Nat) (digits : List Char) : Nat :=
  digits.foldl (fun n c ↦ base * n + letterValue c) 0

/-- The letter that may mark a number as being of a base. -/
def baseLetter? (base : Nat) : Option Char :=
  if base = 2 then some 'b' else if base = 8 then some 'o' else if base = 16 then some 'x' else none

/-- The digits behind the mark of a base, which an underscore may follow. -/
def withoutMark (base : Nat) : List Char → List Char
  | '0' :: c :: rest =>
    if some (lowerAscii c) = baseLetter? base then
      match rest with
      | '_' :: rest => rest
      | rest => rest
    else '0' :: c :: rest
  | chars => chars

/-- Most decimal digits of a whole number that is read or written. -/
def maxDigits : Nat := 4300

/-- Why a text is no whole number. -/
inductive IntFault where
  | malformed
  /-- More decimal digits than are read. -/
  | tooManyDigits (count : Nat)
  deriving DecidableEq

/-- Reads a whole number of a base. Only decimal ones may be too long. -/
def readIntIn (base : Nat) (text : String) : Except IntFault Int :=
  let sign := takeSign (numberChars text)
  let run := takeRun (isDigitIn base) (withoutMark base sign.2)
  if run.1.isEmpty || run.2.head? = some '_' then .error .malformed
  else if base = 10 && maxDigits < run.1.length then .error (.tooManyDigits run.1.length)
  else if !run.2.isEmpty then .error .malformed
  else .ok (if sign.1 then -(ofDigitsIn base run.1 : Int) else ofDigitsIn base run.1)

def readInt? (text : String) : Option Int := (readIntIn 10 text).toOption

/-- A whole number in decimal digits, if they are not too many. -/
def intText? (n : Int) : Option String :=
  let text := toString n
  if maxDigits < (toString n.natAbs).length then none else some text

/-- The double nearest to a whole number, if it is within their range. -/
def floatOfInt? (n : Int) : Option Float :=
  let magnitude := Decimal.toFloat ⟨n.natAbs, 0⟩
  if magnitude.isInf then none else some (if n < 0 then -magnitude else magnitude)

end CurveCalc.Number
