import CurveCalc.Number.Shortest

/-!
Number text: the shortest digits of a double laid out by a style, and a double rounded to a fixed
number of places.
-/

set_option autoImplicit false
set_option relaxedAutoImplicit false

namespace CurveCalc.Number

/-- How digits are laid out: which decimal exponents are written in place, and what marks the others
and the values that are no numbers. -/
structure Style where
  /-- Least exponent of the first digit that is written in place. -/
  leastInPlace : Int
  /-- Exponents from here on are written with a mark. -/
  firstMarked : Int
  mark : String
  /-- A marked number has at least one place behind its point. -/
  pointBeforeMark : Bool
  leastExponentDigits : Nat
  nan : String
  infinity : String

/-- Numbers from a ten-thousandth to below ten to the sixteenth stand in place. -/
def Style.answer : Style where
  leastInPlace := -4
  firstMarked := 16
  mark := "e"
  pointBeforeMark := false
  leastExponentDigits := 2
  nan := "nan"
  infinity := "inf"

def zeros (n : Nat) : String := String.ofList (List.replicate n '0')

/-- Digits `d1 d2 … dn` of a number whose first digit has the given exponent, in place. -/
def inPlace (digits : List Char) (exponent : Int) : String :=
  if exponent < 0 then "0." ++ zeros (-exponent - 1).toNat ++ String.ofList digits
  else
    let before := exponent.toNat + 1
    let whole := digits.take before
    let places := digits.drop before
    String.ofList whole ++ zeros (before - whole.length) ++ "." ++
      (if places.isEmpty then "0" else String.ofList places)

/-- The same digits with one of them before the point and the exponent behind a mark. -/
def marked (style : Style) (digits : List Char) (exponent : Int) : String :=
  let size := toString exponent.natAbs
  String.ofList (digits.take 1) ++
    (match digits.drop 1 with
      | [] => if style.pointBeforeMark then ".0" else ""
      | places => "." ++ String.ofList places) ++
    style.mark ++ (if exponent < 0 then "-" else "+") ++
    zeros (style.leastExponentDigits - size.length) ++ size

def Decimal.text (style : Style) (d : Decimal) : String :=
  let all := Nat.toDigits 10 d.digits
  let digits := (all.reverse.dropWhile fun c ↦ c = '0').reverse
  let exponent := d.exponent + all.length - 1
  if style.leastInPlace ≤ exponent ∧ exponent < style.firstMarked then inPlace digits exponent
  else marked style digits exponent

def signed (negative : Bool) (magnitude : String) : String :=
  if negative then "-" ++ magnitude else magnitude

def text (style : Style) (x : Float) : String :=
  match Binary.ofFloat x with
  | .nan => style.nan
  | .infinite negative => signed negative style.infinity
  | .finite negative 0 _ => signed negative "0.0"
  | .finite negative significand exponent =>
    signed negative ((shortest significand exponent).text style)

/-- The text of a number in an answer. -/
def render (x : Float) : String := text Style.answer x

/-- The exact value rounded to the given number of places, a half to the even neighbour. -/
def fixed (places : Nat) (x : Float) : String :=
  match Binary.ofFloat x with
  | .nan => Style.answer.nan
  | .infinite negative => signed negative Style.answer.infinity
  | .finite negative significand exponent =>
    let r := ratio significand exponent
    let scaled := divideHalfEven (r.1 * Nat.pow 10 places) r.2
    let behind := toString (scaled % Nat.pow 10 places)
    signed negative (toString (scaled / Nat.pow 10 places) ++
      (if places = 0 then "" else "." ++ zeros (places - behind.length) ++ behind))

end CurveCalc.Number
