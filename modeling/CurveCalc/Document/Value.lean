import CurveCalc.Document.Bytes
import CurveCalc.Document.Calendar
import CurveCalc.Number.Layout
import CurveCalc.Number.Reading
import CurveCalc.Text.Quoted

/-!
Data of a configuration file: plain values and collections of them, and how each is understood where
a number or a truth value is needed. A collection may contain itself; then it is labelled, and its
label stands in its place inside.
-/

set_option autoImplicit false
set_option relaxedAutoImplicit false

namespace CurveCalc

inductive Value where
  | null
  | bool (b : Bool)
  | int (n : Int)
  | float (x : Float)
  | text (s : String)
  | bytes (b : Bytes)
  | day (d : Day)
  | moment (m : Moment)
  | list (items : List Value)
  | pair (first second : Value)
  /-- Values without an order; no two are the same key. -/
  | set (items : List Value)
  /-- Keys with their values, in order; no two keys are the same. -/
  | mapping (entries : List (Value × Value))
  /-- A collection some part of which leads back to it. -/
  | knot (label : Nat) (whole : Value)
  /-- The collection of that label, around this place. -/
  | back (label : Nat)

/-- Why data cannot be understood. -/
inductive ValueError where
  /-- A value of a kind that is not converted. -/
  | wrongType
  /-- A value that is no mapping where one is needed. -/
  | notAMapping
  /-- A number beyond the range of what is needed. -/
  | outOfRange
  /-- What should be a number and is none, as it is shown. -/
  | notANumber (shown : String)
  | notAnInteger (base : Nat) (shown : String)
  /-- No number where a whole number is needed. -/
  | undefinedNumber
  /-- A whole number of more digits than are read or written; how many is known when it is read. -/
  | tooManyDigits (count : Option Nat)
  /-- Nothing where a number is announced. -/
  | emptyNumber
  /-- A word where a truth value is announced. -/
  | unknownWord
  /-- Not the form of a day or moment where one is announced. -/
  | notAMoment
  | calendar (f : CalendarFault)
  /-- The number of no character. -/
  | codePoint
  deriving DecidableEq

namespace ValueError

/-- Longest form in which a text that is no whole number is shown. -/
def longestShown : Nat := 200

/-- What is said about a value that is of the right kind and still of no use. Nothing is said of
others. -/
def message? : ValueError → Option String
  | notANumber shown => some (Number.notANumberMessage shown)
  | notAnInteger base shown =>
    some ("invalid literal for int() with base " ++ toString base ++ ": " ++
      String.ofList (shown.toList.take longestShown))
  | undefinedNumber => some "cannot convert float NaN to integer"
  | tooManyDigits count =>
    some ("Exceeds the limit (" ++ toString Number.maxDigits ++
      " digits) for integer string conversion" ++
      (match count with
        | some n => ": value has " ++ toString n ++ " digits"
        | none => "") ++
      "; use sys.set_int_max_str_digits() to increase the limit")
  | calendar f => some f.message
  | codePoint => some "chr() arg not in range(0x110000)"
  | wrongType => none
  | notAMapping => none
  | outOfRange => none
  | emptyNumber => none
  | unknownWord => none
  | notAMoment => none

end ValueError

/-- The number a text spells; `shown` is the text as a message shows it. -/
def floatOfText (shown text : String) : Except ValueError Float :=
  match Number.readFloat? text with
  | some x => .ok x
  | none => .error (.notANumber shown)

/-- The whole number a text spells in a base; `shown` is the text as a message shows it. -/
def intOfText (base : Nat) (shown text : String) : Except ValueError Int :=
  match Number.readIntIn base text with
  | .ok n => .ok n
  | .error .malformed => .error (.notAnInteger base shown)
  | .error (.tooManyDigits n) => .error (.tooManyDigits (some n))

namespace Value

mutual

/-- Puts a whole in the place of a label. A collection of the same label inside has its own meaning
for it. -/
def close (label : Nat) (whole : Value) : Value → Value
  | list items => list (closeItems label whole items)
  | pair first second => pair (close label whole first) (close label whole second)
  | set items => set (closeItems label whole items)
  | mapping entries => mapping (closeEntries label whole entries)
  | knot inner v => if inner = label then knot inner v else knot inner (close label whole v)
  | back inner => if inner = label then whole else back inner
  | v => v

def closeItems (label : Nat) (whole : Value) : List Value → List Value
  | [] => []
  | v :: rest => close label whole v :: closeItems label whole rest

def closeEntries (label : Nat) (whole : Value) : List (Value × Value) → List (Value × Value)
  | [] => []
  | (k, v) :: rest => (close label whole k, close label whole v) :: closeEntries label whole rest

end

/-- A value whose outermost part is no label. -/
def unfold : Value → Value
  | knot label v => close label (knot label v) v
  | v => v

/-- Nothing, zero and whatever is empty count as false. -/
def truth : Value → Bool
  | null => false
  | bool b => b
  | int n => n != 0
  | float x => !(x == 0.0)
  | text s => !s.isEmpty
  | bytes b => !b.isEmpty
  | day _ => true
  | moment _ => true
  | list items => !items.isEmpty
  | pair _ _ => true
  | set items => !items.isEmpty
  | mapping entries => !entries.isEmpty
  | knot _ _ => true
  | back _ => true

def toFloat : Value → Except ValueError Float
  | float x => .ok x
  | bool b => .ok (if b then 1.0 else 0.0)
  | int n =>
    match Number.floatOfInt? n with
    | some x => .ok x
    | none => .error .outOfRange
  | text s => floatOfText (Text.quoted s) s
  | bytes b => floatOfText b.shown b.toText
  | _ => .error .wrongType

/-- The whole number a value stands for; places are cut off. -/
def toInt : Value → Except ValueError Int
  | int n => .ok n
  | bool b => .ok (if b then 1 else 0)
  | float x =>
    match Number.Binary.ofFloat x with
    | .nan => .error .undefinedNumber
    | .infinite _ => .error .outOfRange
    | .finite negative significand exponent =>
      let n : Int := Number.wholePart significand exponent
      .ok (if negative then -n else n)
  | text s => intOfText 10 (Text.quoted s) s
  | bytes b => intOfText 10 b.shown b.toText
  | _ => .error .wrongType

end Value

end CurveCalc
