import CurveCalc.Document.Calendar
import CurveCalc.Number.Reading

/-!
The written form of days and moments: numerals joined by dashes, and behind a space or the letter T
the time, with a fraction of the second and an offset where they are known.
-/

set_option autoImplicit false
set_option relaxedAutoImplicit false

namespace CurveCalc.Yaml

/-- An offset as written; universal time has no numerals. -/
inductive StampZone where
  | universal
  | offset (negative : Bool) (hours minutes : List Char)

/-- A time as written, by its numerals. -/
structure StampTime where
  hour : List Char
  minute : List Char
  second : List Char
  fraction : List Char
  zone : Option StampZone

/-- A day or moment as written, by its numerals. -/
structure Stamp where
  year : List Char
  month : List Char
  day : List Char
  time : Option StampTime

namespace Stamp

/-- A numeral of at least `least` and at most `most` digits, and what follows it. -/
def numeral? (least most : Nat) (chars : List Char) : Option (List Char × List Char) :=
  let digits := (chars.take most).takeWhile Number.isDigit
  if digits.length < least then none else some (digits, chars.drop digits.length)

/-- What follows a character that has to be there. -/
def behind? (c : Char) : List Char → Option (List Char)
  | d :: rest => if c = d then some rest else none
  | [] => none

def skipGap (chars : List Char) : List Char := chars.dropWhile fun c ↦ c = ' ' || c = '\t'

/-- An offset that ends the text. -/
def zone? : List Char → Option StampZone
  | ['Z'] => some .universal
  | sign :: rest =>
    if sign = '-' ∨ sign = '+' then do
      let (hours, rest) ← numeral? 1 2 rest
      match rest with
      | [] => return .offset (sign = '-') hours []
      | _ =>
        let (minutes, rest) ← numeral? 2 2 (← behind? ':' rest)
        if rest.isEmpty then return .offset (sign = '-') hours minutes else none
    else none
  | [] => none

/-- A time that ends the text. -/
def time? (chars : List Char) : Option StampTime := do
  let (hour, rest) ← numeral? 1 2 chars
  let (minute, rest) ← numeral? 2 2 (← behind? ':' rest)
  let (second, rest) ← numeral? 2 2 (← behind? ':' rest)
  let (fraction, rest) := match rest with
    | '.' :: rest => (rest.takeWhile Number.isDigit, rest.dropWhile Number.isDigit)
    | rest => ([], rest)
  if rest.isEmpty then return { hour, minute, second, fraction, zone := none }
  else return { hour, minute, second, fraction, zone := some (← zone? (skipGap rest)) }

/-- The numerals of a text that has the form of a day or moment. -/
def ofChars? (chars : List Char) : Option Stamp := do
  let (year, rest) ← numeral? 4 4 chars
  let (month, rest) ← numeral? 1 2 (← behind? '-' rest)
  let (day, rest) ← numeral? 1 2 (← behind? '-' rest)
  match rest with
  | [] => return { year, month, day, time := none }
  | c :: after =>
    if c = 'T' ∨ c = 't' then return { year, month, day, time := some (← time? after) }
    else if c = ' ' ∨ c = '\t' then
      return { year, month, day, time := some (← time? (skipGap after)) }
    else none

/-- Whether the form alone tells a day or moment: without a time all numerals have their full
length. -/
def isPlain (s : Stamp) : Bool :=
  s.time.isSome || (s.month.length = 2 && s.day.length = 2)

/-- Millionths of a second; digits beyond them are dropped. -/
def microseconds (fraction : List Char) : Nat :=
  let digits := fraction.take 6
  Number.ofDigits digits * Nat.pow 10 (6 - digits.length)

def StampZone.minutes : StampZone → Int
  | .universal => 0
  | .offset negative hours minutes =>
    let n : Int := 60 * Number.ofDigits hours + Number.ofDigits minutes
    if negative then -n else n

/-- The day or moment that is written. -/
def read (s : Stamp) : Except CalendarFault (Day ⊕ Moment) := do
  let year := Number.ofDigits s.year
  let month := Number.ofDigits s.month
  let day := Number.ofDigits s.day
  match s.time with
  | none => return .inl (← Day.make year month day)
  | some t =>
    return .inr (← Moment.make year month day (Number.ofDigits t.hour) (Number.ofDigits t.minute)
      (Number.ofDigits t.second) (microseconds t.fraction) (t.zone.map StampZone.minutes))

end Stamp

end CurveCalc.Yaml
