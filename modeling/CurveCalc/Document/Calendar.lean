/-!
Days and moments of the calendar, with the offset of local time where it is known. Years have four
digits and begin with the first one; leap years are those of the reformed calendar throughout.
-/

set_option autoImplicit false
set_option relaxedAutoImplicit false

namespace CurveCalc

/-- Numerals that name no day or moment. -/
inductive CalendarFault where
  | year (n : Nat)
  | month
  | day
  | hour
  | minute
  | second
  /-- An offset of a day or more, in minutes. -/
  | offset (minutes : Int)
  deriving DecidableEq

structure Day where
  year : Nat
  month : Nat
  day : Nat
  deriving DecidableEq

structure Moment where
  date : Day
  hour : Nat
  minute : Nat
  second : Nat
  microsecond : Nat
  /-- How many minutes local time is ahead of universal time. -/
  offset : Option Int
  deriving DecidableEq

/-- A number with at least `width` digits. -/
def paddedNumber (width n : Nat) : String :=
  let digits := Nat.toDigits 10 n
  String.ofList (List.replicate (width - digits.length) '0' ++ digits)

/-- A time span of whole minutes: its days, and the seconds beyond them, in words of a call. -/
def spanText (minutes : Int) : String :=
  let days := minutes.fdiv 1440
  let seconds := 60 * minutes.fmod 1440
  let parts :=
    (if days = 0 then [] else ["days=" ++ toString days]) ++
      (if seconds = 0 then [] else ["seconds=" ++ toString seconds])
  "datetime.timedelta(" ++ (if parts.isEmpty then "0" else String.intercalate ", " parts) ++ ")"

namespace CalendarFault

def message : CalendarFault → String
  | year n => "year " ++ toString n ++ " is out of range"
  | month => "month must be in 1..12"
  | day => "day is out of range for month"
  | hour => "hour must be in 0..23"
  | minute => "minute must be in 0..59"
  | second => "second must be in 0..59"
  | offset minutes =>
    "offset must be a timedelta strictly between -timedelta(hours=24) and timedelta(hours=24), not " ++
      spanText minutes ++ "."

end CalendarFault

namespace Day

def isLeap (year : Nat) : Bool := year % 4 = 0 && (year % 100 != 0 || year % 400 = 0)

def daysInMonth (year month : Nat) : Nat :=
  if month = 2 then if isLeap year then 29 else 28
  else if [4, 6, 9, 11].contains month then 30
  else 31

/-- The day of the given numbers, if there is one. -/
def make (year month day : Nat) : Except CalendarFault Day :=
  if year = 0 then .error (.year year)
  else if month = 0 ∨ 12 < month then .error .month
  else if day = 0 ∨ daysInMonth year month < day then .error .day
  else .ok ⟨year, month, day⟩

/-- How many days there are up to this one, the first of the first year being counted as one. -/
def ordinal (d : Day) : Nat :=
  let before := d.year - 1
  365 * before + before / 4 - before / 100 + before / 400 +
    ((List.range (d.month - 1)).map fun m ↦ daysInMonth d.year (m + 1)).foldl (· + ·) 0 + d.day

def text (d : Day) : String :=
  paddedNumber 4 d.year ++ "-" ++ paddedNumber 2 d.month ++ "-" ++ paddedNumber 2 d.day

/-- The numbers of the day, as arguments of a call. -/
def arguments (d : Day) : List String := [toString d.year, toString d.month, toString d.day]

/-- A day inside a list or mapping, as text. -/
def shown (d : Day) : String := "datetime.date(" ++ String.intercalate ", " d.arguments ++ ")"

end Day

namespace Moment

/-- The moment of the given numbers, if there is one. An offset is looked at before the day, and the
day before the time. -/
def make (year month day hour minute second microsecond : Nat) (offset : Option Int) :
    Except CalendarFault Moment := do
  match offset with
  | some minutes => if 1440 ≤ minutes.natAbs then throw (.offset minutes)
  | none => pure ()
  let date ← Day.make year month day
  if 23 < hour then throw .hour
  if 59 < minute then throw .minute
  if 59 < second then throw .second
  return { date, hour, minute, second, microsecond, offset }

/-- Minutes of universal time up to the moment, if its offset is known. -/
def universal? (m : Moment) : Option Int :=
  m.offset.map fun minutes ↦ 1440 * m.date.ordinal + 60 * m.hour + m.minute - minutes

/-- Whether two moments are one. Without an offset they are if they are written alike, and a moment
with an offset is never one without. -/
def same (m n : Moment) : Bool :=
  match m.universal?, n.universal? with
  | some a, some b => a == b && m.second == n.second && m.microsecond == n.microsecond
  | none, none => m == n
  | _, _ => false

def offsetText (minutes : Int) : String :=
  (if minutes < 0 then "-" else "+") ++ paddedNumber 2 (minutes.natAbs / 60) ++ ":" ++
    paddedNumber 2 (minutes.natAbs % 60)

def text (m : Moment) : String :=
  m.date.text ++ " " ++ paddedNumber 2 m.hour ++ ":" ++ paddedNumber 2 m.minute ++ ":" ++
    paddedNumber 2 m.second ++
    (if m.microsecond = 0 then "" else "." ++ paddedNumber 6 m.microsecond) ++
    (m.offset.map offsetText).getD ""

def offsetShown (minutes : Int) : String :=
  if minutes = 0 then "datetime.timezone.utc" else "datetime.timezone(" ++ spanText minutes ++ ")"

/-- A moment inside a list or mapping, as text; seconds are left out where nothing follows them. -/
def shown (m : Moment) : String :=
  let fine :=
    if m.microsecond != 0 then [toString m.second, toString m.microsecond]
    else if m.second != 0 then [toString m.second]
    else []
  let zone := (m.offset.map fun minutes ↦ "tzinfo=" ++ offsetShown minutes).toList
  "datetime.datetime(" ++
    String.intercalate ", "
      (m.date.arguments ++ [toString m.hour, toString m.minute] ++ fine ++ zone) ++ ")"

end Moment

end CurveCalc
