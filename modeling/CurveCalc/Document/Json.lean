import CurveCalc.Number.Layout
import CurveCalc.Text.Quoted

/-!
Data written as JSON: one element on a line, indented by two spaces for each level, with nothing but
ASCII in its strings.
-/

set_option autoImplicit false
set_option relaxedAutoImplicit false

namespace CurveCalc

inductive JsonData where
  | null
  | int (n : Int)
  | float (x : Float)
  | text (s : String)
  | list (items : List JsonData)
  | object (fields : List (String × JsonData))

/-- What becomes of numbers that are not finite, for which JSON has no form. -/
inductive NonFinite where
  | refused
  /-- They are written by name. -/
  | named
  deriving DecidableEq

namespace JsonData

/-- One unit of a string, by number. -/
def escapedUnit (n : Nat) : String := "\\u" ++ Text.hex 4 n

/-- Characters beyond the first plane are written as two units. -/
def escapedCodePoint (n : Nat) : String :=
  if n < 0x10000 then escapedUnit n
  else escapedUnit (0xD800 + (n - 0x10000) / 0x400) ++ escapedUnit (0xDC00 + (n - 0x10000) % 0x400)

def escapedChar (c : Char) : String :=
  if c = '"' then "\\\""
  else if c = '\\' then "\\\\"
  else if c = '\n' then "\\n"
  else if c = '\r' then "\\r"
  else if c = '\t' then "\\t"
  else if c = '\x08' then "\\b"
  else if c = '\x0c' then "\\f"
  else if 0x20 ≤ c.toNat ∧ c.toNat < 0x7F then String.singleton c
  else escapedCodePoint c.toNat

def stringText (s : String) : String :=
  "\"" ++ String.join (s.toList.map escapedChar) ++ "\""

def isFinite (x : Float) : Bool := !(x.isNaN || x.isInf)

/-- A number; `none` if it is refused. -/
def numberText? (policy : NonFinite) (x : Float) : Option String :=
  if isFinite x then some (Number.render x)
  else
    match policy with
    | .refused => none
    | .named => some (if x.isNaN then "NaN" else if x < 0.0 then "-Infinity" else "Infinity")

def indent (depth : Nat) : String := String.ofList (List.replicate (2 * depth) ' ')

/-- Elements between brackets, each on a line of its own. -/
def block (depth : Nat) (opening closing : String) (elements : List String) : String :=
  if elements.isEmpty then opening ++ closing
  else
    opening ++ "\n" ++
      String.intercalate ",\n" (elements.map fun e ↦ indent (depth + 1) ++ e) ++
      "\n" ++ indent depth ++ closing

mutual

/-- The text of data that stands `depth` levels deep; `none` if it holds a number that is refused.
-/
def write? (policy : NonFinite) (depth : Nat) : JsonData → Option String
  | null => some "null"
  | int n => some (toString n)
  | float x => numberText? policy x
  | text s => some (stringText s)
  | list items => (writeItems? policy (depth + 1) items).map (block depth "[" "]")
  | object fields => (writeFields? policy (depth + 1) fields).map (block depth "\x7b" "\x7d")

def writeItems? (policy : NonFinite) (depth : Nat) : List JsonData → Option (List String)
  | [] => some []
  | v :: rest => do
    let first ← write? policy depth v
    return first :: (← writeItems? policy depth rest)

def writeFields? (policy : NonFinite) (depth : Nat) :
    List (String × JsonData) → Option (List String)
  | [] => some []
  | (name, v) :: rest => do
    let first ← write? policy depth v
    return (stringText name ++ ": " ++ first) :: (← writeFields? policy depth rest)

end

end JsonData

end CurveCalc
