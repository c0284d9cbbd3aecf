import CurveCalc.Document.Value

/-!
Values as text. A collection that contains itself is written once; inside it dots stand in its
place.
-/

set_option autoImplicit false
set_option relaxedAutoImplicit false

namespace CurveCalc.Value

/-- What stands in the place of a collection that is being written. -/
def dots : Value → String
  | mapping _ => "\x7b...\x7d"
  | _ => "[...]"

mutual

/-- A value inside a list or mapping, as text. `around` are the labelled collections that are being
written, each with what stands in its place. -/
def shownWithin (around : List (Nat × String)) : Value → Except ValueError String
  | null => .ok "None"
  | bool b => .ok (if b then "True" else "False")
  | int n =>
    match Number.intText? n with
    | some digits => .ok digits
    | none => .error (.tooManyDigits none)
  | float x => .ok (Number.render x)
  | text s => .ok (Text.quoted s)
  | bytes b => .ok b.shown
  | day d => .ok d.shown
  | moment m => .ok m.shown
  | list items => do
    return "[" ++ String.intercalate ", " (← shownItems around items) ++ "]"
  | pair first second => do
    return "(" ++ (← shownWithin around first) ++ ", " ++ (← shownWithin around second) ++ ")"
  | set items => do
    if items.isEmpty then return "set()"
    else return "\x7b" ++ String.intercalate ", " (← shownItems around items) ++ "\x7d"
  | mapping entries => do
    return "\x7b" ++ String.intercalate ", " (← shownEntries around entries) ++ "\x7d"
  | knot label v =>
    match around.lookup label with
    | some instead => .ok instead
    | none => shownWithin ((label, v.dots) :: around) v
  | back label => .ok ((around.lookup label).getD "...")

def shownItems (around : List (Nat × String)) : List Value → Except ValueError (List String)
  | [] => .ok []
  | v :: rest => do return (← shownWithin around v) :: (← shownItems around rest)

def shownEntries (around : List (Nat × String)) :
    List (Value × Value) → Except ValueError (List String)
  | [] => .ok []
  | (k, v) :: rest => do
    let entry := (← shownWithin around k) ++ ": " ++ (← shownWithin around v)
    return entry :: (← shownEntries around rest)

end

/-- A value as text; a text stands for itself. -/
def toText : Value → Except ValueError String
  | text s => .ok s
  | day d => .ok d.text
  | moment m => .ok m.text
  | v => v.shownWithin []

end CurveCalc.Value
