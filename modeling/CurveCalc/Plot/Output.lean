import CurveCalc.Document.Json
import CurveCalc.Plot.Records

/-!
Records as rows of a table and as JSON. Both hold the same series in the same order; JSON has
nothing in place of a coordinate that is not finite.
-/

set_option autoImplicit false
set_option relaxedAutoImplicit false

namespace CurveCalc

/-- One point of a series of a curve, counted from one. -/
structure Row where
  curve : Nat
  series : String
  x : Float
  y : Float

def Record.rows (index : Nat) (r : Record) : List Row :=
  r.series.flatMap fun s ↦ s.2.map fun p ↦ ⟨index, s.1, p.1, p.2⟩

/-- The rows of all records, the first of them counted as `index`. -/
def tableRows : Nat → List Record → List Row
  | _, [] => []
  | index, r :: rest => r.rows index ++ tableRows (index + 1) rest

def Row.cells (r : Row) : List String :=
  [toString r.curve, r.series, Number.render r.x, Number.render r.y]

def csvLine (cells : List String) : String := String.intercalate "," cells ++ "\r\n"

/-- The records as comma separated values. -/
def csvText (records : List Record) : String :=
  csvLine ["curve", "series", "x", "y"] ++
    String.join ((tableRows 1 records).map fun r ↦ csvLine r.cells)

/-- A coordinate, or nothing if it is not finite. -/
def coordinateJson (x : Float) : JsonData :=
  if JsonData.isFinite x then .float x else .null

def seriesJson (points : List Point) : JsonData :=
  .list (points.map fun p ↦ .list [coordinateJson p.1, coordinateJson p.2])

def Record.toJson (r : Record) : JsonData :=
  .object
    ([("formula", .text r.formula),
        ("error", match r.error with
          | some e => .text e.text
          | none => .null)] ++
      r.series.map fun s ↦ (s.1, seriesJson s.2))

def recordsJson (records : List Record) : JsonData := .list (records.map Record.toJson)

/-- The records as JSON text. -/
def jsonText? (records : List Record) : Option String :=
  (recordsJson records).write? .refused 0

end CurveCalc
