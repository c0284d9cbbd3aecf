import CurveCalc.Plot.Output

/-!
Whatever was sampled can be written. JSON has no form for a number that is not finite, but a
coordinate that is none is left out before it comes to that; so the records have a text, whichever
they are, and `Record.jsonText` is what it says of each of them (`jsonText?_eq`).
-/

set_option autoImplicit false
set_option relaxedAutoImplicit false

namespace CurveCalc

namespace JsonData

variable {policy : NonFinite} {depth : Nat}

theorem writeItems?_map {α : Type} {f : α → JsonData} {text : α → String}
    (h : ∀ a, (f a).write? policy depth = some (text a)) (items : List α) :
    writeItems? policy depth (items.map f) = some (items.map text) := by
  induction items with
  | nil => rfl
  | cons a items ih =>
    rw [List.map_cons, writeItems?, h, ih]
    rfl

theorem writeItems?_pair {first second : JsonData} {s t : String}
    (hfirst : first.write? policy depth = some s) (hsecond : second.write? policy depth = some t) :
    writeItems? policy depth [first, second] = some [s, t] := by
  rw [writeItems?, hfirst, writeItems?, hsecond]
  rfl

/-- A field as it stands between the braces of an object. -/
def fieldText (name value : String) : String := stringText name ++ ": " ++ value

theorem writeFields?_cons (name : String) {value : String} {v : JsonData}
    {fields : List (String × JsonData)} {texts : List String}
    (hvalue : v.write? policy depth = some value)
    (hfields : writeFields? policy depth fields = some texts) :
    writeFields? policy depth ((name, v) :: fields) = some (fieldText name value :: texts) := by
  rw [writeFields?, hvalue, hfields]
  rfl

theorem writeFields?_map {α : Type} (name : α → String) {f : α → JsonData} {text : α → String}
    (h : ∀ a, (f a).write? policy depth = some (text a)) (fields : List α) :
    writeFields? policy depth (fields.map fun a ↦ (name a, f a)) =
      some (fields.map fun a ↦ fieldText (name a) (text a)) := by
  induction fields with
  | nil => rfl
  | cons a fields ih => exact writeFields?_cons (name a) (h a) ih

end JsonData

/-- A coordinate as JSON. -/
def coordinateText (x : Float) : String :=
  if JsonData.isFinite x then Number.render x else "null"

def pointText (p : Point) : String :=
  JsonData.block 3 "[" "]" [coordinateText p.1, coordinateText p.2]

def seriesText (points : List Point) : String := JsonData.block 2 "[" "]" (points.map pointText)

/-- What is written for a record: its formula, what is wrong with it, and each of its series with
all of its points. -/
def Record.jsonText (r : Record) : String :=
  JsonData.block 1 "\x7b" "\x7d"
    (JsonData.fieldText "formula" (JsonData.stringText r.formula) ::
      JsonData.fieldText "error" (match r.error with
        | some e => JsonData.stringText e.text
        | none => "null") ::
      r.series.map fun s ↦ JsonData.fieldText s.1 (seriesText s.2))

theorem coordinateJson_write (x : Float) (depth : Nat) :
    (coordinateJson x).write? .refused depth = some (coordinateText x) := by
  unfold coordinateJson coordinateText
  by_cases hx : JsonData.isFinite x = true
  · rw [if_pos hx, if_pos hx, JsonData.write?, JsonData.numberText?, if_pos hx]
  · rw [if_neg hx, if_neg hx, JsonData.write?]

theorem seriesJson_write (points : List Point) :
    (seriesJson points).write? .refused 2 = some (seriesText points) := by
  have hpoint : ∀ p : Point,
      (JsonData.list [coordinateJson p.1, coordinateJson p.2]).write? .refused 3 =
        some (pointText p) := by
    intro p
    rw [JsonData.write?,
      JsonData.writeItems?_pair (coordinateJson_write p.1 4) (coordinateJson_write p.2 4)]
    rfl
  rw [seriesJson, JsonData.write?, JsonData.writeItems?_map hpoint]
  rfl

theorem Record.toJson_write (r : Record) : r.toJson.write? .refused 1 = some r.jsonText := by
  have hformula : (JsonData.text r.formula).write? .refused 2 =
      some (JsonData.stringText r.formula) := by
    rw [JsonData.write?]
  have herror : (match r.error with
        | some e => JsonData.text e.text
        | none => JsonData.null).write? .refused 2 =
      some (match r.error with
        | some e => JsonData.stringText e.text
        | none => "null") := by
    cases r.error with
    | none => rw [JsonData.write?]
    | some e => rw [JsonData.write?]
  have hfields := JsonData.writeFields?_cons "formula" hformula
    (JsonData.writeFields?_cons "error" herror
      (JsonData.writeFields?_map Prod.fst (fun s ↦ seriesJson_write s.2) r.series))
  unfold Record.toJson
  rw [JsonData.write?]
  exact congrArg (Option.map _) hfields

/-- No records are refused, whatever numbers are in them. -/
theorem jsonText?_eq (records : List Record) :
    jsonText? records = some (JsonData.block 0 "[" "]" (records.map Record.jsonText)) := by
  rw [jsonText?, recordsJson, JsonData.write?, JsonData.writeItems?_map Record.toJson_write]
  rfl

end CurveCalc
