import CurveCalc.Plot.Output
import CurveCalc.Proofs.Formula.WrittenSymbol
import CurveCalc.Proofs.Number.Rendering
import CurveCalc.Proofs.Plot.Records

/-!
The rows of a table and the data of JSON carry the same samples. The lines of a table are cut into
the cells they have been put together from (`tableCells_csvText`), since no cell has a comma or a
line break in it; the rows of one curve and series are its points in order (`point?_tableRows`), and
no other points have these cells (`pointCells_injective`). JSON has the same series, with a
coordinate where the table has a number and nothing where the table names what is none
(`toJson_matches`).
-/

set_option autoImplicit false
set_option relaxedAutoImplicit false

namespace CurveCalc

/-! Cutting a table into its cells. -/

/-- The cells of each line. A line is ended by a carriage return and a line feed. -/
def tableCells (text : String) : List (List String) :=
  (text.toList.splitOn '\n').dropLast.map fun line ↦ (line.dropLast.splitOn ',').map String.ofList

/-- A cell that can stand between commas. -/
def Cell (text : String) : Prop := ',' ∉ text.toList ∧ '\n' ∉ text.toList

theorem flatMap_concat_eq_intercalate (x : Char) (lines : List (List Char)) :
    lines.flatMap (· ++ [x]) = [x].intercalate (lines ++ [[]]) := by
  induction lines with
  | nil => rfl
  | cons line lines ih =>
    rw [List.flatMap_cons, ih]
    cases lines <;> simp [List.intercalate]

theorem splitOn_flatMap_concat {x : Char} {lines : List (List Char)} (h : ∀ l ∈ lines, x ∉ l) :
    (lines.flatMap (· ++ [x])).splitOn x = lines ++ [[]] := by
  have hall : ∀ l ∈ lines ++ [[]], x ∉ l := by
    intro l hl
    rcases List.mem_append.mp hl with hl | hl
    · exact h l hl
    · simp [List.mem_singleton.mp hl]
  rw [flatMap_concat_eq_intercalate, List.splitOn_intercalate x hall (by simp)]

theorem toList_csvLine (cells : List String) :
    (csvLine cells).toList = [','].intercalate (cells.map String.toList) ++ ['\r'] ++ ['\n'] := by
  have hbreak : "\r\n".toList = ['\r', '\n'] := by simp
  rw [csvLine, String.toList_append, String.toList_intercalate, hbreak]
  simp

theorem mem_intercalate {c x : Char} {items : List (List Char)}
    (hc : c ∈ [x].intercalate items) : c = x ∨ ∃ item ∈ items, c ∈ item := by
  induction items with
  | nil => simp [List.intercalate] at hc
  | cons item items ih =>
    cases items with
    | nil => simpa [List.intercalate] using Or.inr hc
    | cons next items =>
      rw [List.intercalate_cons_cons, List.mem_append, List.mem_append, List.mem_singleton] at hc
      rcases hc with (hc | hc) | hc
      · exact Or.inr ⟨item, by simp, hc⟩
      · exact Or.inl hc
      · obtain hx | ⟨item', hitem', hc'⟩ := ih hc
        · exact Or.inl hx
        · exact Or.inr ⟨item', List.mem_cons_of_mem _ hitem', hc'⟩

/-- Lines that have been put together are cut into the same cells. -/
theorem tableCells_join {lines : List (List String)}
    (h : ∀ cells ∈ lines, cells ≠ [] ∧ ∀ cell ∈ cells, Cell cell) :
    tableCells (String.join (lines.map csvLine)) = lines := by
  let chars := fun cells : List String ↦ [','].intercalate (cells.map String.toList) ++ ['\r']
  have htext : (String.join (lines.map csvLine)).toList =
      (lines.map chars).flatMap (· ++ ['\n']) := by
    rw [String.toList_join, List.flatMap_map, List.flatMap_map]
    exact List.flatMap_congr fun cells _ ↦ toList_csvLine cells
  have hlines : ∀ line ∈ lines.map chars, '\n' ∉ line := by
    intro line hline hbreak
    obtain ⟨cells, hcells, rfl⟩ := List.mem_map.mp hline
    rcases List.mem_append.mp hbreak with hbreak | hbreak
    · obtain hcomma | ⟨item, hitem, hbreak⟩ := mem_intercalate hbreak
      · simp at hcomma
      · obtain ⟨cell, hcell, rfl⟩ := List.mem_map.mp hitem
        exact ((h cells hcells).2 cell hcell).2 hbreak
    · simp at hbreak
  have hcells : ∀ cells ∈ lines,
      ((chars cells).dropLast.splitOn ',').map String.ofList = cells := by
    intro cells hcells
    have hcommas : ∀ item ∈ cells.map String.toList, ',' ∉ item := by
      intro item hitem
      obtain ⟨cell, hcell, rfl⟩ := List.mem_map.mp hitem
      exact ((h cells hcells).2 cell hcell).1
    rw [List.dropLast_concat, List.splitOn_intercalate ',' hcommas (by simp [(h cells hcells).1])]
    simp
  rw [tableCells, htext, splitOn_flatMap_concat hlines, List.dropLast_concat, List.map_map]
  exact (List.map_congr_left hcells).trans (List.map_id _)

/-! The rows of a table. -/

theorem cell_toString (n : ℕ) : Cell (toString n) := by
  have hdigit : ∀ c ∈ (toString n).toList, isNumeral c = true := by
    intro c hc
    exact Number.isNumeral_of_mem_toDigits (by simpa using hc)
  constructor
  · intro h
    simpa [isNumeral] using hdigit _ h
  · intro h
    simpa [isNumeral] using hdigit _ h

theorem cell_render (x : Float) : Cell (Number.render x) := by
  constructor
  · intro h
    simpa [isNumeral] using Number.mem_render h
  · intro h
    simpa [isNumeral] using Number.mem_render h

theorem names_sublist (r : Record) :
    (r.series.map Prod.fst).Sublist ["points", "derivative", "integral"] := by
  unfold Record.series
  cases r.derivative <;> cases r.integral <;> simp

theorem nodup_names (r : Record) : (r.series.map Prod.fst).Nodup :=
  (names_sublist r).nodup (by simp)

theorem cell_name {r : Record} {s : String × List Point} (hs : s ∈ r.series) : Cell s.1 := by
  have hname := (names_sublist r).subset (List.mem_map_of_mem hs)
  simp only [List.mem_cons, List.not_mem_nil, or_false] at hname
  rcases hname with h | h | h <;> rw [h] <;> simp [Cell]

/-- The rows of the records, each record with its number. -/
theorem tableRows_eq (records : List Record) (k : ℕ) :
    tableRows k records = (records.zipIdx k).flatMap fun r ↦ r.1.rows r.2 := by
  induction records generalizing k with
  | nil => rfl
  | cons r records ih => rw [tableRows, ih, List.zipIdx_cons, List.flatMap_cons]

theorem cell_of_mem_tableRows {records : List Record} {k : ℕ} {row : Row}
    (hrow : row ∈ tableRows k records) : ∀ cell ∈ row.cells, Cell cell := by
  rw [tableRows_eq] at hrow
  obtain ⟨⟨r, i⟩, -, hrow⟩ := List.mem_flatMap.mp hrow
  obtain ⟨s, hs, hrow⟩ := List.mem_flatMap.mp hrow
  obtain ⟨p, -, rfl⟩ := List.mem_map.mp hrow
  intro cell hcell
  simp only [Row.cells, List.mem_cons, List.not_mem_nil, or_false] at hcell
  rcases hcell with rfl | rfl | rfl | rfl
  · exact cell_toString i
  · exact cell_name hs
  · exact cell_render p.1
  · exact cell_render p.2

/-- What is read from the text of a table is its rows. -/
theorem tableCells_csvText (records : List Record) : tableCells (csvText records) =
    ["curve", "series", "x", "y"] :: (tableRows 1 records).map Row.cells := by
  have htext : csvText records = String.join
      ((["curve", "series", "x", "y"] :: (tableRows 1 records).map Row.cells).map csvLine) := by
    rw [csvText, List.map_cons, String.join_cons, List.map_map]
    rfl
  rw [htext]
  apply tableCells_join
  intro cells hcells
  rcases List.mem_cons.mp hcells with rfl | hcells
  · simp [Cell]
  · obtain ⟨row, hrow, rfl⟩ := List.mem_map.mp hcells
    exact ⟨by simp [Row.cells], cell_of_mem_tableRows hrow⟩

/-! The rows of one series. -/

/-- The coordinates in the rows of one series of a curve. -/
def groupCells (curve name : String) (rows : List (List String)) : List (String × String) :=
  rows.filterMap fun
    | [c, s, x, y] => if c = curve ∧ s = name then some (x, y) else none
    | _ => none

def pointCells (p : Point) : String × String := (Number.render p.1, Number.render p.2)

theorem pointCells_injective : Function.Injective pointCells := by
  rintro ⟨x, y⟩ ⟨x', y'⟩ h
  simp only [pointCells, Prod.mk.injEq] at h
  rw [Number.render_injective h.1, Number.render_injective h.2]

/-- The points of a series of the record at an index, none if there is no such series. -/
def pointsOf (records : List Record) (i : ℕ) (name : String) : List Point :=
  (records[i]?.bind fun r ↦ r.series.lookup name).getD []

theorem toString_inj {m n : ℕ} : toString m = toString n ↔ m = n := by
  refine ⟨fun h ↦ ?_, congrArg toString⟩
  have hdigits : Nat.toDigits 10 m = Nat.toDigits 10 n := by
    simpa using congrArg String.toList h
  rw [← @Nat.ofDigitChars_ten_toDigits m, hdigits, Nat.ofDigitChars_ten_toDigits]

/-- The point of a row, if it is of a series of a curve. -/
def Row.point? (curve : ℕ) (name : String) (row : Row) : Option Point :=
  if row.curve = curve ∧ row.series = name then some (row.x, row.y) else none

theorem groupCells_cells (curve : ℕ) (name : String) (rows : List Row) :
    groupCells (toString curve) name (rows.map Row.cells) =
      (rows.filterMap (Row.point? curve name)).map pointCells := by
  rw [groupCells, List.filterMap_map, List.map_filterMap]
  apply List.filterMap_congr
  intro row _
  simp only [Function.comp_apply, Row.cells, Row.point?, toString_inj]
  split_ifs <;> rfl

theorem point?_points (curve : ℕ) (name : String) (k : ℕ) (series : String) (points : List Point) :
    (points.map fun p ↦ (⟨k, series, p.1, p.2⟩ : Row)).filterMap (Row.point? curve name) =
      if k = curve ∧ series = name then points else [] := by
  rw [List.filterMap_map]
  split_ifs with h
  · simp [Row.point?, h]
  · simp [Row.point?, h]

theorem point?_series (curve k : ℕ) (name : String) {series : List (String × List Point)}
    (hnodup : (series.map Prod.fst).Nodup) :
    (series.flatMap fun s ↦ s.2.map fun p ↦ (⟨k, s.1, p.1, p.2⟩ : Row)).filterMap
      (Row.point? curve name) = if k = curve then (series.lookup name).getD [] else [] := by
  induction series with
  | nil => simp
  | cons s series ih =>
    obtain ⟨hfresh, hnodup⟩ := List.nodup_cons.mp hnodup
    rw [List.flatMap_cons, List.filterMap_append, point?_points, ih hnodup]
    obtain ⟨first, points⟩ := s
    by_cases hname : first = name
    · -- no later series has this name
      subst hname
      have hnone : series.lookup first = none := by
        rw [List.lookup_eq_none_iff]
        intro s hs
        have hne := ne_of_mem_of_not_mem (List.mem_map_of_mem hs) hfresh
        simpa using hne.symm
      simp [hnone]
    · simp [List.lookup_cons, beq_false_of_ne (Ne.symm hname), hname]

/-- Of the rows of a record those of one series are its points. -/
theorem point?_rows (r : Record) (curve k : ℕ) (name : String) :
    (r.rows k).filterMap (Row.point? curve name) =
      if k = curve then (r.series.lookup name).getD [] else [] :=
  point?_series curve k name (nodup_names r)

theorem point?_below (name : String) {curve k : ℕ} (h : curve < k) (records : List Record) :
    (tableRows k records).filterMap (Row.point? curve name) = [] := by
  induction records generalizing k with
  | nil => rfl
  | cons r records ih =>
    rw [tableRows, List.filterMap_append, point?_rows, if_neg h.ne', ih (h.trans k.lt_succ_self)]
    rfl

/-- Of all rows those of one series of a curve are the points of that series, in order. -/
theorem point?_tableRows (records : List Record) (k i : ℕ) (name : String) :
    (tableRows k records).filterMap (Row.point? (k + i) name) = pointsOf records i name := by
  induction records generalizing k i with
  | nil => rfl
  | cons r records ih =>
    rw [tableRows, List.filterMap_append, point?_rows]
    cases i with
    | zero => simp [point?_below name k.lt_succ_self, pointsOf]
    | succ i =>
      rw [if_neg (by omega), List.nil_append]
      have hindex : k + (i + 1) = k + 1 + i := by omega
      rw [hindex, ih (k + 1) i]
      simp [pointsOf]

/-! JSON beside the table. -/

/-- A coordinate in JSON: itself if it is finite, and nothing where its cell names no number. -/
structure CoordinateMatches (x : Float) (item : JsonData) : Prop where
  finite : JsonData.isFinite x = true → item = .float x
  null_iff : item = .null ↔ Number.render x ∈ ["nan", "inf", "-inf"]

def PointMatches (p : Point) (item : JsonData) : Prop :=
  ∃ x y, item = .list [x, y] ∧ CoordinateMatches p.1 x ∧ CoordinateMatches p.2 y

def SeriesMatches (s : String × List Point) (field : String × JsonData) : Prop :=
  field.1 = s.1 ∧ ∃ points, field.2 = .list points ∧ List.Forall₂ PointMatches s.2 points

/-- A record in JSON: its formula and error as they are, then its series. -/
def RecordMatches (r : Record) (item : JsonData) : Prop :=
  ∃ series, item = .object (("formula", .text r.formula) ::
      ("error", (r.error.map fun e ↦ JsonData.text e.text).getD .null) :: series) ∧
    List.Forall₂ SeriesMatches r.series series

theorem coordinateJson_matches (x : Float) : CoordinateMatches x (coordinateJson x) := by
  constructor
  · intro hx
    rw [coordinateJson, if_pos hx]
  · rw [Number.render_mem_iff, coordinateJson]
    split_ifs with hx <;> simp [hx]

theorem pointJson_matches (p : Point) :
    PointMatches p (.list [coordinateJson p.1, coordinateJson p.2]) :=
  ⟨_, _, rfl, coordinateJson_matches p.1, coordinateJson_matches p.2⟩

theorem seriesJson_matches (s : String × List Point) : SeriesMatches s (s.1, seriesJson s.2) := by
  refine ⟨rfl, _, rfl, ?_⟩
  rw [List.forall₂_map_right_iff]
  exact List.forall₂_same.mpr fun p _ ↦ pointJson_matches p

theorem toJson_matches (r : Record) : RecordMatches r r.toJson := by
  refine ⟨r.series.map fun s ↦ (s.1, seriesJson s.2), ?_, ?_⟩
  · unfold Record.toJson
    cases r.error <;> rfl
  · rw [List.forall₂_map_right_iff]
    exact List.forall₂_same.mpr fun s _ ↦ seriesJson_matches s

/-! The records of a configuration. -/

/-- The series that are asked of a curve. -/
def Curve.seriesNames (curve : Curve) : List String :=
  ["points"] ++ (if curve.derivative then ["derivative"] else []) ++
    if curve.integral then ["integral"] else []

/-- A record of a curve: all series that are asked of it, or no point and why there is none. -/
structure Record.IsOf (r : Record) (t : Toolchain) (curve : Curve) : Prop where
  formula : r.formula = curve.formula
  failed : ∀ e, t.compileFolded curve.formula = .error e →
    r.error = some (.formula e) ∧ r.series = [("points", [])]
  sampled : ∀ p, t.compileFolded curve.formula = .ok p →
    r.series.map Prod.fst = curve.seriesNames

namespace PlotConfig

variable {c : PlotConfig} {t : Toolchain}

theorem isOf_of_record {values : Bindings} {curve : Curve} {r : Record}
    (h : c.record t values curve = .ok r) : r.IsOf t curve := by
  unfold record at h
  cases hp : t.compileFolded curve.formula with
  | error e =>
    rw [hp] at h
    cases h
    exact ⟨rfl, fun e' he ↦ by simp_all [Record.series], fun p h ↦ by simp_all⟩
  | ok p =>
    rw [hp] at h
    dsimp only at h
    split at h
    · cases h
    · cases h
      refine ⟨rfl, fun e' he ↦ by simp_all, fun p h ↦ ?_⟩
      unfold Record.series Curve.seriesNames
      cases curve.derivative <;> cases curve.integral <;> rfl

/-- The table of the records of a configuration has one row for each point, in order; the rows of
one series are its points and no others, since different numbers have different texts; and JSON has
the same series of the same records, with nothing exactly where the table names no number. -/
theorem records_written (c : PlotConfig) (t : Toolchain) (bindings : Bindings)
    (records : List Record) (h : c.records t bindings = .ok records) :
    List.Forall₂ (fun curve r ↦ r.IsOf t curve) c.curves records ∧
    tableCells (csvText records) = ["curve", "series", "x", "y"] ::
      (records.zipIdx 1).flatMap (fun r ↦ r.1.series.flatMap fun s ↦ s.2.map fun p ↦
        [toString r.2, s.1, Number.render p.1, Number.render p.2]) ∧
    Function.Injective Number.render ∧
    (∀ i name points, groupCells (toString (i + 1)) name (tableCells (csvText records)).tail =
        points.map pointCells ↔ points = pointsOf records i name) ∧
    ∃ items, recordsJson records = .list items ∧ List.Forall₂ RecordMatches records items := by
  refine ⟨?_, ?_, Number.render_injective, ?_, ?_⟩
  · obtain ⟨values, -, hrecords⟩ := Attempt.bind_eq_ok.mp h
    exact (Attempt.mapM_eq_ok.mp hrecords).imp fun curve r hr ↦ isOf_of_record hr
  · rw [tableCells_csvText, tableRows_eq]
    simp [List.map_flatMap, Record.rows, Row.cells, Function.comp_def]
  · intro i name points
    rw [tableCells_csvText, List.tail_cons, groupCells_cells, Nat.add_comm, point?_tableRows,
      pointCells_injective.list_map.eq_iff, eq_comm]
  · refine ⟨records.map Record.toJson, rfl, ?_⟩
    rw [List.forall₂_map_right_iff]
    exact List.forall₂_same.mpr fun r _ ↦ toJson_matches r

/-- A range without an end, so that not all coordinates are finite. -/
theorem records_written_infinite :
    ∃ records, PlotConfig.records
        { range := ⟨0.0, 1.0 / 0.0, 1⟩, curves := [{ formula := "1", integral := true }] } {} [] =
          .ok records ∧
      tableCells (csvText records) = [["curve", "series", "x", "y"], ["1", "points", "nan", "1.0"],
        ["1", "points", "inf", "1.0"], ["1", "integral", "nan", "nan"],
        ["1", "integral", "inf", "nan"]] ∧
      ∃ items, recordsJson records = .list items ∧ List.Forall₂ RecordMatches records items := by
  let curve : Curve := { formula := "1", integral := true }
  let c : PlotConfig := { range := ⟨0.0, 1.0 / 0.0, 1⟩, curves := [curve] }
  have hrecord : ∃ r, c.record {} [] curve = .ok r ∧
      (r.series.flatMap fun s ↦ s.2.map fun p ↦
        [toString 1, s.1, Number.render p.1, Number.render p.2]) =
      [["1", "points", "nan", "1.0"], ["1", "points", "inf", "1.0"],
        ["1", "integral", "nan", "nan"], ["1", "integral", "inf", "nan"]] := by
    unfold record
    rw [Toolchain.compileFolded_one]
    dsimp only [c, curve]
    refine ⟨_, rfl, ?_⟩
    decide +kernel
  obtain ⟨r, hr, hrows⟩ := hrecord
  have hrecords : c.records {} [] = .ok [r] := by
    have hvalues : c.environment {} [] = .ok [] := rfl
    rw [records_eq hvalues, List.mapM_cons, hr]
    rfl
  obtain ⟨-, hcells, -, -, hjson⟩ := records_written c {} [] [r] hrecords
  refine ⟨[r], hrecords, hcells.trans ?_, hjson⟩
  rw [List.zipIdx_cons, List.flatMap_cons, hrows]
  rfl

end PlotConfig

end CurveCalc
