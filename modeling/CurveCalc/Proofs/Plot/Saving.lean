import CurveCalc.Plot.File
import CurveCalc.Proofs.Document.Plain
import CurveCalc.Proofs.Plot.Obstacles
import CurveCalc.Proofs.Plot.Records
import CurveCalc.Yaml.Format

/-!
Configurations that are written and read again. What is written spells every field out, under its
own name and in the form that it is read in, so that no default and no conversion comes in between:
each part of a configuration is read back from the value that it is written as. Names of parameters
are text, and no two of them are the same, so that they keep their order.
-/

set_option autoImplicit false
set_option relaxedAutoImplicit false

namespace CurveCalc

theorem Value.field_text_cons (key name : String) (v : Value) (entries : List (Value × Value))
    (default : Value) : field ((.text key, v) :: entries) name default =
      if key = name then v else field entries name default := by
  have hkey : sameKey (.text key) (.text name) = decide (key = name) := rfl
  unfold field lookup?
  rw [List.find?_cons, hkey]
  by_cases h : key = name
  · rw [if_pos h, decide_eq_true h]
    rfl
  · rw [if_neg h, decide_eq_false h]

open Value

theorem Curve.plain_toValue (c : Curve) : Value.Plain c.toValue := by
  refine .mapping ["formula", "derivative", "integral", "integral_start"] (by decide) rfl ?_
  simp only [List.forall_mem_cons, List.not_mem_nil, false_imp_iff, implies_true, and_true]
  exact ⟨.text c.formula, .bool c.derivative, .bool c.integral, .float c.integralStart⟩

theorem Curve.ofValue_toValue (c : Curve) : Curve.ofValue c.toValue = .ok c := by
  have hunfold : c.toValue.unfold = c.toValue := rfl
  rw [ofValue_mapping hunfold]
  simp only [field_text_cons]
  rfl

theorem readCurves_toValue (curves : List Curve) :
    readCurves (.list (curves.map Curve.toValue)) = .ok curves := by
  have hvalues : curveValues (.list (curves.map Curve.toValue)) =
      .ok (curves.map Curve.toValue) := by
    cases curves <;> rfl
  rw [readCurves, hvalues]
  exact Attempt.mapM_map_eq_ok Curve.ofValue_toValue curves

theorem parameterEntries_texts {parameters : Entries String String}
    (h : (parameters.map Prod.fst).Nodup) :
    parameterEntries (.mapping (parameters.map fun p ↦ (.text p.1, .text p.2))) =
      .ok parameters := by
  cases parameters with
  | nil => rfl
  | cons p rest =>
    let read (e : Value × Value) : Except ValueError (String × String) := do
      return (← e.1.toText, ← e.2.toText)
    have hread (p : String × String) : read (.text p.1, .text p.2) = .ok p := rfl
    have htexts : ((p :: rest).map fun p ↦ (.text p.1, .text p.2)).mapM read = .ok (p :: rest) :=
      Attempt.mapM_map_eq_ok hread (p :: rest)
    change (((p :: rest).map fun p ↦ (.text p.1, .text p.2)).mapM read).bind
      (fun texts ↦ .ok (Entries.ofList texts)) = _
    rw [htexts]
    exact congrArg Except.ok (Entries.ofList_eq_self h)

/-- The names of parameters that have been read are distinct. -/
theorem nodup_of_parameterEntries {v : Value} {parameters : Entries String String}
    (h : parameterEntries v = .ok parameters) : (parameters.map Prod.fst).Nodup := by
  unfold parameterEntries at h
  split_ifs at h
  · cases h
    exact List.nodup_nil
  · split at h
    next entries hentries =>
      cases htexts : entries.mapM fun e ↦ do return (← e.1.toText, ← e.2.toText) with
      | error e =>
        rw [htexts] at h
        cases h
      | ok texts =>
        rw [htexts] at h
        cases h
        have hnil : (([] : Entries String String).map Prod.fst).Nodup := List.nodup_nil
        exact Entries.nodup_update hnil texts
    next => cases h

namespace PlotConfig

theorem ofEntries_toEntries {c : PlotConfig} (hc : (c.parameters.map Prod.fst).Nodup) :
    ofEntries c.toEntries = .ok c := by
  rw [ofEntries_eq]
  unfold toEntries
  simp only [field_text_cons]
  change (readCurves (.list (c.curves.map Curve.toValue))).bind _ = _
  rw [readCurves_toValue]
  change (parameterEntries (.mapping (c.parameters.map fun p ↦ (.text p.1, .text p.2)))).bind _ = _
  rw [parameterEntries_texts hc]
  rfl

theorem plain_toEntries {c : PlotConfig} (hc : (c.parameters.map Prod.fst).Nodup) :
    Value.Plain (.mapping c.toEntries) := by
  have hparameters : Value.Plain (.mapping (c.parameters.map fun p ↦ (.text p.1, .text p.2))) := by
    refine .mapping (c.parameters.map Prod.fst) hc (by simp) fun e he ↦ ?_
    obtain ⟨p, -, rfl⟩ := List.mem_map.mp he
    exact .text p.2
  have hcurves : Value.Plain (.list (c.curves.map Curve.toValue)) :=
    .list (List.forall_mem_map.mpr fun curve _ ↦ curve.plain_toValue)
  refine .mapping ["start", "stop", "count", "variable", "parameters", "curves"] (by decide) rfl ?_
  unfold toEntries
  simp only [List.forall_mem_cons, List.not_mem_nil, false_imp_iff, implies_true, and_true]
  exact ⟨.float _, .float _, .int _, .text _, hparameters, hcurves⟩

theorem nodup_of_ofEntries {entries : List (Value × Value)} {c : PlotConfig}
    (h : ofEntries entries = .ok c) : (c.parameters.map Prod.fst).Nodup := by
  rw [ofEntries_eq] at h
  obtain ⟨curves, -, h⟩ := Attempt.bind_eq_ok.mp h
  obtain ⟨parameters, hparameters, h⟩ := Attempt.bind_eq_ok.mp h
  obtain ⟨start, -, h⟩ := Attempt.bind_eq_ok.mp h
  obtain ⟨stop, -, h⟩ := Attempt.bind_eq_ok.mp h
  obtain ⟨count, -, h⟩ := Attempt.bind_eq_ok.mp h
  obtain ⟨swept, -, h⟩ := Attempt.bind_eq_ok.mp h
  cases h
  exact nodup_of_parameterEntries hparameters

/-- Configurations survive being written. Where no two parameters have one name, a configuration is
read back from the entries that it is written as, with its parameters in their order. These are
plain data; so a configuration that is written to a file is read back from it, whatever the format
is, as long as what the format writes of plain data is read as these data again. A configuration
that has been read from any entries is one of these, and reading it once more changes nothing. -/
theorem survives_writing (c : PlotConfig) :
    ((c.parameters.map Prod.fst).Nodup → ofEntries c.toEntries = .ok c ∧
      Value.Plain (.mapping c.toEntries) ∧
      ∀ (format : DataFormat) path, format.load (format.dump c.toEntries) =
          .ok (.mapping c.toEntries) →
        ofFile format path (some (c.toFile format)) = .ok c) ∧
    ∀ entries, ofEntries entries = .ok c →
      (c.parameters.map Prod.fst).Nodup ∧ ofEntries c.toEntries = .ok c := by
  constructor
  · intro hc
    refine ⟨ofEntries_toEntries hc, plain_toEntries hc, fun format path hread ↦ ?_⟩
    unfold ofFile toFile
    dsimp only
    rw [hread]
    change (ofEntries c.toEntries).mapError _ = _
    rw [ofEntries_toEntries hc]
    rfl
  · intro entries h
    exact ⟨nodup_of_ofEntries h, ofEntries_toEntries (nodup_of_ofEntries h)⟩

/-- Parameters not in alphabetical order, one of them without a name, and a curve of which nothing
is as it is by default. -/
def unsorted : PlotConfig where
  range := ⟨-2.5, 1.5, 12⟩
  swept := "t"
  parameters := [("b", "1"), ("a", "2*b"), ("", "")]
  curves := [{ formula := "a*t - b", derivative := true, integral := true, integralStart := 0.5 }]

theorem load_unsorted : Yaml.format.load (Yaml.format.dump unsorted.toEntries) =
    .ok (.mapping unsorted.toEntries) :=
  DataFormat.load_eq_of_alike (by decide +kernel)

theorem survives_writing_unsorted :
    (unsorted.parameters.map Prod.fst).Nodup ∧ ofEntries unsorted.toEntries = .ok unsorted ∧
      ofFile Yaml.format "plot" (some (unsorted.toFile Yaml.format)) = .ok unsorted := by
  have hnames : (unsorted.parameters.map Prod.fst).Nodup := by decide
  obtain ⟨hentries, -, hfile⟩ := (survives_writing unsorted).1 hnames
  exact ⟨hnames, hentries, hfile Yaml.format "plot" load_unsorted⟩

end PlotConfig

end CurveCalc
