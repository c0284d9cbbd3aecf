import CurveCalc.Plot.Records
import CurveCalc.Proofs.Entries
import CurveCalc.Proofs.Sampling.Points
import Mathlib.Algebra.Group.Int.Defs

/-!
The records of a configuration. At a point of a curve the swept variable has the coordinate of the
point, and every other variable its binding, or else the value of its parameter, or else zero
(`PlotConfig.valueAt`); a curve is undefined where its formula has no value with these
(`PlotConfig.pointAt`). The values with which a curve is run are put together from several mappings
and a slot for the swept variable that changes from point to point; that they are these, whatever
the point and the curve, is `PlotConfig.pointAt_eq`. So the record of a curve depends on no other
curve (`PlotConfig.records_ok`), and not on what is given to the swept variable
(`PlotConfig.records_congr`).
-/

set_option autoImplicit false
set_option relaxedAutoImplicit false

namespace CurveCalc

/-! The parameters of a configuration. -/

section Parameters

variable {t : Toolchain}

theorem parameterValues_cons_ok {p : String × String} {x : Float} (h : t.constant p.2 = .ok x)
    (parameters : Entries String String) : parameterValues (t.parameters (p :: parameters)) =
      (parameterValues (t.parameters parameters)).map fun values ↦ (p.1, x) :: values := by
  rw [Toolchain.parameters, List.map_cons, parameterValues, h]
  rfl

theorem parameterValues_cons_error {p : String × String} {e : FormulaError}
    (h : t.constant p.2 = .error e) (parameters : Entries String String) :
    parameterValues (t.parameters (p :: parameters)) = .error (.parameter p.1 p.2 e) := by
  rw [Toolchain.parameters, List.map_cons, parameterValues, h]

theorem parameterValues_ok {parameters : Entries String String}
    (h : ∀ p ∈ parameters, ∃ x, t.constant p.2 = .ok x) :
    ∃ values, parameterValues (t.parameters parameters) = .ok values := by
  induction parameters with
  | nil => exact ⟨[], rfl⟩
  | cons p parameters ih =>
    obtain ⟨x, hx⟩ := h p List.mem_cons_self
    obtain ⟨values, hvalues⟩ := ih fun q hq ↦ h q (List.mem_cons_of_mem p hq)
    rw [parameterValues_cons_ok hx, hvalues]
    exact ⟨(p.1, x) :: values, rfl⟩

theorem constant_of_parameterValues {parameters : Entries String String} {values : Bindings}
    (h : parameterValues (t.parameters parameters) = .ok values) :
    ∀ p ∈ parameters, ∃ x, t.constant p.2 = .ok x := by
  induction parameters generalizing values with
  | nil => exact List.forall_mem_nil _
  | cons p parameters ih =>
    cases hx : t.constant p.2 with
    | error e =>
      rw [parameterValues_cons_error hx] at h
      cases h
    | ok x =>
      rw [parameterValues_cons_ok hx] at h
      obtain ⟨rest, hrest, -⟩ := Attempt.map_eq_ok.mp h
      exact List.forall_mem_cons.mpr ⟨⟨x, hx⟩, ih hrest⟩

/-- The first parameter without a value is the one that is reported. -/
theorem parameterValues_error {before : Entries String String} {name formula : String}
    {e : FormulaError} (hbefore : ∀ p ∈ before, ∃ x, t.constant p.2 = .ok x)
    (h : t.constant formula = .error e) (after : Entries String String) :
    parameterValues (t.parameters (before ++ (name, formula) :: after)) =
      .error (.parameter name formula e) := by
  induction before with
  | nil => exact parameterValues_cons_error (p := (name, formula)) h after
  | cons p before ih =>
    obtain ⟨x, hx⟩ := hbefore p List.mem_cons_self
    rw [List.cons_append, parameterValues_cons_ok hx,
      ih fun q hq ↦ hbefore q (List.mem_cons_of_mem p hq)]
    rfl

theorem parameter_of_parameterValues {parameters : Entries String String} {e : PlotError}
    (h : parameterValues (t.parameters parameters) = .error e) :
    ∃ name formula cause, e = .parameter name formula cause := by
  induction parameters with
  | nil => cases h
  | cons p parameters ih =>
    cases hx : t.constant p.2 with
    | error cause =>
      rw [parameterValues_cons_error hx] at h
      exact ⟨p.1, p.2, cause, (Except.error.inj h).symm⟩
    | ok x =>
      rw [parameterValues_cons_ok hx] at h
      cases hrest : parameterValues (t.parameters parameters) with
      | error e' =>
        rw [hrest] at h
        cases h
        exact ih hrest
      | ok values =>
        rw [hrest] at h
        cases h

theorem get?_parameterValues {parameters : Entries String String} {values : Bindings}
    (h : parameterValues (t.parameters parameters) = .ok values) (name : String) :
    values.get? name =
      (parameters.get? name).bind fun formula ↦ (t.constant formula).toOption := by
  induction parameters generalizing values with
  | nil =>
    cases h
    rfl
  | cons p parameters ih =>
    cases hx : t.constant p.2 with
    | error e =>
      rw [parameterValues_cons_error hx] at h
      cases h
    | ok x =>
      rw [parameterValues_cons_ok hx] at h
      obtain ⟨rest, hrest, rfl⟩ := Attempt.map_eq_ok.mp h
      rw [Entries.get?_cons, Entries.get?_cons]
      by_cases hname : name = p.1
      · rw [if_pos hname, if_pos hname, Option.bind_some, hx]
        rfl
      · rw [if_neg hname, if_neg hname, ih hrest]

end Parameters

namespace PlotConfig

/-- The value of a variable at a point: the coordinate for the swept one, and for the others what
they are bound to, or else the value of the parameter of that name, or else zero. -/
def valueAt (c : PlotConfig) (t : Toolchain) (bindings : Bindings) (x : Float) (name : String) :
    Float :=
  if name = c.swept then x
  else (bindings.get? name).getD
    (((c.parameters.get? name).bind fun formula ↦ (t.constant formula).toOption).getD 0.0)

/-- The point of a formula at a coordinate. -/
def pointAt (c : PlotConfig) (t : Toolchain) (bindings : Bindings) (formula : String) (x : Float) :
    Point :=
  (x, (t.evaluate formula ((writtenNames formula).map fun name ↦
    (name, c.valueAt t bindings x name))).toOption.getD Arithmetic.undefined)

/-- The coordinates at which curves are sampled, with the number of intervals as a double. -/
def coordinates (c : PlotConfig) (intervals : Float) : List Float :=
  (List.range (c.range.count.toNat + 1)).map
    (gridPoint c.range.start ((c.range.stop - c.range.start) / intervals))

variable {c : PlotConfig} {t : Toolchain} {bindings values : Bindings}

theorem get?_environment (hbindings : (bindings.map Prod.fst).Nodup)
    (h : c.environment t bindings = .ok values) (name : String) :
    values.get? name = (bindings.get? name).or
      ((c.parameters.get? name).bind fun formula ↦ (t.constant formula).toOption) := by
  obtain ⟨constants, hconstants, rfl⟩ := Attempt.map_eq_ok.mp h
  rw [Entries.get?_update hbindings, get?_parameterValues hconstants]

/-- Running the program of a formula at a coordinate gives the point of the formula. -/
theorem pointAt_eq (hfolding : t.folding = true) (hbindings : (bindings.map Prod.fst).Nodup)
    (hvalues : c.environment t bindings = .ok values) {formula : String} {p : Program Float}
    (hp : t.compileFolded formula = .ok p) (x : Float) :
    (x, (p.run ((sampleValues p.names c.swept values).at x) t.stackSize).toOption.getD
      Arithmetic.undefined) = c.pointAt t bindings formula x := by
  have hnames := (Toolchain.reads_of_compileFolded hp).names
  have hsampled : (sampleValues p.names c.swept values).at x =
      p.names.map (c.valueAt t bindings x) := by
    rw [sampleValues_at (hnames ▸ nodup_eraseDups _)]
    refine List.map_congr_left fun name _ ↦ ?_
    unfold valueAt
    rw [get?_environment hbindings hvalues, Option.getD_or]
    rfl
  have hbound : p.bind ((writtenNames formula).map fun name ↦
      (name, c.valueAt t bindings x name)) = p.names.map (c.valueAt t bindings x) := by
    refine bindNames_eq_map fun name hname ↦ Entries.get?_of_names _ ?_
    rwa [hnames, List.mem_eraseDups] at hname
  have hprogram : t.programOf formula = .ok p := (if_pos hfolding).trans hp
  unfold pointAt
  rw [Toolchain.evaluate_of_programOf hprogram, hbound, hsampled]
  cases p.run (p.names.map (c.valueAt t bindings x)) t.stackSize <;> rfl

end PlotConfig

/-- A record tells of a curve what the configuration makes of it: why its formula has no program, or
one point for each coordinate. -/
structure Record.Shows (r : Record) (c : PlotConfig) (t : Toolchain) (bindings : Bindings)
    (curve : Curve) : Prop where
  formula : r.formula = curve.formula
  failed : ∀ e, t.compileFolded curve.formula = .error e →
    r.error.map CurveError.text = some e.text ∧ r.points = []
  sampled : ∀ p, t.compileFolded curve.formula = .ok p →
    ∃ n, Number.floatOfInt? c.range.count = some n ∧
      r.points = (c.coordinates n).map (c.pointAt t bindings curve.formula)

namespace PlotConfig

variable {c : PlotConfig} {t : Toolchain} {bindings values : Bindings}

/-- What can come of a curve: a record that shows it, unless it has to be sampled and the number of
intervals is beyond the doubles. -/
theorem record_cases (hcount : 1 ≤ c.range.count) (hfolding : t.folding = true)
    (hbindings : (bindings.map Prod.fst).Nodup) (hvalues : c.environment t bindings = .ok values)
    (curve : Curve) :
    (∃ r, c.record t values curve = .ok r ∧ r.Shows c t bindings curve) ∨
    (Number.floatOfInt? c.range.count = none ∧ (∃ p, t.compileFolded curve.formula = .ok p) ∧
      c.record t values curve = .error (.grid .countTooLarge)) := by
  unfold record
  cases hp : t.compileFolded curve.formula with
  | error e =>
    refine Or.inl ⟨_, rfl, rfl, ?_, ?_⟩
    · intro e' he'
      rw [hp] at he'
      cases he'
      exact ⟨rfl, rfl⟩
    · intro p hp'
      rw [hp] at hp'
      cases hp'
  | ok p =>
    dsimp only
    cases hn : Number.floatOfInt? c.range.count with
    | none =>
      rw [Program.sample, Range.grid_error hcount hn]
      exact Or.inr ⟨rfl, ⟨p, rfl⟩, rfl⟩
    | some n =>
      obtain ⟨s, hs, hshows⟩ :=
        p.sample_shows (Range.grid_eq hcount hn) t.stackSize c.swept values
      rw [hs]
      refine Or.inl ⟨_, rfl, rfl, ?_, ?_⟩
      · intro e he
        rw [hp] at he
        cases he
      · intro q _
        refine ⟨n, hn, hshows.points.trans ?_⟩
        exact List.map_congr_left fun x _ ↦ pointAt_eq hfolding hbindings hvalues hp x

/-- Of the values of the variables a record depends on those only that are not swept. -/
theorem record_congr {c' : PlotConfig} {values' : Bindings} (hrange : c'.range = c.range)
    (hswept : c'.swept = c.swept)
    (hvalues : ∀ name ≠ c.swept, values'.get? name = values.get? name) (curve : Curve) :
    c'.record t values' curve = c.record t values curve := by
  have hsample : ∀ names,
      sampleValues names c.swept values' = sampleValues names c.swept values := by
    intro names
    unfold sampleValues
    congr 1
    refine List.map_congr_left fun name _ ↦ ?_
    by_cases hname : name = c.swept
    · rw [if_pos hname, if_pos hname]
    · rw [if_neg hname, if_neg hname, hvalues name hname]
  unfold record Program.sample
  simp only [hrange, hswept, hsample]

theorem records_eq (hvalues : c.environment t bindings = .ok values) :
    c.records t bindings = c.curves.mapM (c.record t values) := by
  unfold records
  rw [hvalues]
  rfl

theorem environment_ok (bindings : Bindings)
    (h : ∀ p ∈ c.parameters, ∃ x, t.constant p.2 = .ok x) :
    ∃ values, c.environment t bindings = .ok values := by
  obtain ⟨constants, hconstants⟩ := parameterValues_ok h
  unfold environment
  rw [hconstants]
  exact ⟨_, rfl⟩

theorem valued_of_environment (h : c.environment t bindings = .ok values) :
    ∀ p ∈ c.parameters, ∃ x, t.constant p.2 = .ok x := by
  obtain ⟨constants, hconstants, -⟩ := Attempt.map_eq_ok.mp h
  exact constant_of_parameterValues hconstants

/-- Parameters without a value are told before the range is found to be too fine. -/
theorem valued_of_records {e : GridError} (h : c.records t bindings = .error (.grid e)) :
    ∀ p ∈ c.parameters, ∃ x, t.constant p.2 = .ok x := by
  cases hvalues : c.environment t bindings with
  | ok values => exact valued_of_environment hvalues
  | error e' =>
    unfold records at h
    rw [hvalues] at h
    cases h
    unfold environment at hvalues
    cases hconstants : parameterValues (t.parameters c.parameters) with
    | ok constants =>
      rw [hconstants] at hvalues
      cases hvalues
    | error e'' =>
      obtain ⟨name, formula, cause, rfl⟩ := parameter_of_parameterValues hconstants
      rw [hconstants] at hvalues
      cases hvalues

/-- The number of intervals is beyond the doubles, and there is a curve that has to be sampled. -/
def TooFine (c : PlotConfig) (t : Toolchain) : Prop :=
  Number.floatOfInt? c.range.count = none ∧
    ∃ curve ∈ c.curves, ∃ p, t.compileFolded curve.formula = .ok p

theorem records_error (hcount : 1 ≤ c.range.count) (hfolding : t.folding = true)
    (hbindings : (bindings.map Prod.fst).Nodup)
    (hparameters : ∀ p ∈ c.parameters, ∃ x, t.constant p.2 = .ok x) (hfine : c.TooFine t) :
    c.records t bindings = .error (.grid .countTooLarge) := by
  obtain ⟨values, hvalues⟩ := environment_ok bindings hparameters
  rw [records_eq hvalues]
  obtain ⟨hn, curve, hcurve, p, hp⟩ := hfine
  refine Attempt.mapM_error (fun other _ ↦ ?_) ⟨curve, hcurve, ?_⟩
  · rcases record_cases hcount hfolding hbindings hvalues other with ⟨r, hr, -⟩ | ⟨-, -, he⟩
    · exact Or.inl ⟨r, hr⟩
    · exact Or.inr he
  · rcases record_cases hcount hfolding hbindings hvalues curve with ⟨r, -, hshows⟩ | ⟨-, -, he⟩
    · obtain ⟨n, hsome, -⟩ := hshows.sampled p hp
      rw [hn] at hsome
      cases hsome
    · exact he

theorem records_ok (hcount : 1 ≤ c.range.count) (hfolding : t.folding = true)
    (hbindings : (bindings.map Prod.fst).Nodup)
    (hparameters : ∀ p ∈ c.parameters, ∃ x, t.constant p.2 = .ok x) (hfine : ¬ c.TooFine t) :
    ∃ rs, c.records t bindings = .ok rs ∧ List.Forall₂ (fun curve r ↦
      { c with curves := [curve] }.records t bindings = .ok [r] ∧ r.Shows c t bindings curve)
        c.curves rs := by
  obtain ⟨values, hvalues⟩ := environment_ok bindings hparameters
  have hshown : ∀ curve ∈ c.curves,
      ∃ r, c.record t values curve = .ok r ∧ r.Shows c t bindings curve := by
    intro curve hcurve
    rcases record_cases hcount hfolding hbindings hvalues curve with hr | ⟨hn, hp, -⟩
    · exact hr
    · exact absurd ⟨hn, curve, hcurve, hp⟩ hfine
  obtain ⟨rs, hrs, hall⟩ := Attempt.mapM_ok hshown
  refine ⟨rs, (records_eq hvalues).trans hrs, hall.imp ?_⟩
  rintro curve r ⟨hr, hshows⟩
  refine ⟨?_, hshows⟩
  have halone : { c with curves := [curve] }.environment t bindings = .ok values := hvalues
  rw [records_eq halone, List.mapM_cons]
  change (c.record t values curve).bind _ = _
  rw [hr]
  rfl

/-- Configurations that differ only in what they give to the swept variable have the same records.
-/
theorem records_congr {c' : PlotConfig} {bindings' : Bindings}
    (hbindings : (bindings.map Prod.fst).Nodup) (hbindings' : (bindings'.map Prod.fst).Nodup)
    (hrange : c'.range = c.range) (hswept : c'.swept = c.swept) (hcurves : c'.curves = c.curves)
    (hagree : ∀ name ≠ c.swept, c'.parameters.get? name = c.parameters.get? name ∧
      bindings'.get? name = bindings.get? name)
    {rs rs' : List Record} (hrs : c.records t bindings = .ok rs)
    (hrs' : c'.records t bindings' = .ok rs') : rs' = rs := by
  obtain ⟨values, hvalues, hrecords⟩ := Attempt.bind_eq_ok.mp hrs
  obtain ⟨values', hvalues', hrecords'⟩ := Attempt.bind_eq_ok.mp hrs'
  have hcongr : c'.record t values' = c.record t values := by
    refine funext (record_congr hrange hswept fun name hname ↦ ?_)
    rw [get?_environment hbindings hvalues, get?_environment hbindings' hvalues',
      (hagree name hname).1, (hagree name hname).2]
  rw [hcongr, hcurves, hrecords] at hrecords'
  exact (Except.ok.inj hrecords').symm

/-- Everything that can come of a configuration with one interval at least, and of bindings with a
value for each name at most. The first parameter without a value is reported. Where all have one,
there is one record for each curve, in order, as if the curve was the only one: with what is wrong
with the formula, or with a point for each coordinate, at which the variables have the values of
`valueAt`. Only where the number of intervals is beyond the doubles, and some curve has to be
sampled, there are no records. What is given to the swept variable, by a parameter or a binding,
has no part in any of them. -/
theorem records_curves (c : PlotConfig) (bindings : Bindings) (hcount : 1 ≤ c.range.count)
    (hbindings : (bindings.map Prod.fst).Nodup) :
    (∀ before name formula after e, c.parameters = before ++ (name, formula) :: after →
      (∀ p ∈ before, ∃ x, Toolchain.constant {} p.2 = .ok x) →
      Toolchain.constant {} formula = .error e →
      c.records {} bindings = .error (.parameter name formula e)) ∧
    ((∀ p ∈ c.parameters, ∃ x, Toolchain.constant {} p.2 = .ok x) →
      (c.TooFine {} → c.records {} bindings = .error (.grid .countTooLarge)) ∧
      (¬ c.TooFine {} → ∃ rs, c.records {} bindings = .ok rs ∧ List.Forall₂ (fun curve r ↦
        { c with curves := [curve] }.records {} bindings = .ok [r] ∧
          r.Shows c {} bindings curve) c.curves rs)) ∧
    ∀ (c' : PlotConfig) (bindings' : Bindings), (bindings'.map Prod.fst).Nodup →
      c'.range = c.range → c'.swept = c.swept → c'.curves = c.curves →
      (∀ name ≠ c.swept, c'.parameters.get? name = c.parameters.get? name ∧
        bindings'.get? name = bindings.get? name) →
      ∀ rs rs', c.records {} bindings = .ok rs → c'.records {} bindings' = .ok rs' → rs' = rs := by
  refine ⟨?_, ?_, ?_⟩
  · intro before name formula after e hsplit hbefore he
    unfold records environment
    rw [hsplit, parameterValues_error hbefore he]
    rfl
  · intro hparameters
    exact ⟨records_error hcount rfl hbindings hparameters,
      records_ok hcount rfl hbindings hparameters⟩
  · intro c' bindings' hbindings' hrange hswept hcurves hagree rs rs' hrs hrs'
    exact records_congr hbindings hbindings' hrange hswept hcurves hagree hrs hrs'

/-- The configuration to begin with, with a value for one of its parameters and one for `x`. -/
theorem records_curves_sample :
    ∃ rs, PlotConfig.sample.records {} [("k", 1.0), ("x", 5.0)] = .ok rs ∧
      List.Forall₂ (fun curve r ↦
        { PlotConfig.sample with curves := [curve] }.records {} [("k", 1.0), ("x", 5.0)] = .ok [r] ∧
          r.Shows PlotConfig.sample {} [("k", 1.0), ("x", 5.0)] curve)
        PlotConfig.sample.curves rs := by
  let two : Constant := .numeral (.whole ⟨['2'], by decide, List.forall_mem_singleton.mpr rfl⟩)
  let four : Constant := .numeral (.whole ⟨['4'], by decide, List.forall_mem_singleton.mpr rfl⟩)
  let a : Expression Constant VariableName := .constant two
  let k : Expression Constant VariableName :=
    .binary .divide (.constant (.named .pi)) (.constant four)
  have ha : CurveCalc.compile 100 "2" = .ok a.written.program :=
    compile_of_text a (by decide) (by decide) (by decide)
  have hk : CurveCalc.compile 100 "pi/4" = .ok k.written.program :=
    compile_of_text k (by decide) (by decide) (by decide)
  have hparameters : ∀ p ∈ PlotConfig.sample.parameters,
      ∃ x, Toolchain.constant {} p.2 = .ok x := by
    refine List.forall_mem_cons.mpr ⟨⟨2.0, ?_⟩,
      List.forall_mem_singleton.mpr ⟨NamedConstant.pi.toFloat / 4.0, ?_⟩⟩
    · unfold Toolchain.constant Toolchain.compileFolded Toolchain.compile
      rw [ha]
      rfl
    · unfold Toolchain.constant Toolchain.compileFolded Toolchain.compile
      rw [hk]
      rfl
  have hfine : ¬ PlotConfig.sample.TooFine {} := by
    rintro ⟨hn, -⟩
    cases hn
  exact ((records_curves PlotConfig.sample [("k", 1.0), ("x", 5.0)] (by decide) (by decide)).2.1
    hparameters).2 hfine

/-- A curve that has to be sampled, and a number of intervals that is beyond the doubles. -/
theorem records_vast :
    (1 : Int) ≤ 10 ^ 400 ∧
    PlotConfig.records { range := ⟨0.0, 1.0, 10 ^ 400⟩, curves := [{ formula := "1" }] } {} [] =
      .error (.grid .countTooLarge) ∧
    ¬ ∃ rs, PlotConfig.records
      { range := ⟨0.0, 1.0, 10 ^ 400⟩, curves := [{ formula := "1" }] } {} [] = .ok rs := by
  have hcount : (1 : Int) ≤ 10 ^ 400 := by decide +kernel
  have hlarge : Number.floatOfInt? (10 ^ 400) = none := by decide +kernel
  have herror : PlotConfig.records
      { range := ⟨0.0, 1.0, 10 ^ 400⟩, curves := [{ formula := "1" }] } {} [] =
      .error (.grid .countTooLarge) :=
    records_error hcount rfl List.nodup_nil (List.forall_mem_nil _)
      ⟨hlarge, _, List.mem_singleton_self _, _, Toolchain.compileFolded_one⟩
  refine ⟨hcount, herror, ?_⟩
  rintro ⟨rs, hrs⟩
  rw [herror] at hrs
  cases hrs

end PlotConfig

end CurveCalc
