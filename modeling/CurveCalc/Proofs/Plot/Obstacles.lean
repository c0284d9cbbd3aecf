import CurveCalc.Plot.Config
import CurveCalc.Proofs.Code.WellFormed

/-!
What data keeps a configuration from being read without a word. Most of what can be wrong with a
value is told by a message; but a value of a kind that is not converted, a value that is no mapping
where one is needed, and a number beyond the range of the doubles are not. Which data comes to that
is an `Obstacle`: the first value that cannot be read is one of these
(`PlotConfig.ofEntries_eq_error`).
-/

set_option autoImplicit false
set_option relaxedAutoImplicit false

namespace CurveCalc

namespace Value

/-! Any value can be written as text, but for whole numbers that are too long. -/

mutual

theorem shownWithin_ends (around : List (Nat × String)) : ∀ v : Value,
    Ends (fun e ↦ e = .tooManyDigits none) (fun _ ↦ True) (v.shownWithin around)
  | null => trivial
  | bool _ => trivial
  | int n => by
    rw [shownWithin]
    cases Number.intText? n with
    | none => exact rfl
    | some digits => trivial
  | float _ => trivial
  | text _ => trivial
  | bytes _ => trivial
  | day _ => trivial
  | moment _ => trivial
  | list items => by
    rw [shownWithin]
    exact (shownItems_ends around items).bind fun _ _ ↦ trivial
  | pair first second => by
    rw [shownWithin]
    exact (shownWithin_ends around first).bind fun _ _ ↦
      (shownWithin_ends around second).bind fun _ _ ↦ trivial
  | set items => by
    rw [shownWithin]
    split
    · trivial
    · exact (shownItems_ends around items).bind fun _ _ ↦ trivial
  | mapping entries => by
    rw [shownWithin]
    exact (shownEntries_ends around entries).bind fun _ _ ↦ trivial
  | knot label v => by
    rw [shownWithin]
    split
    · trivial
    · exact shownWithin_ends _ v
  | back _ => trivial

theorem shownItems_ends (around : List (Nat × String)) : ∀ items : List Value,
    Ends (fun e ↦ e = .tooManyDigits none) (fun _ ↦ True) (shownItems around items)
  | [] => trivial
  | v :: rest => by
    rw [shownItems]
    exact (shownWithin_ends around v).bind fun _ _ ↦
      (shownItems_ends around rest).bind fun _ _ ↦ trivial

theorem shownEntries_ends (around : List (Nat × String)) : ∀ entries : List (Value × Value),
    Ends (fun e ↦ e = .tooManyDigits none) (fun _ ↦ True) (shownEntries around entries)
  | [] => trivial
  | (k, v) :: rest => by
    rw [shownEntries]
    exact (shownWithin_ends around k).bind fun _ _ ↦ (shownWithin_ends around v).bind fun _ _ ↦
      (shownEntries_ends around rest).bind fun _ _ ↦ trivial

end

theorem toText_ends (v : Value) :
    Ends (fun e ↦ e = .tooManyDigits none) (fun _ ↦ True) v.toText := by
  unfold toText
  split
  · trivial
  · trivial
  · trivial
  · exact shownWithin_ends [] v

theorem toText_told (v : Value) {e : ValueError} (he : e.message? = none) :
    v.toText ≠ .error e := by
  intro h
  have hends := toText_ends v
  rw [h] at hends
  obtain rfl : e = .tooManyDigits none := hends
  cases he

/-! Numbers. -/

/-- Whether a value is of a kind that is read as a number, if what it says is one. -/
def isNumeric : Value → Bool
  | bool _ | int _ | float _ | text _ | bytes _ => true
  | _ => false

/-- Why a value is not read as a double, where nothing is said of it. -/
inductive FloatObstacle : Value → ValueError → Prop
  | kind {v : Value} (h : v.isNumeric = false) : FloatObstacle v .wrongType
  | range {n : Int} (h : Number.floatOfInt? n = none) : FloatObstacle (int n) .outOfRange

/-- Why a value is not read as a whole number, where nothing is said of it. -/
inductive IntObstacle : Value → ValueError → Prop
  | kind {v : Value} (h : v.isNumeric = false) : IntObstacle v .wrongType
  | range {x : Float} {negative : Bool} (h : Number.Binary.ofFloat x = .infinite negative) :
    IntObstacle (float x) .outOfRange

theorem FloatObstacle.cause {v : Value} {e : ValueError} (h : FloatObstacle v e) :
    e = .wrongType ∨ e = .outOfRange := by
  cases h
  · exact Or.inl rfl
  · exact Or.inr rfl

theorem IntObstacle.cause {v : Value} {e : ValueError} (h : IntObstacle v e) :
    e = .wrongType ∨ e = .outOfRange := by
  cases h
  · exact Or.inl rfl
  · exact Or.inr rfl

theorem floatOfText_told {shown text : String} {e : ValueError} (he : e.message? = none) :
    floatOfText shown text ≠ .error e := by
  unfold floatOfText
  split
  · exact nofun
  · rintro ⟨⟩
    cases he

theorem intOfText_told {base : Nat} {shown text : String} {e : ValueError}
    (he : e.message? = none) : intOfText base shown text ≠ .error e := by
  unfold intOfText
  split
  · exact nofun
  · rintro ⟨⟩
    cases he
  · rintro ⟨⟩
    cases he

theorem toFloat_of_not_numeric {v : Value} (h : v.isNumeric = false) :
    v.toFloat = .error .wrongType := by
  cases v with
  | bool | int | float | text | bytes => cases h
  | _ => rfl

theorem toInt_of_not_numeric {v : Value} (h : v.isNumeric = false) :
    v.toInt = .error .wrongType := by
  cases v with
  | bool | int | float | text | bytes => cases h
  | _ => rfl

theorem toFloat_text (s : String) : (text s).toFloat = floatOfText (Text.quoted s) s := rfl

theorem toFloat_bytes (b : Bytes) : (bytes b).toFloat = floatOfText b.shown b.toText := rfl

theorem toInt_text (s : String) : (text s).toInt = intOfText 10 (Text.quoted s) s := rfl

theorem toInt_bytes (b : Bytes) : (bytes b).toInt = intOfText 10 b.shown b.toText := rfl

theorem toFloat_int_eq_error {n : Int} {e : ValueError} :
    (int n).toFloat = .error e ↔ Number.floatOfInt? n = none ∧ e = .outOfRange := by
  rw [toFloat]
  cases Number.floatOfInt? n with
  | some x => exact ⟨nofun, nofun⟩
  | none => exact ⟨fun h ↦ ⟨rfl, (Except.error.inj h).symm⟩, fun h ↦ congrArg _ h.2.symm⟩

theorem toInt_float_eq_error {x : Float} {e : ValueError} (he : e.message? = none) :
    (float x).toInt = .error e ↔
      (∃ negative, Number.Binary.ofFloat x = .infinite negative) ∧ e = .outOfRange := by
  rw [toInt]
  cases Number.Binary.ofFloat x with
  | nan =>
    refine ⟨fun h ↦ ?_, fun ⟨⟨_, h⟩, _⟩ ↦ nomatch h⟩
    cases h
    cases he
  | infinite negative =>
    exact ⟨fun h ↦ ⟨⟨negative, rfl⟩, (Except.error.inj h).symm⟩, fun h ↦ congrArg _ h.2.symm⟩
  | finite negative significand exponent => exact ⟨nofun, fun ⟨⟨_, h⟩, _⟩ ↦ nomatch h⟩

theorem toFloat_eq_error {v : Value} {e : ValueError} (he : e.message? = none) :
    v.toFloat = .error e ↔ FloatObstacle v e := by
  constructor
  · intro h
    by_cases hnumeric : v.isNumeric = true
    · cases v with
      | float x => cases h
      | bool b => cases h
      | int n =>
        obtain ⟨hn, rfl⟩ := toFloat_int_eq_error.mp h
        exact .range hn
      | text s => exact absurd ((toFloat_text s).symm.trans h) (floatOfText_told he)
      | bytes b => exact absurd ((toFloat_bytes b).symm.trans h) (floatOfText_told he)
      | _ => cases hnumeric
    · rw [toFloat_of_not_numeric (Bool.eq_false_iff.mpr hnumeric)] at h
      cases h
      exact .kind (Bool.eq_false_iff.mpr hnumeric)
  · rintro (h | h)
    · exact toFloat_of_not_numeric h
    · exact toFloat_int_eq_error.mpr ⟨h, rfl⟩

theorem toInt_eq_error {v : Value} {e : ValueError} (he : e.message? = none) :
    v.toInt = .error e ↔ IntObstacle v e := by
  constructor
  · intro h
    by_cases hnumeric : v.isNumeric = true
    · cases v with
      | int n => cases h
      | bool b => cases h
      | float x =>
        obtain ⟨⟨negative, hx⟩, rfl⟩ := (toInt_float_eq_error he).mp h
        exact .range hx
      | text s => exact absurd ((toInt_text s).symm.trans h) (intOfText_told he)
      | bytes b => exact absurd ((toInt_bytes b).symm.trans h) (intOfText_told he)
      | _ => cases hnumeric
    · rw [toInt_of_not_numeric (Bool.eq_false_iff.mpr hnumeric)] at h
      cases h
      exact .kind (Bool.eq_false_iff.mpr hnumeric)
  · rintro (h | h)
    · exact toInt_of_not_numeric h
    · exact (toInt_float_eq_error he).mpr ⟨⟨_, h⟩, rfl⟩

/-- The value of a name in a mapping, or what stands for it where there is none. -/
def field (entries : List (Value × Value)) (name : String) (default : Value) : Value :=
  (lookup? entries name).getD default

/-- Whether a value is of a kind that has parts, which can be gone through one after the other. -/
def isIterable : Value → Bool
  | text _ | bytes _ | list _ | pair _ _ | set _ | mapping _ => true
  | _ => false

end Value

open Value

/-- Why a value is not read as a curve, where nothing is said of it: it is neither a formula nor a
mapping, or its integral starts at no number. -/
inductive CurveObstacle (v : Value) : ValueError → Prop
  | kind (htext : ∀ s, v.unfold ≠ .text s) (hmapping : ∀ entries, v.unfold ≠ .mapping entries) :
    CurveObstacle v .notAMapping
  | integralStart {entries : List (Value × Value)} {formula : String} {e : ValueError}
    (hv : v.unfold = .mapping entries)
    (hformula : (field entries "formula" (.text "")).toText = .ok formula)
    (h : FloatObstacle (field entries "integral_start" (.float 0.0)) e) : CurveObstacle v e

theorem Curve.ofValue_mapping {v : Value} {entries : List (Value × Value)}
    (hv : v.unfold = .mapping entries) :
    Curve.ofValue v = (field entries "formula" (.text "")).toText.bind fun formula ↦
      (field entries "integral_start" (.float 0.0)).toFloat.bind fun integralStart ↦
        .ok { formula, derivative := (field entries "derivative" (.bool false)).truth,
              integral := (field entries "integral" (.bool false)).truth, integralStart } := by
  unfold Curve.ofValue
  rw [hv]
  rfl

theorem Curve.ofValue_text {v : Value} {s : String} (hv : v.unfold = .text s) :
    Curve.ofValue v = .ok { formula := s } := by
  unfold Curve.ofValue
  rw [hv]

theorem Curve.ofValue_other {v : Value} (htext : ∀ s, v.unfold ≠ .text s)
    (hmapping : ∀ entries, v.unfold ≠ .mapping entries) :
    Curve.ofValue v = .error .notAMapping := by
  unfold Curve.ofValue
  split
  next s hs => exact absurd hs (htext s)
  next entries hentries => exact absurd hentries (hmapping entries)
  next => rfl

theorem Curve.ofValue_eq_error {v : Value} {e : ValueError} (he : e.message? = none) :
    Curve.ofValue v = .error e ↔ CurveObstacle v e := by
  constructor
  · intro h
    by_cases hmapping : ∃ entries, v.unfold = .mapping entries
    · obtain ⟨entries, hv⟩ := hmapping
      rw [Curve.ofValue_mapping hv] at h
      rcases Attempt.bind_eq_error.mp h with h | ⟨formula, hformula, h⟩
      · exact absurd h (toText_told _ he)
      · rcases Attempt.bind_eq_error.mp h with h | ⟨x, -, h⟩
        · exact .integralStart hv hformula ((toFloat_eq_error he).mp h)
        · cases h
    · have hother : ∀ entries, v.unfold ≠ .mapping entries := not_exists.mp hmapping
      by_cases htext : ∃ s, v.unfold = .text s
      · obtain ⟨s, hs⟩ := htext
        rw [Curve.ofValue_text hs] at h
        cases h
      · rw [Curve.ofValue_other (not_exists.mp htext) hother] at h
        cases h
        exact .kind (not_exists.mp htext) hother
  · rintro (⟨htext, hmapping⟩ | ⟨hv, hformula, h⟩)
    · exact Curve.ofValue_other htext hmapping
    · rw [Curve.ofValue_mapping hv]
      exact Attempt.bind_of_ok hformula (Attempt.bind_of_error ((toFloat_eq_error he).mpr h))

theorem curveValues_eq_error {v : Value} {e : ValueError} :
    curveValues v = .error e ↔
      v.truth = true ∧ v.unfold.isIterable = false ∧ e = .wrongType := by
  unfold curveValues
  cases htruth : v.truth with
  | false => exact ⟨nofun, nofun⟩
  | true =>
    rw [if_neg (by decide)]
    cases v.unfold with
    | text | bytes | list | pair | set | mapping => exact ⟨nofun, nofun⟩
    | _ => exact ⟨fun h ↦ ⟨rfl, rfl, (Except.error.inj h).symm⟩, fun h ↦ congrArg _ h.2.2.symm⟩

/-- Why a value is not read as a list of curves, where nothing is said of it: it has no parts, or
some part is not read as a curve. -/
inductive CurvesObstacle (v : Value) : ValueError → Prop
  | kind (htruth : v.truth = true) (h : v.unfold.isIterable = false) : CurvesObstacle v .wrongType
  | item {before after : List Value} {w : Value} {e : ValueError}
    (hitems : curveValues v = .ok (before ++ w :: after))
    (hbefore : ∀ u ∈ before, ∃ curve, Curve.ofValue u = .ok curve) (h : CurveObstacle w e) :
    CurvesObstacle v e

/-- The curves that a value stands for. -/
def readCurves (v : Value) : Except ValueError (List Curve) :=
  (curveValues v).bind fun items ↦ items.mapM Curve.ofValue

theorem readCurves_eq_error {v : Value} {e : ValueError} (he : e.message? = none) :
    readCurves v = .error e ↔ CurvesObstacle v e := by
  rw [readCurves, Attempt.bind_eq_error]
  constructor
  · rintro (h | ⟨items, hitems, h⟩)
    · obtain ⟨htruth, hkind, rfl⟩ := curveValues_eq_error.mp h
      exact .kind htruth hkind
    · obtain ⟨before, w, after, rfl, hbefore, hw⟩ := Attempt.mapM_eq_error.mp h
      exact .item hitems hbefore ((Curve.ofValue_eq_error he).mp hw)
  · rintro (⟨htruth, hkind⟩ | ⟨hitems, hbefore, h⟩)
    · exact Or.inl (curveValues_eq_error.mpr ⟨htruth, hkind, rfl⟩)
    · exact Or.inr ⟨_, hitems, Attempt.mapM_eq_error.mpr
        ⟨_, _, _, rfl, hbefore, (Curve.ofValue_eq_error he).mpr h⟩⟩

/-- Why a value is not read as parameters, where nothing is said of it. -/
inductive ParametersObstacle (v : Value) : ValueError → Prop
  | kind (htruth : v.truth = true) (h : ∀ entries, v.unfold ≠ .mapping entries) :
    ParametersObstacle v .notAMapping

theorem parameterEntries_eq_error {v : Value} {e : ValueError} (he : e.message? = none) :
    parameterEntries v = .error e ↔ ParametersObstacle v e := by
  unfold parameterEntries
  cases htruth : v.truth with
  | false => exact ⟨nofun, fun ⟨h, _⟩ ↦ nomatch htruth.symm.trans h⟩
  | true =>
    rw [if_neg (by decide)]
    split
    next entries hentries =>
      refine ⟨fun h ↦ ?_, fun ⟨_, h⟩ ↦ absurd hentries (h entries)⟩
      rcases Attempt.bind_eq_error.mp h with h | ⟨texts, -, h⟩
      · obtain ⟨-, entry, -, -, -, hentry⟩ := Attempt.mapM_eq_error.mp h
        rcases Attempt.bind_eq_error.mp hentry with h | ⟨name, -, h⟩
        · exact absurd h (toText_told _ he)
        · rcases Attempt.bind_eq_error.mp h with h | ⟨formula, -, h⟩
          · exact absurd h (toText_told _ he)
          · cases h
      · cases h
    next hother =>
      refine ⟨fun h ↦ ?_, fun ⟨_, _⟩ ↦ rfl⟩
      cases h
      exact .kind htruth hother

namespace PlotConfig

/-- Why the entries of a mapping are not read as a configuration, where nothing is said of it: one
of its parts is not read, and those before it are. -/
inductive Obstacle (entries : List (Value × Value)) : ValueError → Prop
  | curves {e : ValueError} (h : CurvesObstacle (field entries "curves" .null) e) :
    Obstacle entries e
  | parameters {e : ValueError} {curves : List Curve}
    (hcurves : readCurves (field entries "curves" .null) = .ok curves)
    (h : ParametersObstacle (field entries "parameters" .null) e) : Obstacle entries e
  | start {e : ValueError} {curves : List Curve} {parameters : Entries String String}
    (hcurves : readCurves (field entries "curves" .null) = .ok curves)
    (hparameters : parameterEntries (field entries "parameters" .null) = .ok parameters)
    (h : FloatObstacle (field entries "start" (.float 0.0)) e) : Obstacle entries e
  | stop {e : ValueError} {curves : List Curve} {parameters : Entries String String}
    {start : Float} (hcurves : readCurves (field entries "curves" .null) = .ok curves)
    (hparameters : parameterEntries (field entries "parameters" .null) = .ok parameters)
    (hstart : (field entries "start" (.float 0.0)).toFloat = .ok start)
    (h : FloatObstacle (field entries "stop" (.float 1.0)) e) : Obstacle entries e
  | count {e : ValueError} {curves : List Curve} {parameters : Entries String String}
    {start stop : Float} (hcurves : readCurves (field entries "curves" .null) = .ok curves)
    (hparameters : parameterEntries (field entries "parameters" .null) = .ok parameters)
    (hstart : (field entries "start" (.float 0.0)).toFloat = .ok start)
    (hstop : (field entries "stop" (.float 1.0)).toFloat = .ok stop)
    (h : IntObstacle (field entries "count" (.int 1000)) e) : Obstacle entries e

variable {entries : List (Value × Value)} {e : ValueError}

theorem ofEntries_eq (entries : List (Value × Value)) :
    ofEntries entries = (readCurves (field entries "curves" .null)).bind fun curves ↦
      (parameterEntries (field entries "parameters" .null)).bind fun parameters ↦
      (field entries "start" (.float 0.0)).toFloat.bind fun start ↦
      (field entries "stop" (.float 1.0)).toFloat.bind fun stop ↦
      (field entries "count" (.int 1000)).toInt.bind fun count ↦
      (field entries "variable" (.text "x")).toText.bind fun swept ↦
        .ok { range := ⟨start, stop, count⟩, swept, parameters, curves } := by
  unfold ofEntries readCurves
  change (curveValues (field entries "curves" .null)).bind _ = _
  cases curveValues (field entries "curves" .null) <;> rfl

/-- Where nothing is said of why entries are no configuration, one of their parts is an obstacle;
and an obstacle is in the way unless something else was before it. -/
theorem ofEntries_eq_error (he : e.message? = none) :
    ofEntries entries = .error e ↔ Obstacle entries e := by
  rw [ofEntries_eq]
  constructor
  · intro h
    rcases Attempt.bind_eq_error.mp h with h | ⟨curves, hcurves, h⟩
    · exact .curves ((readCurves_eq_error he).mp h)
    rcases Attempt.bind_eq_error.mp h with h | ⟨parameters, hparameters, h⟩
    · exact .parameters hcurves ((parameterEntries_eq_error he).mp h)
    rcases Attempt.bind_eq_error.mp h with h | ⟨start, hstart, h⟩
    · exact .start hcurves hparameters ((toFloat_eq_error he).mp h)
    rcases Attempt.bind_eq_error.mp h with h | ⟨stop, hstop, h⟩
    · exact .stop hcurves hparameters hstart ((toFloat_eq_error he).mp h)
    rcases Attempt.bind_eq_error.mp h with h | ⟨count, -, h⟩
    · exact .count hcurves hparameters hstart hstop ((toInt_eq_error he).mp h)
    rcases Attempt.bind_eq_error.mp h with h | ⟨swept, -, h⟩
    · exact absurd h (toText_told _ he)
    · cases h
  · intro h
    cases h with
    | curves h => exact Attempt.bind_of_error ((readCurves_eq_error he).mpr h)
    | parameters hcurves h =>
      exact Attempt.bind_of_ok hcurves
        (Attempt.bind_of_error ((parameterEntries_eq_error he).mpr h))
    | start hcurves hparameters h =>
      exact Attempt.bind_of_ok hcurves (Attempt.bind_of_ok hparameters
        (Attempt.bind_of_error ((toFloat_eq_error he).mpr h)))
    | stop hcurves hparameters hstart h =>
      exact Attempt.bind_of_ok hcurves (Attempt.bind_of_ok hparameters
        (Attempt.bind_of_ok hstart (Attempt.bind_of_error ((toFloat_eq_error he).mpr h))))
    | count hcurves hparameters hstart hstop h =>
      exact Attempt.bind_of_ok hcurves (Attempt.bind_of_ok hparameters
        (Attempt.bind_of_ok hstart (Attempt.bind_of_ok hstop
          (Attempt.bind_of_error ((toInt_eq_error he).mpr h)))))

theorem Obstacle.cause (h : Obstacle entries e) :
    e = .wrongType ∨ e = .notAMapping ∨ e = .outOfRange := by
  cases h with
  | curves h =>
    rcases h with - | ⟨-, -, - | ⟨-, -, h⟩⟩
    · exact Or.inl rfl
    · exact Or.inr (Or.inl rfl)
    · exact h.cause.imp_right Or.inr
  | parameters _ h =>
    cases h
    exact Or.inr (Or.inl rfl)
  | start _ _ h => exact h.cause.imp_right Or.inr
  | stop _ _ _ h => exact h.cause.imp_right Or.inr
  | count _ _ _ _ h => exact h.cause.imp_right Or.inr

theorem Obstacle.silent (h : Obstacle entries e) : e.message? = none := by
  rcases h.cause with rfl | rfl | rfl <;> rfl

end PlotConfig

end CurveCalc
