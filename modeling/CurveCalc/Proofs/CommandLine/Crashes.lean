import CurveCalc.Proofs.CommandLine.SampleCommand
import CurveCalc.Proofs.Document.Plain
import CurveCalc.Proofs.Plot.Obstacles
import CurveCalc.Yaml.Format

/-!
When sampling a configuration ends without a message. Whatever is in the file, that is so only if
nothing is said of why the file gives no configuration, or if the number of intervals is beyond the
doubles (`runSample_crash`). Of a file that holds a mapping nothing is said if and only if one of
the values in it is in the way (`PlotConfig.Obstacle`): a value of the wrong kind, or a number
beyond the doubles (`runSample_silent`).
-/

set_option autoImplicit false
set_option relaxedAutoImplicit false

namespace CurveCalc

namespace PlotConfig

/-- A file with this text holds a mapping with these entries; what holds nothing counts as one
without any. -/
def Contains (format : DataFormat) (text : String) (entries : List (Value × Value)) : Prop :=
  ∃ v, format.load text = .ok v ∧
    (v.unfold = .mapping entries ∨ v.unfold = .null ∧ entries = [])

variable {format : DataFormat}

theorem ofFile_of_load {text : String} {v : Value} (h : format.load text = .ok v) (path : String) :
    ofFile format path (some text) = match v.unfold with
      | .null => (ofEntries []).mapError ConfigFileError.value
      | .mapping entries => (ofEntries entries).mapError ConfigFileError.value
      | _ => .error (.notAMapping path) := by
  unfold ofFile
  dsimp only
  rw [h]
  rfl

theorem ofFile_of_contains {text : String} {entries : List (Value × Value)}
    (h : Contains format text entries) (path : String) :
    ofFile format path (some text) = (ofEntries entries).mapError .value := by
  obtain ⟨v, hv, hentries | ⟨hnull, rfl⟩⟩ := h
  · rw [ofFile_of_load hv, hentries]
  · rw [ofFile_of_load hv, hnull]

end PlotConfig

namespace CommandLine

variable {format : DataFormat} {r : SampleRequest} {c : Console} {config : PlotConfig}
  {bindings : Bindings}

theorem runRecords_crash {crash : Crash} (h : (runRecords r config bindings c).2 = .crash crash) :
    crash = .gridTooLarge ∧ config.records {} bindings = .error (.grid .countTooLarge) := by
  cases hrecords : config.records {} bindings with
  | error e =>
    unfold runRecords at h
    dsimp only at h
    rw [hrecords] at h
    split at h
    next heq =>
      cases h
      exact ⟨rfl, heq⟩
    next => cases h
    next heq => cases heq
  | ok records =>
    rw [runRecords_ok hrecords] at h
    split at h <;> cases h

theorem tooFine_of_records (h : Accepted format r c.files config bindings)
    (herror : config.records {} bindings = .error (.grid .countTooLarge)) :
    Ready format r c.files config bindings ∧ config.TooFine {} := by
  have hvalued := PlotConfig.valued_of_records herror
  refine ⟨⟨h, hvalued⟩, ?_⟩
  by_contra hfine
  obtain ⟨records, hrecords, -⟩ := PlotConfig.records_ok (PlotConfig.count_of_problems h.valid) rfl
    (nodup_readAssignments h.assigned) hvalued hfine
  rw [herror] at hrecords
  cases hrecords

theorem runSample_unread {path : String} {e : ConfigFileError}
    (hpath : nonEmpty r.config = some path) (hload : loadConfig format c.files path = .error e)
    (hmessage : e.message? = none) : runSample format r c = (c, .crash (.config e)) := by
  have hread : (c.files.read? path).isNone = false := by
    cases hread : c.files.read? path with
    | some text => rfl
    | none =>
      unfold loadConfig at hload
      rw [hread] at hload
      cases hload
      cases hmessage
  have hbase : baseConfig format r c.files = some (.error e) := by
    unfold baseConfig
    rw [hpath]
    exact congrArg some hload
  unfold runSample
  rw [hpath]
  dsimp only
  rw [hread, Bool.and_false, if_neg (by decide)]
  unfold runSample.sampleBase configFailure
  rw [hbase]
  dsimp only
  rw [hmessage]

/-- Sampling a configuration ends without a message for two reasons only. -/
theorem runSample_crash {path : String} (hpath : nonEmpty r.config = some path) {crash : Crash} :
    (runSample format r c).2 = .crash crash ↔
      (∃ e, loadConfig format c.files path = .error e ∧ e.message? = none ∧ crash = .config e) ∨
      (crash = .gridTooLarge ∧
        ∃ config bindings, Ready format r c.files config bindings ∧ config.TooFine {}) := by
  have hbase : baseConfig format r c.files = some (loadConfig format c.files path) := by
    unfold baseConfig
    rw [hpath]
  constructor
  · intro h
    by_cases haccepted : ∃ config bindings, Accepted format r c.files config bindings
    · obtain ⟨config, bindings, haccepted⟩ := haccepted
      rw [runSample_accepted haccepted] at h
      obtain ⟨rfl, herror⟩ := runRecords_crash h
      exact Or.inr ⟨rfl, config, bindings, tooFine_of_records haccepted herror⟩
    · have hrefused := runSample_refused haccepted
      generalize runSample format r c = result at h hrefused
      cases hrefused with
      | told text => cases h
      | unread he hmessage =>
        cases h
        exact Or.inl ⟨_, Option.some.inj (hbase.symm.trans he), hmessage, rfl⟩
      | missing hnone => cases hbase.symm.trans hnone
  · rintro (⟨e, hload, hmessage, rfl⟩ | ⟨rfl, config, bindings, hready, hfine⟩)
    · rw [runSample_unread hpath hload hmessage]
    · exact (runSample_tooFine hready hfine).2

theorem loadConfig_of_contains {files : Files} {path text : String}
    {entries : List (Value × Value)} (hread : files.read? path = some text)
    (h : PlotConfig.Contains format text entries) :
    loadConfig format files path = (PlotConfig.ofEntries entries).mapError .value := by
  unfold loadConfig
  rw [hread, PlotConfig.ofFile_of_contains h]

/-- The crashes of a command that names a file which holds entries. -/
theorem runSample_crash_of_contains {path text : String} {entries : List (Value × Value)}
    (hpath : nonEmpty r.config = some path) (hread : c.files.read? path = some text)
    (hcontains : PlotConfig.Contains format text entries) {crash : Crash} :
    (runSample format r c).2 = .crash crash ↔
      (∃ cause, PlotConfig.Obstacle entries cause ∧ crash = .config (.value cause)) ∨
      (crash = .gridTooLarge ∧
        ∃ config bindings, Ready format r c.files config bindings ∧ config.TooFine {}) := by
  rw [runSample_crash hpath, loadConfig_of_contains hread hcontains]
  refine or_congr_left ⟨?_, ?_⟩
  · rintro ⟨e, h, hmessage, rfl⟩
    cases hcause : PlotConfig.ofEntries entries with
    | ok config =>
      rw [hcause] at h
      cases h
    | error cause =>
      rw [hcause] at h
      cases h
      exact ⟨cause, (PlotConfig.ofEntries_eq_error hmessage).mp hcause, rfl⟩
  · rintro ⟨cause, hobstacle, rfl⟩
    rw [(PlotConfig.ofEntries_eq_error hobstacle.silent).mpr hobstacle]
    exact ⟨.value cause, rfl, hobstacle.silent, rfl⟩

/-- What in the file of a configuration ends sampling without a message. Entries give a
configuration, or a message tells why they give none, unless one of the values is in the way, the
first that cannot be read: it is of a kind that is not read, or no mapping, or beyond the doubles.
Where a file holds the entries, the command that names it ends without a message if and only if one
of their values is in the way, or everything is right but the number of intervals, which is beyond
the doubles. Other files end it without a message if nothing is said of why they cannot be loaded.
-/
theorem runSample_silent (format : DataFormat) (entries : List (Value × Value)) :
    (((∃ config, PlotConfig.ofEntries entries = .ok config) ∨
      ∃ e message, PlotConfig.ofEntries entries = .error e ∧ e.message? = some message) ↔
        ∀ e, ¬ PlotConfig.Obstacle entries e) ∧
    (∀ e, (PlotConfig.ofEntries entries = .error e ∧ e.message? = none) ↔
      PlotConfig.Obstacle entries e) ∧
    (∀ e, PlotConfig.Obstacle entries e →
      e = .wrongType ∨ e = .notAMapping ∨ e = .outOfRange) ∧
    ∀ (r : SampleRequest) (c : Console) path, nonEmpty r.config = some path → ∀ crash,
      (∀ text, c.files.read? path = some text → PlotConfig.Contains format text entries →
        ((runSample format r c).2 = .crash crash ↔
          (∃ cause, PlotConfig.Obstacle entries cause ∧ crash = .config (.value cause)) ∨
          (crash = .gridTooLarge ∧
            ∃ config bindings, Ready format r c.files config bindings ∧ config.TooFine {}))) ∧
      ((runSample format r c).2 = .crash crash ↔
        (∃ e, loadConfig format c.files path = .error e ∧ e.message? = none ∧ crash = .config e) ∨
        (crash = .gridTooLarge ∧
          ∃ config bindings, Ready format r c.files config bindings ∧ config.TooFine {})) := by
  have herrors : ∀ e, (PlotConfig.ofEntries entries = .error e ∧ e.message? = none) ↔
      PlotConfig.Obstacle entries e := by
    intro e
    exact ⟨fun ⟨h, he⟩ ↦ (PlotConfig.ofEntries_eq_error he).mp h,
      fun h ↦ ⟨(PlotConfig.ofEntries_eq_error h.silent).mpr h, h.silent⟩⟩
  refine ⟨⟨?_, fun hnone ↦ ?_⟩, herrors, fun _ ↦ PlotConfig.Obstacle.cause,
    fun r c path hpath crash ↦ ⟨fun text hread hcontains ↦ ?_, runSample_crash hpath⟩⟩
  · rintro (⟨config, h⟩ | ⟨e, message, h, hmessage⟩) e' hobstacle
    · cases h.symm.trans ((herrors e').mpr hobstacle).1
    · cases h.symm.trans ((herrors e').mpr hobstacle).1
      cases hmessage.symm.trans hobstacle.silent
  · cases h : PlotConfig.ofEntries entries with
    | ok config => exact Or.inl ⟨config, rfl⟩
    | error e =>
      obtain ⟨message, hmessage⟩ :=
        Option.ne_none_iff_exists'.mp fun he ↦ hnone e ((herrors e).mp ⟨h, he⟩)
      exact Or.inr ⟨e, message, rfl, hmessage⟩
  · exact runSample_crash_of_contains hpath hread hcontains

/-- A start without a value is in the way, and a file with such a line ends the command. -/
theorem runSample_silent_start :
    (PlotConfig.ofEntries [(.text "start", .null)] = .error .wrongType ∧
      ValueError.message? .wrongType = none) ∧
    (runSample Yaml.format
      { formula := none, config := some "a", start := none, stop := none, count := none,
        swept := none, assignments := [], derivative := false, integral := false, format := .csv,
        output := none }
      ⟨⟨false, none⟩, "", [("a", "start:\n")], "", ""⟩).2 =
        .crash (.config (.value .wrongType)) := by
  have hcurves : readCurves (Value.field [(.text "start", .null)] "curves" .null) = .ok [] := rfl
  have hparameters :
      parameterEntries (Value.field [(.text "start", .null)] "parameters" .null) = .ok [] := rfl
  have hobstacle : PlotConfig.Obstacle [(.text "start", .null)] .wrongType :=
    .start hcurves hparameters (.kind rfl)
  obtain ⟨-, herrors, -, hsample⟩ := runSample_silent Yaml.format [(.text "start", .null)]
  have hread : Files.read? [("a", "start:\n")] "a" = some "start:\n" := by
    rw [Files.read?, Files.find?, Files.locate_a (by decide +kernel)]
    rfl
  have hcontains : PlotConfig.Contains Yaml.format "start:\n" [(.text "start", .null)] :=
    ⟨.mapping [(.text "start", .null)], DataFormat.load_eq_of_alike (by decide +kernel), Or.inl rfl⟩
  exact ⟨(herrors _).mpr hobstacle,
    ((hsample _ _ "a" rfl _).1 "start:\n" hread hcontains).mpr (Or.inl ⟨_, hobstacle, rfl⟩)⟩

/-- Nothing is said of a start without a value, a curve that is a number, and an infinite number of
intervals. -/
theorem ofEntries_null_start :
    PlotConfig.ofEntries [(.text "start", .null)] = .error .wrongType ∧
    PlotConfig.ofEntries [(.text "curves", .list [.int 5])] = .error .notAMapping ∧
    PlotConfig.ofEntries [(.text "count", .float (1.0 / 0.0))] = .error .outOfRange ∧
    ¬ ((∃ config, PlotConfig.ofEntries [(.text "start", .null)] = .ok config) ∨
      ∃ e message, PlotConfig.ofEntries [(.text "start", .null)] = .error e ∧
        e.message? = some message) := by
  have herror : PlotConfig.ofEntries [(.text "start", .null)] = .error .wrongType := rfl
  refine ⟨herror, rfl, rfl, ?_⟩
  rintro (⟨config, h⟩ | ⟨e, message, h, hmessage⟩)
  · cases herror.symm.trans h
  · cases herror.symm.trans h
    cases hmessage

end CommandLine

end CurveCalc
