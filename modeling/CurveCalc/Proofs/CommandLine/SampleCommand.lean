import CurveCalc.Proofs.CommandLine.Console
import CurveCalc.Proofs.Plot.Output
import CurveCalc.Proofs.Plot.Records
import CurveCalc.Yaml.Format

/-!
What sampling from the command line does to the file it writes to. A command is `Ready` if its
configuration can be loaded and has no issues, its assignments can be read and every parameter has a
value. The file is not opened before that, and only once all records are there; from then on nothing
in the records can keep them from being written (`outputText?_eq`). So the file has either been left
alone or holds all of the records, and the number with which the program ends tells of both
(`run_sample`).
-/

set_option autoImplicit false
set_option relaxedAutoImplicit false

namespace CurveCalc

theorem PlotConfig.count_of_problems {c : PlotConfig} (h : c.problems = .ok []) :
    1 ≤ c.range.count := by
  by_contra hcount
  have hsmall : c.range.count < 1 := not_le.mp hcount
  have hissue : PlotConfig.Issue.range (.countTooSmall c.range.count) ∈ c.issues := by
    unfold PlotConfig.issues Range.issues
    rw [if_pos hsmall]
    exact List.mem_append_left _ (List.mem_append_left _ (List.mem_append_left _
      List.mem_cons_self))
  unfold PlotConfig.problems at h
  rw [if_pos hsmall] at h
  obtain ⟨-, -, hnone⟩ := Attempt.bind_eq_ok.mp h
  rw [List.map_eq_nil_iff.mp (Except.ok.inj hnone)] at hissue
  cases hissue

theorem nodup_readAssignments {assignments : List String} {bindings : Bindings}
    (h : readAssignments assignments = .ok bindings) : (bindings.map Prod.fst).Nodup := by
  obtain ⟨pairs, -, hpairs⟩ := Attempt.bind_eq_ok.mp h
  obtain rfl := Except.ok.inj hpairs
  have hempty : (([] : Bindings).map Prod.fst).Nodup := List.nodup_nil
  exact Entries.nodup_update hempty pairs

namespace CommandLine

/-- What is written for records. -/
def outputText (format : OutputFormat) (records : List Record) : String :=
  match format with
  | .csv => csvText records
  | .json => JsonData.block 0 "[" "]" (records.map Record.jsonText) ++ "\n"

theorem outputText?_eq (format : OutputFormat) (records : List Record) :
    outputText? format records = some (outputText format records) := by
  cases format with
  | csv => rfl
  | json =>
    unfold outputText?
    dsimp only
    rw [jsonText?_eq]
    rfl

theorem failureLines_eq_nil {records : List Record} (index : Nat) :
    failureLines index records = [] ↔ ∀ record ∈ records, record.error = none := by
  induction records generalizing index with
  | nil => exact ⟨fun _ ↦ List.forall_mem_nil _, fun _ ↦ rfl⟩
  | cons record records ih =>
    rw [failureLines, List.append_eq_nil_iff, ih, List.forall_mem_cons]
    refine and_congr_left fun _ ↦ ?_
    cases record.error with
    | none => exact ⟨fun _ ↦ rfl, fun _ ↦ rfl⟩
    | some e => exact ⟨nofun, nofun⟩

/-- The configuration of a request can be loaded and has no issues, and its assignments can be read.
-/
structure Accepted (format : DataFormat) (r : SampleRequest) (files : Files) (config : PlotConfig)
    (bindings : Bindings) : Prop where
  loaded : ∃ base, baseConfig format r files = some (.ok base) ∧ config = r.adjust base
  valid : config.problems = .ok []
  assigned : readAssignments r.assignments = .ok bindings

/-- Besides, every parameter has a value. -/
structure Ready (format : DataFormat) (r : SampleRequest) (files : Files) (config : PlotConfig)
    (bindings : Bindings) : Prop extends Accepted format r files config bindings where
  valued : ∀ p ∈ config.parameters, ∃ x, Toolchain.constant {} p.2 = .ok x

/-- What is on the console once everything is noted that sampling notes. -/
def Console.noteSampling (config : PlotConfig) (bindings : Bindings) (c : Console) : Console :=
  c.notes (plotNotes {} config (config.records {} bindings))

/-- What the records of a request are to be written to can be opened. -/
def Opens (r : SampleRequest) (files : Files) : Prop :=
  ∀ path, nonEmpty r.output = some path → ∃ key, files.keyOf path = .ok key

/-- All that was done was to note something and to print an error. So nothing was opened, and no
file was changed but the log, with its backups if it was rolled over. -/
structure Spared (start : Console) (files : Files) (o : Outcome) : Prop where
  noted : ∃ ns text, o = .ofCommand ((start.notes ns).printError text, o.exit)
  out : o.out = ""
  files : Files.LogsOnly start.logging.file files o.files

/-- The records are all in one place, printed or in the file that is named; or that file could not
be opened and nothing was written. `noted` are the files before it was tried. -/
structure Delivered (r : SampleRequest) (noted : Files) (records : List Record) (o : Outcome) :
    Prop where
  printed : nonEmpty r.output = none →
    o.out = outputText r.format records ∧ o.files = noted
  filed : ∀ path key, nonEmpty r.output = some path → noted.keyOf path = .ok key →
    o.out = "" ∧ o.files = noted.replace key (outputText r.format records)
  unopened : ∀ path e, nonEmpty r.output = some path → noted.keyOf path = .error e →
    o.exit = .code 1 ∧ o.out = "" ∧ o.files = noted
  exit : Opens r noted → (o.exit = .code 0 ↔ ∀ record ∈ records, record.error = none)

variable {format : DataFormat} {r : SampleRequest} {c : Console} {config : PlotConfig}
  {bindings : Bindings}

/-- There is a configuration only where its path leads to a file. -/
theorem read?_of_baseConfig {files : Files} {base : PlotConfig} {path : String}
    (hpath : nonEmpty r.config = some path) (h : baseConfig format r files = some (.ok base)) :
    (files.read? path).isSome = true := by
  unfold baseConfig at h
  rw [hpath] at h
  have hload := Option.some.inj h
  unfold loadConfig at hload
  cases hread : files.read? path with
  | none =>
    rw [hread] at hload
    cases hload
  | some text => rfl

theorem runSample_accepted (h : Accepted format r c.files config bindings) :
    runSample format r c = runRecords r config bindings c := by
  obtain ⟨base, hbase, rfl⟩ := h.loaded
  have hresult : runSample.sampleBase format r c = runRecords r (r.adjust base) bindings c := by
    unfold runSample.sampleBase
    rw [hbase]
    dsimp only
    rw [h.valid]
    dsimp only
    rw [h.assigned]
  unfold runSample
  cases hpath : nonEmpty r.config with
  | none => exact hresult
  | some path =>
    have hread := read?_of_baseConfig hpath hbase
    dsimp only
    rw [Option.isNone_eq_false_iff.mpr hread, Bool.and_false]
    exact hresult

theorem problems_told {config : PlotConfig} {e : ValueError} (h : config.problems = .error e) :
    e.message? ≠ none := by
  unfold PlotConfig.problems PlotConfig.countText at h
  split at h
  · cases hdigits : Number.intText? config.range.count with
    | none =>
      rw [hdigits] at h
      cases h
      exact nofun
    | some digits =>
      rw [hdigits] at h
      cases h
  · cases h

/-- How a command ends that is not accepted: with a message, or because of a configuration of which
nothing is said, or because there is none. -/
inductive Refused (format : DataFormat) (r : SampleRequest) (c : Console) :
    Console × Exit → Prop
  | told (text : String) : Refused format r c (c.printError text, .code 1)
  | unread {e : ConfigFileError} (h : baseConfig format r c.files = some (.error e))
    (he : e.message? = none) : Refused format r c (c, .crash (.config e))
  | missing (h : baseConfig format r c.files = none) :
    Refused format r c (c, .crash .missingFormula)

theorem Refused.noted {result : Console × Exit} (h : Refused format r c result) :
    c.Noted result.1 := by
  cases h with
  | told text => exact c.noted_printError text
  | unread | missing => exact .refl c

theorem Refused.exit_ne {result : Console × Exit} (h : Refused format r c result) :
    result.2 ≠ .code 0 := by
  cases h <;> exact nofun

theorem refused_configFailure {e : ConfigFileError}
    (h : e.message? = none → baseConfig format r c.files = some (.error e)) :
    Refused format r c (configFailure e c) := by
  unfold configFailure
  cases he : e.message? with
  | some message => exact .told _
  | none => exact .unread (h he) he

theorem refused_sampleBase (h : ¬ ∃ config bindings, Accepted format r c.files config bindings) :
    Refused format r c (runSample.sampleBase format r c) := by
  unfold runSample.sampleBase
  cases hbase : baseConfig format r c.files with
  | none => exact .missing hbase
  | some loaded =>
    cases loaded with
    | error e => exact refused_configFailure fun _ ↦ hbase
    | ok base =>
      dsimp only
      cases hproblems : (r.adjust base).problems with
      | error e => exact refused_configFailure fun he ↦ absurd he (problems_told hproblems)
      | ok problems =>
        cases problems with
        | cons problem problems => exact .told _
        | nil =>
          dsimp only
          cases hassigned : readAssignments r.assignments with
          | error e => exact .told _
          | ok bindings =>
            exact absurd ⟨_, bindings, ⟨base, hbase, rfl⟩, hproblems, hassigned⟩ h

theorem runSample_refused (h : ¬ ∃ config bindings, Accepted format r c.files config bindings) :
    Refused format r c (runSample format r c) := by
  unfold runSample
  cases nonEmpty r.config with
  | none => exact refused_sampleBase h
  | some path =>
    dsimp only
    by_cases hdirectory : (c.files.occupied path && (c.files.read? path).isNone) = true
    · rw [if_pos hdirectory]
      exact .told _
    · rw [if_neg hdirectory]
      exact refused_sampleBase h

theorem runRecords_error {e : PlotError} (h : config.records {} bindings = .error e) :
    c.Noted (runRecords r config bindings c).1 ∧
      (runRecords r config bindings c).2 ≠ .code 0 := by
  unfold runRecords
  dsimp only
  rw [h]
  split
  next => exact ⟨Console.noted_notes _ c, nofun⟩
  next => exact ⟨⟨_, _, rfl⟩, nofun⟩
  next heq => cases heq

theorem runRecords_tooLarge
    (h : config.records {} bindings = .error (.grid .countTooLarge)) :
    (runRecords r config bindings c).2 = .crash .gridTooLarge := by
  unfold runRecords
  dsimp only
  rw [h]

/-- How the program ends once the records are written. -/
def recordsExit (records : List Record) : Exit :=
  .code (if (failureLines 1 records).isEmpty then 0 else 1)

theorem recordsExit_eq_zero {records : List Record} :
    recordsExit records = .code 0 ↔ ∀ record ∈ records, record.error = none := by
  unfold recordsExit
  rw [← failureLines_eq_nil 1]
  cases failureLines 1 records with
  | nil => exact ⟨fun _ ↦ rfl, fun _ ↦ rfl⟩
  | cons line lines => exact ⟨nofun, nofun⟩

section Records

variable {records : List Record} {path key : String} {e : FileError}

theorem runRecords_ok (h : config.records {} bindings = .ok records) :
    runRecords r config bindings c =
      match openOutput r (c.noteSampling config bindings) with
      | .error e => (c.noteSampling config bindings).fail e.message
      | .ok (file, opened) =>
        ((writeOutput file (outputText r.format records) opened).printError
          (String.join (failureLines 1 records)), recordsExit records) := by
  unfold runRecords Console.noteSampling
  dsimp only
  rw [h]
  dsimp only
  rw [outputText?_eq]
  rfl

theorem runRecords_printed (h : config.records {} bindings = .ok records)
    (houtput : nonEmpty r.output = none) :
    runRecords r config bindings c =
      (((c.noteSampling config bindings).print (outputText r.format records)).printError
        (String.join (failureLines 1 records)), recordsExit records) := by
  rw [runRecords_ok h, openOutput, houtput]
  rfl

/-- The file is emptied when it is opened, and then holds the text and nothing else. -/
theorem runRecords_filed (h : config.records {} bindings = .ok records)
    (houtput : nonEmpty r.output = some path)
    (hkey : (c.noteSampling config bindings).files.keyOf path = .ok key) :
    runRecords r config bindings c =
      (Console.printError (String.join (failureLines 1 records))
        { c.noteSampling config bindings with
          files := (c.noteSampling config bindings).files.replace key
            (outputText r.format records) }, recordsExit records) := by
  have htwice : ∀ files : Files, (files.replace key "").replace key (outputText r.format records) =
      files.replace key (outputText r.format records) := by
    intro files
    unfold Files.replace
    by_cases hsink : key = Files.sink
    · rw [if_pos hsink, if_pos hsink, if_pos hsink]
    · rw [if_neg hsink, if_neg hsink, if_neg hsink, Entries.set_set]
  rw [runRecords_ok h, openOutput, houtput]
  dsimp only
  rw [hkey, ← htwice]
  rfl

theorem runRecords_unopened (h : config.records {} bindings = .ok records)
    (houtput : nonEmpty r.output = some path)
    (herror : (c.noteSampling config bindings).files.keyOf path = .error e) :
    runRecords r config bindings c = (c.noteSampling config bindings).fail e.message := by
  rw [runRecords_ok h, openOutput, houtput]
  dsimp only
  rw [herror]
  rfl

theorem runRecords_delivered (h : config.records {} bindings = .ok records) (hout : c.out = "") :
    Delivered r (c.noteSampling config bindings).files records
      (.ofCommand (runRecords r config bindings c)) := by
  have hquiet : (c.noteSampling config bindings).out = "" :=
    (Console.out_notes _ c).trans hout
  refine ⟨fun houtput ↦ ?_, fun path key houtput hkey ↦ ?_, fun path e houtput herror ↦ ?_,
    fun hopens ↦ ?_⟩
  · rw [runRecords_printed h houtput]
    refine ⟨?_, rfl⟩
    change (c.noteSampling config bindings).out ++ _ = _
    rw [hquiet, String.empty_append]
  · rw [runRecords_filed h houtput hkey]
    exact ⟨hquiet, rfl⟩
  · rw [runRecords_unopened h houtput herror]
    exact ⟨rfl, hquiet, rfl⟩
  · rw [← recordsExit_eq_zero]
    cases houtput : nonEmpty r.output with
    | none =>
      rw [runRecords_printed h houtput]
      rfl
    | some path =>
      obtain ⟨key, hkey⟩ := hopens path houtput
      rw [runRecords_filed h houtput hkey]
      rfl

end Records

theorem runSample_not_ready (h : ¬ ∃ config bindings, Ready format r c.files config bindings) :
    c.Noted (runSample format r c).1 ∧ (runSample format r c).2 ≠ .code 0 := by
  by_cases haccepted : ∃ config bindings, Accepted format r c.files config bindings
  · obtain ⟨config, bindings, haccepted⟩ := haccepted
    rw [runSample_accepted haccepted]
    cases hrecords : config.records {} bindings with
    | error e => exact runRecords_error hrecords
    | ok records =>
      -- parameters without a value would have kept the records from being there
      obtain ⟨values, hvalues, -⟩ := Attempt.bind_eq_ok.mp hrecords
      exact absurd ⟨config, bindings, haccepted, PlotConfig.valued_of_environment hvalues⟩ h
  · exact ⟨(runSample_refused haccepted).noted, (runSample_refused haccepted).exit_ne⟩

theorem runSample_tooFine (h : Ready format r c.files config bindings) (hfine : config.TooFine {}) :
    c.Noted (runSample format r c).1 ∧ (runSample format r c).2 = .crash .gridTooLarge := by
  have herror := PlotConfig.records_error (PlotConfig.count_of_problems h.valid) rfl
    (nodup_readAssignments h.assigned) h.valued hfine
  rw [runSample_accepted h.toAccepted]
  exact ⟨(runRecords_error herror).1, runRecords_tooLarge herror⟩

theorem runSample_delivered (h : Ready format r c.files config bindings)
    (hfine : ¬ config.TooFine {}) (hout : c.out = "") :
    ∃ records, config.records {} bindings = .ok records ∧
      List.Forall₂ (fun curve record ↦ record.Shows config {} bindings curve) config.curves
        records ∧
      Delivered r (c.noteSampling config bindings).files records
        (.ofCommand (runSample format r c)) := by
  obtain ⟨records, hrecords, hshows⟩ := PlotConfig.records_ok
    (PlotConfig.count_of_problems h.valid) rfl (nodup_readAssignments h.assigned) h.valued hfine
  rw [runSample_accepted h.toAccepted]
  exact ⟨records, hrecords, hshows.imp fun _ _ h ↦ h.2, runRecords_delivered hrecords hout⟩

theorem runSample_exit (hout : c.out = "") :
    (runSample format r c).2 = .code 0 ↔ ∃ config bindings records,
      Ready format r c.files config bindings ∧ config.records {} bindings = .ok records ∧
      Opens r (c.noteSampling config bindings).files ∧
      ∀ record ∈ records, record.error = none := by
  refine ⟨fun hexit ↦ ?_, ?_⟩
  · by_cases hready : ∃ config bindings, Ready format r c.files config bindings
    · obtain ⟨config, bindings, h⟩ := hready
      by_cases hfine : config.TooFine {}
      · have hcrash := (runSample_tooFine h hfine).2
        rw [hexit] at hcrash
        cases hcrash
      · obtain ⟨records, hrecords, -, hdelivered⟩ := runSample_delivered h hfine hout
        have hopens : Opens r (c.noteSampling config bindings).files := by
          intro path houtput
          cases hkey : (c.noteSampling config bindings).files.keyOf path with
          | ok key => exact ⟨key, rfl⟩
          | error e => cases hexit.symm.trans (hdelivered.unopened path e houtput hkey).1
        exact ⟨config, bindings, records, h, hrecords, hopens, (hdelivered.exit hopens).mp hexit⟩
    · exact absurd hexit (runSample_not_ready hready).2
  · rintro ⟨config, bindings, records, h, hrecords, hopens, herrors⟩
    rw [runSample_accepted h.toAccepted]
    exact ((runRecords_delivered hrecords hout).exit hopens).mpr herrors

/-! One value everywhere, for runs on fixed inputs. -/

/-- Cutting a path into its steps is no structural recursion, so that it is opened step by step. -/
theorem splitOn_a : "a".splitOn "/" = ["a"] := by
  unfold String.splitOn String.splitOnAux
  rw [if_neg (by decide), if_neg (by decide), if_neg (by decide +kernel)]
  unfold String.splitOnAux
  rw [if_pos (by decide +kernel)]
  decide +kernel

theorem Files.locate_a {files : Files} (h : files.holdsDirectory "a" = false) :
    files.locate "a" = .ok (.file "a") := by
  have hstart : "a".startsWith "/" = false := by decide +kernel
  have hend : "a".endsWith "/" = false := by decide +kernel
  unfold Files.locate
  rw [splitOn_a, hstart, hend]
  change (if (false || ["", ".", ".."].contains "a" || files.holdsDirectory "a") = true then _
    else _) = _
  rw [h]
  rfl

/-- Sampling one value everywhere, into a file. -/
def oneRequest (count : Option Int) (assignments : List String) : SampleRequest where
  formula := some "1"
  config := none
  start := none
  stop := none
  count := count
  swept := none
  assignments := assignments
  derivative := false
  integral := false
  format := .csv
  output := some "a"

def oneConfig (count : Int) : PlotConfig where
  range := ⟨0.0, 1.0, count⟩
  curves := [{ formula := "1" }]

theorem ready_one {count : Int} (hcount : 1 ≤ count) (files : Files) :
    Ready format (oneRequest (some count) []) files (oneConfig count) [] := by
  have hone : ¬ (oneConfig count).range.count < 1 := not_lt.mpr hcount
  have hrange : (oneConfig count).range.issues = [] := by
    have hless : ¬ Arithmetic.less (1.0 : Float) 0.0 = true := by decide +kernel
    rw [Range.issues, if_neg hone, List.nil_append]
    exact if_neg hless
  have hvalid : (oneConfig count).problems = .ok [] := by
    rw [PlotConfig.problems, if_neg hone, PlotConfig.issues, hrange]
    rfl
  exact ⟨⟨⟨{ curves := [{ formula := "1" }] }, rfl, rfl⟩, hvalid, rfl⟩, List.forall_mem_nil _⟩

theorem records_one : ∃ record, (oneConfig 1).records {} [] = .ok [record] ∧ record.error = none ∧
    csvText [record] = "curve,series,x,y\r\n1,points,0.0,1.0\r\n1,points,1.0,1.0\r\n" := by
  have hvalues : (oneConfig 1).environment {} [] = .ok [] := rfl
  have hrecord : ∃ record, (oneConfig 1).record {} [] { formula := "1" } = .ok record ∧
      record.error = none ∧
      csvText [record] = "curve,series,x,y\r\n1,points,0.0,1.0\r\n1,points,1.0,1.0\r\n" := by
    unfold PlotConfig.record
    rw [Toolchain.compileFolded_one]
    dsimp only [oneConfig]
    exact ⟨_, rfl, by decide +kernel, by decide +kernel⟩
  obtain ⟨record, hrecord, herror, htext⟩ := hrecord
  refine ⟨record, ?_, herror, htext⟩
  rw [PlotConfig.records_eq hvalues]
  change [_].mapM _ = _
  rw [List.mapM_cons, hrecord]
  rfl

/-- What sampling from the command line does. If the configuration cannot be loaded, has an issue,
or an assignment or a parameter has no value, nothing is printed but errors, no file is opened or
changed but the log, which may be rolled over, and the program ends with another number than zero.
If nothing of that is wrong, there are the records of all curves, and whatever they are they are
written as a whole, those of curves that failed among them; only a range that is too fine to be
sampled is found out later than the rest, and still before anything is opened. The number is zero if
and only if there are the records, they could be written, and none of them has an error. -/
theorem run_sample {arguments : List String} {logging : Logging} {r : SampleRequest}
    {files : Files} {log : Option String} (format : DataFormat) (stamp : String)
    (hrequest : Request.ofArguments arguments = .run logging (.sample r))
    (hlog : openLog logging files = .ok log) :
    let start := Console.start stamp logging.verbose log files
    let o := run format stamp arguments files
    ((¬ ∃ config bindings, Ready format r start.files config bindings) →
      Spared start files o ∧ o.exit ≠ .code 0) ∧
    (∀ config bindings, Ready format r start.files config bindings →
      (config.TooFine {} → Spared start files o ∧ o.exit = .crash .gridTooLarge) ∧
      (¬ config.TooFine {} → ∃ records, config.records {} bindings = .ok records ∧
        List.Forall₂ (fun curve record ↦ record.Shows config {} bindings curve) config.curves
          records ∧
        Files.LogsOnly log files (start.noteSampling config bindings).files ∧
        Delivered r (start.noteSampling config bindings).files records o)) ∧
    (∀ records, outputText? r.format records = some (outputText r.format records)) ∧
    (o.exit = .code 0 ↔ ∃ config bindings records,
      Ready format r start.files config bindings ∧ config.records {} bindings = .ok records ∧
      Opens r (start.noteSampling config bindings).files ∧
      ∀ record ∈ records, record.error = none) := by
  intro start o
  have ho : o = .ofCommand (runSample format r start) := run_of_openLog format stamp hrequest hlog
  have hstart : Files.LogsOnly log files start.files :=
    Console.logsOnly_start stamp logging.verbose log files
  have hspared : start.Noted (runSample format r start).1 → Spared start files o := by
    intro h
    rw [ho]
    refine ⟨?_, h.out, hstart.trans h.files⟩
    obtain ⟨ns, text, hresult⟩ := h
    exact ⟨ns, text, by rw [← hresult]; rfl⟩
  have hexit : o.exit = (runSample format r start).2 := congrArg Outcome.exit ho
  refine ⟨fun h ↦ ?_, fun config bindings h ↦ ⟨fun hfine ↦ ?_, fun hfine ↦ ?_⟩,
    outputText?_eq r.format, ?_⟩
  · rw [hexit]
    exact (runSample_not_ready h).imp_left hspared
  · rw [hexit]
    exact (runSample_tooFine h hfine).imp_left hspared
  · obtain ⟨records, hrecords, hshows, hdelivered⟩ := runSample_delivered h hfine rfl
    exact ⟨records, hrecords, hshows, hstart.trans (Console.logsOnly_notes _ start),
      ho ▸ hdelivered⟩
  · rw [hexit]
    exact runSample_exit rfl

/-- A file is left as it is where an assignment has no equals sign. A formula that has a value
everywhere ends with zero, and the file holds its points then, whatever it held before. -/
theorem run_sample_one :
    (run Yaml.format "" ["sample", "--formula", "1", "--var", "y", "--output", "a"]
      [("a", "kept")]).files.contents? "a" = some "kept" ∧
    (run Yaml.format "" ["sample", "--formula", "1", "--count", "1", "--output", "a"]
      [("a", "kept")]).exit = .code 0 ∧
    (run Yaml.format "" ["sample", "--formula", "1", "--count", "1", "--output", "a"]
      [("a", "kept")]).files.contents? "a" =
        some "curve,series,x,y\r\n1,points,0.0,1.0\r\n1,points,1.0,1.0\r\n" := by
  have hrequest : Request.ofArguments ["sample", "--formula", "1", "--var", "y", "--output", "a"] =
      .run ⟨false, none⟩ (.sample (oneRequest none ["y"])) := rfl
  have hrequest' :
      Request.ofArguments ["sample", "--formula", "1", "--count", "1", "--output", "a"] =
        .run ⟨false, none⟩ (.sample (oneRequest (some 1) [])) := rfl
  have hlog : openLog ⟨false, none⟩ [("a", "kept")] = .ok none := rfl
  obtain ⟨hrefused, -⟩ := run_sample Yaml.format "" hrequest hlog
  obtain ⟨-, hsampled, -, hexit⟩ := run_sample Yaml.format "" hrequest' hlog
  have hnot : ¬ ∃ config bindings,
      Ready Yaml.format (oneRequest none ["y"]) [("a", "kept")] config bindings := by
    rintro ⟨config, bindings, h⟩
    cases h.assigned
  have hready : Ready Yaml.format (oneRequest (some 1) []) [("a", "kept")] (oneConfig 1) [] :=
    ready_one le_rfl _
  have hfine : ¬ (oneConfig 1).TooFine {} := by
    have hcount : Number.floatOfInt? 1 = some 1.0 := rfl
    rintro ⟨hnone, -⟩
    cases hcount.symm.trans hnone
  obtain ⟨record, hrecords, herror, htext⟩ := records_one
  obtain ⟨records, hrecords', -, -, hdelivered⟩ := (hsampled _ _ hready).2 hfine
  obtain rfl := Except.ok.inj (hrecords.symm.trans hrecords')
  have hkept : Files.keyOf [("a", "kept")] "a" = .ok "a" := by
    rw [Files.keyOf, Files.locate_a (by decide +kernel)]
  have hkey : ((Console.start "" false none [("a", "kept")]).noteSampling
      (oneConfig 1) []).files.keyOf "a" = .ok "a" := by
    rw [Console.noteSampling, Console.files_notes _ rfl]
    exact hkept
  refine ⟨(hrefused hnot).1.files.kept "a" ?_, hexit.mpr ⟨_, _, _, hready, hrecords, ?_,
    List.forall_mem_singleton.mpr herror⟩, ?_⟩
  · rintro log hfile
    cases hfile
  · rintro path ⟨⟩
    exact ⟨"a", hkey⟩
  · rw [(hdelivered.filed "a" "a" rfl hkey).2, Files.contents?_replace, if_pos ⟨rfl, by decide⟩]
    exact congrArg some htext

/-- A number of intervals beyond the doubles is no issue, and no step before sampling fails of it.
-/
theorem runSample_vast :
    let result := runSample Yaml.format (oneRequest (some (10 ^ 400)) [])
      ⟨⟨false, none⟩, "", [], "", ""⟩
    (∃ config, Ready Yaml.format (oneRequest (some (10 ^ 400)) []) [] config [] ∧
      config.records {} [] = .error (.grid .countTooLarge)) ∧
    result.2 = .crash .gridTooLarge ∧ result.2 ≠ .code 0 := by
  intro result
  have hcount : (1 : Int) ≤ 10 ^ 400 := by decide +kernel
  have hready : Ready Yaml.format (oneRequest (some (10 ^ 400)) []) [] (oneConfig (10 ^ 400)) [] :=
    ready_one hcount []
  have hlarge : Number.floatOfInt? (10 ^ 400) = none := by decide +kernel
  have hfine : (oneConfig (10 ^ 400)).TooFine {} :=
    ⟨hlarge, _, List.mem_singleton_self _, _, Toolchain.compileFolded_one⟩
  have hcrash : result.2 = .crash .gridTooLarge := (runSample_tooFine hready hfine).2
  refine ⟨⟨_, hready, ?_⟩, hcrash, hcrash ▸ nofun⟩
  exact PlotConfig.records_error hcount rfl List.nodup_nil hready.valued hfine

end CommandLine

end CurveCalc
