import CurveCalc.CommandLine.Run
import CurveCalc.Proofs.Attempt
import CurveCalc.Proofs.CommandLine.LogFile

/-!
What noting and complaining leave as it was. Notes go to the log if there is one, which is rolled
over where it would get full; no other file is touched by them, and nothing is printed but errors
(`Console.Noted`).
-/

set_option autoImplicit false
set_option relaxedAutoImplicit false

namespace CurveCalc.CommandLine

open Files

namespace Console

theorem logging_note (n : LogNote) (c : Console) : (c.note n).logging = c.logging := by
  unfold note
  split
  · rfl
  · split <;> rfl

theorem out_note (n : LogNote) (c : Console) : (c.note n).out = c.out := by
  unfold note
  split
  · rfl
  · split <;> rfl

theorem logsOnly_note (n : LogNote) (c : Console) :
    LogsOnly c.logging.file c.files (c.note n).files := by
  unfold note
  split
  · exact .refl _ _
  · cases hfile : c.logging.file with
    | none => exact .refl _ _
    | some key => exact .note c.files key _

theorem notes_cons (n : LogNote) (ns : List LogNote) (c : Console) :
    c.notes (n :: ns) = (c.note n).notes ns := rfl

theorem out_notes (ns : List LogNote) (c : Console) : (c.notes ns).out = c.out := by
  induction ns generalizing c with
  | nil => rfl
  | cons n ns ih => rw [notes_cons, ih, out_note]

theorem logsOnly_notes (ns : List LogNote) (c : Console) :
    LogsOnly c.logging.file c.files (c.notes ns).files := by
  induction ns generalizing c with
  | nil => exact .refl _ _
  | cons n ns ih => exact (logsOnly_note n c).trans (logging_note n c ▸ ih (c.note n))

theorem files_note (n : LogNote) {c : Console} (h : c.logging.file = none) :
    (c.note n).files = c.files := by
  unfold note
  split
  · rfl
  · rw [h]
    rfl

/-- Without a log no file is changed. -/
theorem files_notes (ns : List LogNote) {c : Console} (h : c.logging.file = none) :
    (c.notes ns).files = c.files := by
  induction ns generalizing c with
  | nil => rfl
  | cons n ns ih => rw [notes_cons, ih ((logging_note n c).symm ▸ h), files_note n h]

/-- Nothing has happened from one console to the other but that something was noted and then an
error printed. -/
def Noted (c c' : Console) : Prop := ∃ ns text, c' = (c.notes ns).printError text

theorem noted_printError (text : String) (c : Console) : Noted c (c.printError text) :=
  ⟨[], text, rfl⟩

theorem noted_notes (ns : List LogNote) (c : Console) : Noted c (c.notes ns) :=
  ⟨ns, "", by rw [printError, String.append_empty]⟩

theorem Noted.refl (c : Console) : Noted c c := noted_notes [] c

theorem Noted.out {c c' : Console} (h : Noted c c') : c'.out = c.out := by
  obtain ⟨ns, text, rfl⟩ := h
  exact out_notes ns c

theorem Noted.files {c c' : Console} (h : Noted c c') :
    LogsOnly c.logging.file c.files c'.files := by
  obtain ⟨ns, text, rfl⟩ := h
  exact logsOnly_notes ns c

end Console

/-- The log that is opened before a command is carried out, by its key. -/
def openLog (logging : Logging) (files : Files) : Except FileError (Option String) :=
  match logging.file with
  | none => .ok none
  | some path => (files.keyOf (Files.straight path)).map some

/-- What a command finds once the log is open. -/
def Console.start (stamp : String) (verbose : Bool) (log : Option String) (files : Files) :
    Console :=
  ⟨⟨verbose, log⟩, stamp, match log with
    | none => files
    | some key => files.append key "", "", ""⟩

theorem Console.logsOnly_start (stamp : String) (verbose : Bool) (log : Option String)
    (files : Files) : LogsOnly log files (start stamp verbose log files).files := by
  cases log with
  | none => exact .refl none files
  | some key => exact .append files key ""

/-- What a command leaves, as the outcome of a run. -/
def Outcome.ofCommand (result : Console × Exit) : Outcome :=
  ⟨result.2, result.1.out, result.1.err, "", result.1.files⟩

/-- Where the log can be opened, running the program is carrying out the command. -/
theorem run_of_openLog {arguments : List String} {logging : Logging} {command : Command}
    {files : Files} {log : Option String} (format : DataFormat) (stamp : String)
    (hrequest : Request.ofArguments arguments = .run logging command)
    (hlog : openLog logging files = .ok log) :
    run format stamp arguments files =
      .ofCommand (runCommand format command
        (Console.start stamp logging.verbose log files)) := by
  obtain ⟨verbose, file⟩ := logging
  unfold run
  rw [hrequest]
  cases file with
  | none =>
    cases hlog
    rfl
  | some path =>
    obtain ⟨key, hkey, rfl⟩ := Attempt.map_eq_ok.mp hlog
    dsimp only
    rw [hkey]
    rfl

end CurveCalc.CommandLine
