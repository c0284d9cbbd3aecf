import CurveCalc.CommandLine.LogFile
import CurveCalc.Proofs.Entries

/-!
What a log loses when lines are written to it. A rollover moves the generations of the log on, each
to a place that has been left (`Files.get?_move`), so that only the oldest is given up
(`Files.history_shift`). Whatever lines are written, and however often there has to be room
for them, no other file is changed, and what the generations hold is what they held before with more
put behind it and something taken away at the front (`Files.LogsOnly`).
-/

set_option autoImplicit false
set_option relaxedAutoImplicit false

namespace CurveCalc.CommandLine.Files

variable {files files' : Files} {log source target key text : String} {n : Nat}

theorem contents?_replace (files : Files) (key text other : String) :
    (files.replace key text).contents? other =
      if other = key ∧ key ≠ sink then some text else files.contents? other := by
  unfold replace
  by_cases hsink : key = sink
  · rw [if_pos hsink, if_neg fun h ↦ h.2 hsink]
  · rw [if_neg hsink]
    unfold contents?
    by_cases hother : other = key
    · rw [if_neg (hother ▸ hsink), if_pos ⟨hother, hsink⟩, Entries.get?_set, if_pos hother]
    · rw [if_neg fun h : other = key ∧ key ≠ sink ↦ hother h.1, Entries.get?_set, if_neg hother]

theorem contents?_congr (h : Entries.get? files' key = Entries.get? files key) :
    files'.contents? key = files.contents? key := by
  rw [contents?, contents?, h]

/-! Two places of which neither is in the other. -/

/-- A key is a place or in a directory there. -/
def IsIn (place key : String) : Prop := key = place ∨ key.startsWith (place ++ "/") = true

theorem startsWith_directory : key.startsWith (source ++ "/") = true ↔
    ∃ rest, key = source ++ "/" ++ rest := by
  rw [String.startsWith_string_iff]
  constructor
  · rintro ⟨rest, hrest⟩
    exact ⟨String.ofList rest, String.toList_inj.mp (by simpa using hrest.symm)⟩
  · rintro ⟨rest, rfl⟩
    exact ⟨rest.toList, by simp⟩

/-- What is in the directory that is moved is in the other one then. -/
theorem movedKey?_inside {rest : String} (hkey : source ++ "/" ++ rest ≠ target) :
    movedKey? source target (source ++ "/" ++ rest) = some (target ++ "/" ++ rest) := by
  have hsource : source ++ "/" ++ rest ≠ source := by
    intro he
    have hlength := congrArg (fun s : String ↦ s.toList.length) he
    simp at hlength
  have hdrop : (source ++ "/" ++ rest).toList.drop source.length = '/' :: rest.toList := by
    rw [String.append_assoc, String.toList_append, ← String.length_toList, List.drop_left]
    simp
  rw [movedKey?, if_neg hkey, if_neg hsource, if_pos (startsWith_directory.mpr ⟨rest, rfl⟩), hdrop]
  exact congrArg some (String.toList_inj.mp (by simp))

structure Apart (source target : String) : Prop where
  source_notIn : ¬ IsIn target source
  target_notIn : ¬ IsIn source target

namespace Apart

variable (h : Apart source target)

include h

theorem ne : target ≠ source := fun he ↦ h.target_notIn (Or.inl he)

theorem movedKey?_source : movedKey? source target source = some target := by
  rw [movedKey?, if_neg h.ne.symm, if_pos rfl]

theorem movedKey?_eq_target : movedKey? source target key = some target ↔ key = source := by
  refine ⟨fun hmoved ↦ ?_, fun hkey ↦ hkey ▸ h.movedKey?_source⟩
  by_contra hsource
  by_cases htarget : key = target
  · rw [movedKey?, if_pos htarget] at hmoved
    cases hmoved
  · by_cases hinside : key.startsWith (source ++ "/") = true
    · obtain ⟨rest, rfl⟩ := startsWith_directory.mp hinside
      rw [movedKey?_inside htarget] at hmoved
      have hlength := congrArg (fun s : String ↦ s.toList.length) (Option.some.inj hmoved)
      simp at hlength
    · rw [movedKey?, if_neg htarget, if_neg hsource, if_neg hinside] at hmoved
      exact htarget (Option.some.inj hmoved)

theorem movedKey?_ne_source : movedKey? source target key ≠ some source := by
  intro hmoved
  by_cases htarget : key = target
  · rw [movedKey?, if_pos htarget] at hmoved
    cases hmoved
  · by_cases hsource : key = source
    · rw [hsource, h.movedKey?_source] at hmoved
      exact h.ne (Option.some.inj hmoved)
    · by_cases hinside : key.startsWith (source ++ "/") = true
      · obtain ⟨rest, rfl⟩ := startsWith_directory.mp hinside
        rw [movedKey?_inside htarget] at hmoved
        exact h.source_notIn
          (Or.inr (startsWith_directory.mpr ⟨rest, (Option.some.inj hmoved).symm⟩))
      · rw [movedKey?, if_neg htarget, if_neg hsource, if_neg hinside] at hmoved
        exact hsource (Option.some.inj hmoved)

theorem movedKey?_eq_of_not_isIn {other : String} (hsource : ¬ IsIn source key)
    (htarget : ¬ IsIn target key) : movedKey? source target other = some key ↔ other = key := by
  constructor
  · intro hmoved
    by_cases hother : other = target
    · rw [movedKey?, if_pos hother] at hmoved
      cases hmoved
    · by_cases hother' : other = source
      · rw [hother', h.movedKey?_source] at hmoved
        exact absurd (Or.inl (Option.some.inj hmoved).symm) htarget
      · by_cases hinside : other.startsWith (source ++ "/") = true
        · obtain ⟨rest, rfl⟩ := startsWith_directory.mp hinside
          rw [movedKey?_inside hother] at hmoved
          exact absurd
            (Or.inr (startsWith_directory.mpr ⟨rest, (Option.some.inj hmoved).symm⟩)) htarget
        · rw [movedKey?, if_neg hother, if_neg hother', if_neg hinside] at hmoved
          exact Option.some.inj hmoved
  · rintro rfl
    rw [movedKey?, if_neg fun he ↦ htarget (Or.inl he), if_neg fun he ↦ hsource (Or.inl he),
      if_neg fun he ↦ hsource (Or.inr he)]

end Apart

/-- What a move does: nothing is left where it starts, and what was there is found where it ends.
-/
theorem get?_move (h : Apart source target) (hmove : files.move? source target = some files') :
    Entries.get? files' source = none ∧
    (Entries.get? files' target = Entries.get? files source ∨
      Entries.get? files source = none ∧
        Entries.get? files' target = Entries.get? files target) ∧
    ∀ key, ¬ IsIn source key → ¬ IsIn target key →
      Entries.get? files' key = Entries.get? files key := by
  unfold move? at hmove
  by_cases hpresent : (files.holds source || files.holdsDirectory source) = true
  · rw [if_neg (by rw [hpresent]; decide)] at hmove
    by_cases hdirectory : files.holdsDirectory target = true
    · rw [if_pos hdirectory] at hmove
      cases hmove
    · rw [if_neg hdirectory] at hmove
      cases hmove
      exact ⟨Entries.get?_moved_eq_none fun _ ↦ h.movedKey?_ne_source,
        Or.inl (Entries.get?_moved fun _ ↦ h.movedKey?_eq_target),
        fun key hsource htarget ↦
          Entries.get?_moved fun _ ↦ h.movedKey?_eq_of_not_isIn hsource htarget⟩
  · rw [Bool.not_eq_true] at hpresent
    rw [if_pos (by rw [hpresent]; rfl)] at hmove
    cases hmove
    have habsent : (Entries.get? files source).isSome = false :=
      (Bool.or_eq_false_iff.mp (Bool.or_eq_false_iff.mp hpresent).1).2
    have hnone : Entries.get? files source = none :=
      Option.isNone_iff_eq_none.mp (Option.isSome_eq_false_iff.mp habsent)
    exact ⟨hnone, Or.inr ⟨hnone, rfl⟩, fun _ _ _ ↦ rfl⟩

/-! The generations of a log are apart from each other. -/

theorem slash_notMem_ageMark (n : Nat) : '/' ∉ (ageMark n).toList := by
  cases n with
  | zero => simp [ageMark]
  | succ n =>
    intro hslash
    rw [ageMark, String.toList_append, List.mem_append] at hslash
    rcases hslash with hdot | hdigit
    · simp at hdot
    · have hdigits : '/' ∈ Nat.toDigits 10 (n + 1) := by simpa using hdigit
      exact absurd (Nat.isDigit_of_mem_toDigits (by decide) (by decide) hdigits) (by decide)

theorem ageMark_injective : Function.Injective ageMark := by
  intro m n h
  cases m with
  | zero =>
    cases n with
    | zero => rfl
    | succ n => simp [ageMark, String.ext_iff] at h
  | succ m =>
    cases n with
    | zero => simp [ageMark, String.ext_iff] at h
    | succ n =>
      have hdigits : Nat.toDigits 10 (m + 1) = Nat.toDigits 10 (n + 1) := by
        simpa using congrArg String.toList ((String.append_right_inj ".").mp h)
      rw [← @Nat.ofDigitChars_ten_toDigits (m + 1), hdigits, Nat.ofDigitChars_ten_toDigits]

theorem not_isIn_generation {m n : Nat} (h : m ≠ n) :
    ¬ IsIn (generation log m) (generation log n) := by
  rintro (he | hinside)
  · exact h (ageMark_injective ((String.append_right_inj log).mp he)).symm
  · obtain ⟨rest, hrest⟩ := startsWith_directory.mp hinside
    have hmark : ageMark n = ageMark m ++ "/" ++ rest := by
      rw [generation, generation, String.append_assoc, String.append_assoc] at hrest
      rw [String.append_assoc]
      exact (String.append_right_inj log).mp hrest
    exact slash_notMem_ageMark n (by simp [hmark])

@[simp] theorem generation_zero (log : String) : generation log 0 = log := String.append_empty

theorem apart_generation (log : String) {m n : Nat} (h : m ≠ n) :
    Apart (generation log m) (generation log n) :=
  ⟨not_isIn_generation h.symm, not_isIn_generation h⟩

/-! What is kept of a log. -/

/-- What the first `n` generations of a log hold, the oldest first. -/
def history (files : Files) (log : String) : Nat → String
  | 0 => ""
  | n + 1 => (Entries.get? files (generation log n)).getD "" ++ history files log n

theorem history_congr
    (h : ∀ m < n, Entries.get? files' (generation log m) = Entries.get? files (generation log m)) :
    history files' log n = history files log n := by
  induction n with
  | zero => rfl
  | succ n ih =>
    rw [history, history, h n n.lt_succ_self, ih fun m hm ↦ h m (Nat.lt_succ_of_lt hm)]

/-- No key of the first `n` generations of a log or in a directory in the place of one of them. -/
def Outside (log : String) (n : Nat) (key : String) : Prop :=
  ∀ m < n, ¬ IsIn (generation log m) key

theorem get?_shift (h : shift? log n files = some files') (hkey : Outside log (n + 1) key) :
    Entries.get? files' key = Entries.get? files key := by
  induction n generalizing files with
  | zero =>
    cases h
    rfl
  | succ n ih =>
    obtain ⟨moved, hmove, hshift⟩ := Option.bind_eq_some_iff.mp h
    have hmoved := (get?_move (apart_generation log (Nat.succ_ne_self n).symm) hmove).2.2 key
      (hkey n (by omega)) (hkey (n + 1) (by omega))
    rw [ih hshift fun m hm ↦ hkey m (by omega), hmoved]

/-- If the generations are made one older, the oldest may be given up and nothing else is. -/
theorem history_shift (h : shift? log n files = some files') :
    history files' log (n + 1) = history files log n ∨
      history files' log (n + 1) = history files log (n + 1) := by
  induction n generalizing files with
  | zero =>
    cases h
    exact Or.inr rfl
  | succ n ih =>
    obtain ⟨moved, hmove, hshift⟩ := Option.bind_eq_some_iff.mp h
    obtain ⟨hleft, hfound, hkept⟩ :=
      get?_move (apart_generation log (Nat.succ_ne_self n).symm) hmove
    -- the place that has been left takes the next generation, which gives nothing up therefore
    have hyounger : history files' log (n + 1) = history files log n := by
      have hmoved : history moved log n = history files log n :=
        history_congr fun m hm ↦ hkept _ (not_isIn_generation (by omega))
          (not_isIn_generation (by omega))
      have hempty : history moved log (n + 1) = history moved log n := by
        rw [history, hleft]
        exact String.empty_append
      rcases ih hshift with h | h
      · rw [h, hmoved]
      · rw [h, hempty, hmoved]
    have holdest : Entries.get? files' (generation log (n + 1)) =
        Entries.get? moved (generation log (n + 1)) :=
      get?_shift hshift fun m hm ↦ not_isIn_generation (by omega)
    rw [history, holdest, hyounger]
    rcases hfound with hfound | ⟨hnone, hfound⟩
    · rw [hfound]
      exact Or.inl rfl
    · rw [hfound]
      refine Or.inr ?_
      have hsame : history files log (n + 1) = history files log n := by
        rw [history, hnone]
        exact String.empty_append
      rw [← hsame]
      rfl

theorem get?_append (files : Files) (log text key : String) :
    Entries.get? (files.append log text) key =
      if key = log ∧ log ≠ sink then some ((files.contents? log).getD "" ++ text)
      else Entries.get? files key := by
  unfold append replace
  by_cases hsink : log = sink
  · rw [if_pos hsink, if_neg fun h ↦ h.2 hsink]
  · rw [if_neg hsink, Entries.get?_set]
    by_cases hkey : key = log
    · rw [if_pos hkey, if_pos ⟨hkey, hsink⟩]
    · rw [if_neg hkey, if_neg fun h ↦ hkey h.1]

/-- What is put behind a log is put behind all that is kept of it. -/
theorem history_append (files : Files) (text : String) (hlog : log ≠ sink) (n : Nat) :
    history (files.append log text) log (n + 1) = history files log (n + 1) ++ text := by
  induction n with
  | zero =>
    rw [history, history, history, history, generation_zero, get?_append, if_pos ⟨rfl, hlog⟩,
      contents?, if_neg hlog, String.append_empty, String.append_empty]
    rfl
  | succ n ih =>
    have hother : generation log (n + 1) ≠ log := by
      intro he
      exact not_isIn_generation n.succ_ne_zero.symm (Or.inl (he.trans (generation_zero log).symm))
    rw [history, get?_append, if_neg fun h ↦ hother h.1, ih, ← String.append_assoc]
    rfl

/-- No file is changed but the generations of a log, if there is one. They hold what they held, the
oldest first, with more put behind it and something taken away at the front. -/
structure LogsOnly (log : Option String) (before after : Files) : Prop where
  kept : ∀ key, (∀ name, log = some name → Outside name (backupCount + 1) key) →
    after.contents? key = before.contents? key
  grown : ∀ name, log = some name → ∃ more gone,
    before.history name (backupCount + 1) ++ more = gone ++ after.history name (backupCount + 1)

namespace LogsOnly

variable {log : Option String} {first middle last : Files}

theorem refl (log : Option String) (files : Files) : LogsOnly log files files :=
  ⟨fun _ _ ↦ rfl, fun _ _ ↦ ⟨"", "", by rw [String.append_empty, String.empty_append]⟩⟩

theorem trans (h : LogsOnly log first middle) (h' : LogsOnly log middle last) :
    LogsOnly log first last := by
  refine ⟨fun key hkey ↦ (h'.kept key hkey).trans (h.kept key hkey), fun name hname ↦ ?_⟩
  obtain ⟨more, gone, hmiddle⟩ := h.grown name hname
  obtain ⟨more', gone', hlast⟩ := h'.grown name hname
  refine ⟨more ++ more', gone ++ gone', ?_⟩
  rw [← String.append_assoc, hmiddle, String.append_assoc, hlast, String.append_assoc]

theorem append (files : Files) (log text : String) :
    LogsOnly (some log) files (files.append log text) := by
  constructor
  · intro key hkey
    have hother : key ≠ log := by
      intro he
      exact hkey log rfl 0 (by decide) (Or.inl (he.trans (generation_zero log).symm))
    exact contents?_congr ((get?_append files log text key).trans (if_neg fun h ↦ hother h.1))
  · rintro _ ⟨⟩
    by_cases hlog : log = sink
    · have hlost : files.append log text = files := if_pos hlog
      rw [hlost]
      exact (refl (some log) files).grown log rfl
    · exact ⟨text, "", by rw [history_append files text hlog, String.empty_append]⟩

theorem rollover {files files' : Files} {log : String} (h : files.rollover? log = some files') :
    LogsOnly (some log) files files' := by
  unfold rollover? at h
  split at h
  next => cases h
  next =>
    constructor
    · intro key hkey
      exact contents?_congr (get?_shift h (hkey log rfl))
    · rintro _ ⟨⟩
      rcases history_shift h with hyounger | hall
      · refine ⟨"", (Entries.get? files (generation log backupCount)).getD "", ?_⟩
        rw [hyounger, String.append_empty]
        rfl
      · exact ⟨"", "", by rw [hall, String.append_empty, String.empty_append]⟩

theorem note (files : Files) (log line : String) :
    LogsOnly (some log) files (files.note log line) := by
  unfold Files.note
  by_cases hfull : files.isFull log line = true
  · rw [if_pos hfull]
    cases hroom : files.rollover? log with
    | none => exact refl (some log) files
    | some rolled => exact (rollover hroom).trans (append rolled log line)
  · rw [if_neg hfull]
    exact append files log line

end LogsOnly

end CurveCalc.CommandLine.Files
