import CurveCalc.Proofs.Plot.Obstacles
import CurveCalc.Proofs.Plot.Records
import Mathlib.Data.List.TakeWhile

/-!
Assignments, read one after the other. An assignment is a name, an equals sign and a number
(`Assigns`); the name goes up to the first equals sign and must not be empty, and the blanks around
it do not count. What is no assignment is refused (`Refuses`), and nothing is both
(`readAssignment_eq_ok`, `readAssignment_eq_error`). Of several assignments each name has its place
where it first comes up (`Entries.keys_ofList`) and its value from where it comes up last
(`Entries.get?_ofList`). Only when the name is tested do its blanks count: of blanks alone it passes,
and is the empty name then (`readAssignments_blank`).
-/

set_option autoImplicit false
set_option relaxedAutoImplicit false

namespace CurveCalc

/-! One assignment. -/

theorem splitAssignment_append {raw value : List Char} (hraw : '=' ∉ raw) :
    splitAssignment (raw ++ '=' :: value) = some (raw, value) := by
  have hkept : ∀ c ∈ raw, (c != '=') = true := by
    intro c hc
    simpa using ne_of_mem_of_not_mem hc hraw
  simp [splitAssignment, List.dropWhile_append_of_pos hkept, List.takeWhile_append_of_pos hkept]

theorem splitAssignment_of_notMem {chars : List Char} (h : '=' ∉ chars) :
    splitAssignment chars = none := by
  have hall : chars.dropWhile (fun c ↦ c != '=') = [] := by
    rw [List.dropWhile_eq_nil_iff]
    intro c hc
    simpa using ne_of_mem_of_not_mem hc h
  simp [splitAssignment, hall]

/-- A name, the first equals sign, and a number. The name is kept without the blanks around it. -/
inductive Assigns : String → String → Float → Prop
  | intro {raw value : String} {x : Float} (hequals : '=' ∉ raw.toList) (hraw : raw ≠ "")
    (hvalue : Number.readFloat? value = some x) :
    Assigns (raw ++ "=" ++ value) (Text.trim raw) x

/-- Why a text is no assignment. -/
inductive Refuses : String → AssignmentError → Prop
  | noEquals {a : String} (hequals : '=' ∉ a.toList) : Refuses a (.malformed a)
  | noName (value : String) : Refuses ("=" ++ value) (.malformed ("=" ++ value))
  | noNumber {raw value : String} (hequals : '=' ∉ raw.toList) (hraw : raw ≠ "")
    (hvalue : Number.readFloat? value = none) : Refuses (raw ++ "=" ++ value) (.notANumber value)

theorem assigns_iff {a name : String} {x : Float} : Assigns a name x ↔
    ∃ raw value, a = raw ++ "=" ++ value ∧ '=' ∉ raw.toList ∧ raw ≠ "" ∧ Text.trim raw = name ∧
      Number.readFloat? value = some x := by
  constructor
  · rintro ⟨hequals, hraw, hvalue⟩
    exact ⟨_, _, rfl, hequals, hraw, rfl, hvalue⟩
  · rintro ⟨raw, value, rfl, hequals, hraw, rfl, hvalue⟩
    exact .intro hequals hraw hvalue

/-- What is read of a text with an equals sign in it. -/
theorem readAssignment_append {raw : String} (hequals : '=' ∉ raw.toList) (value : String) :
    readAssignment (raw ++ "=" ++ value) =
      if raw = "" then .error (.malformed (raw ++ "=" ++ value))
      else match Number.readFloat? value with
        | some x => .ok (Text.trim raw, x)
        | none => .error (.notANumber value) := by
  have hsplit : splitAssignment (raw ++ "=" ++ value).toList = some (raw.toList, value.toList) := by
    have hchars : (raw ++ "=" ++ value).toList = raw.toList ++ '=' :: value.toList := by simp
    rw [hchars, splitAssignment_append hequals]
  simp only [readAssignment, hsplit, String.ofList_toList]
  by_cases hraw : raw = ""
  · simp [hraw]
  · have hchars : raw.toList.isEmpty = false := by simpa using hraw
    simp only [hchars, hraw, if_false, Bool.false_eq_true]
    rfl

theorem Assigns.read {a name : String} {x : Float} (h : Assigns a name x) :
    readAssignment a = .ok (name, x) := by
  obtain ⟨hequals, hraw, hvalue⟩ := h
  simp [readAssignment_append hequals, hraw, hvalue]

theorem Refuses.read {a : String} {e : AssignmentError} (h : Refuses a e) :
    readAssignment a = .error e := by
  cases h with
  | noEquals hequals => simp [readAssignment, splitAssignment_of_notMem hequals]
  | noName value => simpa using readAssignment_append (show '=' ∉ "".toList by simp) value
  | noNumber hequals hraw hvalue => simp [readAssignment_append hequals, hraw, hvalue]

/-- Every text is an assignment or is refused. -/
theorem assigns_or_refuses (a : String) : (∃ name x, Assigns a name x) ∨ ∃ e, Refuses a e := by
  by_cases hequals : '=' ∈ a.toList
  · obtain ⟨raw, value, hchars, hraw⟩ := List.eq_append_cons_of_mem hequals
    obtain rfl : a = String.ofList raw ++ "=" ++ String.ofList value := by
      apply String.toList_injective
      simp [hchars]
    have hraw' : '=' ∉ (String.ofList raw).toList := by simpa using hraw
    by_cases hname : String.ofList raw = ""
    · right
      simpa [hname] using ⟨_, Refuses.noName (String.ofList value)⟩
    · cases hvalue : Number.readFloat? (String.ofList value) with
      | some x => exact Or.inl ⟨_, x, .intro hraw' hname hvalue⟩
      | none => exact Or.inr ⟨_, .noNumber hraw' hname hvalue⟩
  · exact Or.inr ⟨_, .noEquals hequals⟩

theorem readAssignment_eq_ok {a name : String} {x : Float} :
    readAssignment a = .ok (name, x) ↔ Assigns a name x := by
  refine ⟨fun h ↦ ?_, Assigns.read⟩
  obtain ⟨name', x', hassigns⟩ | ⟨e, hrefuses⟩ := assigns_or_refuses a
  · have hsame := hassigns.read
    simp only [h, Except.ok.injEq, Prod.mk.injEq] at hsame
    obtain ⟨rfl, rfl⟩ := hsame
    exact hassigns
  · simp [hrefuses.read] at h

theorem readAssignment_eq_error {a : String} {e : AssignmentError} :
    readAssignment a = .error e ↔ Refuses a e := by
  refine ⟨fun h ↦ ?_, Refuses.read⟩
  obtain ⟨name, x, hassigns⟩ | ⟨e', hrefuses⟩ := assigns_or_refuses a
  · simp [hassigns.read] at h
  · have hsame := hrefuses.read
    simp only [h, Except.error.injEq] at hsame
    exact hsame ▸ hrefuses

/-! Names of blanks. -/

theorem Text.trimBy_eq_nil_iff {p : Char → Bool} {chars : List Char} :
    trimBy p chars = [] ↔ ∀ c ∈ chars, p c = true := by
  rw [trimBy, List.reverse_eq_nil_iff, List.dropWhile_eq_nil_iff]
  constructor
  · intro h
    rw [← List.dropWhile_eq_nil_iff]
    by_contra hne
    have hhead := List.head_dropWhile_not p hne
    have hblank := h _ (List.mem_reverse.mpr (List.head_mem hne))
    simp [hhead] at hblank
  · intro h c hc
    exact h c ((List.dropWhile_sublist p).subset (List.mem_reverse.mp hc))

/-- Nothing but blanks is left of a text that is made of blanks. -/
theorem Text.trim_eq_empty_iff {text : String} :
    trim text = "" ↔ ∀ c ∈ text.toList, isBlank c = true := by
  rw [trim, String.ofList_eq_empty_iff, trimChars, trimBy_eq_nil_iff]

/-! Several assignments. -/

namespace Entries

variable {ν : Type} (pairs : List (String × ν)) (e : String × ν)

theorem ofList_concat : ofList (pairs ++ [e]) = set (ofList pairs) e.1 e.2 := by
  simp [ofList, update]

/-- Each key has its place where it first comes up. -/
theorem keys_ofList : (ofList pairs).map Prod.fst = (pairs.map Prod.fst).eraseDups := by
  induction pairs using List.reverseRecOn with
  | nil => rfl
  | append_singleton pairs e ih =>
    rw [ofList_concat, keys_set, ih, List.map_append, List.map_singleton]
    by_cases hkey : e.1 ∈ pairs.map Prod.fst
    · rw [if_pos (List.mem_eraseDups.mpr hkey), eraseDups_concat_of_mem hkey]
    · rw [if_neg (mt List.mem_eraseDups.mp hkey), eraseDups_concat_of_notMem hkey]

/-- A pair of a list with one more pair behind it is that one, or is followed by it. -/
theorem concat_eq_append_cons {before after : List (String × ν)} {d : String × ν} :
    pairs ++ [e] = before ++ d :: after ↔ (after = [] ∧ pairs = before ∧ e = d) ∨
      ∃ more, after = more ++ [e] ∧ pairs = before ++ d :: more := by
  obtain rfl | ⟨more, last, rfl⟩ := after.eq_nil_or_concat'
  · simp
  · rw [← List.cons_append, ← List.append_assoc, List.append_singleton_inj]
    constructor
    · rintro ⟨hpairs, rfl⟩
      exact Or.inr ⟨more, rfl, hpairs⟩
    · rintro (⟨hnil, -, -⟩ | ⟨more', hmore, hpairs⟩)
      · simp at hnil
      · obtain ⟨rfl, rfl⟩ := List.append_singleton_inj.mp hmore
        exact ⟨hpairs, rfl⟩

/-- Each key has its value from where it comes up last. -/
theorem get?_ofList (key : String) (value : ν) : get? (ofList pairs) key = some value ↔
    ∃ before after, pairs = before ++ (key, value) :: after ∧ key ∉ after.map Prod.fst := by
  induction pairs using List.reverseRecOn with
  | nil => simp [ofList, update, get?]
  | append_singleton pairs e ih =>
    rw [ofList_concat, get?_set]
    simp only [concat_eq_append_cons]
    by_cases hkey : key = e.1
    · rw [if_pos hkey]
      constructor
      · rintro ⟨⟩
        exact ⟨pairs, [], Or.inl ⟨rfl, rfl, by rw [hkey]⟩, by simp⟩
      · rintro ⟨before, after, ⟨-, -, rfl⟩ | ⟨more, rfl, -⟩, hafter⟩
        · rfl
        · simp [hkey] at hafter
    · rw [if_neg hkey, ih]
      constructor
      · rintro ⟨before, after, rfl, hafter⟩
        exact ⟨before, after ++ [e], Or.inr ⟨after, rfl, rfl⟩, by simpa [hkey] using hafter⟩
      · rintro ⟨before, after, ⟨-, -, rfl⟩ | ⟨more, rfl, rfl⟩, hafter⟩
        · exact absurd rfl hkey
        · refine ⟨before, more, rfl, fun hmore ↦ hafter ?_⟩
          rw [List.map_append]
          exact List.mem_append_left _ hmore

end Entries

section

variable {assignments : List String} {pairs : List (String × Float)}

theorem readAssignments_eq_ok {bindings : Bindings} : readAssignments assignments = .ok bindings ↔
    ∃ pairs : List (String × Float),
      List.Forall₂ (fun a p ↦ Assigns a p.1 p.2) assignments pairs ∧
      bindings = Entries.ofList pairs := by
  unfold readAssignments
  constructor
  · intro h
    obtain ⟨pairs, hpairs, h⟩ := Attempt.bind_eq_ok.mp h
    refine ⟨pairs, (Attempt.mapM_eq_ok.mp hpairs).imp fun a p hp ↦ ?_, (Except.ok.inj h).symm⟩
    exact readAssignment_eq_ok.mp hp
  · rintro ⟨pairs, hpairs, rfl⟩
    rw [Attempt.mapM_eq_ok.mpr (hpairs.imp fun a p hp ↦ hp.read)]
    rfl

theorem readAssignments_eq_error {e : AssignmentError} : readAssignments assignments = .error e ↔
    ∃ before a after, assignments = before ++ a :: after ∧
      (∀ b ∈ before, ∃ name x, Assigns b name x) ∧ Refuses a e := by
  have herror : readAssignments assignments = .error e ↔
      assignments.mapM readAssignment = .error e := by
    refine Attempt.bind_eq_error.trans (or_iff_left ?_)
    rintro ⟨pairs, -, h⟩
    simp [pure, Except.pure] at h
  rw [herror, Attempt.mapM_eq_error]
  simp only [Prod.exists, readAssignment_eq_ok, readAssignment_eq_error]

theorem assigns_of_forall₂ (h : List.Forall₂ (fun a p ↦ Assigns a p.1 p.2) assignments pairs) :
    ∀ a ∈ assignments, ∃ name x, Assigns a name x := by
  induction h with
  | nil => simp
  | cons hp _ ih => exact List.forall_mem_cons.mpr ⟨⟨_, _, hp⟩, ih⟩

theorem mem_names_iff (h : List.Forall₂ (fun a p ↦ Assigns a p.1 p.2) assignments pairs)
    {name : String} : name ∈ pairs.map Prod.fst ↔ ∃ a ∈ assignments, ∃ x, Assigns a name x := by
  induction h with
  | nil => simp
  | @cons a p assignments pairs hp _ ih =>
    have hfirst : name = p.1 ↔ ∃ x, Assigns a name x := by
      constructor
      · rintro rfl
        exact ⟨p.2, hp⟩
      · rintro ⟨x, hx⟩
        have hsame := hx.read.symm.trans hp.read
        simpa using congrArg Prod.fst (Except.ok.inj hsame)
    simp only [List.map_cons, List.mem_cons, hfirst, ih, exists_eq_or_imp]

/-- A name is empty if it has been written as blanks. -/
theorem assigns_empty_iff {a : String} (ha : ∃ name x, Assigns a name x) :
    (∃ x, Assigns a "" x) ↔ ∃ raw value, a = raw ++ "=" ++ value ∧ '=' ∉ raw.toList ∧
      ∀ c ∈ raw.toList, Text.isBlank c = true := by
  simp only [← Text.trim_eq_empty_iff]
  constructor
  · rintro ⟨x, hx⟩
    obtain ⟨raw, value, rfl, hequals, -, hname, -⟩ := assigns_iff.mp hx
    exact ⟨raw, value, rfl, hequals, hname⟩
  · rintro ⟨raw, value, rfl, hequals, hblank⟩
    obtain ⟨name, x, hassigns⟩ := ha
    have hread := hassigns.read
    rw [readAssignment_append hequals] at hread
    split_ifs at hread with hraw
    split at hread
    · rename_i hvalue
      exact ⟨_, assigns_iff.mpr ⟨raw, value, rfl, hequals, hraw, hblank, hvalue⟩⟩
    · simp at hread

end

/-- Assignments are read if and only if each of them is one, and the first that is none is what is
refused. What has been read has each name once, in the order in which they first come up, and each
with the value from where it comes up last. One of the names is empty if and only if one has been
written as blanks. -/
theorem readAssignments_iff (assignments : List String) :
    ((∃ bindings, readAssignments assignments = .ok bindings) ↔
      ∀ a ∈ assignments, ∃ name x, Assigns a name x) ∧
    (∀ bindings, readAssignments assignments = .ok bindings →
      ∃ pairs : List (String × Float),
        List.Forall₂ (fun a p ↦ Assigns a p.1 p.2) assignments pairs ∧
        bindings.map Prod.fst = (pairs.map Prod.fst).eraseDups ∧
        (∀ name x, bindings.get? name = some x ↔ ∃ before after,
          pairs = before ++ (name, x) :: after ∧ name ∉ after.map Prod.fst) ∧
        ("" ∈ bindings.map Prod.fst ↔ ∃ raw value, raw ++ "=" ++ value ∈ assignments ∧
          '=' ∉ raw.toList ∧ ∀ c ∈ raw.toList, Text.isBlank c = true)) ∧
    ∀ e, readAssignments assignments = .error e ↔ ∃ before a after,
      assignments = before ++ a :: after ∧ (∀ b ∈ before, ∃ name x, Assigns b name x) ∧
        Refuses a e := by
  refine ⟨?_, fun bindings h ↦ ?_, fun e ↦ readAssignments_eq_error⟩
  · constructor
    · rintro ⟨bindings, h⟩
      obtain ⟨pairs, hpairs, -⟩ := readAssignments_eq_ok.mp h
      exact assigns_of_forall₂ hpairs
    · intro h
      obtain ⟨pairs, -, hpairs⟩ := Attempt.mapM_ok (f := readAssignment)
        (P := fun a p ↦ Assigns a p.1 p.2) fun a ha ↦ by
          obtain ⟨name, x, hassigns⟩ := h a ha
          exact ⟨(name, x), hassigns.read, hassigns⟩
      exact ⟨_, readAssignments_eq_ok.mpr ⟨pairs, hpairs.imp fun _ _ hp ↦ hp.2, rfl⟩⟩
  · obtain ⟨pairs, hpairs, rfl⟩ := readAssignments_eq_ok.mp h
    refine ⟨pairs, hpairs, Entries.keys_ofList pairs, Entries.get?_ofList pairs, ?_⟩
    rw [Entries.keys_ofList, List.mem_eraseDups, mem_names_iff hpairs]
    constructor
    · rintro ⟨a, ha, hempty⟩
      obtain ⟨raw, value, rfl, hblank⟩ :=
        (assigns_empty_iff (assigns_of_forall₂ hpairs a ha)).mp hempty
      exact ⟨raw, value, ha, hblank⟩
    · rintro ⟨raw, value, ha, hblank⟩
      exact ⟨_, ha, (assigns_empty_iff (assigns_of_forall₂ hpairs _ ha)).mpr
        ⟨raw, value, rfl, hblank⟩⟩

/-- Two assignments to one name, one of them with blanks around it. -/
theorem readAssignments_twice :
    readAssignments ["x=1", "y=2", " x = 3"] = .ok [("x", 3.0), ("y", 2.0)] ∧
    (∀ a ∈ ["x=1", "y=2", " x = 3"], ∃ name x, Assigns a name x) ∧
    ∃ pairs : List (String × Float),
      List.Forall₂ (fun a p ↦ Assigns a p.1 p.2) ["x=1", "y=2", " x = 3"] pairs ∧
      ["x", "y"] = (pairs.map Prod.fst).eraseDups := by
  have hread : readAssignments ["x=1", "y=2", " x = 3"] = .ok [("x", 3.0), ("y", 2.0)] := by
    decide +kernel
  obtain ⟨pairs, hpairs, hkeys, -⟩ := (readAssignments_iff _).2.1 _ hread
  exact ⟨hread, (readAssignments_iff _).1.mp ⟨_, hread⟩, pairs, hpairs, hkeys⟩

/-- A name of blanks is not refused, and is empty once it has been read. -/
theorem readAssignments_blank :
    Text.trim " " = "" ∧ readAssignments [" =1"] = .ok [("", 1.0)] ∧
      readAssignments ["=1"] = .error (.malformed "=1") := by
  decide +kernel

end CurveCalc
