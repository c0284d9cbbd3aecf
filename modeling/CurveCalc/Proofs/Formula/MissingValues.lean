import CurveCalc.Proofs.Formula.Leaves
import CurveCalc.Proofs.Formula.Safety
import CurveCalc.Toolchain

/-!
Which variable is reported where values are missing. The values given to a program stop at the first
of its names without one, so the names behind it lack theirs too. That it is nevertheless the one
reported follows from three facts: the names of a program are those of its text in the order of
their first appearance, its code comes upon their slots in this order, and folding changes nothing
about the loads. So a run that ends for want of a value ends at the first name in the text that has
none, and every run comes upon it.
-/

set_option autoImplicit false
set_option relaxedAutoImplicit false

namespace CurveCalc

/-- A program with the names of a text that loads them in the order in which they are written. -/
structure Program.Reads (p : Program Float) (source : String) : Prop where
  wellFormed : p.WellFormed
  names : p.names = (CurveCalc.writtenNames source).eraseDups
  loads : Instruction.loads p.code =
    (CurveCalc.writtenNames source).map fun name ↦ .whole (p.names.idxOf name)

theorem reads_of_compile {maxDepth : Int} {source : String} {p : Program Float}
    (h : compile maxDepth source = .ok p) : p.Reads source := by
  obtain ⟨u, hspelled, -, -, rfl⟩ := exists_of_compile h
  refine ⟨wellFormed_of_compile h, ?_, ?_⟩
  · rw [hspelled.writtenNames]
    rfl
  · rw [u.expression.loads_program, hspelled.writtenNames]
    rfl

theorem Program.Reads.fold {p q : Program Float} {source : String} (hp : p.Reads source)
    (h : p.fold = .ok q) : q.Reads source := by
  obtain ⟨hloads, hnames⟩ := Program.loads_fold h
  have hq := hp.wellFormed.fold
  rw [h] at hq
  exact ⟨hq.1, hnames.trans hp.names, by rw [hloads, hnames, hp.loads]⟩

theorem Toolchain.reads_of_compileFolded {t : Toolchain} {source : String} {p : Program Float}
    (h : t.compileFolded source = .ok p) : p.Reads source := by
  obtain ⟨q, hcompile, hfold⟩ := Attempt.bind_eq_ok.mp h
  exact (reads_of_compile (Attempt.mapError_eq_ok.mp hcompile)).fold
    (Attempt.mapError_eq_ok.mp hfold)

theorem Toolchain.reads_of_programOf {t : Toolchain} {source : String} {p : Program Float}
    (h : t.programOf source = .ok p) : p.Reads source := by
  unfold programOf at h
  split at h
  · exact reads_of_compileFolded h
  · exact reads_of_compile (Attempt.mapError_eq_ok.mp h)

section Names

variable (bindings : Bindings)

/-- Values stop where the first name without one stands. -/
theorem getElem?_length_bindNames (names : List String) :
    names[(bindNames bindings names).length]? =
      names.find? fun name ↦ (bindings.get? name).isNone := by
  induction names with
  | nil => rfl
  | cons name names ih =>
    unfold bindNames
    cases hvalue : bindings.get? name with
    | none => simp [hvalue]
    | some x => simpa [hvalue] using ih

theorem find?_eraseDups (p : String → Bool) (vs : List String) :
    vs.eraseDups.find? p = vs.find? p := by
  induction vs using List.reverseRecOn with
  | nil => rfl
  | append_singleton vs v ih =>
    rw [List.find?_append]
    by_cases hv : v ∈ vs
    · rw [eraseDups_concat_of_mem hv, ih]
      cases hfound : vs.find? p with
      | some w => rfl
      | none => simp [List.find?_eq_none.mp hfound v hv]
    · rw [eraseDups_concat_of_notMem hv, List.find?_append, ih]

variable {bindings} {p : Program Float} {source : String}

theorem Program.Reads.getElem?_length_bind (hp : p.Reads source) :
    p.names[(p.bind bindings).length]? =
      (writtenNames source).find? fun name ↦ (bindings.get? name).isNone := by
  rw [Program.bind, getElem?_length_bindNames, hp.names, find?_eraseDups]

/-- A run that ends for want of a value ends at the first name without one. -/
theorem Program.Reads.run_undefined (hp : p.Reads source) {capacity : Int} {slot given : Nat}
    {names : List String}
    (h : p.run (p.bind bindings) capacity = .error (.undefinedVariable slot names given)) :
    ∃ name, (writtenNames source).find? (fun name ↦ (bindings.get? name).isNone) = some name ∧
      names[slot]? = some name := by
  obtain ⟨hslot, rfl⟩ : slot < p.names.length ∧ names = p.names := by
    have hends := hp.wellFormed.run (p.bind bindings) capacity
    rw [h] at hends
    cases hends with
    | undefined hgiven hslot => exact ⟨hslot, rfl⟩
  have horder : InOrder ((writtenNames source).map p.names.idxOf) := by
    rw [hp.names]
    exact inOrder_idxOf _
  have hloads : Instruction.loads p.code =
      ((writtenNames source).map p.names.idxOf).map fun n : Nat ↦ .whole n := by
    rw [hp.loads, List.map_map]
    rfl
  rw [Program.run_eq p hp.wellFormed.code_ne_nil] at h
  have hstopped : slot = (p.bind bindings).length := by
    cases hfollow : Machine.follow capacity p.names (p.bind bindings) p.code [] with
    | error e =>
      rw [hfollow] at h
      cases h
      exact Machine.eq_of_follow_undefined hloads horder hfollow
    | ok xs =>
      rw [hfollow] at h
      cases xs <;> cases h
  refine ⟨p.names[slot], ?_, List.getElem?_eq_getElem hslot⟩
  rw [← hp.getElem?_length_bind, ← hstopped, List.getElem?_eq_getElem hslot]

/-- A run comes to its end only where every name has a value. -/
theorem Program.Reads.run_ok (hp : p.Reads source) {capacity : Int} {x : Float}
    (h : p.run (p.bind bindings) capacity = .ok x) :
    ∀ name ∈ writtenNames source, (bindings.get? name).isSome := by
  intro name hname
  by_contra hmissing
  obtain ⟨first, hfirst⟩ : ∃ first,
      (writtenNames source).find? (fun name ↦ (bindings.get? name).isNone) = some first :=
    Option.isSome_iff_exists.mp (List.find?_isSome.mpr ⟨name, hname, by simpa using hmissing⟩)
  have hslot : p.names[(p.bind bindings).length]? = some first :=
    hp.getElem?_length_bind.trans hfirst
  obtain ⟨hlt, hget⟩ := List.getElem?_eq_some_iff.mp hslot
  have hnodup : p.names.Nodup := hp.names ▸ nodup_eraseDups _
  have hidx : p.names.idxOf first = (p.bind bindings).length := hget ▸ hnodup.idxOf_getElem _ hlt
  rw [Program.run_eq p hp.wellFormed.code_ne_nil] at h
  obtain ⟨xs, hfollow, -⟩ := Attempt.bind_eq_ok.mp h
  have hmem : (Operand.whole (p.names.idxOf first) : Operand Float) ∈ Instruction.loads p.code := by
    rw [hp.loads]
    exact List.mem_map_of_mem (List.mem_of_find?_eq_some hfirst)
  obtain ⟨n, hn, hsupplied⟩ := Machine.loads_of_follow_ok hfollow _ hmem
  obtain rfl : (p.names.idxOf first : Int) = n := Except.ok.inj hn
  omega

end Names

namespace Toolchain

variable {t : Toolchain} {source : String} {p : Program Float}

theorem evaluate_of_programOf (h : t.programOf source = .ok p) (bindings : Bindings) :
    t.evaluate source bindings = (p.run (p.bind bindings) t.stackSize).mapError .run := by
  unfold evaluate
  rw [h]
  rfl

/-- Of a text that has a program, with or without folding and however large the stack: where every
name in the text has a value, evaluating does not fail for want of one; where some name has none,
evaluating gives no value; and where it fails for want of a value, it names the first of the names
without one, in the order of the text. -/
theorem evaluate_undefined (h : t.programOf source = .ok p) (bindings : Bindings) :
    ((∀ name ∈ writtenNames source, (bindings.get? name).isSome) → ∀ slot names given,
      t.evaluate source bindings ≠ .error (.run (.undefinedVariable slot names given))) ∧
    ((∃ name ∈ writtenNames source, bindings.get? name = none) → ∀ x,
      t.evaluate source bindings ≠ .ok x) ∧
    ∀ slot names given,
      t.evaluate source bindings = .error (.run (.undefinedVariable slot names given)) →
      ∃ before name after, writtenNames source = before ++ name :: after ∧
        (∀ other ∈ before, (bindings.get? other).isSome) ∧ bindings.get? name = none ∧
        (FormulaError.run (.undefinedVariable slot names given)).message =
          "Undefined variable: " ++ name := by
  have hp := reads_of_programOf h
  rw [evaluate_of_programOf h]
  have hundefined : ∀ slot names given, (p.run (p.bind bindings) t.stackSize).mapError
        FormulaError.run = .error (.run (.undefinedVariable slot names given)) →
      ∃ name, (writtenNames source).find? (fun name ↦ (bindings.get? name).isNone) = some name ∧
        names[slot]? = some name := by
    intro slot names given herror
    cases hrun : p.run (p.bind bindings) t.stackSize with
    | ok x =>
      rw [hrun] at herror
      cases herror
    | error e =>
      rw [hrun] at herror
      cases herror
      exact hp.run_undefined hrun
  refine ⟨?_, ?_, ?_⟩
  · intro hbound slot names given herror
    obtain ⟨name, hfirst, -⟩ := hundefined slot names given herror
    have hvalue := hbound name (List.mem_of_find?_eq_some hfirst)
    have hnone := List.find?_some hfirst
    rw [Option.isNone_iff_eq_none] at hnone
    rw [hnone] at hvalue
    cases hvalue
  · rintro ⟨name, hname, hnone⟩ x hok
    have hvalue := hp.run_ok (Attempt.mapError_eq_ok.mp hok) name hname
    rw [hnone] at hvalue
    cases hvalue
  · intro slot names given herror
    obtain ⟨name, hfirst, hname⟩ := hundefined slot names given herror
    obtain ⟨hnone, before, after, hsplit, hbefore⟩ := List.find?_eq_some_iff_append.mp hfirst
    refine ⟨before, name, after, hsplit, ?_, Option.isNone_iff_eq_none.mp hnone, ?_⟩
    · intro other hother
      simpa using hbefore other hother
    · change "Undefined variable: " ++ names[slot]?.getD _ = _
      rw [hname, Option.getD_some]

end Toolchain

/-- A value for the second name only is not used; the first name is the one that is missing. -/
theorem Toolchain.evaluate_undefined_first :
    ∃ p, Toolchain.programOf {} "y+x" = .ok p ∧
      Toolchain.evaluate {} "y+x" [("x", (2.0 : Float))] =
        .error (.run (.undefinedVariable 0 ["y", "x"] 0)) ∧
      ∃ before name after, writtenNames "y+x" = before ++ name :: after ∧
        (∀ other ∈ before, (Entries.get? [("x", (2.0 : Float))] other).isSome) ∧
        Entries.get? [("x", (2.0 : Float))] name = none ∧
        (FormulaError.run (.undefinedVariable 0 ["y", "x"] 0)).message =
          "Undefined variable: " ++ name := by
  let x : VariableName := ⟨'x', [], by decide, List.forall_mem_nil _, by decide⟩
  let y : VariableName := ⟨'y', [], by decide, List.forall_mem_nil _, by decide⟩
  let e : Expression Constant VariableName := .binary .add (.var y) (.var x)
  have hok : CurveCalc.compile 100 "y+x" = .ok e.written.program :=
    compile_of_text e (by decide) (by decide) (by decide)
  have hprogram : Toolchain.programOf {} "y+x" = .ok e.written.program := by
    change (((CurveCalc.compile 100 "y+x").mapError FormulaError.compile).bind Toolchain.fold) = _
    rw [hok]
    rfl
  have herror : Toolchain.evaluate {} "y+x" [("x", (2.0 : Float))] =
      .error (.run (.undefinedVariable 0 ["y", "x"] 0)) := by
    rw [Toolchain.evaluate_of_programOf hprogram]
    rfl
  exact ⟨_, hprogram, herror, (Toolchain.evaluate_undefined hprogram [("x", 2.0)]).2.2 _ _ _ herror⟩

end CurveCalc
