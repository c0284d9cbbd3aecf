import CurveCalc.Proofs.Formula.Compilation
import CurveCalc.Proofs.Formula.Diagnostics

/-!
Which stray characters are noted. They are noted as they are read over, so it depends on how far a
text is read: to its end, unless a problem ends the reading before. What stands behind the place of
such a problem is never read, and a stray character there is not noted (`compile_strays`).
-/

set_option autoImplicit false
set_option relaxedAutoImplicit false

namespace CurveCalc

theorem strays_marks (text : String) : (marks text).filter Mark.stray =
    ((scan text).filter fun t ↦ t.kind == .error).map Token.mark := by
  rw [marks, List.map_append, List.filter_append, List.filter_map]
  exact List.append_nil _

theorem strays_diagnostics (ds : List Diagnostic) : (ds.map Diagnostic.mark).filter Mark.stray =
    (ds.filter fun d ↦ d.problem == .unexpectedCharacter).map Diagnostic.mark := List.filter_map

/-- A place that is read before any problem ends the reading. -/
def ReadBefore (ds : List Diagnostic) (position : Nat) : Prop :=
  ∀ d ∈ ds, d.problem.endsReading = true → position < d.position

instance (ds : List Diagnostic) (position : Nat) : Decidable (ReadBefore ds position) :=
  inferInstanceAs (Decidable (∀ d ∈ ds, d.problem.endsReading = true → position < d.position))

/-- If reading comes to the end of a row, every stray character is noted. -/
theorem ReadThrough.strays_eq {row : List Mark} {ds : List Diagnostic} (h : ReadThrough row ds) :
    (ds.map Diagnostic.mark).filter Mark.stray =
      (row.filter Mark.stray).filter (ReadBefore ds ·.position) := by
  obtain ⟨hgoing, ahead, hahead, hgathered⟩ := h
  have hread : ∀ m ∈ row.filter Mark.stray, ReadBefore ds m.position := by
    intro m _ d hd hends
    rw [hgoing d hd] at hends
    cases hends
  have hnone : ahead.filter Mark.stray = [] :=
    List.filter_eq_nil_iff.mpr fun m hm ↦ ne_true_of_eq_false (hahead m hm)
  have hstrays := hgathered.strays
  rw [List.filter_append, hnone, List.append_nil] at hstrays
  rw [hstrays, List.filter_eq_self.mpr fun m hm ↦ decide_eq_true (hread m hm)]

/-- A last problem that ends the reading decides by its place alone. -/
theorem readBefore_concat {front : List Diagnostic} {last : Diagnostic}
    (hfront : ∀ d ∈ front, d.problem.endsReading = false)
    (hlast : last.problem.endsReading = true) (position : Nat) :
    ReadBefore (front ++ [last]) position ↔ position < last.position := by
  constructor
  · intro hread
    exact hread last (List.mem_append_right _ List.mem_cons_self) hlast
  · intro hlt
    refine List.forall_mem_append.mpr ⟨fun d hd hending ↦ ?_, ?_⟩
    · rw [hfront d hd] at hending
      cases hending
    · exact List.forall_mem_singleton.mpr fun _ ↦ hlt

/-- If reading ends early, those stray characters are noted that stand before its end. -/
theorem EndedEarly.strays_eq {row : List Mark} {ds : List Diagnostic} (h : EndedEarly row ds) :
    (ds.map Diagnostic.mark).filter Mark.stray =
      (row.filter Mark.stray).filter (ReadBefore ds ·.position) := by
  obtain ⟨front, last, ahead, rfl, hlast, hfront, hgathered⟩ := h
  have hends := readBefore_concat hfront hlast
  have hordered := List.pairwise_append.mp hgathered.ordered
  rw [List.map_append, List.map_singleton] at hordered
  -- the last problem is not about a stray character itself
  have hproper : last.mark.stray = false := beq_false_of_ne fun hproblem ↦ by
    rw [hproblem] at hlast
    cases hlast
  have hnoted : ∀ m ∈ (front.map Diagnostic.mark).filter Mark.stray,
      ReadBefore (front ++ [last]) m.position := by
    intro m hm
    obtain ⟨hm, hstray⟩ := List.mem_filter.mp hm
    have hbefore := (List.pairwise_append.mp hordered.1).2.2 m hm last.mark List.mem_cons_self
    exact (hends _).mpr (hbefore.lt hstray)
  have hunread : ∀ m ∈ ahead.filter Mark.stray, ¬ ReadBefore (front ++ [last]) m.position := by
    intro m hm hread
    have hbehind := hordered.2.2 last.mark (List.mem_append_right _ List.mem_cons_self) m
      (List.mem_filter.mp hm).1
    exact Nat.not_lt.mpr hbehind.le ((hends _).mp hread)
  have hfirst : ((front ++ [last]).map Diagnostic.mark).filter Mark.stray =
      (front.map Diagnostic.mark).filter Mark.stray := by
    rw [List.map_append, List.filter_append, List.map_singleton,
      Gathered.strays_cons hproper, List.filter_nil, List.append_nil]
  rw [← hgathered.strays, List.filter_append, hfirst, List.filter_append,
    List.filter_eq_self.mpr fun m hm ↦ decide_eq_true (hnoted m hm),
    List.filter_eq_nil_iff.mpr fun m hm ↦ mt of_decide_eq_true (hunread m hm), List.append_nil]

/-- A text that is compiled has no stray characters. Of a text that is not, those stray characters
are noted, each once and in their order, that stand before the place where a problem ends the
reading, or all of them if there is no such problem. -/
theorem compile_strays (maxDepth : Int) (source : String) :
    (∀ p, compile maxDepth source = .ok p →
      ∀ t ∈ scan (Text.withoutBlanks source), t.kind ≠ .error) ∧
    ∀ e, compile maxDepth source = .error e →
      (e.diagnostics.filter fun d ↦ d.problem == .unexpectedCharacter).map
          (fun d ↦ (d.lexeme, d.position)) =
        (((scan (Text.withoutBlanks source)).filter fun t ↦ t.kind == .error).filter
          (ReadBefore e.diagnostics ·.position)).map fun t ↦ (t.lexeme, t.position) := by
  constructor
  · intro p hp
    obtain ⟨t, hspelled, -⟩ := exists_of_compile hp
    exact hspelled.kind_ne_error
  · intro e he
    have hnoted := noted_parse maxDepth source
    rw [← (diagnostics_of_compile he).1] at hnoted
    have hstrays := hnoted.elim ReadThrough.strays_eq EndedEarly.strays_eq
    rw [strays_diagnostics, strays_marks, List.filter_map] at hstrays
    have hplaces := congrArg (List.map fun m : Mark ↦ (m.lexeme, m.position)) hstrays
    rw [List.map_map, List.map_map] at hplaces
    exact hplaces

/-- Behind a stray character reading goes on. -/
theorem compile_strays_skipped :
    ∃ e, compile 100 "2$+3" = .error e ∧
      (e.diagnostics.filter fun d ↦ d.problem == .unexpectedCharacter).map
        (fun d ↦ (d.lexeme, d.position)) = [("$", 1)] := by
  have h : compile 100 "2$+3" = .error ⟨[⟨.unexpectedCharacter, "$", 1⟩]⟩ :=
    compile_of_diagnostics (by decide +kernel) (List.cons_ne_nil _ _)
  refine ⟨_, h, ?_⟩
  rw [(compile_strays 100 "2$+3").2 _ h]
  decide +kernel

/-- Behind a parenthesis where the end was expected, nothing is read any more: the stray character
there is not noted. -/
theorem stray_behind_end :
    compile 100 "1)$" = .error ⟨[⟨.expectedEnd, ")", 1⟩]⟩ ∧
      ⟨.error, "$", 2, .unexpectedCharacter⟩ ∈ scan (Text.withoutBlanks "1)$") :=
  ⟨compile_of_diagnostics (by decide +kernel) (List.cons_ne_nil _ _), by decide +kernel⟩

end CurveCalc
