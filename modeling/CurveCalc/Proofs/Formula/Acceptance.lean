import CurveCalc.Formula.Compile
import CurveCalc.Proofs.Formula.Agreement
import CurveCalc.Proofs.Formula.Grouping
import CurveCalc.Proofs.Formula.Scanning
import Mathlib.Data.List.Induction

/-!
Which texts are compiled, and to what. A text is compiled if its tokens are those of a well grouped
formula within the bounds, and then to the listing of that formula (`compile_cases`). In terms of
the flat grammar: if its tokens are those of a phrase whose operands all nest within the limit and
whose calls have no more arguments than they may (`Phrase.le_iff`).
-/

set_option autoImplicit false
set_option relaxedAutoImplicit false

namespace CurveCalc

/-- The text, its blanks dropped, is written with these symbols. -/
def SpelledBy (source : String) (xs : List (Symbol Literal String)) : Prop :=
  (scan (Text.withoutBlanks source)).map Token.symbol? = xs.map some

namespace Expression

/-- The names of the tree in the order in which they first appear. -/
def names (e : Expression Literal String) : List String := e.vars.eraseDups

/-- The tree over doubles and slots. -/
def slotted (e : Expression Literal String) : Expression Float Nat :=
  e.map Literal.toFloat e.names.idxOf

/-- The code of the tree. -/
def program (e : Expression Literal String) : Program Float := ⟨e.slotted.postorder, e.names⟩

end Expression

theorem SpelledBy.unique {source : String} {xs ys : List (Symbol Literal String)}
    (hxs : SpelledBy source xs) (hys : SpelledBy source ys) : xs = ys :=
  List.map_injective_iff.mpr (fun _ _ ↦ Option.some.inj) (hxs.symm.trans hys)

theorem SpelledBy.exists_symbol? {source : String} {xs : List (Symbol Literal String)}
    (h : SpelledBy source xs) :
    ∀ t ∈ scan (Text.withoutBlanks source), ∃ x, t.symbol? = some x := by
  intro t ht
  have hmem : t.symbol? ∈ xs.map some := by
    rw [← h]
    exact List.mem_map_of_mem ht
  obtain ⟨x, -, hx⟩ := List.mem_map.mp hmem
  exact ⟨x, hx.symm⟩

theorem SpelledBy.kind_ne_error {source : String} {xs : List (Symbol Literal String)}
    (h : SpelledBy source xs) : ∀ t ∈ scan (Text.withoutBlanks source), t.kind ≠ .error := by
  intro t ht
  obtain ⟨x, hx⟩ := h.exists_symbol? t ht
  rw [Token.kind_of_symbol? hx]
  exact x.kind_ne_error

namespace Parser

theorem foldl_enter (vs : List String) : vs.foldl enter [] = vs.eraseDups := by
  induction vs using List.reverseRecOn with
  | nil => rfl
  | append_singleton vs v ih =>
    rw [List.foldl_append, ih, List.eraseDups_append]
    change enter vs.eraseDups v = _
    unfold enter slotOf
    by_cases hv : v ∈ vs
    · obtain ⟨slot, hslot⟩ : ∃ slot, vs.eraseDups.idxOf? v = some slot :=
        Option.isSome_iff_exists.mp (List.isSome_idxOf?.mpr (List.mem_eraseDups.mpr hv))
      rw [hslot]
      simp [List.removeAll, hv]
    · rw [List.idxOf?_eq_none_iff.mpr (mt List.mem_eraseDups.mp hv)]
      simp [List.removeAll, hv]
      rfl

/-- What can come of parsing a text, in terms of its well grouped formulas. -/
theorem parse_cases (maxDepth : Int) (source : String) :
    (∃ t : Formula Literal String, SpelledBy source t.symbols ∧ t.WellGrouped ∧
      t.width ≤ maxArguments ∧ t.depth ≤ maxDepth.toNat ∧ (parse maxDepth source).Accepts t) ∨
    ((parse maxDepth source).Faulty ∧ ∀ t : Formula Literal String, SpelledBy source t.symbols →
      t.WellGrouped → t.width ≤ maxArguments →
        maxDepth.toNat < t.depth ∧ Stopped maxDepth (parse maxDepth source)) := by
  by_cases herror : ∃ t ∈ scan (Text.withoutBlanks source), t.kind = .error
  · refine Or.inr ⟨faulty_run kind_ne_finish_of_mem_scan herror _, fun t ht ↦ ?_⟩
    obtain ⟨u, hu, hkind⟩ := herror
    exact absurd hkind (ht.kind_ne_error u hu)
  · obtain ⟨xs, hxs⟩ := exists_symbols fun t ht hkind ↦ herror ⟨t, ht, hkind⟩
    rcases run_cases maxDepth hxs (rfl : (scanFinish (Text.withoutBlanks source)).kind = .finish)
      with ⟨t, rfl, h⟩ | ⟨hfaulty, h⟩
    · exact Or.inl ⟨t, hxs, h⟩
    · exact Or.inr ⟨hfaulty, fun t ht ↦ h t (SpelledBy.unique ht hxs)⟩

end Parser

theorem compile_of_accepts {maxDepth : Int} {source : String} {t : Formula Literal String}
    (h : (parse maxDepth source).Accepts t) :
    compile maxDepth source = .ok t.expression.program := by
  have hnames : (parse maxDepth source).names = t.expression.names := by
    rw [h.names, Parser.foldl_enter, Expression.names, t.vars_expression]
  have hcode : (parse maxDepth source).code.toList.map (Instruction.map Literal.toFloat) =
      t.expression.slotted.postorder := by
    rw [h.code, hnames, Formula.listing, ← Expression.postorder_map, Expression.map_map]
    rfl
  unfold compile compileLiterals
  dsimp only
  rw [h.clean, hnames]
  exact congrArg Except.ok (congrArg (Program.mk · t.expression.names) hcode)

theorem compile_of_faulty {maxDepth : Int} {source : String} (h : (parse maxDepth source).Faulty) :
    compile maxDepth source = .error ⟨(parse maxDepth source).diagnostics.toList⟩ := by
  have hempty : (parse maxDepth source).diagnostics.isEmpty = false := by
    have hne : (parse maxDepth source).diagnostics ≠ #[] := h
    simpa using hne
  unfold compile compileLiterals
  dsimp only
  rw [hempty]
  rfl

/-- Everything that can come of compiling a text, in terms of its well grouped formulas. -/
theorem compile_cases (maxDepth : Int) (source : String) :
    (∃ t : Formula Literal String, SpelledBy source t.symbols ∧ t.WellGrouped ∧
      t.width ≤ maxArguments ∧ t.depth ≤ maxDepth.toNat ∧
      compile maxDepth source = .ok t.expression.program) ∨
    ∃ e, compile maxDepth source = .error e ∧ e.diagnostics ≠ [] ∧
      ∀ t : Formula Literal String, SpelledBy source t.symbols → t.WellGrouped →
        t.width ≤ maxArguments → maxDepth.toNat < t.depth ∧
          ∃ d, e.diagnostics = [d] ∧ d.problem = .tooDeeplyNested maxDepth := by
  rcases Parser.parse_cases maxDepth source with ⟨t, hspelled, hgrouped, hwidth, hdepth, haccepts⟩ |
    ⟨hfaulty, h⟩
  · exact Or.inl ⟨t, hspelled, hgrouped, hwidth, hdepth, compile_of_accepts haccepts⟩
  · refine Or.inr ⟨_, compile_of_faulty hfaulty, mt Array.toList_eq_nil_iff.mp hfaulty, ?_⟩
    intro t hspelled hgrouped hwidth
    obtain ⟨hdepth, hstopped⟩ := h t hspelled hgrouped hwidth
    obtain ⟨d, hd, hproblem⟩ := hstopped.noted
    exact ⟨hdepth, d, congrArg Array.toList hd, hproblem⟩

/-- A text that is written with the symbols of a well grouped formula within the bounds is compiled
to its listing. -/
theorem compile_of_spelledBy {maxDepth : Int} {source : String} {t : Formula Literal String}
    (ht : SpelledBy source t.symbols) (hgrouped : t.WellGrouped) (hwidth : t.width ≤ maxArguments)
    (hdepth : t.depth ≤ maxDepth.toNat) :
    compile maxDepth source = .ok t.expression.program := by
  rcases compile_cases maxDepth source with ⟨u, hu, hugrouped, -, -, hok⟩ | ⟨e, -, -, hdeep⟩
  · rwa [← hugrouped.eq_of_symbols hgrouped (hu.unique ht)]
  · exact absurd hdepth (Nat.not_le.mpr (hdeep t ht hgrouped hwidth).1)

/-- A phrase within the bounds has a well grouped formula within them. -/
theorem Phrase.le_iff (maxDepth : Int) (e : Phrase Literal String) :
    ((∀ n ∈ e.argumentCounts, n ≤ 255) ∧ ∀ n ∈ e.nestings 0, (n : Int) ≤ max maxDepth 0) ↔
      e.formula.width ≤ maxArguments ∧ e.formula.depth ≤ maxDepth.toNat := by
  have hdepth : (∀ n ∈ e.nestings 0, (n : Int) ≤ max maxDepth 0) ↔
      ∀ n ∈ e.nestings 0, n ≤ maxDepth.toNat :=
    forall₂_congr fun n _ ↦ by omega
  rw [hdepth, e.nestings_le_iff, Nat.zero_add]
  exact and_congr_left' (e.argumentCounts_le_iff 255)

/-- The compiler accepts exactly the phrases whose calls have at most 255 arguments and whose
operands nest within the limit; every other text has a problem, and a phrase that only nests too
deep has that one alone. -/
theorem compile_ok_iff (maxDepth : Int) (source : String) :
    ((∃ p, compile maxDepth source = .ok p) ↔
      (∀ t ∈ scan (Text.withoutBlanks source), t.kind ≠ .error) ∧
      ∃ e : Phrase Literal String, SpelledBy source e.symbols ∧
        (∀ n ∈ e.argumentCounts, n ≤ 255) ∧ ∀ n ∈ e.nestings 0, (n : Int) ≤ max maxDepth 0) ∧
    (∀ err, compile maxDepth source = .error err → err.diagnostics ≠ []) ∧
    ∀ e : Phrase Literal String, SpelledBy source e.symbols → (∀ n ∈ e.argumentCounts, n ≤ 255) →
      (∃ n ∈ e.nestings 0, max maxDepth 0 < (n : Int)) →
      ∃ d, compile maxDepth source = .error ⟨[d]⟩ ∧ d.problem.message =
        "Expression too deeply nested (max depth: " ++ toString maxDepth ++ ")" := by
  rcases compile_cases maxDepth source with ⟨t, hspelled, hgrouped, hwidth, hdepth, hok⟩ |
    ⟨err, herr, hne, hdeep⟩
  · have hphrase : ∀ e : Phrase Literal String, SpelledBy source e.symbols → e.formula = t :=
      fun e he ↦ Phrase.formula_eq hgrouped (he.unique hspelled)
    have hnested : ∃ e : Phrase Literal String, SpelledBy source e.symbols ∧
        (∀ n ∈ e.argumentCounts, n ≤ 255) ∧ ∀ n ∈ e.nestings 0, (n : Int) ≤ max maxDepth 0 := by
      obtain ⟨e, he⟩ := Phrase.exists_symbols t
      have hspelled' : SpelledBy source e.symbols := by rwa [he]
      refine ⟨e, hspelled', (e.le_iff maxDepth).mpr ?_⟩
      rw [hphrase e hspelled']
      exact ⟨hwidth, hdepth⟩
    refine ⟨⟨fun _ ↦ ⟨hspelled.kind_ne_error, hnested⟩, fun _ ↦ ⟨_, hok⟩⟩, ?_, ?_⟩
    · intro err herr
      rw [hok] at herr
      cases herr
    · rintro e he - ⟨n, hn, hlt⟩
      have hle : n ≤ maxDepth.toNat :=
        (e.nestings_le_iff maxDepth.toNat 0).mpr (by rwa [hphrase e he, Nat.zero_add]) n hn
      omega
  · refine ⟨⟨?_, ?_⟩, ?_, ?_⟩
    · rintro ⟨p, hp⟩
      rw [herr] at hp
      cases hp
    · rintro ⟨-, e, he, hbounds⟩
      obtain ⟨hwidth, hdepth⟩ := (e.le_iff maxDepth).mp hbounds
      rw [← e.symbols_formula] at he
      have htooDeep := (hdeep _ he e.wellGrouped_formula hwidth).1
      exact absurd hdepth (Nat.not_le.mpr htooDeep)
    · intro err' herr'
      rw [herr] at herr'
      cases herr'
      exact hne
    · intro e he hcounts _
      rw [← e.symbols_formula] at he
      obtain ⟨-, d, hd, hproblem⟩ := hdeep _ he e.wellGrouped_formula
        ((e.argumentCounts_le_iff 255).mp hcounts)
      refine ⟨d, ?_, by rw [hproblem]; rfl⟩
      rw [herr, ← hd]

/-- One level of nesting holds one group, not two. -/
theorem compile_ok_iff_groups :
    (∃ p, compile 1 "2*(3)" = .ok p) ∧
    ∃ d, compile 1 "2*((3))" = .error ⟨[d]⟩ ∧
      d.problem.message = "Expression too deeply nested (max depth: 1)" := by
  let two : Primary Literal String := .number (.decimal ⟨2, 0⟩)
  let three : Phrase Literal String := .first [] (.number (.decimal ⟨3, 0⟩))
  refine ⟨(compile_ok_iff 1 "2*(3)").1.mpr ⟨by decide +kernel, ?_⟩,
    (compile_ok_iff 1 "2*((3))").2.2
      (.binary (.first [] two) .multiply [] (.group (.first [] (.group three))))
      (by unfold SpelledBy; decide +kernel) (by decide) ⟨2, by decide, by decide⟩⟩
  exact ⟨.binary (.first [] two) .multiply [] (.group three), by unfold SpelledBy; decide +kernel,
    by decide, by decide⟩

end CurveCalc
