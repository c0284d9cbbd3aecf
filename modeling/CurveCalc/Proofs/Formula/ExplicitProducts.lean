import CurveCalc.Proofs.Formula.Compilation
import CurveCalc.Proofs.Formula.Positions

/-!
Products with their stars written. In front of a name or an opening parenthesis a star may be left
out; a text in which all of them are written (`explicit`) is cut into the same pieces with the stars
between them (`splits_explicit`), because a star goes on with no piece and takes nothing away from
what a piece in front of it must not see. So it has the same tokens, and since the parser does not
look at positions, the same code or the same problems.
-/

set_option autoImplicit false
set_option relaxedAutoImplicit false

namespace CurveCalc

/-- The text with every star written that is understood in it. -/
def explicit (source : String) : String := String.join ((scan source).map Token.lexeme)

/-- The token stands in the text where its position says. -/
def Token.StandsIn (text : String) (t : Token) : Prop :=
  t.lexeme.toList <+: text.toList.drop t.position

/-- The messages of the problems, and what each is about. -/
def CompileError.told (e : CompileError) : List (String × String) :=
  e.diagnostics.map fun d ↦ (d.problem.message, d.lexeme)

def Piece.star : Piece := .character '*' rfl rfl

/-- The pieces with the stars that are understood between them. -/
def starred : List Piece → List Piece
  | [] => []
  | [p] => [p]
  | p :: q :: ps => p :: ((if p.endsValue && q.opens then [.star] else []) ++ starred (q :: ps))

/-- Between the pieces no star is understood. -/
def Plain (ps : List Piece) : Prop := ps.IsChain fun p q ↦ (p.endsValue && q.opens) = false

theorem unplaced_laidOut (position : Nat) (ps : List Piece) :
    (laidOut position ps).map Token.unplaced = (starred ps).map fun p ↦ p.token 0 := by
  induction position, ps using laidOut.induct with
  | case1 position => rfl
  | case2 position p => rfl
  | case3 position p q ps behind ih =>
    rw [laidOut, starred, List.map_cons, List.map_append, List.map_cons, List.map_append, ih]
    split <;> rfl

theorem exists_starred_cons (p : Piece) (ps : List Piece) : ∃ qs, starred (p :: ps) = p :: qs := by
  cases ps with
  | nil => exact ⟨[], rfl⟩
  | cons q ps => exact ⟨_, rfl⟩

theorem mem_starred {p : Piece} {ps : List Piece} (h : p ∈ starred ps) : p = .star ∨ p ∈ ps := by
  induction ps using starred.induct with
  | case1 => exact Or.inr h
  | case2 q => exact Or.inr h
  | case3 q r ps ih =>
    rcases List.mem_cons.mp h with rfl | h
    · exact Or.inr List.mem_cons_self
    rcases List.mem_append.mp h with h | h
    · split at h
      · exact Or.inl (List.mem_singleton.mp h)
      · cases h
    · exact (ih h).imp_right (List.mem_cons_of_mem q)

theorem plain_starred (ps : List Piece) : Plain (starred ps) := by
  induction ps using starred.induct with
  | case1 => exact .nil
  | case2 p => exact .singleton p
  | case3 p q ps ih =>
    obtain ⟨qs, hqs⟩ := exists_starred_cons q ps
    rw [starred]
    rw [hqs] at ih ⊢
    by_cases hproduct : (p.endsValue && q.opens) = true
    · rw [if_pos hproduct]
      exact .cons_cons (Bool.and_false _) (.cons_cons rfl ih)
    · rw [if_neg hproduct]
      exact .cons_cons (eq_false_of_ne_true hproduct) ih

theorem starred_of_plain {ps : List Piece} (h : Plain ps) : starred ps = ps := by
  induction ps using starred.induct with
  | case1 => rfl
  | case2 p => rfl
  | case3 p q ps ih =>
    obtain ⟨hproduct, hmore⟩ := List.isChain_cons_cons.mp h
    rw [starred, if_neg (ne_true_of_eq_false hproduct), ih hmore]
    rfl

/-- A piece stands at the front of its text. -/
theorem Piece.prefix_token (p : Piece) (position : Nat) (rest : List Char) :
    (p.token position).lexeme.toList <+: (p.chars ++ rest).drop (position - position) := by
  change (String.ofList p.chars).toList <+: _
  rw [Nat.sub_self, List.drop_zero, String.toList_ofList]
  exact List.prefix_append _ _

/-- Where no star is understood, every token is one that stands in the text. -/
theorem prefix_of_plain {ps : List Piece} (h : Plain ps) (position : Nat) :
    ∀ t ∈ laidOut position ps, position ≤ t.position ∧
      t.lexeme.toList <+: (ps.flatMap Piece.chars).drop (t.position - position) := by
  induction position, ps using laidOut.induct with
  | case1 position => exact fun t ht ↦ absurd ht List.not_mem_nil
  | case2 position p =>
    intro t ht
    obtain rfl := List.mem_singleton.mp ht
    exact ⟨Nat.le_refl _, p.prefix_token position []⟩
  | case3 position p q ps behind ih =>
    obtain ⟨hproduct, hmore⟩ := List.isChain_cons_cons.mp h
    rw [laidOut, hproduct]
    rintro t (_ | ⟨_, ht⟩)
    · exact ⟨Nat.le_refl _, p.prefix_token position _⟩
    obtain ⟨hlater, hstands⟩ := ih hmore t ht
    have hbehind : behind = position + p.chars.length := rfl
    refine ⟨by omega, ?_⟩
    rw [List.flatMap_cons, List.drop_append, List.drop_of_length_le (by omega), List.nil_append,
      Nat.sub_sub]
    exact hstands

namespace Piece

theorem ends_star (p : Piece) (rest : List Char) : p.Ends ('*' :: rest) := by
  have hfirst : ∀ c more, '*' :: rest = c :: more → c = '*' := by
    intro c more h
    exact (List.cons_eq_cons.mp h).1.symm
  cases p with
  | number n =>
    cases n with
    | whole w =>
      refine ⟨fun c more h ↦ hfirst c more h ▸ rfl, fun c more h ↦ ?_⟩
      exact absurd (hfirst _ _ h) (by decide)
    | fraction w places => exact fun c more h ↦ hfirst c more h ▸ rfl
  | name w => exact fun c more h ↦ hfirst c more h ▸ rfl
  | character c hnumeral hstart => trivial

/-- Whether a piece goes on depends on the character behind it only, and on one more if that is a
point. -/
theorem Ends.of_front {p : Piece} {rest rest' : List Char} (h : p.Ends rest)
    (hfirst : ∀ c more, rest' = c :: more → ∃ more', rest = c :: more')
    (hpoint : ∀ c more, rest' = '.' :: c :: more → ∃ more', rest = '.' :: c :: more') :
    p.Ends rest' := by
  have hends : ∀ {b : Char → Bool}, (∀ c more, rest = c :: more → b c = false) →
      ∀ c more, rest' = c :: more → b c = false := by
    intro b hb c more hmore
    obtain ⟨more', hmore'⟩ := hfirst c more hmore
    exact hb c more' hmore'
  cases p with
  | number n =>
    cases n with
    | whole w =>
      refine ⟨hends h.1, fun c more hmore ↦ ?_⟩
      obtain ⟨more', hmore'⟩ := hpoint c more hmore
      exact h.2 c more' hmore'
    | fraction w places => exact hends h
  | name w => exact hends h
  | character c hnumeral hstart => trivial

end Piece

theorem first_starred {ps : List Piece} {c : Char} {more : List Char}
    (h : (starred ps).flatMap Piece.chars = c :: more) :
    ∃ more', ps.flatMap Piece.chars = c :: more' := by
  cases ps with
  | nil => cases h
  | cons p ps =>
    obtain ⟨qs, hqs⟩ := exists_starred_cons p ps
    obtain ⟨first, tail, hchars⟩ := p.chars_eq_cons
    rw [hqs, List.flatMap_cons, hchars] at h
    obtain ⟨rfl, -⟩ := List.cons_eq_cons.mp h
    exact ⟨tail ++ ps.flatMap Piece.chars, by rw [List.flatMap_cons, hchars, List.cons_append]⟩

theorem Piece.of_point {p : Piece} {rest more : List Char} (h : p.chars ++ rest = '.' :: more) :
    p.chars = ['.'] ∧ p.endsValue = false := by
  cases p with
  | number n =>
    obtain ⟨digit, digits, hdigits, hdigit⟩ := n.chars_eq_cons
    rw [chars, hdigits] at h
    obtain ⟨rfl, -⟩ := List.cons_eq_cons.mp h
    cases hdigit
  | name w =>
    have hstart := w.isNameStart_first
    rw [(List.cons_eq_cons.mp h).1] at hstart
    cases hstart
  | character c hnumeral hstart =>
    obtain ⟨rfl, -⟩ := List.cons_eq_cons.mp h
    exact ⟨rfl, rfl⟩

/-- No star is understood behind a point. -/
theorem point_starred {ps : List Piece} {c : Char} {more : List Char}
    (h : (starred ps).flatMap Piece.chars = '.' :: c :: more) :
    ∃ more', ps.flatMap Piece.chars = '.' :: c :: more' := by
  match ps with
  | [] => cases h
  | [p] => exact ⟨more, h⟩
  | p :: q :: ps =>
    obtain ⟨hpoint, hvalue⟩ := Piece.of_point h
    rw [starred, hvalue, List.flatMap_cons, hpoint] at h
    obtain ⟨more', hmore'⟩ := first_starred (List.cons_eq_cons.mp h).2
    exact ⟨more', by rw [List.flatMap_cons, hpoint, hmore']; rfl⟩

theorem separated_starred {ps : List Piece} (h : Separated ps) : Separated (starred ps) := by
  induction ps using starred.induct with
  | case1 => trivial
  | case2 p => exact h
  | case3 p q ps ih =>
    rw [starred]
    by_cases hproduct : (p.endsValue && q.opens) = true
    · rw [if_pos hproduct]
      exact ⟨p.ends_star _, trivial, ih h.2⟩
    · rw [if_neg hproduct]
      exact ⟨h.1.of_front (fun c more ↦ first_starred) fun c more ↦ point_starred, ih h.2⟩

theorem toList_explicit {source : String} {ps : List Piece} (h : Splits source.toList ps) :
    (explicit source).toList = (starred ps).flatMap Piece.chars := by
  have hlexemes : (scan source).map Token.lexeme = (starred ps).map Piece.text := by
    have hunplaced := congrArg (List.map Token.lexeme) (unplaced_laidOut 0 ps)
    rw [List.map_map, List.map_map] at hunplaced
    rw [scan_eq_laidOut h]
    exact hunplaced
  rw [explicit, hlexemes, toList_join_text]

theorem splits_explicit {source : String} {ps : List Piece} (h : Splits source.toList ps) :
    Splits (explicit source).toList (starred ps) :=
  splits_iff.mpr ⟨(toList_explicit h).symm, separated_starred h.separated⟩

theorem unplaced_scan_explicit (source : String) :
    (scan (explicit source)).map Token.unplaced = (scan source).map Token.unplaced := by
  obtain ⟨ps, hps⟩ := exists_splits source.toList
  rw [scan_eq_laidOut hps, scan_eq_laidOut (splits_explicit hps), unplaced_laidOut,
    unplaced_laidOut, starred_of_plain (plain_starred ps)]

theorem standsIn_explicit (source : String) :
    ∀ t ∈ scan (explicit source), t.StandsIn (explicit source) := by
  obtain ⟨ps, hps⟩ := exists_splits source.toList
  intro t ht
  rw [scan_eq_laidOut (splits_explicit hps)] at ht
  obtain ⟨-, hstands⟩ := prefix_of_plain (plain_starred ps) 0 t ht
  rwa [← toList_explicit hps] at hstands

/-- Once all stars are written, nothing more is to be written. -/
theorem explicit_explicit (source : String) : explicit (explicit source) = explicit source := by
  have hlexemes := congrArg (List.map Token.lexeme) (unplaced_scan_explicit source)
  rw [List.map_map, List.map_map] at hlexemes
  exact congrArg String.join hlexemes

/-! Compiling. -/

/-- What comes of a reading, without the places of its problems. -/
def Parser.outcome (s : Parser) : Except (List (String × String)) (Program Float) :=
  if s.diagnostics.isEmpty then .ok (Program.map Literal.toFloat ⟨s.code.toList, s.names⟩)
  else .error (CompileError.told ⟨s.diagnostics.toList⟩)

theorem compile_eq_outcome (maxDepth : Int) (source : String) :
    (compile maxDepth source).mapError CompileError.told = (parse maxDepth source).outcome := by
  unfold compile compileLiterals Parser.outcome
  dsimp only
  split <;> rfl

theorem Parser.outcome_unplaced (s : Parser) : s.unplaced.outcome = s.outcome := by
  have htold : CompileError.told ⟨s.unplaced.diagnostics.toList⟩ =
      CompileError.told ⟨s.diagnostics.toList⟩ := by
    unfold CompileError.told unplaced
    rw [Array.toList_map, List.map_map]
    rfl
  have hempty : s.unplaced.diagnostics.isEmpty = s.diagnostics.isEmpty := by
    simp [unplaced, Array.isEmpty]
  unfold outcome
  rw [htold, hempty]
  rfl

theorem withoutBlanks_eq {text : String} (h : ∀ c ∈ text.toList, Text.isBlank c = false) :
    Text.withoutBlanks text = text := by
  have hkept : text.toList.filter (fun c ↦ !Text.isBlank c) = text.toList :=
    List.filter_eq_self.mpr fun c hc ↦ by rw [h c hc, Bool.not_false]
  rw [Text.withoutBlanks, hkept, String.ofList_toList]

/-- Writing the stars of a text puts no blanks into it. -/
theorem isBlank_explicit {source : String} (h : ∀ c ∈ source.toList, Text.isBlank c = false) :
    ∀ c ∈ (explicit source).toList, Text.isBlank c = false := by
  obtain ⟨ps, hps⟩ := exists_splits source.toList
  intro c hc
  rw [toList_explicit hps] at hc
  obtain ⟨p, hp, hc⟩ := List.mem_flatMap.mp hc
  rcases mem_starred hp with rfl | hp
  · obtain rfl := List.mem_singleton.mp hc
    rfl
  · rw [← hps.flatMap_chars] at h
    exact h c (List.mem_flatMap.mpr ⟨p, hp, hc⟩)

/-- In a text without blanks, stars that are understood may as well be written. The tokens are the
same, apart from their positions, and each stands in the text then; the code of the text is the
same, or the problems with it are, whatever the limit on nesting; and there are no more stars to
write. -/
theorem compile_explicit {source : String} (h : ∀ c ∈ source.toList, Text.isBlank c = false) :
    (scan (explicit source)).map (fun t ↦ (t.kind, t.lexeme, t.value)) =
      (scan source).map (fun t ↦ (t.kind, t.lexeme, t.value)) ∧
    (∀ t ∈ scan (explicit source), t.StandsIn (explicit source)) ∧
    (∀ maxDepth, (compile maxDepth (explicit source)).mapError CompileError.told =
      (compile maxDepth source).mapError CompileError.told) ∧
    explicit (explicit source) = explicit source := by
  refine ⟨?_, standsIn_explicit source, fun maxDepth ↦ ?_, explicit_explicit source⟩
  · have hcontents := congrArg (List.map fun t : Token ↦ (t.kind, t.lexeme, t.value))
      (unplaced_scan_explicit source)
    rw [List.map_map, List.map_map] at hcontents
    exact hcontents
  · have hread : (parse maxDepth (explicit source)).unplaced =
        (parse maxDepth source).unplaced := by
      unfold parse
      dsimp only
      rw [withoutBlanks_eq h, withoutBlanks_eq (isBlank_explicit h), Parser.unplaced_run,
        Parser.unplaced_run, unplaced_scan_explicit]
      rfl
    rw [compile_eq_outcome, compile_eq_outcome, ← Parser.outcome_unplaced, hread,
      Parser.outcome_unplaced]

/-- A number before a name is compiled to their product. -/
theorem compile_explicit_product :
    explicit "2x" = "2*x" ∧
      (scan "2*x").map (fun t ↦ (t.kind, t.lexeme, t.value)) =
        (scan "2x").map (fun t ↦ (t.kind, t.lexeme, t.value)) ∧
      (∀ t ∈ scan "2*x", t.StandsIn "2*x") ∧
      (∃ p, compile 1 "2*x" = .ok p ∧ compile 1 "2x" = .ok p) ∧
      explicit "2*x" = "2*x" := by
  let two : Digits := ⟨['2'], by decide, List.forall_mem_singleton.mpr rfl⟩
  let x : VariableName := ⟨'x', [], by decide, List.forall_mem_nil _, by decide⟩
  let ps : List Piece := [.number (.whole two), .name ⟨'x', [], rfl, List.forall_mem_nil _⟩]
  have hsplits : Splits "2x".toList ps := by
    refine splits_iff.mpr ⟨by decide, ⟨?_, ?_⟩, nofun, trivial⟩
    · rintro c more h
      obtain ⟨rfl, -⟩ := List.cons_eq_cons.mp h
      rfl
    · rintro c more h
      cases (List.cons_eq_cons.mp h).1
  have hexplicit : explicit "2x" = "2*x" := by
    refine String.toList_injective ?_
    rw [toList_explicit hsplits]
    decide
  have hblank : ∀ c ∈ "2x".toList, Text.isBlank c = false :=
    List.forall_mem_cons.mpr ⟨rfl, List.forall_mem_singleton.mpr rfl⟩
  obtain ⟨hcontents, hstands, hcompile, hagain⟩ := compile_explicit hblank
  rw [hexplicit] at hcontents hstands hcompile hagain
  refine ⟨hexplicit, hcontents, hstands, ?_, hagain⟩
  let e : Expression Constant VariableName :=
    .binary .multiply (.constant (.numeral (.whole two))) (.var x)
  have hok : compile 1 "2*x" = .ok e.written.program :=
    compile_of_text e (by decide) (by decide) (by decide)
  have hsame := hcompile 1
  rw [hok] at hsame
  exact ⟨_, hok, Attempt.mapError_eq_ok.mp hsame.symm⟩

end CurveCalc
