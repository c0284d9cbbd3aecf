import CurveCalc.Proofs.Formula.Allowance

/-!
Branches of the reader that no text leads to. The reader is prepared for a number token whose text
is no number, for an operator that is none, for nesting found too deep a second time, for an action
behind an expression that belongs at the start of one, and for a function token without its
function. None of these ever comes up, whatever the text and however deep it nests
(`parse_unreached`). On the one hand the tokens of a text carry what their kinds promise
(`numeral_of_mem_scan`, `function_of_mem_scan`); on the other a reading takes such steps only as
note other problems (`Parser.live_problems`), and what has been noted is never taken back
(`Parser.stable_mem_faults`, `Parser.stable_mem_diagnostics`), so that what is not noted in the end
was noted at no time.
-/

set_option autoImplicit false
set_option relaxedAutoImplicit false

namespace CurveCalc

/-! What the tokens of a text carry. -/

theorem Piece.numeral_token (p : Piece) (position : Nat)
    (hkind : (p.token position).kind = .number) :
    (∃ c, (p.token position).value = .constant c) ∨ (p.token position).value = .absent ∧
      ∃ n : Numeral, (p.token position).lexeme = String.ofList n.chars := by
  cases p with
  | number n => exact Or.inr ⟨rfl, n, rfl⟩
  | name w =>
    change w.kind = .number at hkind
    rw [w.kind_eq] at hkind
    change (∃ c, (classifyName w.text).2 = .constant c) ∨ _
    rcases classifyName_cases w.text with ⟨c, h⟩ | ⟨f, h⟩ | h
    · exact Or.inl ⟨c, by rw [h]⟩
    · simp [h] at hkind
    · simp [h] at hkind
  | character c hnumeral hstart =>
    have hnone : characterKind c ≠ .number := by
      unfold characterKind
      split <;> simp
    exact absurd hkind hnone

/-- A number token is a named constant, or its text is digits, or digits with a point and more
digits behind it; and all such texts are read as numbers. -/
theorem numeral_of_mem_scan (text : String) : ∀ t ∈ scan text, t.kind = .number →
    (∃ c, t.value = .constant c) ∨ t.value = .absent ∧ ∃ n : Numeral,
      t.lexeme = String.ofList n.chars ∧ Number.readFloat? t.lexeme = some n.decimal.toFloat := by
  intro t ht hkind
  have hnumerals : ∀ t ∈ scan text, t.kind = .number → (∃ c, t.value = .constant c) ∨
      t.value = .absent ∧ ∃ n : Numeral, t.lexeme = String.ofList n.chars :=
    Cursor.tokens_induction (fun _ h ↦ TokenKind.noConfusion h) Piece.numeral_token _
  refine (hnumerals t ht hkind).imp_right ?_
  rintro ⟨hvalue, n, hlexeme⟩
  exact ⟨hvalue, n, hlexeme, hlexeme ▸ n.readFloat?_chars⟩

/-- A number token stands for a number. -/
theorem isSome_ofToken?_of_mem_scan (text : String) : ∀ t ∈ scan text, t.kind = .number →
    (Literal.ofToken? t).isSome := by
  intro t ht hkind
  rcases Cursor.tokens_cases _ t ht with herror | ⟨x, hx⟩
  · simp [hkind] at herror
  · simp only [Token.symbol?, hkind, Option.map_eq_some_iff] at hx
    obtain ⟨k, hk, -⟩ := hx
    simp [hk]

/-- What is taken for an operator is one. -/
theorem TokenKind.isSome_operator?_of_following {kind : TokenKind}
    (h : kind.rule.following = .binary) : (Parser.operator? kind).isSome := by
  cases kind <;> first | rfl | simp [TokenKind.rule] at h

/-- A function token carries its function. -/
theorem function_of_mem_scan (text : String) : ∀ t ∈ scan text, t.kind = .function →
    ∃ f, t.value = .function f := by
  intro t ht hkind
  rcases Cursor.tokens_cases _ t ht with herror | ⟨x, hx⟩
  · simp [hkind] at herror
  · have hfunction := hx
    simp only [Token.symbol?, hkind] at hfunction
    split at hfunction
    · exact ⟨_, ‹_›⟩
    · simp at hfunction

namespace Parser

/-! What is noted. -/

section

variable {P : Problem → Prop} {s : Parser}

/-- All problems that have been noted are such. -/
def OnlyNotes (P : Problem → Prop) (s : Parser) : Prop :=
  ∀ d ∈ s.diagnostics, P d.problem

theorem OnlyNotes.reportAt (hs : s.OnlyNotes P) (t : Token) {p : Problem} (hp : P p) :
    (s.reportAt t p).OnlyNotes P := by
  unfold OnlyNotes
  rw [diagnostics_reportAt]
  split
  · exact hs
  · intro d hd
    rcases Array.mem_push.mp hd with hd | rfl
    · exact hs d hd
    · exact hp

theorem OnlyNotes.load (hs : s.OnlyNotes P) (hstray : P .unexpectedCharacter) (ts : List Token) :
    (load ts s).OnlyNotes P := by
  induction ts generalizing s with
  | nil => exact hs
  | cons t ts ih =>
    unfold Parser.load
    split
    · exact ih (hs.reportAt t hstray)
    · exact hs

/-- The steps of a reading note the problems inside of expressions, stray characters, and that the
nesting is too deep. -/
theorem live_problems (hinner : ∀ p : Problem, p.isInner = true → P p)
    (hstray : P .unexpectedCharacter) (hdeep : ∀ maxDepth, P (.tooDeeplyNested maxDepth)) :
    Live (OnlyNotes P) where
  emit _ _ hs := hs
  report p _ hp hs := hs.reportAt _ (hinner p hp)
  advance {s} hs := OnlyNotes.load (s := { s with previous := s.current }) hs hstray _
  stopNesting {s} hopen hs := by
    unfold OnlyNotes
    rw [stopNesting_eq hopen, diagnostics_skipTo]
    exact hs.reportAt _ (hdeep _)
  names _ _ hs := hs
  depth _ _ hs := hs

theorem mem_reportAt {d : Diagnostic} (hd : d ∈ s.diagnostics) (t : Token) (p : Problem) :
    d ∈ (s.reportAt t p).diagnostics := by
  rw [diagnostics_reportAt]
  split
  · exact hd
  · exact Array.mem_push_of_mem _ hd

theorem mem_load {d : Diagnostic} (hd : d ∈ s.diagnostics) (ts : List Token) :
    d ∈ (load ts s).diagnostics := by
  induction ts generalizing s with
  | nil => exact hd
  | cons t ts ih =>
    unfold load
    split
    · exact ih (mem_reportAt hd t _)
    · exact hd

theorem mem_stopNesting {d : Diagnostic} (hd : d ∈ s.diagnostics) :
    d ∈ s.stopNesting.diagnostics := by
  by_cases hcut : s.cutOff = true
  · unfold stopNesting
    rwa [if_pos hcut]
  · rw [stopNesting_eq (Bool.eq_false_iff.mpr hcut), diagnostics_skipTo]
    exact mem_reportAt hd _ _

/-- A problem that has been noted stays. -/
theorem stable_mem_diagnostics (d : Diagnostic) : Stable fun s ↦ d ∈ s.diagnostics where
  emit _ _ hs := hs
  fault _ _ hs := hs
  report _ _ hs := mem_reportAt hs _ _
  advance {s} hs := mem_load (s := { s with previous := s.current }) hs _
  stopNesting hs := mem_stopNesting hs
  names _ _ hs := hs
  depth _ _ hs := hs

end

end Parser

theorem onlyNotes_parse (maxDepth : Int) (source : String) :
    (parse maxDepth source).OnlyNotes fun p ↦ p ≠ .invalidNumber ∧ p ≠ .invalidOperator := by
  obtain ⟨s, -, hkeeps, hparse⟩ := Parser.exists_read maxDepth source
  have hinner (p : Problem) (hp : p.isInner = true) :
      p ≠ .invalidNumber ∧ p ≠ .invalidOperator := by
    constructor
    · rintro rfl
      simp [Problem.isInner] at hp
    · rintro rfl
      simp [Problem.isInner] at hp
  have hlive := Parser.live_problems hinner (by simp) (by simp)
  have hs := hkeeps _ hlive (hlive.advance (by simp [Parser.OnlyNotes, Parser.start]))
  rw [hparse]
  split
  · exact hs
  · exact hs.reportAt _ (by simp)

/-- No text leads to a number token that is no number, to an operator that is none, to a second end
for what nests too deep, to an action behind an expression that belongs at the start of one, or to a
function token without its function; and what a reading notes it never takes back, so this is so at
every moment of it. Nor could it be: all tokens of the text that are numbers have a value or are
digits, or digits with a point and more digits, all of which are read as numbers; all that are taken
for operators are some; and all that are functions say which. -/
theorem parse_unreached (maxDepth : Int) (source : String) :
    (∀ d ∈ (parse maxDepth source).diagnostics,
      d.problem ≠ .invalidNumber ∧ d.problem ≠ .invalidOperator) ∧
    Fault.secondCutoff ∉ (parse maxDepth source).faults ∧
    Fault.strayAction ∉ (parse maxDepth source).faults ∧
    Fault.missingFunction ∉ (parse maxDepth source).faults ∧
    (∀ (fuel : Nat) (p : Precedence) (s : Parser),
      (∀ f ∈ s.faults, f ∈ (Parser.expression fuel p s).faults) ∧
      ∀ d ∈ s.diagnostics, d ∈ (Parser.expression fuel p s).diagnostics) ∧
    ∀ t ∈ scan (Text.withoutBlanks source),
      (t.kind = .number → (Literal.ofToken? t).isSome ∧ ((∃ c, t.value = .constant c) ∨
        t.value = .absent ∧ ∃ n : Numeral, t.lexeme = String.ofList n.chars ∧
          Number.readFloat? t.lexeme = some n.decimal.toFloat)) ∧
      (t.kind.rule.following = .binary → (Parser.operator? t.kind).isSome) ∧
      (t.kind = .function → ∃ f, t.value = .function f) := by
  have hfaults (f : Fault) : f ∉ (parse maxDepth source).faults := by
    simp [faults_parse maxDepth source]
  refine ⟨?_, hfaults _, hfaults _, hfaults _, fun fuel p s ↦ ⟨?_, ?_⟩, fun t ht ↦ ⟨?_, ?_, ?_⟩⟩
  · exact onlyNotes_parse maxDepth source
  · exact fun f hf ↦ (Parser.stable_mem_faults f).expression fuel p hf
  · exact fun d hd ↦ (Parser.stable_mem_diagnostics d).expression fuel p hd
  · intro hkind
    exact ⟨isSome_ofToken?_of_mem_scan _ t ht hkind, numeral_of_mem_scan _ t ht hkind⟩
  · exact TokenKind.isSome_operator?_of_following
  · exact function_of_mem_scan _ t ht

/-- Two groups one inside the other where none is allowed, and behind them a number and a stray
character. -/
theorem parse_unreached_groups :
    Fault.secondCutoff ∉ (parse 0 "((2.5$").faults ∧
    (∀ d ∈ (parse 0 "((2.5$").diagnostics, d.problem ≠ .invalidNumber) ∧
    ∃ n : Numeral, "2.5" = String.ofList n.chars ∧
      Number.readFloat? "2.5" = some n.decimal.toFloat := by
  obtain ⟨hproblems, hcutoff, -, -, -, htokens⟩ := parse_unreached 0 "((2.5$"
  have hscan : ⟨.number, "2.5", 2, .absent⟩ ∈ scan (Text.withoutBlanks "((2.5$") := by
    decide +kernel
  refine ⟨hcutoff, fun d hd ↦ (hproblems d hd).1, ?_⟩
  rcases ((htokens _ hscan).1 rfl).2 with ⟨c, hc⟩ | ⟨-, hnumeral⟩
  · simp at hc
  · exact hnumeral

end CurveCalc
