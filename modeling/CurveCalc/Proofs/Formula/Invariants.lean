import CurveCalc.Formula.Parser

/-!
What a whole reading keeps, derived from what its steps keep. A reading is made of few steps: an
instruction put out, a problem noted, a token read, a name or a level of nesting entered, and the
end for what nests too deep. A property that these keep is kept by every reading
(`Stable.expression`). Three properties are such: a problem has been noted (`stable_faulty`); the
reading has ended because of its nesting (`stable_stopped`); and characters that belong to no token
are still ahead, or a problem has been noted (`stable_blemished`).
-/

set_option autoImplicit false
set_option relaxedAutoImplicit false

namespace CurveCalc.Parser

/-- A property that no step of the reader takes away. -/
structure Stable (I : Parser → Prop) : Prop where
  emit : ∀ i {s}, I s → I (s.emit i)
  fault : ∀ f {s}, I s → I (s.fault f)
  report : ∀ p {s}, I s → I (s.report p)
  advance : ∀ {s}, I s → I s.advance
  stopNesting : ∀ {s}, I s → I s.stopNesting
  names : ∀ names {s}, I s → I { s with names := names }
  depth : ∀ depth {s}, I s → I { s with depth := depth }

/-- What is done once an argument has been read: the argument is counted, and the next one read if
there is a comma. -/
def afterArgument (sub : Precedence → Parser → Parser) (steps count : Nat) (s : Parser) :
    Nat × Parser :=
  let s := if count = maxArguments then s.report .tooManyArguments else s
  if s.current.kind = .comma then arguments sub steps (count + 1) s.advance else (count + 1, s)

theorem arguments_succ (sub : Precedence → Parser → Parser) (steps count : Nat) (s : Parser) :
    arguments sub (steps + 1) count s = afterArgument sub steps count (s.nested sub .term) := rfl

namespace Stable

variable {I : Parser → Prop} {sub : Precedence → Parser → Parser}

theorem consume (hI : Stable I) (kind : TokenKind) (p : Problem) {s : Parser} (hs : I s) :
    I (s.consume kind p) := by
  unfold Parser.consume
  dsimp only
  split
  · exact hI.advance hs
  · exact hI.report p (hI.advance hs)

theorem nested (hI : Stable I) (hsub : ∀ p {s}, I s → I (sub p s)) (p : Precedence) {s : Parser}
    (hs : I s) : I (s.nested sub p) := by
  unfold Parser.nested
  split
  · exact hI.stopNesting hs
  · exact hI.depth _ (hsub p (hI.depth _ hs))

theorem number (hI : Stable I) {s : Parser} (hs : I s) : I s.number := by
  unfold Parser.number
  split
  · exact hI.emit _ hs
  · exact hI.report _ hs

theorem identifier (hI : Stable I) {s : Parser} (hs : I s) : I s.identifier :=
  hI.emit _ (hI.names _ hs)

theorem grouping (hI : Stable I) (hsub : ∀ p {s}, I s → I (sub p s)) {s : Parser} (hs : I s) :
    I (s.grouping sub) := hI.consume _ _ (hI.nested hsub _ hs)

theorem unary (hI : Stable I) (hsub : ∀ p {s}, I s → I (sub p s)) {s : Parser} (hs : I s) :
    I (s.unary sub) := by
  unfold Parser.unary
  dsimp only
  split
  · exact hI.emit _ (hI.nested hsub _ hs)
  · exact hI.nested hsub _ hs

/-- What is left of an operator once its right operand has been read. -/
theorem binaryEnd (hI : Stable I) (kind : TokenKind) {s : Parser} (hs : I s) :
    I (match operator? kind with
      | some op => s.emit (.binary op)
      | none => s.report .invalidOperator) := by
  split
  · exact hI.emit _ hs
  · exact hI.report _ hs

theorem binary (hI : Stable I) (hsub : ∀ p {s}, I s → I (sub p s)) {s : Parser} (hs : I s) :
    I (s.binary sub) := hI.binaryEnd _ (hsub _ hs)

theorem afterArgument (hI : Stable I) (steps count : Nat)
    (hrest : ∀ {s}, I s → I (arguments sub steps (count + 1) s).2) {s : Parser} (hs : I s) :
    I (afterArgument sub steps count s).2 := by
  have hcounted : I (if count = maxArguments then s.report .tooManyArguments else s) := by
    split
    · exact hI.report _ hs
    · exact hs
  unfold Parser.afterArgument
  dsimp only
  generalize (if count = maxArguments then s.report .tooManyArguments else s) = t at hcounted ⊢
  split
  · exact hrest (hI.advance hcounted)
  · exact hcounted

theorem arguments (hI : Stable I) (hsub : ∀ p {s}, I s → I (sub p s)) (steps count : Nat)
    {s : Parser} (hs : I s) : I (arguments sub steps count s).2 := by
  induction steps generalizing count s with
  | zero => exact hI.fault _ hs
  | succ steps ih =>
    rw [arguments_succ]
    exact hI.afterArgument steps count (ih (count + 1)) (hI.nested hsub .term hs)

theorem argumentList (hI : Stable I) (hsub : ∀ p {s}, I s → I (sub p s)) {s : Parser} (hs : I s) :
    I (s.argumentList sub).2 := by
  unfold Parser.argumentList
  refine hI.consume _ _ ?_
  split
  · exact hs
  · exact hI.arguments hsub _ _ hs

theorem functionCall (hI : Stable I) (hsub : ∀ p {s}, I s → I (sub p s)) {s : Parser} (hs : I s) :
    I (s.functionCall sub) := by
  unfold Parser.functionCall
  split
  · exact hI.emit _ (hI.argumentList hsub (hI.consume _ _ hs))
  · exact hI.fault _ hs

theorem act (hI : Stable I) (hsub : ∀ p {s}, I s → I (sub p s)) (a : Action) {s : Parser}
    (hs : I s) : I (s.act sub a) := by
  cases a with
  | none => exact hI.report _ hs
  | number => exact hI.number hs
  | identifier => exact hI.identifier hs
  | grouping => exact hI.grouping hsub hs
  | unary => exact hI.unary hsub hs
  | binary => exact hI.binary hsub hs
  | factorial => exact hI.emit _ hs
  | functionCall => exact hI.functionCall hsub hs

theorem follow (hI : Stable I) (hsub : ∀ p {s}, I s → I (sub p s)) {s : Parser} (hs : I s) :
    I (s.follow sub) := by
  unfold Parser.follow
  refine hI.act hsub _ ?_
  split
  · exact hs
  · exact hI.fault _ hs

theorem operators (hI : Stable I) (hsub : ∀ p {s}, I s → I (sub p s)) (p : Precedence)
    (steps : Nat) {s : Parser} (hs : I s) : I (operators sub p steps s) := by
  induction steps generalizing s with
  | zero =>
    unfold Parser.operators
    split
    · exact hI.fault _ hs
    · exact hs
  | succ steps ih =>
    unfold Parser.operators
    split
    · exact ih (hI.follow hsub (hI.advance hs))
    · exact hs

/-- What every step keeps, a whole reading keeps. -/
theorem expression (hI : Stable I) (fuel : Nat) (p : Precedence) {s : Parser} (hs : I s) :
    I (expression fuel p s) := by
  induction fuel generalizing p s with
  | zero => exact hI.fault _ hs
  | succ fuel ih => exact hI.operators ih p _ (hI.act ih _ (hI.advance hs))

end Stable

/-- A problem has been noted. -/
def Faulty (s : Parser) : Prop := s.diagnostics ≠ #[]

/-- The reading has ended because of its nesting, which is the only problem that has been noted. -/
structure Stopped (maxDepth : Int) (s : Parser) : Prop where
  cutOff : s.cutOff = true
  atEnd : s.current.kind = .finish
  rest : s.rest = []
  finish : s.finish.kind = .finish
  noted : ∃ d : Diagnostic, s.diagnostics = #[d] ∧ d.problem = .tooDeeplyNested maxDepth

theorem Stopped.faulty {maxDepth : Int} {s : Parser} (hs : Stopped maxDepth s) : s.Faulty := by
  obtain ⟨d, hd, -⟩ := hs.noted
  unfold Faulty
  rw [hd]
  exact List.cons_ne_nil d [] ∘ congrArg Array.toList

/-- Characters that belong to no token are ahead or have been noted, and the tokens end where the
formula does. -/
structure Blemished (s : Parser) : Prop where
  blemish : s.Faulty ∨ s.cutOff = false ∧ ∃ t ∈ s.rest, t.kind = .error
  proper : ∀ t ∈ s.rest, t.kind ≠ .finish
  atEnd : s.current.kind = .finish → s.rest = []

theorem diagnostics_reportAt (t : Token) (p : Problem) (s : Parser) :
    (s.reportAt t p).diagnostics =
      if s.cutOff then s.diagnostics else s.diagnostics.push ⟨p, t.lexeme, t.position⟩ := by
  unfold reportAt
  split <;> rfl

theorem cutOff_reportAt (t : Token) (p : Problem) (s : Parser) :
    (s.reportAt t p).cutOff = s.cutOff := by
  unfold reportAt
  split <;> rfl

theorem rest_reportAt (t : Token) (p : Problem) (s : Parser) : (s.reportAt t p).rest = s.rest := by
  unfold reportAt
  split <;> rfl

theorem current_reportAt (t : Token) (p : Problem) (s : Parser) :
    (s.reportAt t p).current = s.current := by
  unfold reportAt
  split <;> rfl

theorem Faulty.of_open {s : Parser} (hs : s.cutOff = false) (t : Token) (p : Problem) :
    (s.reportAt t p).Faulty := by
  unfold Faulty
  rw [diagnostics_reportAt, hs]
  exact Array.push_ne_empty

theorem Faulty.reportAt {s : Parser} (hs : s.Faulty) (t : Token) (p : Problem) :
    (s.reportAt t p).Faulty := by
  unfold Faulty
  rw [diagnostics_reportAt]
  split
  · exact hs
  · exact Array.push_ne_empty

theorem Faulty.load {s : Parser} (hs : s.Faulty) (ts : List Token) : (load ts s).Faulty := by
  induction ts generalizing s with
  | nil => exact hs
  | cons t ts ih =>
    unfold Parser.load
    split
    · exact ih (hs.reportAt t _)
    · exact hs

/-- Skipping changes nothing but the tokens. -/
theorem skipTo_eq (ts : List Token) (s : Parser) : ∃ previous current rest,
    skipTo ts s = { s with previous := previous, current := current, rest := rest } := by
  induction ts generalizing s with
  | nil =>
    unfold skipTo
    split
    · exact ⟨s.previous, s.current, s.rest, rfl⟩
    · exact ⟨s.current, s.finish, [], rfl⟩
  | cons t ts ih =>
    unfold skipTo
    split
    · exact ih s
    · exact ih { s with previous := s.current, current := t }

theorem diagnostics_skipTo (ts : List Token) (s : Parser) :
    (skipTo ts s).diagnostics = s.diagnostics := by
  obtain ⟨previous, current, rest, h⟩ := skipTo_eq ts s
  rw [h]

theorem stopNesting_eq {s : Parser} (hs : s.cutOff = false) :
    s.stopNesting = skipTo s.rest
      { s.report (.tooDeeplyNested s.maxDepth) with cutOff := true } := by
  unfold stopNesting
  rw [hs, if_neg Bool.false_ne_true]
  exact congrArg (skipTo · _) (rest_reportAt _ _ s)

theorem Faulty.stopNesting {s : Parser} (hs : s.Faulty) : s.stopNesting.Faulty := by
  cases hcut : s.cutOff with
  | true =>
    unfold Parser.stopNesting
    rw [hcut]
    exact hs
  | false =>
    unfold Faulty
    rw [stopNesting_eq hcut, diagnostics_skipTo]
    exact hs.reportAt _ _

/-- A problem that has been noted stays. -/
theorem stable_faulty : Stable Faulty where
  emit _ _ hs := hs
  fault _ _ hs := hs
  report _ _ hs := hs.reportAt _ _
  advance {s} hs := Faulty.load (s := { s with previous := s.current }) hs _
  stopNesting hs := hs.stopNesting
  names _ _ hs := hs
  depth _ _ hs := hs

theorem Stopped.report {maxDepth : Int} {s : Parser} (hs : Stopped maxDepth s) (p : Problem) :
    s.report p = s := by
  unfold Parser.report Parser.reportAt
  rw [if_pos hs.cutOff]

theorem Stopped.advance {maxDepth : Int} {s : Parser} (hs : Stopped maxDepth s) :
    Stopped maxDepth s.advance := by
  unfold Parser.advance
  rw [hs.rest]
  exact ⟨hs.cutOff, hs.finish, rfl, hs.finish, hs.noted⟩

/-- Once the reading has ended because of its nesting, nothing is noted any more. -/
theorem stable_stopped (maxDepth : Int) : Stable (Stopped maxDepth) where
  emit _ _ hs := ⟨hs.cutOff, hs.atEnd, hs.rest, hs.finish, hs.noted⟩
  fault _ _ hs := ⟨hs.cutOff, hs.atEnd, hs.rest, hs.finish, hs.noted⟩
  report p s hs := by rwa [hs.report p]
  advance hs := hs.advance
  stopNesting {s} hs := by
    unfold stopNesting
    rw [hs.cutOff]
    exact ⟨hs.cutOff, hs.atEnd, hs.rest, hs.finish, hs.noted⟩
  names _ _ hs := ⟨hs.cutOff, hs.atEnd, hs.rest, hs.finish, hs.noted⟩
  depth _ _ hs := ⟨hs.cutOff, hs.atEnd, hs.rest, hs.finish, hs.noted⟩

/-- Skipping leaves no token, if the end is not among the tokens. -/
theorem rest_skipTo {ts : List Token} (hts : ∀ t ∈ ts, t.kind ≠ .finish) {s : Parser}
    (hs : s.current.kind = .finish → s.rest = [] ∧ ts = []) : (skipTo ts s).rest = [] := by
  induction ts generalizing s with
  | nil =>
    unfold skipTo
    split
    · rename_i hcurrent
      exact (hs hcurrent).1
    · rfl
  | cons t ts ih =>
    have hmore : ∀ u ∈ ts, u.kind ≠ .finish := fun u hu ↦ hts u (List.mem_cons_of_mem t hu)
    unfold skipTo
    split
    · exact ih hmore fun hcurrent ↦ absurd (hs hcurrent).2 (List.cons_ne_nil t ts)
    · exact ih hmore fun hcurrent ↦ absurd hcurrent (hts t List.mem_cons_self)

theorem kind_current_skipTo (ts : List Token) {s : Parser} (hs : s.finish.kind = .finish) :
    (skipTo ts s).current.kind = .finish := by
  induction ts generalizing s with
  | nil =>
    unfold skipTo
    split
    · assumption
    · exact hs
  | cons t ts ih =>
    unfold skipTo
    split
    · exact ih hs
    · exact ih hs

theorem finish_skipTo (ts : List Token) (s : Parser) : (skipTo ts s).finish = s.finish := by
  obtain ⟨previous, current, rest, h⟩ := skipTo_eq ts s
  rw [h]

theorem cutOff_skipTo (ts : List Token) (s : Parser) : (skipTo ts s).cutOff = s.cutOff := by
  obtain ⟨previous, current, rest, h⟩ := skipTo_eq ts s
  rw [h]

theorem Blemished.report {s : Parser} (hs : s.Blemished) (p : Problem) :
    (s.report p).Blemished := by
  unfold Parser.report
  refine ⟨?_, ?_, ?_⟩
  · rw [cutOff_reportAt, rest_reportAt]
    exact hs.blemish.imp_left fun hfaulty ↦ hfaulty.reportAt _ _
  · rw [rest_reportAt]
    exact hs.proper
  · rw [current_reportAt, rest_reportAt]
    exact hs.atEnd

theorem Blemished.load {ts : List Token} (hts : ∀ t ∈ ts, t.kind ≠ .finish) {s : Parser}
    (hs : s.Faulty ∨ s.cutOff = false ∧ ∃ t ∈ ts, t.kind = .error) : (load ts s).Blemished := by
  induction ts generalizing s with
  | nil =>
    refine ⟨Or.inl ?_, fun t ht ↦ absurd ht List.not_mem_nil, fun _ ↦ rfl⟩
    rcases hs with hfaulty | ⟨-, t, ht, -⟩
    · exact hfaulty
    · exact absurd ht List.not_mem_nil
  | cons t ts ih =>
    have hmore : ∀ u ∈ ts, u.kind ≠ .finish := fun u hu ↦ hts u (List.mem_cons_of_mem t hu)
    unfold Parser.load
    split
    · refine ih hmore (Or.inl ?_)
      rcases hs with hfaulty | ⟨hopen, -⟩
      · exact hfaulty.reportAt _ _
      · exact .of_open hopen _ _
    · rename_i hkind
      refine ⟨?_, hmore, fun hcurrent ↦ absurd hcurrent (hts t List.mem_cons_self)⟩
      rcases hs with hfaulty | ⟨hopen, u, hu, herror⟩
      · exact Or.inl hfaulty
      · rcases List.mem_cons.mp hu with rfl | hu
        · exact absurd herror hkind
        · exact Or.inr ⟨hopen, u, hu, herror⟩

theorem Blemished.stopNesting {s : Parser} (hs : s.Blemished) : s.stopNesting.Blemished := by
  cases hcut : s.cutOff with
  | true =>
    unfold Parser.stopNesting
    rw [hcut]
    exact ⟨hs.blemish, hs.proper, hs.atEnd⟩
  | false =>
    have hrest : s.stopNesting.rest = [] := by
      rw [stopNesting_eq hcut]
      refine rest_skipTo hs.proper fun hcurrent ↦ ?_
      have hempty : s.rest = [] := hs.atEnd (by rwa [← current_reportAt s.current _ s])
      exact ⟨(rest_reportAt _ _ s).trans hempty, hempty⟩
    refine ⟨Or.inl ?_, ?_, fun _ ↦ hrest⟩
    · unfold Faulty
      rw [stopNesting_eq hcut, diagnostics_skipTo]
      exact Faulty.of_open hcut _ _
    · rw [hrest]
      exact fun t ht ↦ absurd ht List.not_mem_nil

/-- Characters that belong to no token are never read over silently. -/
theorem stable_blemished : Stable Blemished where
  emit _ _ hs := ⟨hs.blemish, hs.proper, hs.atEnd⟩
  fault _ _ hs := ⟨hs.blemish, hs.proper, hs.atEnd⟩
  report p _ hs := hs.report p
  advance hs := Blemished.load hs.proper hs.blemish
  stopNesting hs := hs.stopNesting
  names _ _ hs := ⟨hs.blemish, hs.proper, hs.atEnd⟩
  depth _ _ hs := ⟨hs.blemish, hs.proper, hs.atEnd⟩

/-- A formula with characters that belong to no token is not read without a problem. -/
theorem faulty_run {maxDepth : Int} {ts : List Token} (hts : ∀ t ∈ ts, t.kind ≠ .finish)
    (herror : ∃ t ∈ ts, t.kind = .error) (finish : Token) : (run maxDepth ts finish).Faulty := by
  have hstart : (start maxDepth ts finish).advance.Blemished :=
    Blemished.load hts (Or.inr ⟨rfl, herror⟩)
  have hs := stable_blemished.expression (allowance maxDepth) .term hstart
  unfold run
  dsimp only
  split
  · rename_i hcurrent
    rcases hs.blemish with hfaulty | ⟨-, t, ht, -⟩
    · exact hfaulty
    · rw [hs.atEnd hcurrent] at ht
      exact absurd ht List.not_mem_nil
  · rcases hs.blemish with hfaulty | ⟨hopen, -⟩
    · exact hfaulty.reportAt _ _
    · exact .of_open hopen _ _

end CurveCalc.Parser
