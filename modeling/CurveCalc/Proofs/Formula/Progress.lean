import CurveCalc.Proofs.Formula.Acceptance

/-!
That a reading never uses up what it is given. Between two tokens all is as it should be
(`Parser.Coherent`), on every path, also behind a problem and at the end of the formula: the tokens
are such as the scanner makes them, and where the rest has been skipped the reader is at the end. A
token that is read over is one less ahead (`Parser.remaining`), so the loops over operators and
arguments end before their steps do; and an expression inside another one is either a level of
nesting deeper, and there are only so many, or it is a right operand, which binds more tightly than
the operator (`Precedence.layers`). So a reading takes only such steps as are meant to be taken, and
what these keep (`Parser.Live`) a whole reading keeps (`Parser.exists_read`), however malformed the
formula.
-/

set_option autoImplicit false
set_option relaxedAutoImplicit false

namespace CurveCalc

/-- The end, or a token that says something. -/
def Token.Sound (t : Token) : Prop := t.kind = .finish ∨ ∃ x, t.symbol? = some x

theorem Token.sound_of_kind {t : Token} (ht : t.kind = .error ∨ ∃ x, t.symbol? = some x)
    (hkind : t.kind ≠ .error) : t.Sound := Or.inr (ht.resolve_left hkind)

/-- What may be missing or too much inside of an expression. -/
def Problem.isInner : Problem → Bool
  | expectedExpression | unclosedGroup | missingArguments | unclosedArguments | tooManyArguments =>
    true
  | _ => false

namespace Parser

/-! What a step changes. -/

theorem reportAt_eq (t : Token) (p : Problem) (s : Parser) :
    ∃ diagnostics, s.reportAt t p = { s with diagnostics := diagnostics } := by
  unfold reportAt
  split
  · exact ⟨s.diagnostics, rfl⟩
  · exact ⟨_, rfl⟩

theorem load_eq (ts : List Token) (s : Parser) : ∃ current rest diagnostics, load ts s =
    { s with current := current, rest := rest, diagnostics := diagnostics } := by
  induction ts generalizing s with
  | nil => exact ⟨s.finish, [], s.diagnostics, rfl⟩
  | cons t ts ih =>
    unfold load
    split
    · obtain ⟨diagnostics, h⟩ := reportAt_eq t .unexpectedCharacter s
      rw [h]
      exact ih { s with diagnostics := diagnostics }
    · exact ⟨t, ts, s.diagnostics, rfl⟩

theorem advance_eq (s : Parser) : ∃ current rest diagnostics, s.advance =
    { s with previous := s.current, current := current, rest := rest,
             diagnostics := diagnostics } :=
  load_eq s.rest { s with previous := s.current }

theorem previous_advance (s : Parser) : s.advance.previous = s.current := by
  obtain ⟨current, rest, diagnostics, h⟩ := s.advance_eq
  rw [h]

theorem cutOff_advance (s : Parser) : s.advance.cutOff = s.cutOff := by
  obtain ⟨current, rest, diagnostics, h⟩ := s.advance_eq
  rw [h]

theorem depth_advance (s : Parser) : s.advance.depth = s.depth := by
  obtain ⟨current, rest, diagnostics, h⟩ := s.advance_eq
  rw [h]

theorem depth_report (p : Problem) (s : Parser) : (s.report p).depth = s.depth := by
  obtain ⟨diagnostics, h⟩ := reportAt_eq s.current p s
  rw [report, h]

theorem faults_report (p : Problem) (s : Parser) : (s.report p).faults = s.faults := by
  obtain ⟨diagnostics, h⟩ := reportAt_eq s.current p s
  rw [report, h]

theorem cutOff_consume (kind : TokenKind) (p : Problem) (s : Parser) :
    (s.consume kind p).cutOff = s.cutOff := by
  rw [← s.cutOff_advance]
  unfold consume
  dsimp only
  split
  · rfl
  · exact cutOff_reportAt _ p s.advance

theorem depth_stopNesting {s : Parser} (hs : s.cutOff = false) :
    s.stopNesting.depth = s.depth := by
  rw [stopNesting_eq hs]
  obtain ⟨previous, current, rest, h⟩ :=
    skipTo_eq s.rest { s.report (.tooDeeplyNested s.maxDepth) with cutOff := true }
  rw [h]
  exact depth_report _ s

/-! The tokens that are left, and what is true between any two of them. -/

/-- How many tokens are left, the current one included and the end not counted. -/
def remaining (s : Parser) : Nat := s.rest.length + if s.current.kind = .finish then 0 else 1

/-- All is as it should be between two tokens. -/
structure Coherent (maxDepth : Int) (s : Parser) : Prop where
  limit : s.maxDepth = maxDepth
  finish : s.finish.kind = .finish
  previous : s.previous.Sound
  current : s.current.Sound
  rest : ∀ t ∈ s.rest, t.kind = .error ∨ ∃ x, t.symbol? = some x
  atEnd : s.current.kind = .finish → s.rest = []
  skipped : s.cutOff = true → s.current.kind = .finish

section

variable {maxDepth : Int} {s : Parser}

theorem Coherent.load {ts : List Token} (hts : ∀ t ∈ ts, t.kind = .error ∨ ∃ x, t.symbol? = some x)
    (hlimit : s.maxDepth = maxDepth) (hfinish : s.finish.kind = .finish)
    (hprevious : s.previous.Sound) (hskipped : s.cutOff = true → ts = []) :
    (load ts s).Coherent maxDepth ∧ (load ts s).remaining ≤ ts.length := by
  induction ts generalizing s with
  | nil =>
    refine ⟨⟨hlimit, hfinish, hprevious, Or.inl hfinish, List.forall_mem_nil _, fun _ ↦ rfl,
      fun _ ↦ hfinish⟩, ?_⟩
    change 0 + (if s.finish.kind = .finish then 0 else 1) ≤ 0
    rw [if_pos hfinish]
  | cons t ts ih =>
    obtain ⟨ht, hmore⟩ := List.forall_mem_cons.mp hts
    have hopen : ¬ s.cutOff = true := fun h ↦ List.cons_ne_nil t ts (hskipped h)
    unfold Parser.load
    by_cases hkind : t.kind = .error
    · rw [if_pos hkind]
      obtain ⟨diagnostics, h⟩ := reportAt_eq t .unexpectedCharacter s
      rw [h]
      have hload := ih (s := { s with diagnostics := diagnostics }) hmore hlimit hfinish hprevious
        fun h ↦ absurd h hopen
      exact ⟨hload.1, Nat.le_succ_of_le hload.2⟩
    · have hproper : t.kind ≠ .finish := Token.kind_ne_finish_of_cases ht
      rw [if_neg hkind]
      refine ⟨⟨hlimit, hfinish, hprevious, Token.sound_of_kind ht hkind, hmore,
        fun h ↦ absurd h hproper, fun h ↦ absurd h hopen⟩, ?_⟩
      change ts.length + (if t.kind = .finish then 0 else 1) ≤ ts.length + 1
      rw [if_neg hproper]

theorem Coherent.advance (hs : s.Coherent maxDepth) :
    s.advance.Coherent maxDepth ∧ s.advance.remaining ≤ s.rest.length :=
  Coherent.load (s := { s with previous := s.current }) hs.rest hs.limit hs.finish hs.current
    fun h ↦ hs.atEnd (hs.skipped h)

theorem Coherent.remaining_advance_lt (hs : s.Coherent maxDepth)
    (hcurrent : s.current.kind ≠ .finish) : s.advance.remaining < s.remaining := by
  have hless := hs.advance.2
  unfold remaining at hless ⊢
  rw [if_neg hcurrent]
  omega

theorem Coherent.open_of_kind (hs : s.Coherent maxDepth) (hcurrent : s.current.kind ≠ .finish) :
    s.cutOff = false := Bool.eq_false_iff.mpr fun h ↦ hcurrent (hs.skipped h)

theorem sound_skipTo {ts : List Token} (hts : ∀ t ∈ ts, t.kind = .error ∨ ∃ x, t.symbol? = some x)
    (hfinish : s.finish.kind = .finish) (hprevious : s.previous.Sound)
    (hcurrent : s.current.Sound) :
    (skipTo ts s).previous.Sound ∧ (skipTo ts s).current.Sound := by
  induction ts generalizing s with
  | nil =>
    unfold skipTo
    split
    · exact ⟨hprevious, hcurrent⟩
    · exact ⟨hcurrent, Or.inl hfinish⟩
  | cons t ts ih =>
    obtain ⟨ht, hmore⟩ := List.forall_mem_cons.mp hts
    unfold skipTo
    split
    · exact ih hmore hfinish hprevious hcurrent
    · rename_i hkind
      exact ih hmore hfinish hcurrent (Token.sound_of_kind ht hkind)

theorem Coherent.stopNesting (hs : s.Coherent maxDepth) (hopen : s.cutOff = false) :
    s.stopNesting.Coherent maxDepth ∧ s.stopNesting.remaining = 0 := by
  obtain ⟨diagnostics, hreport⟩ := reportAt_eq s.current (.tooDeeplyNested s.maxDepth) s
  rw [stopNesting_eq hopen, report, hreport]
  have hproper : ∀ t ∈ s.rest, t.kind ≠ .finish :=
    fun t ht ↦ Token.kind_ne_finish_of_cases (hs.rest t ht)
  have hrest := rest_skipTo hproper (s := { s with diagnostics := diagnostics, cutOff := true })
    fun h ↦ ⟨hs.atEnd h, hs.atEnd h⟩
  have hcurrent := kind_current_skipTo s.rest
    (s := { s with diagnostics := diagnostics, cutOff := true }) hs.finish
  obtain ⟨hprevious, hsound⟩ := sound_skipTo hs.rest
    (s := { s with diagnostics := diagnostics, cutOff := true }) hs.finish hs.previous hs.current
  obtain ⟨previous, current, rest, h⟩ := skipTo_eq s.rest
    { s with diagnostics := diagnostics, cutOff := true }
  rw [h] at hrest hcurrent hprevious hsound ⊢
  obtain rfl : rest = [] := hrest
  refine ⟨⟨hs.limit, hs.finish, hprevious, hsound, List.forall_mem_nil _, fun _ ↦ rfl,
    fun _ ↦ hcurrent⟩, ?_⟩
  unfold remaining
  rw [if_pos hcurrent]
  rfl

end

/-- On every path all stays as it should be, and no token comes back. -/
theorem stable_coherent (maxDepth : Int) (n : Nat) :
    Stable fun s ↦ s.Coherent maxDepth ∧ s.remaining ≤ n where
  emit _ _ hs := ⟨{ hs.1 with }, hs.2⟩
  fault _ _ hs := ⟨{ hs.1 with }, hs.2⟩
  report p s hs := by
    obtain ⟨diagnostics, h⟩ := reportAt_eq s.current p s
    rw [report, h]
    exact ⟨{ hs.1 with }, hs.2⟩
  advance {s} hs := by
    obtain ⟨hcoherent, hless⟩ := hs.1.advance
    refine ⟨hcoherent, Nat.le_trans hless (Nat.le_trans ?_ hs.2)⟩
    exact Nat.le_add_right _ _
  stopNesting {s} hs := by
    by_cases hcut : s.cutOff = true
    · unfold stopNesting
      rw [if_pos hcut]
      exact ⟨{ hs.1 with }, hs.2⟩
    · obtain ⟨hcoherent, hnone⟩ := hs.1.stopNesting (Bool.eq_false_iff.mpr hcut)
      exact ⟨hcoherent, hnone ▸ Nat.zero_le n⟩
  names _ _ hs := ⟨{ hs.1 with }, hs.2⟩
  depth _ _ hs := ⟨{ hs.1 with }, hs.2⟩

theorem Coherent.kept {maxDepth : Int} {s : Parser} (hs : s.Coherent maxDepth)
    {f : Parser → Parser} (hf : Keeps f) :
    (f s).Coherent maxDepth ∧ (f s).remaining ≤ s.remaining :=
  hf (stable_coherent maxDepth s.remaining) ⟨hs, Nat.le_refl _⟩

/-! What the steps keep that are meant to be taken. -/

/-- A property that no such step takes away: no fault is among them, no problem but those inside of
expressions, and no second end for what nests too deep. -/
structure Live (I : Parser → Prop) : Prop where
  emit : ∀ i {s}, I s → I (s.emit i)
  report : ∀ p {s}, p.isInner = true → I s → I (s.report p)
  advance : ∀ {s}, I s → I s.advance
  stopNesting : ∀ {s}, s.cutOff = false → I s → I s.stopNesting
  names : ∀ names {s}, I s → I { s with names := names }
  depth : ∀ depth {s}, I s → I { s with depth := depth }

/-- From one state to the other the property is kept, and the depth is the same. -/
structure Goes (I : Parser → Prop) (s t : Parser) : Prop where
  keeps : I s → I t
  depth : t.depth = s.depth

theorem Goes.refl (I : Parser → Prop) (s : Parser) : Goes I s s := ⟨id, rfl⟩

theorem Goes.trans {I : Parser → Prop} {s t u : Parser} (h : Goes I s t) (h' : Goes I t u) :
    Goes I s u := ⟨h'.keeps ∘ h.keeps, h'.depth.trans h.depth⟩

/-- Expressions are read in such steps where this much is left of the allowance. -/
def Serves (maxDepth : Int) (I : Parser → Prop) (fuel : Nat) (sub : Precedence → Parser → Parser) :
    Prop :=
  ∀ {p : Precedence} {s : Parser}, 1 ≤ p.level → s.Coherent maxDepth → s.cutOff = false →
    p.layers + 4 * (maxDepth.toNat - s.depth) ≤ fuel → Goes I s (sub p s)

section

variable {maxDepth : Int} {I : Parser → Prop} {fuel : Nat} {sub : Precedence → Parser → Parser}
  {s : Parser}

theorem Live.goes_emit (hI : Live I) (i : Instruction Literal) : Goes I s (s.emit i) :=
  ⟨hI.emit i, rfl⟩

theorem Live.goes_report (hI : Live I) {p : Problem} (hp : p.isInner = true) :
    Goes I s (s.report p) :=
  ⟨hI.report p hp, depth_report p s⟩

theorem Live.goes_advance (hI : Live I) : Goes I s s.advance := ⟨hI.advance, s.depth_advance⟩

theorem Live.goes_consume (hI : Live I) (kind : TokenKind) {p : Problem} (hp : p.isInner = true) :
    Goes I s (s.consume kind p) := by
  unfold consume
  dsimp only
  split
  · exact hI.goes_advance
  · exact hI.goes_advance.trans (hI.goes_report hp)

theorem Live.goes_nested (hI : Live I) (hserves : Serves maxDepth I fuel sub) {p : Precedence}
    (hp : 1 ≤ p.level) (hlayers : p.layers ≤ 4) (hs : s.Coherent maxDepth)
    (hopen : s.cutOff = false) (hfuel : 4 * (maxDepth.toNat - s.depth) ≤ fuel) :
    Goes I s (s.nested sub p) := by
  unfold nested
  by_cases hdepth : s.maxDepth ≤ s.depth
  · rw [if_pos hdepth]
    exact ⟨hI.stopNesting hopen, depth_stopNesting hopen⟩
  · rw [if_neg hdepth]
    rw [hs.limit] at hdepth
    have hbudget : p.layers + 4 * (maxDepth.toNat - (s.depth + 1)) ≤ fuel := by omega
    have h := hserves (s := { s with depth := s.depth + 1 }) hp { hs with } hopen hbudget
    exact ⟨fun h' ↦ hI.depth _ (h.keeps (hI.depth _ h')), congrArg (· - 1) h.depth⟩

theorem Live.goes_grouping (hI : Live I) (hserves : Serves maxDepth I fuel sub)
    (hs : s.Coherent maxDepth) (hopen : s.cutOff = false)
    (hfuel : 4 * (maxDepth.toNat - s.depth) ≤ fuel) : Goes I s (s.grouping sub) :=
  (hI.goes_nested hserves (p := .term) (Nat.le_refl 1) (Nat.le_refl 4) hs hopen hfuel).trans
    (hI.goes_consume .rightParen rfl)

theorem Live.goes_unary (hI : Live I) (hserves : Serves maxDepth I fuel sub)
    (hs : s.Coherent maxDepth) (hopen : s.cutOff = false)
    (hfuel : 4 * (maxDepth.toNat - s.depth) ≤ fuel) : Goes I s (s.unary sub) := by
  have h := hI.goes_nested hserves (p := .unary) (by decide) (by decide) hs hopen hfuel
  unfold unary
  dsimp only
  split
  · exact h.trans (hI.goes_emit _)
  · exact h

/-- Behind each argument there is one token less to be read, so there are steps for all of them. -/
theorem Live.goes_arguments (hI : Live I) (hserves : Serves maxDepth I fuel sub)
    (hkeeps : ∀ p, Keeps (sub p)) {steps : Nat} (count : Nat) (hsteps : s.remaining < steps)
    (hs : s.Coherent maxDepth) (hopen : s.cutOff = false)
    (hfuel : 4 * (maxDepth.toNat - s.depth) ≤ fuel) :
    Goes I s (arguments sub steps count s).2 := by
  induction steps generalizing count s with
  | zero => exact absurd hsteps (Nat.not_lt_zero _)
  | succ steps ih =>
    have hread := hI.goes_nested hserves (p := .term) (Nat.le_refl 1) (Nat.le_refl 4) hs hopen hfuel
    have hkept := hs.kept (f := fun s ↦ s.nested sub .term) fun hJ _ h ↦
      hJ.nested (fun p _ h' ↦ hkeeps p hJ h') .term h
    rw [arguments_succ]
    generalize s.nested sub .term = t at hread hkept
    have hcounted : Goes I s (if count = maxArguments then t.report .tooManyArguments else t) ∧
        (if count = maxArguments then t.report .tooManyArguments else t).Coherent maxDepth ∧
        (if count = maxArguments then t.report .tooManyArguments else t).remaining ≤
          s.remaining := by
      split
      · exact ⟨hread.trans (hI.goes_report rfl),
          (stable_coherent maxDepth s.remaining).report _ hkept⟩
      · exact ⟨hread, hkept⟩
    unfold afterArgument
    dsimp only
    generalize (if count = maxArguments then t.report .tooManyArguments else t) = u at hcounted ⊢
    obtain ⟨hgoes, hcoherent, hless⟩ := hcounted
    by_cases hcomma : u.current.kind = .comma
    · rw [if_pos hcomma]
      -- a comma is not the end, so the rest has not been skipped
      have hproper : u.current.kind ≠ .finish := by
        rw [hcomma]
        exact TokenKind.noConfusion
      have hdepth : u.advance.depth = s.depth := u.depth_advance.trans hgoes.depth
      have hlt := hcoherent.remaining_advance_lt hproper
      refine (hgoes.trans hI.goes_advance).trans
        (ih (count + 1) (by omega) hcoherent.advance.1 ?_ (by rwa [hdepth]))
      rw [cutOff_advance]
      exact hcoherent.open_of_kind hproper
    · rw [if_neg hcomma]
      exact hgoes

theorem Live.goes_argumentList (hI : Live I) (hserves : Serves maxDepth I fuel sub)
    (hkeeps : ∀ p, Keeps (sub p)) (hs : s.Coherent maxDepth) (hopen : s.cutOff = false)
    (hfuel : 4 * (maxDepth.toNat - s.depth) ≤ fuel) : Goes I s (s.argumentList sub).2 := by
  unfold argumentList
  refine Goes.trans ?_ (hI.goes_consume .rightParen rfl)
  split
  · exact Goes.refl I s
  · refine hI.goes_arguments hserves hkeeps 0 ?_ hs hopen hfuel
    unfold remaining
    split <;> omega

theorem Live.goes_functionCall (hI : Live I) (hserves : Serves maxDepth I fuel sub)
    (hkeeps : ∀ p, Keeps (sub p)) {f : Builtin} (hfunction : s.previous.value = .function f)
    (hs : s.Coherent maxDepth) (hopen : s.cutOff = false)
    (hfuel : 4 * (maxDepth.toNat - s.depth) ≤ fuel) : Goes I s (s.functionCall sub) := by
  have hconsume : Goes I s (s.consume .leftParen .missingArguments) :=
    hI.goes_consume .leftParen rfl
  have hcoherent := (hs.kept fun hJ _ h ↦ hJ.consume .leftParen .missingArguments h).1
  unfold functionCall
  rw [hfunction]
  refine (hconsume.trans ?_).trans (hI.goes_emit _)
  refine hI.goes_argumentList hserves hkeeps hcoherent ?_ ?_
  · rw [cutOff_consume, hopen]
  · rwa [hconsume.depth]

/-- What the first token of an expression asks for. -/
theorem Live.goes_opening (hI : Live I) (hserves : Serves maxDepth I fuel sub)
    (hkeeps : ∀ p, Keeps (sub p)) (hs : s.Coherent maxDepth) (hopen : s.cutOff = false)
    (hfuel : 4 * (maxDepth.toNat - s.depth) ≤ fuel) :
    Goes I s (s.act sub s.previous.kind.rule.opening) := by
  have hmissing : Goes I s (s.report .expectedExpression) := hI.goes_report rfl
  rcases hs.previous with hkind | ⟨x, hx⟩
  · rw [hkind]
    exact hmissing
  · rw [Token.kind_of_symbol? hx]
    cases x with
    | number x =>
      change Goes I s s.number
      unfold number
      rw [Token.literal_of_symbol? hx]
      exact hI.goes_emit _
    | identifier v => exact ⟨fun h ↦ hI.emit _ (hI.names _ h), rfl⟩
    | function f =>
      exact hI.goes_functionCall hserves hkeeps (Token.function_of_symbol? hx) hs hopen hfuel
    | operator op =>
      cases op with
      | add => exact hI.goes_unary hserves hs hopen hfuel
      | subtract => exact hI.goes_unary hserves hs hopen hfuel
      | multiply => exact hmissing
      | divide => exact hmissing
      | power => exact hmissing
      | modulo => exact hmissing
    | bang => exact hmissing
    | leftParen => exact hI.goes_grouping hserves hs hopen hfuel
    | rightParen => exact hmissing
    | comma => exact hmissing

/-- What a token behind an expression asks for. A right operand is at the same depth, and binds more
tightly. -/
theorem Live.goes_follow (hI : Live I) (hserves : Serves maxDepth I fuel sub) {p : Precedence}
    (hp : 1 ≤ p.level) (hs : s.Coherent maxDepth) (hopen : s.cutOff = false)
    (hbinds : p.level ≤ s.previous.kind.rule.precedence.level)
    (hfuel : p.layers + 4 * (maxDepth.toNat - s.depth) ≤ fuel + 1) :
    Goes I s (s.follow sub) := by
  have hloose : ¬ p.level ≤ Precedence.none.level := Nat.not_le.mpr hp
  rcases hs.previous with hkind | ⟨x, hx⟩
  · rw [hkind] at hbinds
    exact absurd hbinds hloose
  · have hkind := Token.kind_of_symbol? hx
    rw [hkind, x.rule_kind] at hbinds
    cases x with
    | operator op =>
      rw [follow_binary hkind]
      refine (hserves ?_ hs hopen ?_).trans (hI.goes_emit _)
      · rw [op.level_nextHigher]
        omega
      · have hlayers := op.layers_lt hbinds
        omega
    | bang =>
      rw [follow_bang hkind]
      exact hI.goes_emit _
    | _ => exact absurd hbinds hloose

/-- Each operator is one token less to be read, so there are steps for all of them. -/
theorem Live.goes_operators (hI : Live I) (hserves : Serves maxDepth I fuel sub)
    (hkeeps : ∀ p, Keeps (sub p)) {p : Precedence} (hp : 1 ≤ p.level) {steps : Nat}
    (hsteps : s.remaining ≤ steps) (hs : s.Coherent maxDepth)
    (hfuel : p.layers + 4 * (maxDepth.toNat - s.depth) ≤ fuel + 1) :
    Goes I s (operators sub p steps s) := by
  have hend : ∀ t : Token, t.kind = .finish → ¬ p.level ≤ t.kind.rule.precedence.level := by
    intro t hkind
    rw [hkind]
    exact Nat.not_le.mpr hp
  induction steps generalizing s with
  | zero =>
    have hkind : s.current.kind = .finish := by
      by_contra hkind
      unfold remaining at hsteps
      rw [if_neg hkind] at hsteps
      omega
    unfold operators
    rw [if_neg (hend s.current hkind)]
    exact Goes.refl I s
  | succ steps ih =>
    unfold operators
    by_cases hbinds : p.level ≤ s.current.kind.rule.precedence.level
    · rw [if_pos hbinds]
      have hproper : s.current.kind ≠ .finish := fun hkind ↦ hend s.current hkind hbinds
      have hlt := hs.remaining_advance_lt hproper
      have hopen : s.advance.cutOff = false := by
        rw [cutOff_advance]
        exact hs.open_of_kind hproper
      have hfollow : Goes I s.advance (s.advance.follow sub) := by
        refine hI.goes_follow hserves hp hs.advance.1 hopen ?_ ?_
        · rwa [previous_advance]
        · rwa [depth_advance]
      have hgoes := hI.goes_advance.trans hfollow
      obtain ⟨hcoherent, hless⟩ := hs.advance.1.kept (f := follow sub) fun hJ _ h ↦
        hJ.follow (fun p _ h' ↦ hkeeps p hJ h') h
      exact hgoes.trans (ih (by omega) hcoherent (by rwa [hgoes.depth]))
    · rw [if_neg hbinds]
      exact Goes.refl I s

/-- An expression is read in steps that are meant to be taken where the allowance covers the levels
of nesting that are left, and what may be inside the expression at this one. -/
theorem Live.serves_expression (hI : Live I) (maxDepth : Int) (fuel : Nat) :
    Serves maxDepth I fuel (expression fuel) := by
  induction fuel with
  | zero =>
    intro p s _ _ _ hfuel
    have hlayers := p.layers_pos
    omega
  | succ fuel ih =>
    intro p s hp hs hopen hfuel
    have hkeeps : ∀ q, Keeps (expression fuel q) := fun q _ hJ _ h ↦ hJ.expression fuel q h
    have hlayers := p.layers_pos
    have hopening : Goes I s.advance (s.advance.act (expression fuel)
        s.advance.previous.kind.rule.opening) := by
      refine hI.goes_opening ih hkeeps hs.advance.1 (by rw [cutOff_advance, hopen]) ?_
      rw [depth_advance]
      omega
    have hgoes := hI.goes_advance.trans hopening
    have hkept := hs.advance.1.kept
      (f := act (expression fuel) s.advance.previous.kind.rule.opening) fun hJ _ h ↦
        hJ.act (fun q _ h' ↦ hkeeps q hJ h') _ h
    unfold expression
    dsimp only
    generalize s.advance.act (expression fuel) s.advance.previous.kind.rule.opening = t
      at hgoes hkept ⊢
    refine hgoes.trans (hI.goes_operators ih hkeeps hp ?_ hkept.1 (by rwa [hgoes.depth]))
    unfold remaining
    split <;> omega

end

theorem coherent_start (maxDepth : Int) {ts : List Token}
    (hts : ∀ t ∈ ts, t.kind = .error ∨ ∃ x, t.symbol? = some x) {finish : Token}
    (hfinish : finish.kind = .finish) : (start maxDepth ts finish).advance.Coherent maxDepth :=
  (Coherent.load (s := { start maxDepth ts finish with previous := Token.finish 0 }) hts rfl hfinish
    (Or.inl rfl) nofun).1

/-- Whatever is said of the faults that have been noted, only noting another one can change it. -/
theorem live_faults (P : List Fault → Prop) : Live fun s ↦ P s.faults where
  emit _ _ hs := hs
  report p s _ hs := by rwa [faults_report]
  advance {s} hs := by
    obtain ⟨current, rest, diagnostics, h⟩ := s.advance_eq
    rwa [h]
  stopNesting {s} hopen hs := by
    obtain ⟨diagnostics, hreport⟩ := reportAt_eq s.current (.tooDeeplyNested s.maxDepth) s
    obtain ⟨previous, current, rest, h⟩ := skipTo_eq s.rest
      { s with diagnostics := diagnostics, cutOff := true }
    rwa [stopNesting_eq hopen, report, hreport, h]
  names _ _ hs := hs
  depth _ _ hs := hs

/-- What the steps keep that are meant to be taken is kept until the whole expression is read. All
is as it should be then, and what is left is to look for the end. -/
theorem exists_read (maxDepth : Int) (source : String) :
    let text := Text.withoutBlanks source
    ∃ s : Parser, s.Coherent maxDepth ∧
      (∀ I, Live I → I (start maxDepth (scan text) (scanFinish text)).advance → I s) ∧
      parse maxDepth source = if s.current.kind = .finish then s else s.report .expectedEnd := by
  intro text
  have hallowance : Precedence.term.layers +
      4 * (maxDepth.toNat - (start maxDepth (scan text) (scanFinish text)).advance.depth) ≤
        allowance maxDepth := by
    rw [depth_advance]
    change 4 + 4 * (maxDepth.toNat - 0) ≤ 4 * (maxDepth.toNat + 1)
    omega
  have hcoherent : (start maxDepth (scan text) (scanFinish text)).advance.Coherent maxDepth :=
    coherent_start maxDepth (Cursor.tokens_cases _) rfl
  refine ⟨_, (hcoherent.kept fun hJ _ h ↦ hJ.expression (allowance maxDepth) .term h).1,
    fun I hI hstart ↦ ?_, rfl⟩
  have hopen : (start maxDepth (scan text) (scanFinish text)).advance.cutOff = false :=
    cutOff_advance _
  exact (hI.serves_expression maxDepth _ (p := .term) (Nat.le_refl 1) hcoherent hopen
    hallowance).keeps hstart

end Parser

theorem faults_parse (maxDepth : Int) (source : String) : (parse maxDepth source).faults = [] := by
  obtain ⟨s, -, hkeeps, hparse⟩ := Parser.exists_read maxDepth source
  have hlive := Parser.live_faults (· = [])
  have hs : s.faults = [] := hkeeps _ hlive (hlive.advance rfl)
  rw [hparse]
  split
  · exact hs
  · rw [Parser.faults_report, hs]

end CurveCalc
