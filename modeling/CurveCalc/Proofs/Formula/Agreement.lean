import CurveCalc.Proofs.Formula.Ahead
import CurveCalc.Proofs.Formula.ReadBack

/-!
The parser against the reader of trees. As long as nothing is wrong the two go the same way: the
parser has put out the listing of the tree that the reader has built, has entered the names of the
tree in the order in which they first appear, and has the same symbols ahead. Where the reader finds
that the symbols nest too deep the parser has stopped, and where the reader finds no formula the
parser has noted a problem (`Parser.expression_agrees`). From this follows what the parser makes of
a whole formula (`Parser.run_cases`).
-/

set_option autoImplicit false
set_option relaxedAutoImplicit false

namespace CurveCalc

namespace Token

variable {t : Token}

theorem literal_of_symbol? {x : Literal} (h : t.symbol? = some (.number x)) :
    Literal.ofToken? t = some x := by
  have hkind : t.kind = .number := kind_of_symbol? h
  unfold symbol? at h
  rw [hkind] at h
  obtain ⟨y, hy, heq⟩ := Option.map_eq_some_iff.mp h
  cases heq
  exact hy

theorem lexeme_of_symbol? {v : String} (h : t.symbol? = some (.identifier v)) : t.lexeme = v := by
  have hkind : t.kind = .identifier := kind_of_symbol? h
  unfold symbol? at h
  rw [hkind] at h
  cases h
  rfl

theorem function_of_symbol? {f : Builtin} (h : t.symbol? = some (.function f)) :
    t.value = .function f := by
  have hkind : t.kind = .function := kind_of_symbol? h
  unfold symbol? at h
  rw [hkind] at h
  cases hvalue : t.value with
  | function g =>
    rw [hvalue] at h
    cases h
    rfl
  | _ =>
    rw [hvalue] at h
    cases h

end Token

namespace Parser

open Reader Formula

/-- How deep formulas may nest and how many arguments their calls may have. -/
def bounds (maxDepth : Int) : Bounds := ⟨maxDepth.toNat, maxArguments⟩

/-- The parser has come to what the reader has: it has stopped, or noted a problem, or it is where
it should be after what has been read. -/
def Comes {β : Type} (maxDepth : Int) (o : Outcome Literal String β) (t : Parser)
    (post : β → List (Symbol Literal String) → Prop) : Prop :=
  match o with
  | .read x rest => post x rest
  | .tooDeep => Stopped maxDepth t
  | .malformed => t.Faulty

/-- From one state to the other this formula has been read, with this left of the symbols. -/
def HasRead (maxDepth : Int) (depth : Nat) (s t : Parser) (e : Formula Literal String)
    (rest : List (Symbol Literal String)) : Prop :=
  Ahead maxDepth depth rest t ∧ Puts s e.identifiers e.listing t

/-- What the parser does next keeps what its steps keep. -/
def Keeps (f : Parser → Parser) : Prop := ∀ {I : Parser → Prop}, Stable I → ∀ {s}, I s → I (f s)

/-- The parser reads expressions as the reader does where this much is left of the allowance. -/
def Agrees (maxDepth : Int) (fuel : Nat) (sub : Precedence → Parser → Parser)
    (rsub : Subreader Literal String) : Prop :=
  ∀ {p : Precedence} {depth : Nat} {xs : List (Symbol Literal String)} {s : Parser}, 1 ≤ p.level →
    depth ≤ maxDepth.toNat → p.layers + 4 * (maxDepth.toNat - depth) ≤ fuel →
    Ahead maxDepth depth xs s →
    Comes maxDepth (rsub p depth xs) (sub p s) (HasRead maxDepth depth s (sub p s))

section

variable {maxDepth : Int} {depth fuel : Nat} {xs : List (Symbol Literal String)} {s : Parser}
  {sub : Precedence → Parser → Parser} {rsub : Subreader Literal String}

/-- One thing read after another. -/
theorem Comes.bind {β γ : Type} {t : Parser} {post : β → List (Symbol Literal String) → Prop}
    {post' : γ → List (Symbol Literal String) → Prop} {o : Outcome Literal String β}
    {k : β → List (Symbol Literal String) → Outcome Literal String γ} {f : Parser → Parser}
    (h : Comes maxDepth o t post) (hf : Keeps f)
    (hread : ∀ x rest, o = .read x rest → post x rest → Comes maxDepth (k x rest) (f t) post') :
    Comes maxDepth (o.bind k) (f t) post' := by
  cases o with
  | read x rest => exact hread x rest rfl h
  | tooDeep => exact hf (stable_stopped maxDepth) h
  | malformed => exact hf stable_faulty h

theorem Comes.imp {β : Type} {t : Parser} {post post' : β → List (Symbol Literal String) → Prop}
    {o : Outcome Literal String β} (h : Comes maxDepth o t post)
    (himp : ∀ x rest, post x rest → post' x rest) : Comes maxDepth o t post' := by
  cases o with
  | read x rest => exact himp x rest h
  | tooDeep => exact h
  | malformed => exact h

theorem nested_comes (hagrees : Agrees maxDepth fuel sub rsub) {p : Precedence} (hp : 1 ≤ p.level)
    (hlayers : p.layers ≤ 4) (hfuel : 4 * (maxDepth.toNat - depth) ≤ fuel)
    (hs : Ahead maxDepth depth xs s) :
    Comes maxDepth (Reader.nested (bounds maxDepth) rsub p depth xs) (s.nested sub p)
      (HasRead maxDepth depth s (s.nested sub p)) := by
  have hlimit : s.maxDepth ≤ s.depth ↔ (bounds maxDepth).depth ≤ depth := by
    rw [hs.limit, hs.depth]
    exact Int.toNat_le.symm
  unfold Reader.nested Parser.nested
  by_cases hdepth : (bounds maxDepth).depth ≤ depth
  · rw [if_pos hdepth, if_pos (hlimit.mpr hdepth)]
    exact hs.stopNesting
  · rw [if_neg hdepth, if_neg (mt hlimit.mp hdepth)]
    have hdeeper : Ahead maxDepth (depth + 1) xs { s with depth := s.depth + 1 } :=
      ⟨hs.limit, congrArg (· + 1) hs.depth, hs.clean, hs.notCut, hs.finish, hs.spelled⟩
    have hlt : depth < maxDepth.toNat := Nat.not_le.mp hdepth
    have hread := hagrees hp (by omega) (by omega) hdeeper
    dsimp only
    generalize sub p { s with depth := s.depth + 1 } = t at hread ⊢
    cases ho : rsub p (depth + 1) xs with
    | read e rest =>
      rw [ho] at hread
      obtain ⟨hahead, hputs⟩ := hread
      have hback : t.depth - 1 = depth := by
        rw [hahead.depth]
        rfl
      exact ⟨⟨hahead.limit, hback, hahead.clean, hahead.notCut, hahead.finish, hahead.spelled⟩,
        hputs.names, hputs.code⟩
    | tooDeep =>
      rw [ho] at hread
      exact (stable_stopped maxDepth).depth _ hread
    | malformed =>
      rw [ho] at hread
      exact stable_faulty.depth _ hread

theorem Spells.kind_iff {t : Token} {rest : List Token} (h : Spells t rest xs)
    {y : Symbol Literal String} (hy : y.IsMark) : t.kind = y.kind ↔ ∃ more, xs = y :: more := by
  cases xs with
  | nil =>
    rw [h.1]
    exact ⟨fun hkind ↦ absurd hkind.symm y.kind_ne_finish, fun ⟨_, hxs⟩ ↦ by cases hxs⟩
  | cons x xs =>
    rw [h.kind]
    refine ⟨fun hkind ↦ ⟨xs, ?_⟩, fun ⟨_, hxs⟩ ↦ ?_⟩
    · rw [hy.eq_of_kind hkind]
    · rw [(List.cons_eq_cons.mp hxs).1]

/-- Reading over a mark, or noting that it is missing. -/
theorem consume_cases (hs : Ahead maxDepth depth xs s) {y : Symbol Literal String} (hy : y.IsMark)
    {k : TokenKind} (hk : y.kind = k) (p : Problem) :
    (∃ rest, xs = y :: rest ∧ Ahead maxDepth depth rest (s.consume k p) ∧
      (s.consume k p).names = s.names ∧ (s.consume k p).code = s.code) ∨
    ((∀ rest, xs ≠ y :: rest) ∧ (s.consume k p).Faulty) := by
  subst hk
  by_cases hxs : ∃ rest, xs = y :: rest
  · obtain ⟨rest, rfl⟩ := hxs
    exact Or.inl ⟨rest, rfl, hs.consume p⟩
  · have hne : ∀ rest, xs ≠ y :: rest := fun rest h ↦ hxs ⟨rest, h⟩
    refine Or.inr ⟨hne, hs.faulty_consume y.kind_ne_finish ?_ p⟩
    rintro x rest rfl hkind
    exact hne rest (by rw [hy.eq_of_kind hkind])

/-- From one state to the other these arguments have been read and counted. -/
def HasReadAll (maxDepth : Int) (depth count : Nat) (s : Parser) (r : Nat × Parser)
    (ts : List (Formula Literal String)) (rest : List (Symbol Literal String)) : Prop :=
  Ahead maxDepth depth rest r.2 ∧ Puts s (identifiersAll ts) (listingAll ts) r.2 ∧
    r.1 = count + ts.length

/-- What follows an argument, if what follows the comma is read as it should be. -/
theorem afterArgument_comes (hkeeps : ∀ p, Keeps (sub p)) (steps count : Nat) {t : Parser}
    {e : Formula Literal String} {rest : List (Symbol Literal String)}
    (hmore : ∀ {more : List (Symbol Literal String)} {u : Parser}, rest = .comma :: more →
      Ahead maxDepth depth more u →
      Comes maxDepth (Reader.arguments (bounds maxDepth) rsub depth steps (count + 1) more)
        (arguments sub steps (count + 1) u).2
        (HasReadAll maxDepth depth (count + 1) u (arguments sub steps (count + 1) u)))
    (ht : HasRead maxDepth depth s t e rest) :
    Comes maxDepth
      (Reader.afterArgument (bounds maxDepth)
        (Reader.arguments (bounds maxDepth) rsub depth steps (count + 1)) count e rest)
      (afterArgument sub steps count t).2
      (HasReadAll maxDepth depth count s (afterArgument sub steps count t)) := by
  obtain ⟨hahead, hputs⟩ := ht
  unfold Reader.afterArgument Parser.afterArgument
  dsimp only
  by_cases hcount : count = maxArguments
  · have hcount' : count = (bounds maxDepth).arguments := hcount
    rw [if_pos hcount, if_pos hcount']
    have hfaulty := hahead.faulty_report .tooManyArguments
    unfold Comes
    dsimp only
    split
    · exact stable_faulty.arguments (fun p _ hs ↦ hkeeps p stable_faulty hs) _ _
        (stable_faulty.advance hfaulty)
    · exact hfaulty
  have hcount' : ¬ count = (bounds maxDepth).arguments := hcount
  rw [if_neg hcount, if_neg hcount']
  have hmark : t.current.kind = .comma ↔ ∃ more, rest = .comma :: more :=
    hahead.spelled.kind_iff (y := .comma) trivial
  by_cases hcomma : ∃ more, rest = .comma :: more
  · rw [if_pos (hmark.mpr hcomma)]
    obtain ⟨more, rfl⟩ := hcomma
    obtain ⟨hnext, -, hnames, hcode⟩ := hahead.advance
    refine (hmore rfl hnext).bind (f := id) (fun _ _ hs ↦ hs) fun ts rest _ hread ↦ ?_
    obtain ⟨hahead', hputs', hcounted⟩ := hread
    refine ⟨hahead', hputs.trans (hputs'.of_same hnames.symm hcode.symm), ?_⟩
    rw [hcounted, List.length_cons]
    omega
  · rw [if_neg (mt hmark.mp hcomma)]
    have hids : identifiersAll [e] = e.identifiers := List.append_nil _
    have hlisting : listingAll [e] = e.listing := funext fun _ ↦ List.append_nil _
    split
    · exact absurd ⟨_, rfl⟩ hcomma
    · refine ⟨hahead, ?_, rfl⟩
      rw [hids, hlisting]
      exact hputs

theorem arguments_comes (hagrees : Agrees maxDepth fuel sub rsub) (hkeeps : ∀ p, Keeps (sub p))
    (hsound : Sound (bounds maxDepth) rsub) (hfuel : 4 * (maxDepth.toNat - depth) ≤ fuel)
    {steps : Nat} (count : Nat) (hsteps : xs.length < steps) (hs : Ahead maxDepth depth xs s) :
    Comes maxDepth (Reader.arguments (bounds maxDepth) rsub depth steps count xs)
      (arguments sub steps count s).2
      (HasReadAll maxDepth depth count s (arguments sub steps count s)) := by
  induction steps generalizing count xs s with
  | zero => exact absurd hsteps (Nat.not_lt_zero _)
  | succ steps ih =>
    have hread := nested_comes (p := .term) hagrees (Nat.le_refl 1) (Nat.le_refl 4) hfuel hs
    rw [arguments_succ]
    refine hread.bind (f := fun t ↦ (afterArgument sub steps count t).2) ?_ fun e rest ho he ↦ ?_
    · exact fun hI _ ht ↦ hI.afterArgument steps count
        (hI.arguments (fun p _ hu ↦ hkeeps p hI hu) steps (count + 1)) ht
    · refine afterArgument_comes hkeeps steps count (fun hrest hu ↦ ih _ ?_ hu) he
      have hspelled := (nested_sound hsound (p := .term) (Nat.le_refl 1) ho).spelled
      rw [hspelled, hrest, List.length_append, List.length_cons] at hsteps
      omega

/-- Behind a function name and an opening parenthesis: the arguments, then the call. -/
theorem argumentList_comes (hagrees : Agrees maxDepth fuel sub rsub) (hkeeps : ∀ p, Keeps (sub p))
    (hsound : Sound (bounds maxDepth) rsub) (hfuel : 4 * (maxDepth.toNat - depth) ≤ fuel)
    (f : Builtin) (hs : Ahead maxDepth depth xs s) :
    Comes maxDepth (opening (bounds maxDepth) rsub depth (.function f :: .leftParen :: xs))
      ((s.argumentList sub).2.emit (.call (.whole f.number) (s.argumentList sub).1))
      (HasRead maxDepth depth s
        ((s.argumentList sub).2.emit (.call (.whole f.number) (s.argumentList sub).1))) := by
  have hmark : s.current.kind = .rightParen ↔ ∃ more, xs = .rightParen :: more :=
    hs.spelled.kind_iff (y := .rightParen) trivial
  unfold argumentList
  dsimp only
  by_cases hempty : ∃ more, xs = .rightParen :: more
  · rw [if_pos (hmark.mpr hempty)]
    obtain ⟨more, rfl⟩ := hempty
    obtain ⟨hahead, hnames, hcode⟩ := hs.consume .unclosedArguments
    exact ⟨hahead.emit _, (Puts.of_eq hnames hcode).emit (.call (.whole f.number) 0)⟩
  · rw [if_neg (mt hmark.mp hempty), opening_function fun more h ↦ hempty ⟨more, h⟩,
      hs.spelled.length]
    have hread := arguments_comes hagrees hkeeps hsound hfuel 0
      (by rw [List.length_tail]; omega : xs.length < xs.tail.length + 2) hs
    generalize arguments sub (xs.tail.length + 2) 0 s = r at hread ⊢
    refine hread.bind (f := fun t ↦ (t.consume .rightParen .unclosedArguments).emit
      (.call (.whole f.number) r.1)) (fun hI _ ht ↦ hI.emit _ (hI.consume _ _ ht)) ?_
    rintro ts rest - ⟨hahead, hputs, hcount⟩
    rcases consume_cases hahead (y := .rightParen) trivial rfl .unclosedArguments with
      ⟨more, rfl, hclosed, hnames, hcode⟩ | ⟨hne, hfaulty⟩
    · have hlisting : (Formula.call f ts).listing = fun names ↦
          listingAll ts names ++ [.call (.whole f.number) r.1] := by
        rw [hcount, Nat.zero_add]
        exact funext fun names ↦ listing_call f ts names
      refine ⟨hclosed.emit _, ?_⟩
      rw [hlisting]
      exact (hputs.same hnames hcode).emit (.call (.whole f.number) r.1)
    · rw [closed_of_ne hne]
      exact hfaulty

/-- Behind a function name: its arguments in parentheses, then the call. -/
theorem functionCall_comes (hagrees : Agrees maxDepth fuel sub rsub) (hkeeps : ∀ p, Keeps (sub p))
    (hsound : Sound (bounds maxDepth) rsub) (hfuel : 4 * (maxDepth.toNat - depth) ≤ fuel)
    {f : Builtin} (hf : s.previous.value = .function f) (hs : Ahead maxDepth depth xs s) :
    Comes maxDepth (opening (bounds maxDepth) rsub depth (.function f :: xs)) (s.functionCall sub)
      (HasRead maxDepth depth s (s.functionCall sub)) := by
  unfold functionCall
  rw [hf]
  dsimp only
  rcases consume_cases hs (y := .leftParen) (k := .leftParen) trivial rfl .missingArguments with
    ⟨rest, rfl, hopen, hnames, hcode⟩ | ⟨hne, hfaulty⟩
  · exact (argumentList_comes hagrees hkeeps hsound hfuel f hopen).imp fun _ _ h ↦
      ⟨h.1, h.2.of_same hnames.symm hcode.symm⟩
  · rw [opening_function_of_ne hne]
    exact stable_faulty.emit _
      (stable_faulty.argumentList (fun p _ ht ↦ hkeeps p stable_faulty ht) hfaulty)

theorem hasRead_identifier (hs : Ahead maxDepth depth xs s) :
    HasRead maxDepth depth s s.identifier (.identifier s.previous.lexeme) xs := by
  refine ⟨⟨hs.limit, hs.depth, hs.clean, hs.notCut, hs.finish, hs.spelled⟩, rfl, ?_⟩
  intro names hnames
  have hslot : names.idxOf s.previous.lexeme = (slotOf s.names s.previous.lexeme).1 :=
    idxOf_of_enter hnames
  change (s.code.push _).toList = s.code.toList ++ [.load (.whole (names.idxOf s.previous.lexeme))]
  rw [Array.toList_push, hslot]

theorem grouping_comes (hagrees : Agrees maxDepth fuel sub rsub)
    (hfuel : 4 * (maxDepth.toNat - depth) ≤ fuel) (hs : Ahead maxDepth depth xs s) :
    Comes maxDepth (opening (bounds maxDepth) rsub depth (.leftParen :: xs)) (s.grouping sub)
      (HasRead maxDepth depth s (s.grouping sub)) := by
  have hread := nested_comes (p := .term) hagrees (Nat.le_refl 1) (Nat.le_refl 4) hfuel hs
  unfold grouping
  generalize s.nested sub .term = t at hread ⊢
  refine hread.bind (f := fun t ↦ t.consume .rightParen .unclosedGroup)
    (fun hI _ ht ↦ hI.consume _ _ ht) ?_
  rintro e rest - ⟨hahead, hputs⟩
  rcases consume_cases hahead (y := .rightParen) trivial rfl .unclosedGroup with
    ⟨more, rfl, hclosed, hnames, hcode⟩ | ⟨hne, hfaulty⟩
  · exact ⟨hclosed, hputs.same hnames hcode⟩
  · rw [closed_of_ne hne]
    exact hfaulty

theorem unary_comes (hagrees : Agrees maxDepth fuel sub rsub)
    (hfuel : 4 * (maxDepth.toNat - depth) ≤ fuel) {sign : Sign}
    (hsign : s.previous.kind = sign.operator.kind) (hs : Ahead maxDepth depth xs s) :
    Comes maxDepth (opening (bounds maxDepth) rsub depth (.operator sign.operator :: xs))
      (s.unary sub) (HasRead maxDepth depth s (s.unary sub)) := by
  have hread := nested_comes (p := .unary) hagrees (Nat.le_succ 1) (Nat.le_succ 3) hfuel hs
  unfold unary opening
  dsimp only
  rw [Sign.ofOperator?_operator, hsign]
  generalize s.nested sub .unary = t at hread ⊢
  cases sign with
  | plus =>
    exact hread.bind (f := id) (fun _ _ ht ↦ ht) fun e rest _ h ↦ ⟨h.1, h.2⟩
  | minus =>
    exact hread.bind (f := emit (.unary .negate)) (fun hI _ ht ↦ hI.emit _ ht)
      fun e rest _ h ↦ ⟨h.1.emit _, h.2.emit _⟩

/-- At the start of an expression. -/
theorem opening_comes (hagrees : Agrees maxDepth fuel sub rsub) (hkeeps : ∀ p, Keeps (sub p))
    (hsound : Sound (bounds maxDepth) rsub) (hfuel : 4 * (maxDepth.toNat - depth) ≤ fuel)
    (hs : Ahead maxDepth depth xs s) :
    Comes maxDepth (opening (bounds maxDepth) rsub depth xs)
      (s.advance.act sub s.advance.previous.kind.rule.opening)
      (HasRead maxDepth depth s (s.advance.act sub s.advance.previous.kind.rule.opening)) := by
  cases xs with
  | nil =>
    obtain ⟨hahead, hprevious⟩ := hs.advance_nil
    rw [hprevious]
    exact hahead.faulty_report .expectedExpression
  | cons x xs =>
    obtain ⟨hahead, hprevious, hnames, hcode⟩ := hs.advance
    have hkind := Token.kind_of_symbol? hprevious
    rw [hkind]
    generalize s.advance = t at hahead hprevious hnames hcode hkind ⊢
    have himp : ∀ {u : Parser} e rest, HasRead maxDepth depth t u e rest →
        HasRead maxDepth depth s u e rest :=
      fun _ _ h ↦ ⟨h.1, h.2.of_same hnames.symm hcode.symm⟩
    cases x with
    | number x =>
      have hnumber : t.number = t.emit (.constant (.real x)) := by
        unfold number
        rw [Token.literal_of_symbol? hprevious]
      change HasRead maxDepth depth s t.number (.number x) xs
      rw [hnumber]
      exact ⟨hahead.emit _, (Puts.of_eq hnames hcode).emit _⟩
    | identifier v =>
      have hread := hasRead_identifier hahead
      rw [Token.lexeme_of_symbol? hprevious] at hread
      exact himp _ _ hread
    | function f =>
      exact (functionCall_comes hagrees hkeeps hsound hfuel (Token.function_of_symbol? hprevious)
        hahead).imp himp
    | leftParen => exact (grouping_comes hagrees hfuel hahead).imp himp
    | operator op =>
      cases hsign : Sign.ofOperator? op with
      | some sign =>
        obtain rfl := Sign.operator_of_ofOperator? hsign
        have hrule : sign.operator.kind.rule.opening = .unary := by cases sign <;> rfl
        change Comes maxDepth _ (t.act sub sign.operator.kind.rule.opening)
          (HasRead maxDepth depth s (t.act sub sign.operator.kind.rule.opening))
        rw [hrule]
        exact (unary_comes hagrees hfuel hkind hahead).imp himp
      | none =>
        have hrule : op.kind.rule.opening = .none := by
          cases op <;> first | rfl | cases hsign
        have hopening : opening (bounds maxDepth) rsub depth (.operator op :: xs) = .malformed := by
          unfold opening
          dsimp only
          rw [hsign]
        change Comes maxDepth _ (t.act sub op.kind.rule.opening) _
        rw [hopening, hrule]
        exact hahead.faulty_report .expectedExpression
    | bang => exact hahead.faulty_report .expectedExpression
    | rightParen => exact hahead.faulty_report .expectedExpression
    | comma => exact hahead.faulty_report .expectedExpression

/-- An operator behind an expression, up to the end of its right operand. -/
theorem follow_binary {t : Parser} {op : BinaryOperator} (hkind : t.previous.kind = op.kind) :
    t.follow sub = (sub op.precedence.nextHigher t).emit (.binary op) := by
  unfold follow
  rw [hkind, op.following_kind]
  change t.binary sub = _
  unfold binary
  dsimp only
  rw [hkind, op.operandPrecedence_kind, op.operator?_kind]

theorem follow_bang {t : Parser} (hkind : t.previous.kind = .bang) :
    t.follow sub = t.emit (.unary .factorial) := by
  unfold follow
  rw [hkind]
  rfl

theorem operators_comes (hagrees : Agrees maxDepth fuel sub rsub) (hkeeps : ∀ p, Keeps (sub p))
    (hsound : Sound (bounds maxDepth) rsub) {p : Precedence} (hp : 1 ≤ p.level)
    (hdepth : depth ≤ maxDepth.toNat) (hfuel : p.layers + 4 * (maxDepth.toNat - depth) ≤ fuel + 1)
    {steps : Nat} {t : Parser} {e : Formula Literal String} (hsteps : xs.length ≤ steps)
    (ht : HasRead maxDepth depth s t e xs) :
    Comes maxDepth (Reader.operators rsub p depth steps e xs) (operators sub p steps t)
      (HasRead maxDepth depth s (operators sub p steps t)) := by
  have hend : ¬ p.level ≤ Symbol.strength ([] : List (Symbol Literal String)) := Nat.not_le.mpr hp
  obtain ⟨hahead, hputs⟩ := ht
  induction steps generalizing xs t e with
  | zero =>
    cases xs with
    | nil =>
      unfold Parser.operators
      rw [hahead.spelled.precedence, if_neg hend]
      exact ⟨hahead, hputs⟩
    | cons x xs => cases hsteps
  | succ steps ih =>
    unfold Parser.operators
    rw [hahead.spelled.precedence]
    cases xs with
    | nil =>
      rw [if_neg hend]
      exact ⟨hahead, hputs⟩
    | cons x xs =>
      unfold Reader.operators Symbol.strength
      dsimp only
      rw [List.length_cons, Nat.add_le_add_iff_right] at hsteps
      by_cases hx : p.level ≤ x.precedence.level
      · obtain ⟨hnext, hprevious, hnames, hcode⟩ := hahead.advance
        have hkind := Token.kind_of_symbol? hprevious
        rw [if_pos hx, if_pos hx]
        generalize t.advance = u at hnext hkind hnames hcode ⊢
        cases x with
        | operator op =>
          have hlayers := op.layers_lt hx
          have hlevel := op.level_nextHigher
          have hread := hagrees (p := op.precedence.nextHigher) (by omega) hdepth (by omega) hnext
          rw [follow_binary hkind]
          generalize hsub : sub op.precedence.nextHigher u = v at hread ⊢
          refine hread.bind (f := fun v ↦ operators sub p steps (v.emit (.binary op)))
            (fun hI _ hv ↦ hI.operators (fun p _ hw ↦ hkeeps p hI hw) p steps (hI.emit _ hv)) ?_
          rintro r rest ho ⟨hahead', hputs'⟩
          have hspelled := congrArg List.length (hsound (by omega) hdepth ho).spelled
          rw [List.length_append] at hspelled
          exact ih (by omega) (hahead'.emit _)
            ((hputs.trans (hputs'.of_same hnames.symm hcode.symm)).emit _)
        | bang =>
          rw [follow_bang hkind]
          exact ih hsteps (hnext.emit _) ((hputs.same hnames hcode).emit _)
        | _ => exact absurd hx (Nat.not_le.mpr hp)
      · rw [if_neg hx, if_neg hx]
        exact ⟨hahead, hputs⟩

end

/-- With enough left of the allowance the parser reads expressions as the reader does. -/
theorem expression_agrees (maxDepth : Int) (fuel : Nat) :
    Agrees maxDepth fuel (expression fuel) (Reader.expression (bounds maxDepth) fuel) := by
  induction fuel with
  | zero =>
    intro p depth xs s _ _ hfuel _
    have hlayers := p.layers_pos
    omega
  | succ fuel ih =>
    intro p depth xs s hp hdepth hfuel hs
    have hlayers := p.layers_pos
    have hkeeps : ∀ p, Keeps (expression fuel p) := fun p _ hI _ ht ↦ hI.expression fuel p ht
    have hsound : Sound (bounds maxDepth)
        (Reader.expression (κ := Literal) (ν := String) (bounds maxDepth) fuel) :=
      Reader.expression_sound (bounds maxDepth) fuel
    have hread := opening_comes ih hkeeps hsound (by omega) hs
    unfold expression
    dsimp only
    generalize s.advance.act (expression fuel) s.advance.previous.kind.rule.opening = t at hread ⊢
    refine hread.bind (f := fun t ↦ operators (expression fuel) p (t.rest.length + 1) t)
      (fun hI _ ht ↦ hI.operators (fun p _ hu ↦ hkeeps p hI hu) p _ ht) ?_
    intro e rest _ he
    have hsteps : rest.length ≤ rest.tail.length + 1 := by
      rw [List.length_tail]
      omega
    rw [he.1.spelled.length]
    exact operators_comes ih hkeeps hsound hp hdepth hfuel hsteps he

/-- The parser has read a whole formula to this tree. -/
structure Accepts (s : Parser) (t : Formula Literal String) : Prop where
  clean : s.diagnostics = #[]
  names : s.names = t.identifiers.foldl enter []
  code : s.code.toList = t.listing s.names

theorem ahead_start (maxDepth : Int) {ts : List Token} {xs : List (Symbol Literal String)}
    (hts : ts.map Token.symbol? = xs.map some) {finish : Token} (hfinish : finish.kind = .finish) :
    Ahead maxDepth 0 xs (start maxDepth ts finish).advance ∧
      (start maxDepth ts finish).advance.names = [] ∧
      (start maxDepth ts finish).advance.code = #[] := by
  obtain ⟨hahead, -, hnames, hcode⟩ := Ahead.load (s := { start maxDepth ts finish with
    previous := Token.finish 0 }) hts rfl rfl rfl rfl hfinish
  exact ⟨hahead, hnames, hcode⟩

/-- The state behind the last symbol of a formula, in step with the reader of trees. -/
theorem run_comes (maxDepth : Int) {ts : List Token} {xs : List (Symbol Literal String)}
    (hts : ts.map Token.symbol? = xs.map some) {finish : Token} (hfinish : finish.kind = .finish) :
    Comes maxDepth (Reader.expression (bounds maxDepth) (allowance maxDepth) .term 0 xs)
      (run maxDepth ts finish) fun t rest ↦
        rest = [] ∧ (run maxDepth ts finish).Accepts t ∨
          rest ≠ [] ∧ (run maxDepth ts finish).Faulty := by
  obtain ⟨hahead, hnames, hcode⟩ := ahead_start maxDepth hts hfinish
  have hallowance : Precedence.term.layers + 4 * (maxDepth.toNat - 0) ≤ allowance maxDepth := by
    change 4 + 4 * (maxDepth.toNat - 0) ≤ 4 * (maxDepth.toNat + 1)
    omega
  have hread := expression_agrees maxDepth (allowance maxDepth) (p := .term) (Nat.le_refl 1)
    (Nat.zero_le _) hallowance hahead
  unfold run
  dsimp only
  generalize expression (allowance maxDepth) .term (start maxDepth ts finish).advance = s at hread ⊢
  cases ho : Reader.expression (bounds maxDepth) (allowance maxDepth) .term 0 xs with
  | tooDeep =>
    rw [ho] at hread
    change Stopped maxDepth (if s.current.kind = .finish then s else _)
    rw [if_pos (Stopped.atEnd hread)]
    exact hread
  | malformed =>
    rw [ho] at hread
    change Faulty (if s.current.kind = .finish then s else _)
    split
    · exact hread
    · exact stable_faulty.report _ hread
  | read t rest =>
    rw [ho] at hread
    obtain ⟨hend, hputs⟩ := hread
    change rest = [] ∧ Accepts (if s.current.kind = .finish then s else _) t ∨
      rest ≠ [] ∧ Faulty (if s.current.kind = .finish then s else _)
    cases rest with
    | nil =>
      rw [if_pos hend.spelled.1]
      refine Or.inl ⟨rfl, hend.clean, ?_, ?_⟩
      · rw [hputs.names, hnames]
      · rw [hputs.code s.names List.prefix_rfl, hcode]
        rfl
    | cons x rest =>
      rw [if_neg (by rw [hend.spelled.kind]; exact x.kind_ne_finish)]
      exact Or.inr ⟨List.cons_ne_nil x rest, hend.faulty_report _⟩

/-- Everything that can come of reading a formula without stray characters: its tree is put out, or
there is a problem, which for trees that only nest too deep is that one alone. -/
theorem run_cases (maxDepth : Int) {ts : List Token} {xs : List (Symbol Literal String)}
    (hts : ts.map Token.symbol? = xs.map some) {finish : Token} (hfinish : finish.kind = .finish) :
    (∃ t : Formula Literal String, t.symbols = xs ∧ t.WellGrouped ∧ t.width ≤ maxArguments ∧
      t.depth ≤ maxDepth.toNat ∧ (run maxDepth ts finish).Accepts t) ∨
    ((run maxDepth ts finish).Faulty ∧ ∀ t : Formula Literal String, t.symbols = xs →
      t.WellGrouped → t.width ≤ maxArguments →
        maxDepth.toNat < t.depth ∧ Stopped maxDepth (run maxDepth ts finish)) := by
  have hrun := run_comes maxDepth hts hfinish
  have hread : ∀ t : Formula Literal String, t.symbols = xs → t.WellGrouped →
      t.width ≤ maxArguments →
      Reader.expression (bounds maxDepth) (allowance maxDepth) .term 0 xs =
        (Outcome.read t []).within maxDepth.toNat t.depth := by
    rintro t rfl hgrouped hwidth
    exact expression_read hgrouped hwidth (Nat.le_refl _)
  cases ho : Reader.expression (bounds maxDepth) (allowance maxDepth) .term 0 xs with
  | tooDeep =>
    rw [ho] at hrun
    refine Or.inr ⟨Stopped.faulty hrun, fun t hspelled hgrouped hwidth ↦ ⟨?_, hrun⟩⟩
    have heq := hread t hspelled hgrouped hwidth
    by_contra hdepth
    rw [ho, Outcome.within_of_le (Nat.not_lt.mp hdepth)] at heq
    cases heq
  | malformed =>
    rw [ho] at hrun
    refine Or.inr ⟨hrun, fun t hspelled hgrouped hwidth ↦ ?_⟩
    have heq := hread t hspelled hgrouped hwidth
    rw [ho, Outcome.within] at heq
    split at heq <;> cases heq
  | read t rest =>
    rw [ho] at hrun
    rcases hrun with ⟨rfl, haccepts⟩ | ⟨hrest, hfaulty⟩
    · have hp : 1 ≤ Precedence.term.level := Nat.le_refl 1
      have hreads := Reader.expression_sound (bounds maxDepth) _ hp (Nat.zero_le _) ho
      have hdepth := hreads.depth_le
      rw [Nat.zero_add] at hdepth
      refine Or.inl ⟨t, ?_, hreads.grouped, hreads.width_le, hdepth, haccepts⟩
      rw [hreads.spelled, List.append_nil]
    · refine Or.inr ⟨hfaulty, fun u hspelled hgrouped hwidth ↦ ?_⟩
      have heq := hread u hspelled hgrouped hwidth
      rw [ho, Outcome.within] at heq
      split at heq
      · cases heq
        exact absurd rfl hrest
      · cases heq

end Parser

end CurveCalc
