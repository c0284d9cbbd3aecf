import CurveCalc.Proofs.Formula.Progress

/-!
How many expressions can be inside one another. A reader that is given a larger allowance reads the
same, as long as the smaller one is not used up (`Parser.Extends`), and the one that is given never
is. So the allowance is no part of what a text is read as: it only says that expressions inside one
another are never more than that, which depends on the limit of nesting alone.
-/

set_option autoImplicit false
set_option relaxedAutoImplicit false

namespace CurveCalc

namespace Parser

/-- A fault that has been noted stays. -/
theorem stable_mem_faults (f : Fault) : Stable fun s ↦ f ∈ s.faults where
  emit i _ hs := (live_faults (f ∈ ·)).emit i hs
  fault _ _ hs := List.mem_cons_of_mem _ hs
  report p s hs := by rwa [faults_report]
  advance hs := (live_faults (f ∈ ·)).advance hs
  stopNesting {s} hs := by
    by_cases hcut : s.cutOff = true
    · unfold stopNesting
      rw [if_pos hcut]
      exact List.mem_cons_of_mem _ hs
    · exact (live_faults (f ∈ ·)).stopNesting (Bool.eq_false_iff.mpr hcut) hs
  names _ _ hs := hs
  depth _ _ hs := hs

/-- More expressions inside one another were to be read than the allowance covers. -/
def Spent (s : Parser) : Prop := Fault.allowanceSpent ∈ s.faults

theorem stable_spent : Stable Spent := stable_mem_faults .allowanceSpent

/-- Wherever the one reader does not use up its allowance, the other one reads the same. -/
def Extends (sub sub' : Precedence → Parser → Parser) : Prop :=
  ∀ {p : Precedence} {s : Parser}, ¬ (sub p s).Spent → sub' p s = sub p s

section

variable {sub sub' : Precedence → Parser → Parser} {s : Parser}

theorem Extends.nested (h : Extends sub sub') {p : Precedence} (hs : ¬ (s.nested sub p).Spent) :
    s.nested sub' p = s.nested sub p := by
  unfold Parser.nested at hs ⊢
  by_cases hdepth : s.maxDepth ≤ s.depth
  · rw [if_pos hdepth, if_pos hdepth]
  · rw [if_neg hdepth] at hs
    rw [if_neg hdepth, if_neg hdepth, h hs]

theorem Extends.grouping (h : Extends sub sub') (hs : ¬ (s.grouping sub).Spent) :
    s.grouping sub' = s.grouping sub := by
  unfold Parser.grouping at hs ⊢
  rw [h.nested (mt (stable_spent.consume _ _) hs)]

theorem Extends.unary (h : Extends sub sub') (hs : ¬ (s.unary sub).Spent) :
    s.unary sub' = s.unary sub := by
  have hnested : ¬ (s.nested sub .unary).Spent := by
    unfold Parser.unary at hs
    dsimp only at hs
    split at hs
    · exact hs
    · exact hs
  unfold Parser.unary
  rw [h.nested hnested]

theorem Extends.binary (h : Extends sub sub') (hs : ¬ (s.binary sub).Spent) :
    s.binary sub' = s.binary sub := by
  unfold Parser.binary at hs ⊢
  dsimp only
  rw [h (mt (stable_spent.binaryEnd _) hs)]

theorem Extends.arguments (h : Extends sub sub') (hkeeps : ∀ p, Keeps (sub p)) (steps count : Nat)
    (hs : ¬ (arguments sub steps count s).2.Spent) :
    Parser.arguments sub' steps count s = Parser.arguments sub steps count s := by
  induction steps generalizing count s with
  | zero => rfl
  | succ steps ih =>
    have hmore : ∀ {t : Parser}, t.Spent → (Parser.arguments sub steps (count + 1) t).2.Spent :=
      stable_spent.arguments (fun p _ ht ↦ hkeeps p stable_spent ht) steps (count + 1)
    rw [arguments_succ] at hs
    rw [arguments_succ, arguments_succ,
      h.nested (mt (stable_spent.afterArgument steps count hmore) hs)]
    unfold afterArgument at hs ⊢
    dsimp only at hs ⊢
    generalize (if count = maxArguments then (s.nested sub .term).report .tooManyArguments
      else s.nested sub .term) = t at hs ⊢
    by_cases hcomma : t.current.kind = .comma
    · rw [if_pos hcomma] at hs
      rw [if_pos hcomma, if_pos hcomma, ih (count + 1) hs]
    · rw [if_neg hcomma, if_neg hcomma]

theorem Extends.argumentList (h : Extends sub sub') (hkeeps : ∀ p, Keeps (sub p))
    (hs : ¬ (s.argumentList sub).2.Spent) : s.argumentList sub' = s.argumentList sub := by
  unfold Parser.argumentList at hs ⊢
  by_cases hempty : s.current.kind = .rightParen
  · rw [if_pos hempty, if_pos hempty]
  · rw [if_neg hempty] at hs
    rw [if_neg hempty, if_neg hempty, h.arguments hkeeps _ 0 (mt (stable_spent.consume _ _) hs)]

theorem Extends.functionCall (h : Extends sub sub') (hkeeps : ∀ p, Keeps (sub p))
    (hs : ¬ (s.functionCall sub).Spent) : s.functionCall sub' = s.functionCall sub := by
  unfold Parser.functionCall at hs ⊢
  cases hvalue : s.previous.value with
  | function f =>
    rw [hvalue] at hs
    dsimp only at hs ⊢
    rw [h.argumentList hkeeps (mt (stable_spent.emit _) hs)]
  | _ => rfl

theorem Extends.act (h : Extends sub sub') (hkeeps : ∀ p, Keeps (sub p)) (a : Action)
    (hs : ¬ (s.act sub a).Spent) : s.act sub' a = s.act sub a := by
  cases a with
  | grouping => exact h.grouping hs
  | unary => exact h.unary hs
  | binary => exact h.binary hs
  | functionCall => exact h.functionCall hkeeps hs
  | _ => rfl

theorem Extends.operators (h : Extends sub sub') (hkeeps : ∀ p, Keeps (sub p)) (p : Precedence)
    (steps : Nat) (hs : ¬ (operators sub p steps s).Spent) :
    Parser.operators sub' p steps s = Parser.operators sub p steps s := by
  induction steps generalizing s with
  | zero => rfl
  | succ steps ih =>
    unfold Parser.operators at hs ⊢
    by_cases hbinds : p.level ≤ s.current.kind.rule.precedence.level
    · rw [if_pos hbinds] at hs
      have hfollow : ¬ (s.advance.follow sub).Spent :=
        mt (stable_spent.operators (fun q _ ht ↦ hkeeps q stable_spent ht) p steps) hs
      rw [if_pos hbinds, if_pos hbinds, ← ih hs]
      exact congrArg _ (h.act hkeeps _ hfollow)
    · rw [if_neg hbinds, if_neg hbinds]

end

/-- A larger allowance changes nothing where a smaller one is not used up. -/
theorem extends_expression {fuel fuel' : Nat} (hfuel : fuel ≤ fuel') :
    Extends (expression fuel) (expression fuel') := by
  induction fuel generalizing fuel' with
  | zero => exact fun hs ↦ absurd List.mem_cons_self hs
  | succ fuel ih =>
    obtain ⟨more, rfl⟩ := Nat.exists_eq_add_of_le' hfuel
    intro p s hs
    have hkeeps : ∀ q, Keeps (expression fuel q) := fun q _ hJ _ h ↦ hJ.expression fuel q h
    have hextends : Extends (expression fuel) (expression (more + fuel)) :=
      ih (Nat.le_add_left fuel more)
    have hact : ¬ (s.advance.act (expression fuel) s.advance.previous.kind.rule.opening).Spent :=
      mt (stable_spent.operators (fun q _ ht ↦ hkeeps q stable_spent ht) p _) hs
    change (let t := s.advance.act (expression (more + fuel)) s.advance.previous.kind.rule.opening
      operators (expression (more + fuel)) p (t.rest.length + 1) t) = _
    rw [hextends.act hkeeps _ hact]
    exact hextends.operators hkeeps p _ hs

theorem not_spent_of_run {maxDepth : Int} {ts : List Token} {finish : Token}
    (h : ¬ (run maxDepth ts finish).Spent) :
    ¬ (expression (allowance maxDepth) .term (start maxDepth ts finish).advance).Spent := by
  refine mt (fun hs ↦ ?_) h
  unfold run
  dsimp only
  split
  · exact hs
  · exact stable_spent.report _ hs

end Parser

/-- Reading a text with an allowance of one's own. -/
def parseWith (fuel : Nat) (maxDepth : Int) (source : String) : Parser :=
  let text := Text.withoutBlanks source
  let s := Parser.expression fuel .term
    (Parser.start maxDepth (scan text) (scanFinish text)).advance
  if s.current.kind = .finish then s else s.report .expectedEnd

/-- Reading comes to an end, whatever the text and however long, with never more expressions inside
one another than the limit of nesting makes of it. Each of them takes one unit of an allowance of
that size. Neither this allowance nor the steps of a loop are ever used up, which would be noted as
a fault, and a fault that has been noted stays; and with a larger allowance the same is read. -/
theorem parse_allowance (maxDepth : Int) (source : String) :
    (Parser.allowance maxDepth : Int) = 4 * (max maxDepth 0 + 1) ∧
    Fault.allowanceSpent ∉ (parse maxDepth source).faults ∧
    Fault.tokensSpent ∉ (parse maxDepth source).faults ∧
    (∀ fuel, Parser.allowance maxDepth ≤ fuel →
      parseWith fuel maxDepth source = parse maxDepth source) ∧
    ∀ (f : Fault) (fuel : Nat) (p : Precedence) (s : Parser), f ∈ s.faults →
      f ∈ (Parser.expression fuel p s).faults := by
  have hfaults := faults_parse maxDepth source
  have hspent : ¬ (parse maxDepth source).Spent := by
    unfold Parser.Spent
    rw [hfaults]
    exact List.not_mem_nil
  refine ⟨?_, hspent, ?_, ?_, ?_⟩
  · unfold Parser.allowance
    omega
  · rw [hfaults]
    exact List.not_mem_nil
  · intro fuel hfuel
    have hsame := Parser.extends_expression hfuel (Parser.not_spent_of_run hspent)
    exact congrArg (fun s : Parser ↦ if s.current.kind = .finish then s else s.report .expectedEnd)
      hsame
  · intro f fuel p s hs
    exact (Parser.stable_mem_faults f).expression fuel p hs

end CurveCalc
