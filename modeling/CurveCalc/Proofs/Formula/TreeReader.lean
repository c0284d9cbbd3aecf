import CurveCalc.Proofs.Formula.Tree

/-!
Reading a formula to its tree by precedence climbing, in the steps of the parser but with nothing
noted and nothing put out: symbols are read to a tree, nest too deep, or are no formula. What is
read is well grouped and spelled by the symbols in front of the rest (`Reader.expression_sound`).
-/

set_option autoImplicit false
set_option relaxedAutoImplicit false

namespace CurveCalc

namespace Reader

variable {κ ν : Type} {β γ : Type}

/-- What comes of reading symbols. -/
inductive Outcome (κ ν β : Type) where
  | read (x : β) (rest : List (Symbol κ ν))
  | tooDeep
  | malformed

namespace Outcome

def bind (o : Outcome κ ν β) (f : β → List (Symbol κ ν) → Outcome κ ν γ) : Outcome κ ν γ :=
  match o with
  | read x rest => f x rest
  | tooDeep => tooDeep
  | malformed => malformed

def map (f : β → γ) (o : Outcome κ ν β) : Outcome κ ν γ := o.bind fun x rest ↦ read (f x) rest

/-- The outcome, unless it is of something that nests too deep. -/
def within (limit depth : Nat) (o : Outcome κ ν β) : Outcome κ ν β :=
  if depth ≤ limit then o else tooDeep

theorem bind_eq_read {o : Outcome κ ν β} {f : β → List (Symbol κ ν) → Outcome κ ν γ} {y : γ}
    {rest : List (Symbol κ ν)} (h : o.bind f = read y rest) :
    ∃ x more, o = read x more ∧ f x more = read y rest := by
  cases o with
  | read x more => exact ⟨x, more, rfl, h⟩
  | tooDeep => cases h
  | malformed => cases h

end Outcome

open Outcome Formula

/-- How deep formulas may nest and how many arguments their calls may have. -/
structure Bounds where
  depth : Nat
  arguments : Nat

/-- A reader of expressions at some strength and depth of nesting. -/
abbrev Subreader (κ ν : Type) :=
  Precedence → Nat → List (Symbol κ ν) → Outcome κ ν (Formula κ ν)

variable (b : Bounds) (sub : Subreader κ ν)

def nested (p : Precedence) (depth : Nat) (xs : List (Symbol κ ν)) : Outcome κ ν (Formula κ ν) :=
  if b.depth ≤ depth then .tooDeep else sub p (depth + 1) xs

/-- Goes on behind an argument with `more`, if there is a comma. -/
def afterArgument (more : List (Symbol κ ν) → Outcome κ ν (List (Formula κ ν))) (count : Nat)
    (t : Formula κ ν) (rest : List (Symbol κ ν)) : Outcome κ ν (List (Formula κ ν)) :=
  if count = b.arguments then .malformed
  else
    match rest with
    | .comma :: rest => (more rest).map (t :: ·)
    | rest => .read [t] rest

/-- Reads arguments up to the last comma that separates two of them; `count` is how many have been
read before. -/
def arguments (depth : Nat) : Nat → Nat → List (Symbol κ ν) → Outcome κ ν (List (Formula κ ν))
  | 0, _, _ => .malformed
  | steps + 1, count, xs =>
    (nested b sub .term depth xs).bind (afterArgument b (arguments depth steps (count + 1)) count)

/-- Reads over a closing parenthesis. -/
def closed (t : Formula κ ν) : List (Symbol κ ν) → Outcome κ ν (Formula κ ν)
  | .rightParen :: rest => .read t rest
  | _ => .malformed

/-- Reads what may stand at the start of an expression. -/
def opening (depth : Nat) : List (Symbol κ ν) → Outcome κ ν (Formula κ ν)
  | .number x :: rest => .read (.number x) rest
  | .identifier v :: rest => .read (.identifier v) rest
  | .leftParen :: rest => (nested b sub .term depth rest).bind fun t ↦ closed (.group t)
  | .operator op :: rest =>
    match Sign.ofOperator? op with
    | some sign => (nested b sub .unary depth rest).map (.signed sign)
    | none => .malformed
  | .function f :: .leftParen :: .rightParen :: rest => .read (.call f []) rest
  | .function f :: .leftParen :: rest =>
    (arguments b sub depth (rest.tail.length + 2) 0 rest).bind fun ts ↦ closed (.call f ts)
  | _ => .malformed

/-- Reads operators for as long as they bind at least this tightly; `t` is what stands before them.
-/
def operators (p : Precedence) (depth : Nat) :
    Nat → Formula κ ν → List (Symbol κ ν) → Outcome κ ν (Formula κ ν)
  | _, t, [] => .read t []
  | 0, _, _ :: _ => .malformed
  | steps + 1, t, x :: xs =>
    if p.level ≤ x.precedence.level then
      match x with
      | .operator op =>
        (sub op.precedence.nextHigher depth xs).bind fun r ↦
          operators p depth steps (.binary op t r)
      | .bang => operators p depth steps (.factorial t) xs
      | _ => .malformed
    else .read t (x :: xs)

/-- Reads an expression whose operators bind at least as tightly as `p`. -/
def expression : Nat → Subreader κ ν
  | 0, _, _, _ => .malformed
  | fuel + 1, p, depth, xs =>
    (opening b (expression fuel) depth xs).bind fun t rest ↦
      operators (expression fuel) p depth (rest.tail.length + 1) t rest

end Reader

namespace Formula

variable {κ ν : Type}

/-- An operator of strength `k` behind the formula is not taken in by a part of it. -/
def Stops (k : Nat) : Formula κ ν → Prop
  | signed _ e => k < Precedence.unary.level ∧ Stops k e
  | binary op _ r => k ≤ op.precedence.level ∧ Stops k r
  | _ => True

theorem IsSigned.precedence {t : Formula κ ν} (h : t.IsSigned) : t.precedence = .unary := by
  cases t with
  | signed sign e => rfl
  | _ => exact h.elim

theorem Stops.le {k : Nat} {t : Formula κ ν} (h : t.Stops k)
    (hk : k ≤ Precedence.factorial.level) : k ≤ t.precedence.level := by
  have hprimary : Precedence.factorial.level ≤ Precedence.primary.level := by decide
  cases t with
  | signed sign e => exact Nat.le_of_lt h.1
  | factorial e => exact hk
  | binary op l r => exact h.1
  | _ => exact Nat.le_trans hk hprimary

theorem Stops.lt_of_endsSigned {k : Nat} {t : Formula κ ν} (h : t.Stops k) (hends : t.EndsSigned) :
    k < Precedence.unary.level := by
  induction t with
  | signed sign e => exact h.1
  | binary op l r ihl ihr => exact ihr h.2 hends
  | _ => exact hends.elim

/-- Behind a left operand its operator is not taken in by a part of it. -/
theorem WellGrouped.stops {t : Formula κ ν} (ht : t.WellGrouped) {k : Nat}
    (hk : k ≤ t.precedence.level) (hends : t.EndsSigned → k < Precedence.unary.level) :
    t.Stops k := by
  induction ht with
  | signed sign he hbinds ih =>
    have hlt := hends trivial
    exact ⟨hlt, ih (Nat.le_trans (Nat.le_of_lt hlt) hbinds) fun _ ↦ hlt⟩
  | binary op hl hr hleft hends' hright ihl ihr =>
    refine ⟨hk, ihr ?_ hends⟩
    rcases hright with hlt | hsigned
    · exact Nat.le_trans hk (Nat.le_of_lt hlt)
    · rename_i l r
      cases r with
      | signed sign e => exact Nat.le_of_lt (hends trivial)
      | _ => exact hsigned.elim
  | _ => trivial

end Formula

namespace Reader

open Outcome Formula CurveCalc.Symbol

variable {κ ν : Type} {b : Bounds} {sub : Subreader κ ν}

/-- The tree is one that these symbols begin with, and what is left over does not go on with a part
of it. -/
structure Begins (b : Bounds) (depth : Nat) (xs : List (Symbol κ ν)) (t : Formula κ ν)
    (rest : List (Symbol κ ν)) : Prop where
  spelled : xs = t.symbols ++ rest
  grouped : t.WellGrouped
  stops : t.Stops (strength rest)
  depth_le : depth + t.depth ≤ b.depth
  width_le : t.width ≤ b.arguments

/-- The tree is one that may be read at this strength, and what is left over does not go on with it.
-/
structure Reads (b : Bounds) (p : Precedence) (depth : Nat) (xs : List (Symbol κ ν))
    (t : Formula κ ν) (rest : List (Symbol κ ν)) : Prop extends Begins b depth xs t rest where
  binds : p.level ≤ t.precedence.level ∨ t.IsSigned
  below : strength rest < p.level

/-- Whatever the reader reads may be read. -/
def Sound (b : Bounds) (sub : Subreader κ ν) : Prop :=
  ∀ {p : Precedence} {depth : Nat} {xs : List (Symbol κ ν)} {t : Formula κ ν}
    {rest : List (Symbol κ ν)}, 1 ≤ p.level → depth ≤ b.depth → sub p depth xs = .read t rest →
      Reads b p depth xs t rest

theorem nested_sound (hsub : Sound b sub) {p : Precedence} (hp : 1 ≤ p.level) {depth : Nat}
    {xs rest : List (Symbol κ ν)} {t : Formula κ ν} (h : nested b sub p depth xs = .read t rest) :
    Reads b p (depth + 1) xs t rest := by
  unfold nested at h
  by_cases hdepth : b.depth ≤ depth
  · rw [if_pos hdepth] at h
    cases h
  · rw [if_neg hdepth] at h
    exact hsub hp (by omega) h

theorem closed_eq_read {t u : Formula κ ν} {xs rest : List (Symbol κ ν)}
    (h : closed t xs = .read u rest) : u = t ∧ xs = .rightParen :: rest := by
  unfold closed at h
  split at h
  · cases h
    exact ⟨rfl, rfl⟩
  · cases h

/-- The trees are arguments that these symbols begin with, where `count` others stand before them.
-/
structure BeginsAll (b : Bounds) (depth count : Nat) (xs : List (Symbol κ ν))
    (ts : List (Formula κ ν)) (rest : List (Symbol κ ν)) : Prop where
  ne_nil : ts ≠ []
  spelled : xs = symbolsAll ts ++ rest
  grouped : ∀ t ∈ ts, t.WellGrouped
  depth_le : depth + depthAll ts ≤ b.depth
  length_le : count ≤ b.arguments → count + ts.length ≤ b.arguments
  width_le : widthAll ts ≤ b.arguments

theorem Begins.beginsAll {depth count : Nat} {xs rest : List (Symbol κ ν)} {t : Formula κ ν}
    (ht : Begins b (depth + 1) xs t rest) (hcount : count ≠ b.arguments) :
    BeginsAll b depth count xs [t] rest := by
  have hdepth := ht.depth_le
  refine ⟨List.cons_ne_nil _ _, ?_, List.forall_mem_singleton.mpr ht.grouped, ?_, fun hle ↦ ?_,
    Nat.max_le.mpr ⟨ht.width_le, Nat.zero_le _⟩⟩
  · rw [ht.spelled, symbolsAll, List.isEmpty_nil, if_pos rfl, List.append_nil]
  · rw [depthAll, depthAll]
    omega
  · exact Nat.lt_of_le_of_ne hle hcount

theorem Begins.beginsAll_cons {depth count : Nat} {xs ys rest : List (Symbol κ ν)}
    {t : Formula κ ν} {ts : List (Formula κ ν)} (ht : Begins b (depth + 1) xs t (.comma :: ys))
    (hts : BeginsAll b depth (count + 1) ys ts rest) (hcount : count ≠ b.arguments) :
    BeginsAll b depth count xs (t :: ts) rest := by
  have hdepth := ht.depth_le
  have hdepths := hts.depth_le
  have hlength := hts.length_le
  have hempty : ts.isEmpty = false := by simpa using hts.ne_nil
  refine ⟨List.cons_ne_nil _ _, ?_, List.forall_mem_cons.mpr ⟨ht.grouped, hts.grouped⟩, ?_,
    fun hle ↦ ?_, Nat.max_le.mpr ⟨ht.width_le, hts.width_le⟩⟩
  · rw [ht.spelled, hts.spelled, symbolsAll, hempty, if_neg Bool.false_ne_true, List.append_assoc,
      List.cons_append]
  · rw [depthAll]
    omega
  · rw [List.length_cons]
    omega

theorem arguments_sound (hsub : Sound b sub) {depth steps count : Nat}
    {xs rest : List (Symbol κ ν)} {ts : List (Formula κ ν)}
    (h : arguments b sub depth steps count xs = .read ts rest) :
    BeginsAll b depth count xs ts rest := by
  induction steps generalizing count xs ts with
  | zero => cases h
  | succ steps ih =>
    obtain ⟨t, more, ht, h⟩ := bind_eq_read h
    have hreads := nested_sound hsub (by decide) ht
    unfold afterArgument at h
    by_cases hcount : count = b.arguments
    · rw [if_pos hcount] at h
      cases h
    rw [if_neg hcount] at h
    split at h
    · obtain ⟨us, more, hus, h⟩ := bind_eq_read h
      cases h
      exact hreads.toBegins.beginsAll_cons (ih hus) hcount
    · cases h
      exact hreads.toBegins.beginsAll hcount

/-- What stands at the start of an expression: a tree that binds as tightly as any operator, or one
with a sign in front. -/
theorem opening_sound (hsub : Sound b sub) {depth : Nat} (hdepth : depth ≤ b.depth)
    {xs rest : List (Symbol κ ν)} {t : Formula κ ν}
    (h : opening b sub depth xs = .read t rest) :
    Begins b depth xs t rest ∧ (t.precedence = .primary ∨ t.IsSigned) := by
  unfold opening at h
  split at h
  · cases h
    exact ⟨⟨rfl, .number _, trivial, hdepth, Nat.zero_le _⟩, Or.inl rfl⟩
  · cases h
    exact ⟨⟨rfl, .identifier _, trivial, hdepth, Nat.zero_le _⟩, Or.inl rfl⟩
  · obtain ⟨e, more, he, h⟩ := bind_eq_read h
    have hreads := nested_sound hsub (by decide) he
    obtain ⟨rfl, rfl⟩ := closed_eq_read h
    have hnest := hreads.depth_le
    refine ⟨⟨?_, .group hreads.grouped, trivial, ?_, hreads.width_le⟩, Or.inl rfl⟩
    · rw [hreads.spelled, symbols]
      simp
    · rw [Formula.depth]
      omega
  · split at h
    · rename_i op _ sign hsign
      obtain ⟨e, more, he, h⟩ := bind_eq_read h
      cases h
      have hreads := nested_sound hsub (by decide) he
      have hnest := hreads.depth_le
      refine ⟨⟨?_, .signed sign hreads.grouped ?_, ⟨hreads.below, hreads.stops⟩, ?_,
        hreads.width_le⟩, Or.inr trivial⟩
      · rw [hreads.spelled, symbols, Sign.operator_of_ofOperator? hsign]
        rfl
      · rcases hreads.binds with hbinds | hsigned
        · exact hbinds
        · exact Nat.le_of_eq (congrArg Precedence.level hsigned.precedence.symm)
      · rw [Formula.depth]
        omega
    · cases h
  · cases h
    exact ⟨⟨rfl, .call _ (by simp), trivial, hdepth, Nat.zero_le _⟩, Or.inl rfl⟩
  · obtain ⟨es, more, hes, h⟩ := bind_eq_read h
    obtain ⟨rfl, rfl⟩ := closed_eq_read h
    have hbegins := arguments_sound hsub hes
    refine ⟨⟨?_, .call _ hbegins.grouped, trivial, hbegins.depth_le, ?_⟩, Or.inl rfl⟩
    · rw [hbegins.spelled, symbols]
      simp
    · have hcount := hbegins.length_le (Nat.zero_le _)
      rw [Nat.zero_add] at hcount
      exact Nat.max_le.mpr ⟨hcount, hbegins.width_le⟩
  · cases h

/-- An operator behind a tree takes it as its left operand, and what is read next as its right one.
-/
theorem Begins.binary {depth : Nat} {xs ys rest : List (Symbol κ ν)} {t r : Formula κ ν}
    {op : BinaryOperator} (ht : Begins b depth xs t (.operator op :: ys))
    (hr : Reads b op.precedence.nextHigher depth ys r rest) :
    Begins b depth xs (.binary op t r) rest := by
  have hlevel := op.level_nextHigher
  have hbelow := hr.below
  have hleft := ht.depth_le
  have hright := hr.depth_le
  have hop : op.precedence.level ≤ Precedence.factorial.level := by cases op <;> decide
  refine ⟨?_, .binary op ht.grouped hr.grouped (ht.stops.le hop) ?_ ?_, ⟨by omega, hr.stops⟩, ?_,
    Nat.max_le.mpr ⟨ht.width_le, hr.width_le⟩⟩
  · rw [ht.spelled, hr.spelled, symbols, List.append_assoc, List.cons_append]
  · exact fun hends ↦ op.eq_term_of_lt (ht.stops.lt_of_endsSigned hends)
  · exact hr.binds.imp_left fun hbinds ↦ by omega
  · rw [Formula.depth]
    omega

theorem Begins.factorial {depth : Nat} {xs ys : List (Symbol κ ν)} {t : Formula κ ν}
    (ht : Begins b depth xs t (.bang :: ys)) : Begins b depth xs (.factorial t) ys := by
  refine ⟨?_, .factorial ht.grouped (ht.stops.le (Nat.le_refl _)), trivial, ht.depth_le,
    ht.width_le⟩
  rw [ht.spelled, symbols, List.append_assoc, List.singleton_append]

theorem operators_sound (hsub : Sound b sub) {p : Precedence} (hp : 1 ≤ p.level) {depth : Nat}
    (hdepth : depth ≤ b.depth) {steps : Nat} {t u : Formula κ ν} {xs ys rest : List (Symbol κ ν)}
    (ht : Begins b depth xs t ys) (hbinds : p.level ≤ t.precedence.level ∨ t.IsSigned)
    (h : operators sub p depth steps t ys = .read u rest) : Reads b p depth xs u rest := by
  induction steps generalizing t ys with
  | zero =>
    cases ys with
    | nil =>
      cases h
      exact ⟨ht, hbinds, hp⟩
    | cons x ys => cases h
  | succ steps ih =>
    cases ys with
    | nil =>
      cases h
      exact ⟨ht, hbinds, hp⟩
    | cons x ys =>
      unfold operators at h
      by_cases hx : p.level ≤ x.precedence.level
      · rw [if_pos hx] at h
        cases x with
        | operator op =>
          obtain ⟨r, more, hr, h⟩ := bind_eq_read h
          have hnext : 1 ≤ op.precedence.nextHigher.level := by
            rw [op.level_nextHigher]
            exact Nat.le_add_left _ _
          exact ih (ht.binary (hsub hnext hdepth hr)) (Or.inl hx) h
        | bang => exact ih ht.factorial (Or.inl hx) h
        | _ => cases h
      · rw [if_neg hx] at h
        cases h
        exact ⟨ht, hbinds, Nat.not_le.mp hx⟩

/-- Whatever is read is well grouped, within the bounds, and spelled by the symbols that are gone.
-/
theorem expression_sound (b : Bounds) (fuel : Nat) :
    Sound b (expression (κ := κ) (ν := ν) b fuel) := by
  induction fuel with
  | zero =>
    intro p depth xs t rest _ _ h
    cases h
  | succ fuel ih =>
    intro p depth xs t rest hp hdepth h
    obtain ⟨u, more, hu, h⟩ := bind_eq_read h
    obtain ⟨hbegins, hbinds⟩ := opening_sound ih hdepth hu
    refine operators_sound ih hp hdepth hbegins (hbinds.imp_left fun hprimary ↦ ?_) h
    rw [hprimary]
    exact p.level_le_primary

end Reader

end CurveCalc
