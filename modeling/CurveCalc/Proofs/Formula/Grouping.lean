import CurveCalc.Proofs.Formula.Phrase
import CurveCalc.Proofs.Formula.ReadBack

/-!
The tree of a phrase. Symbols are taken in from the left: an operator takes as its left operand that
part of the tree so far whose own operators and signs bind no less tightly (`Formula.extend`). The
tree is well grouped and written with the symbols of the phrase, so it is the only one; it nests as
deep as the deepest operand of the phrase and its calls have as many arguments.
-/

set_option autoImplicit false
set_option relaxedAutoImplicit false

namespace CurveCalc

variable {κ ν : Type}

namespace Formula

instance decidableStops (k : Nat) : (t : Formula κ ν) → Decidable (t.Stops k)
  | number _ => isTrue trivial
  | identifier _ => isTrue trivial
  | group _ => isTrue trivial
  | signed _ e =>
    haveI := decidableStops k e
    inferInstanceAs (Decidable (_ ∧ _))
  | factorial _ => isTrue trivial
  | binary _ _ r =>
    haveI := decidableStops k r
    inferInstanceAs (Decidable (_ ∧ _))
  | call _ _ => isTrue trivial

/-- Puts `f` around that part of the formula that is an operand of an operator of strength `k`
behind it. -/
def extend (k : Nat) (f : Formula κ ν → Formula κ ν) : Formula κ ν → Formula κ ν
  | signed sign e =>
    if (signed sign e).Stops k then f (signed sign e) else signed sign (extend k f e)
  | binary op l r =>
    if (binary op l r).Stops k then f (binary op l r) else binary op l (extend k f r)
  | t => f t

/-- How many signs are in front of the last operand of the formula, those in front of its last
operands counted as well. -/
def openSigns : Formula κ ν → Nat
  | signed _ e => openSigns e + 1
  | binary _ _ r => openSigns r
  | _ => 0

/-- The formula with signs in front. -/
def withSigns (signs : List Sign) (t : Formula κ ν) : Formula κ ν := signs.foldr signed t

theorem extend_of_stops {k : Nat} {t : Formula κ ν} (h : t.Stops k)
    (f : Formula κ ν → Formula κ ν) : t.extend k f = f t := by
  cases t with
  | signed sign e => exact if_pos h
  | binary op l r => exact if_pos h
  | _ => rfl

theorem extend_signed {k : Nat} {sign : Sign} {e : Formula κ ν} (h : ¬ (signed sign e).Stops k)
    (f : Formula κ ν → Formula κ ν) : (signed sign e).extend k f = signed sign (e.extend k f) :=
  if_neg h

theorem extend_binary {k : Nat} {op : BinaryOperator} {l r : Formula κ ν}
    (h : ¬ (binary op l r).Stops k) (f : Formula κ ν → Formula κ ν) :
    (binary op l r).extend k f = binary op l (r.extend k f) := if_neg h

/-- Only signs and right operands take in what is behind them. -/
theorem induction_stops {k : Nat} {motive : Formula κ ν → Prop} (stops : ∀ t, t.Stops k → motive t)
    (signed : ∀ sign e, ¬ (Formula.signed sign e).Stops k → motive e → motive (.signed sign e))
    (binary : ∀ op l r, ¬ (Formula.binary op l r).Stops k → motive r → motive (.binary op l r))
    (t : Formula κ ν) : motive t := by
  by_cases h : t.Stops k
  · exact stops t h
  induction t with
  | signed sign e ih =>
    refine signed sign e h ?_
    by_cases he : e.Stops k
    · exact stops e he
    · exact ih he
  | binary op l r ihl ihr =>
    refine binary op l r h ?_
    by_cases hr : r.Stops k
    · exact stops r hr
    · exact ihr hr
  | _ => exact absurd trivial h

section Extend

variable {k : Nat} {f : Formula κ ν → Formula κ ν}

theorem symbols_extend {zs : List (Symbol κ ν)} (hf : ∀ t, (f t).symbols = t.symbols ++ zs)
    (t : Formula κ ν) : (t.extend k f).symbols = t.symbols ++ zs := by
  induction t using induction_stops (k := k) with
  | stops t h => rw [extend_of_stops h, hf]
  | signed sign e h ih => rw [extend_signed h, symbols, symbols, ih, List.cons_append]
  | binary op l r h ih =>
    rw [extend_binary h, symbols, symbols, ih, List.append_assoc, List.cons_append]

theorem width_extend {w : Nat} (hf : ∀ t, (f t).width = max t.width w) (t : Formula κ ν) :
    (t.extend k f).width = max t.width w := by
  induction t using induction_stops (k := k) with
  | stops t h => rw [extend_of_stops h, hf]
  | signed sign e h ih => rw [extend_signed h, width, width, ih]
  | binary op l r h ih => rw [extend_binary h, width, width, ih, Nat.max_assoc]

/-- What is put around a part of the formula leaves the way the whole of it binds, unless it is put
around the whole. -/
theorem extend_of_not_stops {t : Formula κ ν} (h : ¬ t.Stops k) (f : Formula κ ν → Formula κ ν) :
    (t.extend k f).precedence = t.precedence ∧ (t.IsSigned → (t.extend k f).IsSigned) := by
  cases t with
  | signed sign e =>
    rw [extend_signed h]
    exact ⟨rfl, id⟩
  | binary op l r =>
    rw [extend_binary h]
    exact ⟨rfl, id⟩
  | _ => exact absurd trivial h

theorem wellGrouped_extend (hf : ∀ t, WellGrouped t → t.Stops k → (f t).WellGrouped)
    (hbinds : ∀ t, (f t).precedence.level = k) {t : Formula κ ν} (ht : t.WellGrouped) :
    (t.extend k f).WellGrouped := by
  by_cases hstops : t.Stops k
  · rw [extend_of_stops hstops]
    exact hf t ht hstops
  induction ht with
  | signed sign he hunary ih =>
    rename_i e
    rw [extend_signed hstops]
    by_cases hinner : e.Stops k
    · have hk : Precedence.unary.level ≤ k := Nat.not_lt.mp fun hlt ↦ hstops ⟨hlt, hinner⟩
      rw [extend_of_stops hinner]
      exact .signed sign (hf e he hinner) (Nat.le_trans hk (Nat.le_of_eq (hbinds e).symm))
    · refine .signed sign (ih hinner) ?_
      rw [(extend_of_not_stops hinner f).1]
      exact hunary
  | binary op hl hr hleft hends hright ihl ihr =>
    rename_i l r
    rw [extend_binary hstops]
    by_cases hinner : r.Stops k
    · have hk : op.precedence.level < k := Nat.not_le.mp fun hle ↦ hstops ⟨hle, hinner⟩
      rw [extend_of_stops hinner]
      refine .binary op hl (hf r hr hinner) hleft hends (Or.inl ?_)
      rwa [hbinds r]
    · obtain ⟨hprecedence, hsigned⟩ := extend_of_not_stops hinner f
      refine .binary op hl (ihr hinner) hleft hends (hright.imp ?_ hsigned)
      rw [hprecedence]
      exact id
  | _ => exact absurd trivial hstops

/-- Behind a weak operator nothing is taken in. -/
theorem WellGrouped.extend_eq {t : Formula κ ν} (ht : t.WellGrouped)
    (hk : k ≤ Precedence.term.level) (f : Formula κ ν → Formula κ ν) : t.extend k f = f t :=
  extend_of_stops (ht.stops (Nat.le_trans hk t.term_le_precedence) fun _ ↦
    Nat.lt_of_le_of_lt hk (by decide)) f

theorem openSigns_eq_zero {t : Formula κ ν} (hk : Precedence.unary.level ≤ k) (h : t.Stops k) :
    t.openSigns = 0 := by
  induction t with
  | signed sign e ih => exact absurd h.1 (Nat.not_lt.mpr hk)
  | binary op l r ihl ihr => exact ihr h.2
  | _ => rfl

theorem openSigns_le_depth (t : Formula κ ν) : t.openSigns ≤ t.depth := by
  induction t with
  | signed sign e ih => exact Nat.succ_le_succ ih
  | binary op l r ihl ihr => exact Nat.le_trans ihr (Nat.le_max_right _ _)
  | _ => exact Nat.zero_le _

/-- What is put behind the formula nests below all of its open signs, if they take it in. -/
theorem depth_extend {d : Nat} (hk : Precedence.unary.level ≤ k)
    (hf : ∀ t, (f t).depth = max t.depth d) (t : Formula κ ν) :
    (t.extend k f).depth = max t.depth (t.openSigns + d) := by
  induction t using induction_stops (k := k) with
  | stops t h => rw [extend_of_stops h, hf, openSigns_eq_zero hk h, Nat.zero_add]
  | signed sign e h ih =>
    rw [extend_signed h, depth, depth, openSigns, ih]
    omega
  | binary op l r h ih =>
    rw [extend_binary h, depth, depth, openSigns, ih, Nat.max_assoc]

theorem openSigns_extend {m : Nat} (hk : Precedence.unary.level ≤ k)
    (hf : ∀ t, (f t).openSigns = m) (t : Formula κ ν) :
    (t.extend k f).openSigns = t.openSigns + m := by
  induction t using induction_stops (k := k) with
  | stops t h => rw [extend_of_stops h, hf, openSigns_eq_zero hk h, Nat.zero_add]
  | signed sign e h ih =>
    rw [extend_signed h, openSigns, openSigns, ih]
    omega
  | binary op l r h ih => rw [extend_binary h, openSigns, openSigns, ih]

end Extend

section Signs

variable {t : Formula κ ν}

theorem symbols_withSigns (signs : List Sign) :
    (withSigns signs t).symbols = signSymbols signs ++ t.symbols := by
  induction signs with
  | nil => rfl
  | cons sign signs ih =>
    change (signed sign (withSigns signs t)).symbols = _
    rw [symbols, ih]
    rfl

theorem withSigns_cases (signs : List Sign) :
    withSigns signs t = t ∨ (withSigns signs t).IsSigned := by
  cases signs with
  | nil => exact Or.inl rfl
  | cons sign signs => exact Or.inr trivial

theorem wellGrouped_withSigns (ht : t.WellGrouped) (hprimary : t.precedence = .primary)
    (signs : List Sign) : (withSigns signs t).WellGrouped := by
  induction signs with
  | nil => exact ht
  | cons sign signs ih =>
    refine .signed sign ih ?_
    rcases withSigns_cases (t := t) signs with h | h
    · change _ ≤ (withSigns signs t).precedence.level
      rw [h, hprimary]
      decide
    · exact Nat.le_of_eq (congrArg Precedence.level h.precedence.symm)

theorem depth_withSigns (signs : List Sign) :
    (withSigns signs t).depth = signs.length + t.depth := by
  induction signs with
  | nil => exact (Nat.zero_add _).symm
  | cons sign signs ih =>
    change (withSigns signs t).depth + 1 = _
    rw [ih, List.length_cons]
    omega

theorem width_withSigns (signs : List Sign) : (withSigns signs t).width = t.width := by
  induction signs with
  | nil => rfl
  | cons sign signs ih => exact ih

theorem openSigns_withSigns (hprimary : t.openSigns = 0) (signs : List Sign) :
    (withSigns signs t).openSigns = signs.length := by
  induction signs with
  | nil => exact hprimary
  | cons sign signs ih => exact congrArg (· + 1) ih

end Signs

end Formula

mutual

/-- The tree that the binding strengths make of the phrase. -/
def Phrase.formula : Phrase κ ν → Formula κ ν
  | .first signs a => a.formula.withSigns signs
  | .binary e op signs a =>
    e.formula.extend op.precedence.level fun t ↦ .binary op t (a.formula.withSigns signs)
  | .bang e => e.formula.extend Precedence.factorial.level .factorial

def Primary.formula : Primary κ ν → Formula κ ν
  | .number x => .number x
  | .identifier v => .identifier v
  | .group e => .group e.formula
  | .call f es => .call f (Phrase.formulaAll es)

def Phrase.formulaAll : List (Phrase κ ν) → List (Formula κ ν)
  | [] => []
  | e :: es => e.formula :: Phrase.formulaAll es

end

theorem Primary.precedence_formula (a : Primary κ ν) : a.formula.precedence = .primary := by
  cases a <;> rfl

theorem Primary.openSigns_formula (a : Primary κ ν) : a.formula.openSigns = 0 := by
  cases a <;> rfl

theorem Phrase.formulaAll_eq (es : List (Phrase κ ν)) : formulaAll es = es.map formula := by
  induction es with
  | nil => rfl
  | cons e es ih => rw [formulaAll, ih, List.map_cons]

mutual

/-- The tree is written with the symbols of the phrase. -/
theorem Phrase.symbols_formula : ∀ e : Phrase κ ν, e.formula.symbols = e.symbols
  | .first signs a => by
    rw [Phrase.formula, Formula.symbols_withSigns, a.symbols_formula, Phrase.symbols]
  | .binary e op signs a => by
    have hbehind : ∀ t : Formula κ ν, (Formula.binary op t (a.formula.withSigns signs)).symbols =
        t.symbols ++ .operator op :: (a.formula.withSigns signs).symbols := fun _ ↦ rfl
    rw [Phrase.formula, Formula.symbols_extend hbehind, e.symbols_formula,
      Formula.symbols_withSigns, a.symbols_formula, Phrase.symbols]
  | .bang e => by
    have hbehind : ∀ t : Formula κ ν, (Formula.factorial t).symbols = t.symbols ++ [.bang] :=
      fun _ ↦ rfl
    rw [Phrase.formula, Formula.symbols_extend hbehind, e.symbols_formula, Phrase.symbols]

theorem Primary.symbols_formula : ∀ a : Primary κ ν, a.formula.symbols = a.symbols
  | .number x => rfl
  | .identifier v => rfl
  | .group e => by
    rw [Primary.formula, Formula.symbols, e.symbols_formula, Primary.symbols]
  | .call f es => by
    rw [Primary.formula, Formula.symbols, Phrase.symbolsAll_formulaAll es, Primary.symbols]

theorem Phrase.symbolsAll_formulaAll : ∀ es : List (Phrase κ ν),
    Formula.symbolsAll (Phrase.formulaAll es) = Phrase.symbolsAll es
  | [] => rfl
  | e :: es => by
    rw [Phrase.formulaAll, Formula.symbolsAll, Phrase.symbolsAll, e.symbols_formula,
      Phrase.symbolsAll_formulaAll es]
    cases es <;> rfl

end

/-- An operator with its right operand, around what it takes as its left one. -/
theorem Formula.WellGrouped.binary_of_stops {t u : Formula κ ν} {op : BinaryOperator}
    (ht : t.WellGrouped) (hstops : t.Stops op.precedence.level) (hu : u.WellGrouped)
    (hright : u.precedence = .primary ∨ u.IsSigned) : (Formula.binary op t u).WellGrouped := by
  have hfactorial : op.precedence.level ≤ Precedence.factorial.level := by cases op <;> decide
  refine .binary op ht hu (hstops.le hfactorial) ?_ (hright.imp_left fun h ↦ ?_)
  · exact fun hends ↦ op.eq_term_of_lt (hstops.lt_of_endsSigned hends)
  · rw [h]
    exact Nat.lt_of_le_of_lt hfactorial (by decide)

mutual

/-- The tree is grouped as the binding strengths want it. -/
theorem Phrase.wellGrouped_formula : ∀ e : Phrase κ ν, e.formula.WellGrouped
  | .first signs a =>
    Formula.wellGrouped_withSigns a.wellGrouped_formula a.precedence_formula signs
  | .binary e op signs a => by
    have hright : (a.formula.withSigns signs).precedence = .primary ∨
        (a.formula.withSigns signs).IsSigned :=
      (Formula.withSigns_cases signs).imp_left fun h ↦ by rw [h, a.precedence_formula]
    exact Formula.wellGrouped_extend
      (fun t ht hstops ↦ ht.binary_of_stops hstops
        (Formula.wellGrouped_withSigns a.wellGrouped_formula a.precedence_formula signs) hright)
      (fun _ ↦ rfl) e.wellGrouped_formula
  | .bang e =>
    Formula.wellGrouped_extend (fun _ ht hstops ↦ .factorial ht (hstops.le (Nat.le_refl _)))
      (fun _ ↦ rfl) e.wellGrouped_formula

theorem Primary.wellGrouped_formula : ∀ a : Primary κ ν, a.formula.WellGrouped
  | .number x => .number x
  | .identifier v => .identifier v
  | .group e => .group e.wellGrouped_formula
  | .call f es => .call f (Phrase.wellGrouped_formulaAll es)

theorem Phrase.wellGrouped_formulaAll : ∀ es : List (Phrase κ ν),
    ∀ t ∈ Phrase.formulaAll es, t.WellGrouped
  | [] => fun _ ht ↦ absurd ht List.not_mem_nil
  | e :: es => fun t ht ↦ by
    rcases List.mem_cons.mp ht with rfl | ht
    · exact e.wellGrouped_formula
    · exact Phrase.wellGrouped_formulaAll es t ht

end

/-- The tree of a phrase is the only well grouped one that is written as the phrase is. -/
theorem Phrase.formula_eq {e : Phrase κ ν} {t : Formula κ ν} (ht : t.WellGrouped)
    (h : e.symbols = t.symbols) : e.formula = t :=
  e.wellGrouped_formula.eq_of_symbols ht (e.symbols_formula.trans h)

theorem Phrase.openSigns_formula : ∀ e : Phrase κ ν, e.formula.openSigns = e.openSigns
  | .first signs a => Formula.openSigns_withSigns a.openSigns_formula signs
  | .binary e op signs a => by
    have hsigns : ∀ t : Formula κ ν,
        (Formula.binary op t (a.formula.withSigns signs)).openSigns = signs.length :=
      fun _ ↦ Formula.openSigns_withSigns a.openSigns_formula signs
    rw [formula, openSigns]
    by_cases hop : op.precedence = .term
    · rw [if_pos hop, hop, e.wellGrouped_formula.extend_eq (Nat.le_refl _), Nat.zero_add]
      exact hsigns _
    · have hk : Precedence.unary.level ≤ op.precedence.level :=
        Nat.not_lt.mp (mt op.eq_term_of_lt hop)
      rw [if_neg hop, Formula.openSigns_extend hk hsigns, e.openSigns_formula]
  | .bang e => by
    have hclosed : ∀ t : Formula κ ν, (Formula.factorial t).openSigns = 0 := fun _ ↦ rfl
    rw [formula, Formula.openSigns_extend (by decide) hclosed, e.openSigns_formula, openSigns,
      Nat.add_zero]

theorem Phrase.depth_binary (e : Phrase κ ν) (op : BinaryOperator) (signs : List Sign)
    (a : Primary κ ν) : (binary e op signs a).formula.depth =
      max e.formula.depth (e.openBehind op + (signs.length + a.formula.depth)) := by
  have hdepth : ∀ t : Formula κ ν, (Formula.binary op t (a.formula.withSigns signs)).depth =
      max t.depth (signs.length + a.formula.depth) := fun t ↦ by
    rw [Formula.depth, Formula.depth_withSigns]
  rw [formula, openBehind]
  by_cases hop : op.precedence = .term
  · rw [if_pos hop, hop, e.wellGrouped_formula.extend_eq (Nat.le_refl _), hdepth, Nat.zero_add]
  · have hk : Precedence.unary.level ≤ op.precedence.level :=
      Nat.not_lt.mp (mt op.eq_term_of_lt hop)
    rw [if_neg hop, Formula.depth_extend hk hdepth, e.openSigns_formula]

theorem Phrase.depth_bang (e : Phrase κ ν) : (bang e).formula.depth = e.formula.depth := by
  have hopen := e.formula.openSigns_le_depth
  have hdepth : ∀ t : Formula κ ν, (Formula.factorial t).depth = max t.depth 0 :=
    fun t ↦ (Nat.max_zero t.depth).symm
  rw [formula, Formula.depth_extend (by decide) hdepth]
  omega

mutual

/-- The tree nests as deep as the deepest operand of the phrase. -/
theorem Phrase.nestings_le_iff (limit : Nat) : ∀ (e : Phrase κ ν) (depth : Nat),
    (∀ n ∈ e.nestings depth, n ≤ limit) ↔ depth + e.formula.depth ≤ limit
  | .first signs a, depth => by
    rw [Phrase.nestings, a.nestings_le_iff limit, Phrase.formula, Formula.depth_withSigns,
      Nat.add_assoc]
  | .binary e op signs a, depth => by
    rw [Phrase.nestings, List.forall_mem_append, e.nestings_le_iff limit,
      a.nestings_le_iff limit, Phrase.depth_binary]
    omega
  | .bang e, depth => by rw [Phrase.nestings, e.nestings_le_iff limit, Phrase.depth_bang]

theorem Primary.nestings_le_iff (limit : Nat) : ∀ (a : Primary κ ν) (depth : Nat),
    (∀ n ∈ a.nestings depth, n ≤ limit) ↔ depth + a.formula.depth ≤ limit
  | .number x, depth => List.forall_mem_singleton
  | .identifier v, depth => List.forall_mem_singleton
  | .group e, depth => by
    rw [Primary.nestings, List.forall_mem_cons, e.nestings_le_iff limit, Primary.formula,
      Formula.depth]
    omega
  | .call f es, depth => by
    rw [Primary.nestings, List.forall_mem_cons, Phrase.nestingsAll_le_iff limit es,
      Primary.formula, Formula.depth]

theorem Phrase.nestingsAll_le_iff (limit : Nat) : ∀ (es : List (Phrase κ ν)) (depth : Nat),
    (depth ≤ limit ∧ ∀ n ∈ Phrase.nestingsAll (depth + 1) es, n ≤ limit) ↔
      depth + Formula.depthAll (Phrase.formulaAll es) ≤ limit
  | [], depth => ⟨fun h ↦ h.1, fun h ↦ ⟨h, fun _ hn ↦ absurd hn List.not_mem_nil⟩⟩
  | e :: es, depth => by
    have hes := Phrase.nestingsAll_le_iff limit es depth
    rw [Phrase.nestingsAll, List.forall_mem_append, e.nestings_le_iff limit, Phrase.formulaAll,
      Formula.depthAll]
    constructor
    · rintro ⟨hdepth, he, hrest⟩
      have hall := hes.mp ⟨hdepth, hrest⟩
      omega
    · intro h
      obtain ⟨hdepth, hrest⟩ := hes.mpr (by omega)
      exact ⟨hdepth, by omega, hrest⟩

end

mutual

/-- The calls of the tree are those of the phrase. -/
theorem Phrase.argumentCounts_le_iff (limit : Nat) : ∀ e : Phrase κ ν,
    (∀ n ∈ e.argumentCounts, n ≤ limit) ↔ e.formula.width ≤ limit
  | .first signs a => by
    rw [Phrase.argumentCounts, a.argumentCounts_le_iff limit, Phrase.formula,
      Formula.width_withSigns]
  | .binary e op signs a => by
    have hwidth : ∀ t : Formula κ ν, (Formula.binary op t (a.formula.withSigns signs)).width =
        max t.width (a.formula.withSigns signs).width := fun _ ↦ rfl
    rw [Phrase.argumentCounts, List.forall_mem_append, e.argumentCounts_le_iff limit,
      a.argumentCounts_le_iff limit, Phrase.formula, Formula.width_extend hwidth,
      Formula.width_withSigns, Nat.max_le]
  | .bang e => by
    have hwidth : ∀ t : Formula κ ν, (Formula.factorial t).width = max t.width 0 :=
      fun t ↦ (Nat.max_zero t.width).symm
    rw [Phrase.argumentCounts, e.argumentCounts_le_iff limit, Phrase.formula,
      Formula.width_extend hwidth, Nat.max_zero]

theorem Primary.argumentCounts_le_iff (limit : Nat) : ∀ a : Primary κ ν,
    (∀ n ∈ a.argumentCounts, n ≤ limit) ↔ a.formula.width ≤ limit
  | .number x => ⟨fun _ ↦ Nat.zero_le _, fun _ _ hn ↦ absurd hn List.not_mem_nil⟩
  | .identifier v => ⟨fun _ ↦ Nat.zero_le _, fun _ _ hn ↦ absurd hn List.not_mem_nil⟩
  | .group e => by
    rw [Primary.argumentCounts, e.argumentCounts_le_iff limit, Primary.formula, Formula.width]
  | .call f es => by
    rw [Primary.argumentCounts, List.forall_mem_cons, Phrase.argumentCountsAll_le_iff limit es,
      Primary.formula, Formula.width, Nat.max_le, Phrase.formulaAll_eq, List.length_map]

theorem Phrase.argumentCountsAll_le_iff (limit : Nat) : ∀ es : List (Phrase κ ν),
    (∀ n ∈ Phrase.argumentCountsAll es, n ≤ limit) ↔
      Formula.widthAll (Phrase.formulaAll es) ≤ limit
  | [] => ⟨fun _ ↦ Nat.zero_le _, fun _ _ hn ↦ absurd hn List.not_mem_nil⟩
  | e :: es => by
    rw [Phrase.argumentCountsAll, List.forall_mem_append, e.argumentCounts_le_iff limit,
      Phrase.argumentCountsAll_le_iff limit es, Phrase.formulaAll, Formula.widthAll, Nat.max_le]

end

end CurveCalc
