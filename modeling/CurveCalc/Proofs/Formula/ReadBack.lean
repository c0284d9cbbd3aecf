import CurveCalc.Proofs.Formula.TreeReader
import Mathlib.Data.List.MinMax

/-!
Every well grouped tree is read back from its symbols, or found to nest too deep
(`Reader.expression_read`). So no two of them are spelled alike
(`Formula.WellGrouped.eq_of_symbols`).
-/

set_option autoImplicit false
set_option relaxedAutoImplicit false

namespace CurveCalc

namespace Formula

variable {κ ν : Type}

/-- A formula does not begin like the end of an argument list. -/
theorem symbols_eq_cons (t : Formula κ ν) : ∃ x xs, t.symbols = x :: xs ∧ x ≠ .rightParen := by
  induction t with
  | number x => exact ⟨_, _, rfl, by simp⟩
  | identifier v => exact ⟨_, _, rfl, by simp⟩
  | group e ih => exact ⟨_, _, rfl, by simp⟩
  | signed sign e ih => exact ⟨_, _, rfl, by simp⟩
  | factorial e ih =>
    obtain ⟨x, xs, hsymbols, hx⟩ := ih
    exact ⟨x, xs ++ [.bang], by rw [symbols, hsymbols, List.cons_append], hx⟩
  | binary op l r ihl ihr =>
    obtain ⟨x, xs, hsymbols, hx⟩ := ihl
    exact ⟨x, xs ++ .operator op :: r.symbols, by rw [symbols, hsymbols, List.cons_append], hx⟩
  | call f es ih => exact ⟨_, _, rfl, by simp⟩

theorem length_le_symbolsAll (es : List (Formula κ ν)) : es.length ≤ (symbolsAll es).length := by
  induction es with
  | nil => exact Nat.le_refl _
  | cons e es ih =>
    obtain ⟨x, xs, hsymbols, -⟩ := e.symbols_eq_cons
    cases es with
    | nil => simp [symbolsAll, hsymbols]
    | cons e' es =>
      rw [symbolsAll, hsymbols, List.length_append, List.length_cons, List.length_cons]
      simp only [List.isEmpty_cons, Bool.false_eq_true, if_false, List.length_cons] at ih ⊢
      omega

theorem term_le_precedence (t : Formula κ ν) :
    Precedence.term.level ≤ t.precedence.level := by
  cases t with
  | binary op l r => exact op.level_pos
  | _ => exact Nat.le_of_ble_eq_true rfl

theorem not_endsSigned (t : Formula κ ν)
    (hbinds : Precedence.factorial.level ≤ t.precedence.level) : ¬ t.EndsSigned := by
  cases t with
  | signed sign e => simp [Formula.precedence, Precedence.level] at hbinds
  | binary op l r =>
    cases op <;> simp [Formula.precedence, BinaryOperator.precedence, Precedence.level] at hbinds
  | _ => exact id

theorem WellGrouped.stops_zero {t : Formula κ ν} (ht : t.WellGrouped) : t.Stops 0 :=
  ht.stops (Nat.zero_le _) fun _ ↦ by decide

end Formula

/-- How many expressions without a level of nesting between them may still be inside one that reads
operators of this strength, itself counted. -/
def Precedence.layers : Precedence → Nat
  | none => 5
  | term => 4
  | unary => 3
  | factor => 3
  | power => 2
  | _ => 1

theorem BinaryOperator.layers_lt (op : BinaryOperator) {p : Precedence}
    (hop : p.level ≤ op.precedence.level) : op.precedence.nextHigher.layers < p.layers := by
  cases op <;> cases p <;> first | decide | exact absurd hop (by decide)

theorem Precedence.layers_pos (p : Precedence) : 0 < p.layers := by cases p <;> decide

namespace Reader

open Outcome Formula CurveCalc.Symbol

variable {κ ν : Type} {b : Bounds} {sub : Subreader κ ν}

theorem Outcome.within_of_le {β : Type} {limit depth : Nat} (h : depth ≤ limit)
    (o : Outcome κ ν β) : o.within limit depth = o := if_pos h

theorem Outcome.within_of_lt {β : Type} {limit depth : Nat} (h : limit < depth)
    (o : Outcome κ ν β) : o.within limit depth = .tooDeep := if_neg (Nat.not_le.mpr h)

theorem Outcome.within_bind {β γ : Type} {limit depth : Nat} (o : Outcome κ ν β)
    (f : β → List (Symbol κ ν) → Outcome κ ν γ) :
    (o.within limit depth).bind f = (o.bind f).within limit depth := by
  unfold Outcome.within
  split <;> rfl

theorem Outcome.within_within {β : Type} {limit d d' : Nat} (o : Outcome κ ν β) :
    (o.within limit d).within limit d' = o.within limit (max d d') := by
  by_cases hd' : d' ≤ limit
  · rw [within_of_le hd']
    by_cases hd : d ≤ limit
    · rw [within_of_le hd, within_of_le (Nat.max_le.mpr ⟨hd, hd'⟩)]
    · rw [within_of_lt (Nat.not_le.mp hd), within_of_lt (by omega)]
  · rw [within_of_lt (Nat.not_le.mp hd'), within_of_lt (by omega)]

theorem operators_of_below {p : Precedence} {depth steps : Nat} {t : Formula κ ν}
    {rest : List (Symbol κ ν)} (hsteps : rest.length ≤ steps) (hbelow : strength rest < p.level) :
    operators sub p depth steps t rest = .read t rest := by
  cases rest with
  | nil => cases steps <;> rfl
  | cons x xs =>
    cases steps with
    | zero => cases hsteps
    | succ steps =>
      unfold operators
      exact if_neg (Nat.not_le.mpr hbelow)

theorem operators_operator {p : Precedence} {depth steps : Nat} {t : Formula κ ν}
    {op : BinaryOperator} {xs : List (Symbol κ ν)} (hop : p.level ≤ op.precedence.level) :
    operators sub p depth (steps + 1) t (.operator op :: xs) =
      (sub op.precedence.nextHigher depth xs).bind fun r ↦
        operators sub p depth steps (.binary op t r) := if_pos hop

theorem operators_bang {p : Precedence} {depth steps : Nat} {t : Formula κ ν}
    {xs : List (Symbol κ ν)} (hp : p.level ≤ Precedence.factorial.level) :
    operators sub p depth (steps + 1) t (.bang :: xs) =
      operators sub p depth steps (.factorial t) xs := if_pos hp

theorem opening_function {depth : Nat} {f : Builtin} {xs : List (Symbol κ ν)}
    (hxs : ∀ rest, xs ≠ .rightParen :: rest) :
    opening b sub depth (.function f :: .leftParen :: xs) =
      (arguments b sub depth (xs.tail.length + 2) 0 xs).bind fun ts ↦ closed (.call f ts) := by
  cases xs with
  | nil => rfl
  | cons x xs =>
    cases x with
    | rightParen => exact absurd rfl (hxs xs)
    | _ => rfl

theorem closed_of_ne {t : Formula κ ν} {xs : List (Symbol κ ν)}
    (hxs : ∀ rest, xs ≠ .rightParen :: rest) : closed t xs = .malformed := by
  unfold closed
  split
  · exact absurd rfl (hxs _)
  · rfl

/-- A function name wants its arguments. -/
theorem opening_function_of_ne {depth : Nat} {f : Builtin} {xs : List (Symbol κ ν)}
    (hxs : ∀ rest, xs ≠ .leftParen :: rest) :
    opening b sub depth (.function f :: xs) = .malformed := by
  cases xs with
  | nil => rfl
  | cons x xs =>
    cases x with
    | leftParen => exact absurd rfl (hxs xs)
    | _ => rfl

/-- Reading at this strength and depth gets as far as behind the tree and goes on with operators, or
ends because the tree nests too deep. -/
def Complete (b : Bounds) (t : Formula κ ν) : Prop :=
  ∀ {fuel : Nat} {p : Precedence} {depth : Nat} (rest : List (Symbol κ ν)), 1 ≤ p.level →
    p.level ≤ Precedence.factorial.level → (p.level ≤ t.precedence.level ∨ t.IsSigned) →
    t.Stops (strength rest) → depth ≤ b.depth → p.layers + 4 * (b.depth - depth) ≤ fuel + 1 →
    ∃ steps, rest.length ≤ steps ∧ expression b (fuel + 1) p depth (t.symbols ++ rest) =
      (operators (expression b fuel) p depth steps t rest).within b.depth (depth + t.depth)

theorem Complete.read {t : Formula κ ν} (ht : Complete b t) {fuel : Nat} {p : Precedence}
    {depth : Nat} {rest : List (Symbol κ ν)} (hp : 1 ≤ p.level)
    (hp' : p.level ≤ Precedence.factorial.level)
    (hbinds : p.level ≤ t.precedence.level ∨ t.IsSigned) (hstops : t.Stops (strength rest))
    (hbelow : strength rest < p.level) (hdepth : depth ≤ b.depth)
    (hfuel : p.layers + 4 * (b.depth - depth) ≤ fuel) :
    expression b fuel p depth (t.symbols ++ rest) =
      (Outcome.read t rest).within b.depth (depth + t.depth) := by
  cases fuel with
  | zero =>
    have hlayers := p.layers_pos
    omega
  | succ fuel =>
    obtain ⟨steps, hsteps, h⟩ := ht rest hp hp' hbinds hstops hdepth hfuel
    rw [h, operators_of_below hsteps hbelow]

/-- What stands one level deeper is read wherever there is a level left for it. -/
theorem Complete.nested_read {t : Formula κ ν} (ht : Complete b t) {fuel : Nat} {p : Precedence}
    {depth : Nat} {rest : List (Symbol κ ν)} (hp : 1 ≤ p.level)
    (hp' : p.level ≤ Precedence.factorial.level)
    (hbinds : p.level ≤ t.precedence.level ∨ t.IsSigned) (hstops : t.Stops (strength rest))
    (hbelow : strength rest < p.level) (hlayers : p.layers ≤ 4)
    (hfuel : 4 * (b.depth - depth) ≤ fuel) :
    nested b (expression b fuel) p depth (t.symbols ++ rest) =
      (Outcome.read t rest).within b.depth (depth + 1 + t.depth) := by
  unfold nested
  by_cases hdepth : b.depth ≤ depth
  · rw [if_pos hdepth, within_of_lt (by omega)]
  · rw [if_neg hdepth]
    exact ht.read hp hp' hbinds hstops hbelow (by omega) (by omega)

/-- A reader in an argument list or group begins anew. -/
theorem Complete.nested_term {t : Formula κ ν} (ht : Complete b t) (hgrouped : t.WellGrouped)
    {fuel depth : Nat} {rest : List (Symbol κ ν)} (hrest : strength rest = 0)
    (hfuel : 4 * (b.depth - depth) ≤ fuel) :
    nested b (expression b fuel) .term depth (t.symbols ++ rest) =
      (Outcome.read t rest).within b.depth (depth + 1 + t.depth) := by
  refine ht.nested_read (by decide) (by decide) (Or.inl t.term_le_precedence) ?_ ?_ (by decide)
    hfuel
  · rw [hrest]
    exact hgrouped.stops_zero
  · rw [hrest]
    decide

theorem arguments_read {es : List (Formula κ ν)} (hne : es ≠ [])
    (hes : ∀ e ∈ es, e.WellGrouped ∧ Complete b e) {fuel depth steps count : Nat}
    {rest : List (Symbol κ ν)} (hsteps : es.length ≤ steps)
    (hcount : count + es.length ≤ b.arguments) (hfuel : 4 * (b.depth - depth) ≤ fuel) :
    arguments b (expression b fuel) depth steps count (symbolsAll es ++ .rightParen :: rest) =
      (Outcome.read es (.rightParen :: rest)).within b.depth (depth + depthAll es) := by
  induction es generalizing steps count with
  | nil => exact absurd rfl hne
  | cons e es ih =>
    obtain ⟨hgrouped, hcomplete⟩ := hes e List.mem_cons_self
    rw [List.length_cons] at hsteps hcount
    have hlimit : count ≠ b.arguments := by omega
    cases steps with
    | zero => omega
    | succ steps =>
      rw [arguments, symbolsAll, List.append_assoc, depthAll]
      cases es with
      | nil =>
        have hlast : (Outcome.read e (.rightParen :: rest)).bind (afterArgument b
            (arguments b (expression b fuel) depth steps (count + 1)) count) =
              .read [e] (.rightParen :: rest) := if_neg hlimit
        rw [List.isEmpty_nil, if_pos rfl, List.nil_append, depthAll, Nat.max_zero,
          hcomplete.nested_term hgrouped rfl hfuel, within_bind, hlast, Nat.add_right_comm,
          Nat.add_assoc]
      | cons e' es =>
        have hrest : arguments b (expression b fuel) depth steps (count + 1)
            (symbolsAll (e' :: es) ++ .rightParen :: rest) =
              (Outcome.read (e' :: es) (.rightParen :: rest)).within b.depth
                (depth + depthAll (e' :: es)) :=
          ih (List.cons_ne_nil _ _) (fun u hu ↦ hes u (List.mem_cons_of_mem _ hu)) (by omega)
            (by omega)
        have hnext : (Outcome.read e
            (.comma :: (symbolsAll (e' :: es) ++ .rightParen :: rest))).bind
            (afterArgument b (arguments b (expression b fuel) depth steps (count + 1)) count) =
              (arguments b (expression b fuel) depth steps (count + 1)
                (symbolsAll (e' :: es) ++ .rightParen :: rest)).map (e :: ·) := if_neg hlimit
        have hdepth : max (depth + depthAll (e' :: es)) (depth + 1 + e.depth) =
            depth + max (e.depth + 1) (depthAll (e' :: es)) := by omega
        rw [List.isEmpty_cons, if_neg Bool.false_ne_true, List.cons_append,
          hcomplete.nested_term hgrouped rfl hfuel, within_bind, hnext, hrest, Outcome.map,
          within_bind, within_within, hdepth]
        rfl

theorem complete_call {f : Builtin} {es : List (Formula κ ν)}
    (hes : ∀ e ∈ es, e.WellGrouped ∧ Complete b e) (hlength : es.length ≤ b.arguments) :
    Complete b (.call f es) := by
  intro fuel p depth rest _ _ _ _ hdepth hfuel
  have hlayers := p.layers_pos
  refine ⟨rest.tail.length + 1, by rw [List.length_tail]; omega, ?_⟩
  rw [expression, symbols, Formula.depth]
  cases es with
  | nil => exact (within_of_le hdepth _).symm
  | cons e es =>
    have hne : ∀ more, symbolsAll (e :: es) ++ .rightParen :: rest ≠ .rightParen :: more := by
      obtain ⟨x, xs, hx, hne⟩ := e.symbols_eq_cons
      intro more h
      rw [symbolsAll, hx] at h
      exact hne (List.cons_eq_cons.mp h).1
    have hsymbols := length_le_symbolsAll (e :: es)
    have hargs : arguments b (expression b fuel) depth
        ((symbolsAll (e :: es) ++ .rightParen :: rest).tail.length + 2) 0
        (symbolsAll (e :: es) ++ .rightParen :: rest) =
          (Outcome.read (e :: es) (.rightParen :: rest)).within b.depth
            (depth + depthAll (e :: es)) :=
      arguments_read (List.cons_ne_nil e es) hes
        (by rw [List.length_tail, List.length_append]; omega) (by omega) (by omega)
    rw [List.cons_append, List.cons_append, List.append_assoc, List.singleton_append,
      opening_function hne, hargs, within_bind, within_bind]
    rfl

theorem complete_group {e : Formula κ ν} (he : e.WellGrouped) (hcomplete : Complete b e) :
    Complete b (.group e) := by
  intro fuel p depth rest _ _ _ _ hdepth hfuel
  have hlayers := p.layers_pos
  refine ⟨rest.tail.length + 1, by rw [List.length_tail]; omega, ?_⟩
  rw [expression, symbols, Formula.depth, List.cons_append, List.append_assoc,
    List.singleton_append, opening, hcomplete.nested_term he rfl (by omega), within_bind,
    within_bind, Nat.add_right_comm, Nat.add_assoc]
  rfl

theorem complete_signed {sign : Sign} {e : Formula κ ν} (hcomplete : Complete b e)
    (hbinds : Precedence.unary.level ≤ e.precedence.level) : Complete b (.signed sign e) := by
  intro fuel p depth rest _ _ _ hstops hdepth hfuel
  have hlayers := p.layers_pos
  refine ⟨rest.tail.length + 1, by rw [List.length_tail]; omega, ?_⟩
  rw [expression, symbols, Formula.depth, List.cons_append, opening, Sign.ofOperator?_operator]
  dsimp only
  rw [hcomplete.nested_read (by decide) (by decide) (Or.inl hbinds) hstops.2 hstops.1 (by decide)
    (by omega), Outcome.map, within_bind, within_bind, Nat.add_right_comm, Nat.add_assoc]
  rfl

theorem complete_factorial {e : Formula κ ν} (he : e.WellGrouped) (hcomplete : Complete b e)
    (hbinds : Precedence.factorial.level ≤ e.precedence.level) : Complete b (.factorial e) := by
  intro fuel p depth rest hp hp' _ hstops hdepth hfuel
  obtain ⟨steps, hsteps, h⟩ := hcomplete (.bang :: rest) hp hp'
    (Or.inl (Nat.le_trans hp' hbinds)) (he.stops hbinds fun h ↦ absurd h (e.not_endsSigned hbinds))
    hdepth hfuel
  rw [List.length_cons] at hsteps
  cases steps with
  | zero => omega
  | succ steps =>
    refine ⟨steps, by omega, ?_⟩
    rw [symbols, List.append_assoc, List.singleton_append, h, operators_bang hp', Formula.depth]

theorem complete_binary {op : BinaryOperator} {l r : Formula κ ν} (hl : l.WellGrouped)
    (hcompletel : Complete b l) (hcompleter : Complete b r)
    (hleft : op.precedence.level ≤ l.precedence.level)
    (hends : l.EndsSigned → op.precedence = .term)
    (hright : op.precedence.level < r.precedence.level ∨ r.IsSigned) :
    Complete b (.binary op l r) := by
  intro fuel p depth rest hp hp' hbinds hstops hdepth hfuel
  have hop : p.level ≤ op.precedence.level := hbinds.resolve_right id
  have hlayers := op.layers_lt hop
  have hnext := op.level_nextHigher
  have hfactorial : op.precedence.nextHigher.level ≤ Precedence.factorial.level := by
    cases op <;> decide
  obtain ⟨steps, hsteps, h⟩ := hcompletel (.operator op :: (r.symbols ++ rest)) hp hp'
    (Or.inl (Nat.le_trans hop hleft))
    (hl.stops hleft fun h ↦ Nat.lt_of_le_of_lt (Nat.le_of_eq (congrArg Precedence.level (hends h)))
      (by decide)) hdepth hfuel
  rw [List.length_cons, List.length_append] at hsteps
  cases steps with
  | zero => omega
  | succ steps =>
    refine ⟨steps, by omega, ?_⟩
    have hbelow := hstops.1
    have hr : expression b fuel op.precedence.nextHigher depth (r.symbols ++ rest) =
        (Outcome.read r rest).within b.depth (depth + r.depth) :=
      hcompleter.read (by omega) hfactorial (hright.imp_left fun h ↦ by omega) hstops.2 (by omega)
        hdepth (by omega)
    rw [symbols, List.append_assoc, List.cons_append, h, operators_operator hop, hr,
      Formula.depth, within_bind, within_within, Nat.max_comm, Nat.add_max_add_left]
    rfl

theorem width_le_widthAll {e : Formula κ ν} {es : List (Formula κ ν)} (he : e ∈ es) :
    e.width ≤ widthAll es := by
  rw [widthAll_eq]
  exact List.le_max_of_le' 0 (List.mem_map_of_mem he) (Nat.le_refl _)

/-- Every well grouped tree whose calls are narrow enough is read, unless it nests too deep. -/
theorem complete_of_wellGrouped {t : Formula κ ν} (ht : t.WellGrouped)
    (hwidth : t.width ≤ b.arguments) : Complete b t := by
  induction ht with
  | number x =>
    intro fuel p depth rest _ _ _ _ hdepth _
    exact ⟨rest.tail.length + 1, by rw [List.length_tail]; omega, (within_of_le hdepth _).symm⟩
  | identifier v =>
    intro fuel p depth rest _ _ _ _ hdepth _
    exact ⟨rest.tail.length + 1, by rw [List.length_tail]; omega, (within_of_le hdepth _).symm⟩
  | group he ih => exact complete_group he (ih hwidth)
  | signed sign he hbinds ih => exact complete_signed (ih hwidth) hbinds
  | factorial he hbinds ih => exact complete_factorial he (ih hwidth) hbinds
  | binary op hl hr hleft hends hright ihl ihr =>
    rw [width, Nat.max_le] at hwidth
    exact complete_binary hl (ihl hwidth.1) (ihr hwidth.2) hleft hends hright
  | call f hes ih =>
    rw [width, Nat.max_le] at hwidth
    refine complete_call (fun e he ↦ ⟨hes e he, ih e he ?_⟩) hwidth.1
    exact Nat.le_trans (width_le_widthAll he) hwidth.2

/-- Reading a whole well grouped formula. -/
theorem expression_read {t : Formula κ ν} (ht : t.WellGrouped) (hwidth : t.width ≤ b.arguments)
    {fuel : Nat} (hfuel : 4 * (b.depth + 1) ≤ fuel) :
    expression b fuel .term 0 t.symbols = (Outcome.read t []).within b.depth t.depth := by
  have hfuel' : Precedence.term.layers + 4 * (b.depth - 0) ≤ fuel := by
    change 4 + 4 * (b.depth - 0) ≤ fuel
    omega
  have h : expression b fuel .term 0 (t.symbols ++ []) =
      (Outcome.read t []).within b.depth (0 + t.depth) :=
    Complete.read (complete_of_wellGrouped ht hwidth) (by decide) (by decide)
      (Or.inl t.term_le_precedence) ht.stops_zero Nat.one_pos (Nat.zero_le _) hfuel'
  rwa [List.append_nil, Nat.zero_add] at h

end Reader

/-- No two well grouped formulas are written alike. -/
theorem Formula.WellGrouped.eq_of_symbols {κ ν : Type} {t u : Formula κ ν} (ht : t.WellGrouped)
    (hu : u.WellGrouped) (h : t.symbols = u.symbols) : t = u := by
  let b : Reader.Bounds := ⟨max t.depth u.depth, max t.width u.width⟩
  have htread := Reader.expression_read (b := b) ht (Nat.le_max_left _ _) (Nat.le_refl _)
  have huread := Reader.expression_read (b := b) hu (Nat.le_max_right _ _) (Nat.le_refl _)
  rw [Reader.Outcome.within_of_le (Nat.le_max_left _ _)] at htread
  rw [Reader.Outcome.within_of_le (Nat.le_max_right _ _), ← h, htread] at huread
  cases huread
  rfl

end CurveCalc
