import CurveCalc.Proofs.Expression.Listing
import CurveCalc.Proofs.Formula.Compilation

/-!
The numbers and names of a text, and the constants and loads of its code. Both are the leaves of one
tree from left to right (`Formula.leaves_symbols`, `Expression.leaves_postorder`), so they are the
same and in the same order; and folding keeps the loads. A name in the text is that of a variable if
it is neither that of a constant nor that of a function.
-/

set_option autoImplicit false
set_option relaxedAutoImplicit false

namespace CurveCalc

/-- The number that a number token stands for: the constant that it names, or what its text is read
as. -/
def Token.float? (t : Token) : Option Float :=
  match t.value with
  | .constant c => some c.toFloat
  | _ => Number.readFloat? t.lexeme

/-- The numbers in a text, in the order in which they are written. -/
def writtenNumbers (source : String) : List (Option Float) :=
  ((scan (Text.withoutBlanks source)).filter fun t ↦ t.kind = .number).map Token.float?

/-- The names of the variables in a text, in the order in which they are written. -/
def writtenNames (source : String) : List String :=
  ((scan (Text.withoutBlanks source)).filter fun t ↦ t.kind = .identifier).map Token.lexeme

namespace Program

variable {α : Type}

/-- The name of the variable that a load of the slot gives. -/
def nameOf? (p : Program α) : Operand α → Option String
  | .whole n => atSlot? p.names n
  | .real _ => none

/-- The names of the variables that the code loads, in order. -/
def namesRead (p : Program α) : List (Option String) := (Instruction.loads p.code).map p.nameOf?

end Program

/-- The number or name that the symbol is, if it is one. -/
def Symbol.leaf? {κ ν : Type} : Symbol κ ν → Option (κ ⊕ ν)
  | number x => some (.inl x)
  | identifier v => some (.inr v)
  | _ => none

namespace Formula

variable {κ ν : Type}

theorem leaves_symbolsAll {ts : List (Formula κ ν)}
    (hts : ∀ t ∈ ts, t.symbols.filterMap Symbol.leaf? = t.expression.leaves) :
    (symbolsAll ts).filterMap Symbol.leaf? = Expression.leavesAll (expressionAll ts) := by
  induction ts with
  | nil => rfl
  | cons t ts ih =>
    have hmore := ih fun u hu ↦ hts u (List.mem_cons_of_mem t hu)
    rw [symbolsAll, expressionAll, Expression.leavesAll, List.filterMap_append,
      hts t List.mem_cons_self, ← hmore]
    cases ts <;> rfl

/-- The numbers and names with which a formula is written are the leaves of its tree. -/
theorem leaves_symbols (t : Formula κ ν) :
    t.symbols.filterMap Symbol.leaf? = t.expression.leaves := by
  induction t with
  | number x => rfl
  | identifier v => rfl
  | group e ih =>
    rw [symbols, expression, List.filterMap_cons_none rfl, List.filterMap_append, ih]
    exact List.append_nil _
  | signed sign e ih => cases sign <;> exact ih
  | factorial e ih =>
    rw [symbols, List.filterMap_append, ih]
    exact List.append_nil _
  | binary op l r ihl ihr =>
    rw [symbols, expression, Expression.leaves, List.filterMap_append, List.filterMap_cons_none rfl,
      ihl, ihr]
  | call f es ih =>
    rw [symbols, expression, Expression.leaves, List.filterMap_cons_none rfl,
      List.filterMap_cons_none rfl, List.filterMap_append, leaves_symbolsAll ih]
    exact List.append_nil _

end Formula

/-! What number and name tokens stand for. -/

namespace Token

/-- The number or name that the token is, if it is one. -/
def leaf? (t : Token) : Option (Literal ⊕ String) := t.symbol?.bind Symbol.leaf?

theorem leaves_tokens {ts : List Token} {xs : List (Symbol Literal String)}
    (h : ts.map symbol? = xs.map some) : ts.filterMap leaf? = xs.filterMap Symbol.leaf? := by
  have hleaves : (ts.map symbol?).filterMap (·.bind Symbol.leaf?) =
      (xs.map some).filterMap (·.bind Symbol.leaf?) := by rw [h]
  rwa [List.filterMap_map, List.filterMap_map] at hleaves

theorem map_filter_kind {β : Type} (kind : TokenKind) (f : Token → β) (ts : List Token) :
    (ts.filter fun t ↦ t.kind = kind).map f =
      ts.filterMap fun t ↦ if t.kind = kind then some (f t) else none := by
  rw [← List.filterMap_eq_map, List.filterMap_filter]
  simp only [decide_eq_true_eq, Function.comp_apply]

variable {t : Token} {x : Symbol Literal String}

theorem name_leaf? (h : t.symbol? = some x) :
    t.leaf?.bind Sum.getRight? = if t.kind = .identifier then some t.lexeme else none := by
  have hkind := kind_of_symbol? h
  unfold leaf?
  rw [h, hkind, Option.bind_some]
  cases x with
  | identifier v =>
    rw [symbol?_identifier hkind] at h
    cases h
    rfl
  | operator op => cases op <;> rfl
  | _ => rfl

theorem exists_ofToken? (h : t.symbol? = some x) (hkind : t.kind = .number) :
    ∃ k, Literal.ofToken? t = some k ∧ x = .number k := by
  unfold symbol? at h
  rw [hkind] at h
  obtain ⟨k, hk, hx⟩ := Option.map_eq_some_iff.mp h
  exact ⟨k, hk, hx.symm⟩

theorem number_leaf? (h : t.symbol? = some x) :
    t.leaf?.bind Sum.getLeft? = if t.kind = .number then Literal.ofToken? t else none := by
  have hkind := kind_of_symbol? h
  unfold leaf?
  rw [h, hkind, Option.bind_some]
  cases x with
  | number y =>
    obtain ⟨k, hk, hy⟩ := exists_ofToken? h hkind
    cases hy
    exact hk.symm
  | operator op => cases op <;> rfl
  | _ => rfl

end Token

theorem characterKind_ne (c : Char) :
    characterKind c ≠ .number ∧ characterKind c ≠ .identifier := by
  unfold characterKind
  split <;> exact ⟨TokenKind.noConfusion, TokenKind.noConfusion⟩

namespace Piece

/-- A number token stands for the double nearest to the number that is written. -/
theorem float?_token (p : Piece) (position : Nat) (h : (p.token position).kind = .number) :
    (p.token position).float? =
      (Literal.ofToken? (p.token position)).map Literal.toFloat := by
  cases p with
  | number n =>
    change Number.readFloat? (String.ofList n.chars) =
      ((Number.readDecimal? (String.ofList n.chars).toList).map Literal.decimal).map Literal.toFloat
    rw [n.readFloat?_chars, String.toList_ofList, n.readDecimal?_chars]
    rfl
  | name w =>
    have hvalue : ((name w).token position).value = (classifyName w.text).2 := rfl
    change w.kind = .number at h
    rw [w.kind_eq] at h
    unfold Token.float? Literal.ofToken?
    rcases classifyName_cases w.text with ⟨k, hk⟩ | ⟨f, hf⟩ | hname
    · rw [hvalue, hk]
      rfl
    · rw [hf] at h
      cases h
    · rw [hname] at h
      cases h
  | character c hnumeral hstart => exact absurd h (characterKind_ne c).1

/-- The name of a variable is that of no function and of no constant. -/
theorem lexeme_token (p : Piece) (position : Nat) (h : (p.token position).kind = .identifier) :
    (∀ f : Builtin, (p.token position).lexeme ≠ f.name) ∧
      ∀ k : NamedConstant, (p.token position).lexeme ≠ k.name := by
  cases p with
  | number n => cases h
  | name w =>
    change w.kind = .identifier at h
    change (∀ f : Builtin, w.text ≠ f.name) ∧ ∀ k : NamedConstant, w.text ≠ k.name
    unfold Word.kind at h
    split at h
    · cases h
    rename_i hconstant
    split at h
    · cases h
    rename_i hfunction
    constructor
    · intro f hf
      exact hfunction (hf ▸ List.mem_map_of_mem f.mem_all)
    · intro k hk
      refine hconstant ?_
      rw [hk]
      cases k with
      | pi => exact Or.inl rfl
      | e => exact Or.inr rfl
  | character c hnumeral hstart => exact absurd h (characterKind_ne c).2

end Piece

theorem float?_of_mem_scan (text : String) : ∀ t ∈ scan text, t.kind = .number →
    t.float? = (Literal.ofToken? t).map Literal.toFloat :=
  Cursor.tokens_induction (fun _ h ↦ TokenKind.noConfusion h) Piece.float?_token _

theorem lexeme_of_mem_scan (text : String) : ∀ t ∈ scan text, t.kind = .identifier →
    (∀ f : Builtin, t.lexeme ≠ f.name) ∧ ∀ k : NamedConstant, t.lexeme ≠ k.name :=
  Cursor.tokens_induction (fun _ h ↦ TokenKind.noConfusion h) Piece.lexeme_token _

namespace SpelledBy

variable {source : String} {u : Formula Literal String}

theorem leaves (h : SpelledBy source u.symbols) :
    (scan (Text.withoutBlanks source)).filterMap Token.leaf? = u.expression.leaves :=
  (Token.leaves_tokens h).trans u.leaves_symbols

/-- The names of the variables in the formula of a text. -/
theorem writtenNames (h : SpelledBy source u.symbols) :
    writtenNames source = u.expression.vars := by
  rw [← u.expression.rights_leaves, ← h.leaves, List.filterMap_filterMap, CurveCalc.writtenNames,
    Token.map_filter_kind]
  refine List.filterMap_congr fun t ht ↦ ?_
  obtain ⟨x, hx⟩ := h.exists_symbol? t ht
  rw [Token.name_leaf? hx]

/-- The numbers in the formula of a text. -/
theorem writtenNumbers (h : SpelledBy source u.symbols) :
    writtenNumbers source =
      (u.expression.leaves.filterMap Sum.getLeft?).map fun k ↦ some k.toFloat := by
  rw [← h.leaves, List.filterMap_filterMap, CurveCalc.writtenNumbers, Token.map_filter_kind,
    List.map_filterMap]
  refine List.filterMap_congr fun t ht ↦ ?_
  obtain ⟨x, hx⟩ := h.exists_symbol? t ht
  rw [Token.number_leaf? hx]
  by_cases hkind : t.kind = .number
  · obtain ⟨k, hk, -⟩ := Token.exists_ofToken? hx hkind
    rw [if_pos hkind, if_pos hkind, float?_of_mem_scan _ t ht hkind, hk]
    rfl
  · rw [if_neg hkind, if_neg hkind]
    rfl

end SpelledBy

namespace Expression

/-- The code of a tree loads the slots of its variables from left to right. -/
theorem loads_program (e : Expression Literal String) :
    Instruction.loads e.program.code = e.vars.map fun v ↦ .whole (e.names.idxOf v) := by
  change Instruction.loads e.slotted.postorder = _
  rw [loads_postorder, slotted, vars_map, List.map_map]
  rfl

theorem constants_program (e : Expression Literal String) :
    Instruction.constants e.program.code =
      (e.leaves.filterMap Sum.getLeft?).map fun k ↦ .real k.toFloat := by
  change Instruction.constants e.slotted.postorder = _
  rw [constants_postorder, slotted, leaves_map, lefts_map, List.map_map]
  rfl

theorem atSlot?_idxOf {vs : List String} {v : String} (hv : v ∈ vs) :
    atSlot? vs (vs.idxOf v) = some v := by
  have hslot : vs.idxOf v < vs.length := List.idxOf_lt_length_iff.mpr hv
  rw [atSlot?, if_pos (Int.natCast_nonneg _), Int.toNat_natCast, List.getElem?_eq_getElem hslot,
    List.getElem_idxOf hslot]

theorem namesRead_program (e : Expression Literal String) :
    e.program.namesRead = e.vars.map some := by
  unfold Program.namesRead
  rw [loads_program, List.map_map]
  exact List.map_congr_left fun v hv ↦ atSlot?_idxOf (List.mem_eraseDups.mpr hv)

end Expression

/-- In the code of a text the variables that are loaded are those that are written, in the same
order, and the constants are the numbers that are written, in theirs. The names of its variables are
those that are written, once each and in the order in which they first appear; no function and no
constant has one of them, and each of them is read. Folding keeps the names and every load. -/
theorem compile_leaves {maxDepth : Int} {source : String} {p : Program Float}
    (h : compile maxDepth source = .ok p) :
    p.namesRead = (writtenNames source).map some ∧
    (Instruction.constants p.code).map some =
      (writtenNumbers source).map (Option.map Operand.real) ∧
    p.names.Nodup ∧ p.names = (writtenNames source).eraseDups ∧
    (∀ name ∈ p.names, (∀ f : Builtin, name ≠ f.name) ∧ ∀ k : NamedConstant, name ≠ k.name) ∧
    (∀ name ∈ p.names, some name ∈ p.namesRead) ∧
    ∀ q, p.fold = .ok q →
      q.names = p.names ∧ Instruction.loads q.code = Instruction.loads p.code := by
  obtain ⟨u, hspelled, -, -, rfl⟩ := exists_of_compile h
  have hnames : u.expression.program.names = (writtenNames source).eraseDups := by
    rw [hspelled.writtenNames]
    rfl
  have hread : u.expression.program.namesRead = (writtenNames source).map some := by
    rw [u.expression.namesRead_program, hspelled.writtenNames]
  refine ⟨hread, ?_, ?_, hnames, ?_, ?_, ?_⟩
  · rw [u.expression.constants_program, hspelled.writtenNumbers, List.map_map, List.map_map]
    rfl
  · rw [hnames]
    exact nodup_eraseDups _
  · intro name hname
    rw [hnames, List.mem_eraseDups] at hname
    obtain ⟨t, ht, rfl⟩ := List.mem_map.mp hname
    obtain ⟨hmem, hkind⟩ := List.mem_filter.mp ht
    exact lexeme_of_mem_scan _ t hmem (of_decide_eq_true hkind)
  · intro name hname
    rw [hnames, List.mem_eraseDups] at hname
    rw [hread]
    exact List.mem_map_of_mem hname
  · intro q hfold
    obtain ⟨hloads, hkept⟩ := Program.loads_fold hfold
    exact ⟨hkept, hloads⟩

/-- Three variables are read, one of them twice, and two constants are given. -/
theorem compile_leaves_names :
    ∃ p, compile 1 "2*x+pi*y-x" = .ok p ∧
      p.namesRead = [some "x", some "y", some "x"] ∧
      Instruction.constants p.code = [.real 2.0, .real NamedConstant.pi.toFloat] ∧
      p.names = ["x", "y"] ∧ ∀ q, p.fold = .ok q → q.names = ["x", "y"] := by
  let two : Constant := .numeral (.whole ⟨['2'], by decide, List.forall_mem_singleton.mpr rfl⟩)
  let x : VariableName := ⟨'x', [], by decide, List.forall_mem_nil _, by decide⟩
  let y : VariableName := ⟨'y', [], by decide, List.forall_mem_nil _, by decide⟩
  let e : Expression Constant VariableName :=
    .binary .subtract (.binary .add (.binary .multiply (.constant two) (.var x))
      (.binary .multiply (.constant (.named .pi)) (.var y))) (.var x)
  have hok : compile 1 "2*x+pi*y-x" = .ok e.written.program :=
    compile_of_text e (by decide) (by decide) (by decide)
  have hnames : writtenNames "2*x+pi*y-x" = ["x", "y", "x"] := by decide +kernel
  have hnumbers : writtenNumbers "2*x+pi*y-x" = [some 2.0, some NamedConstant.pi.toFloat] := by
    decide +kernel
  obtain ⟨hread, hconstants, -, hfirst, -, -, hfold⟩ := compile_leaves hok
  rw [hnames] at hread hfirst
  rw [hnumbers] at hconstants
  have heraseDups : ["x", "y", "x"].eraseDups = ["x", "y"] := by decide
  rw [heraseDups] at hfirst
  refine ⟨_, hok, hread, ?_, hfirst, fun q hq ↦ (hfold q hq).1.trans hfirst⟩
  exact List.map_injective_iff.mpr (fun _ _ ↦ Option.some.inj) hconstants

end CurveCalc
