import CurveCalc.Proofs.Formula.Invariants
import CurveCalc.Proofs.Formula.TreeReader

/-!
What the parser has behind it and ahead of it. Behind it are the names it has entered and the code
it has put out, which can be told once all names are known (`Parser.Puts`); ahead of it are the
symbols of its tokens, as long as nothing is wrong (`Parser.Ahead`). The small steps of the parser
in these terms.
-/

set_option autoImplicit false
set_option relaxedAutoImplicit false

namespace CurveCalc

namespace Formula

/-- The code of the formula where these are the names of its variables by slot. -/
def listing (t : Formula Literal String) (names : List String) : List (Instruction Literal) :=
  (t.expression.map id names.idxOf).postorder

def listingAll (ts : List (Formula Literal String)) (names : List String) :
    List (Instruction Literal) := ts.flatMap fun t ↦ t.listing names

theorem listing_call (f : Builtin) (ts : List (Formula Literal String)) (names : List String) :
    (call f ts).listing names =
      listingAll ts names ++ [.call (.whole f.number) ts.length] := by
  have hall : (((ts.map expression).map (Expression.map id names.idxOf)).flatMap
      Expression.postorder) = listingAll ts names := by
    rw [List.map_map, List.flatMap_map]
    rfl
  rw [listing, expression, expressionAll_eq, Expression.map, Expression.mapAll_eq,
    Expression.postorder, Expression.postorderAll_eq, hall, List.length_map, List.length_map]

end Formula

namespace Parser

/-- The names with one more at the end, unless they have it. -/
def enter (names : List String) (name : String) : List String := (slotOf names name).2

theorem prefix_enter (names : List String) (name : String) : names <+: enter names name := by
  unfold enter slotOf
  split
  · exact List.prefix_rfl
  · exact List.prefix_append _ _

theorem prefix_foldl_enter (vs names : List String) : names <+: vs.foldl enter names := by
  induction vs generalizing names with
  | nil => exact List.prefix_rfl
  | cons v vs ih => exact (prefix_enter names v).trans (ih _)

/-- A slot, once given, is the first place of its name among all names to come. -/
theorem idxOf_of_enter {names more : List String} {name : String} (h : enter names name <+: more) :
    more.idxOf name = (slotOf names name).1 := by
  obtain ⟨tail, rfl⟩ := h
  unfold enter slotOf
  cases hfound : names.idxOf? name with
  | some slot =>
    have hmem : name ∈ names := by
      rw [← List.isSome_idxOf?, hfound]
      rfl
    rw [List.idxOf_append_of_mem hmem]
    exact (List.findIdx?_eq_some_iff_findIdx_eq.mp hfound).2
  | none =>
    have hmem : name ∉ names := List.idxOf?_eq_none_iff.mp hfound
    rw [List.append_assoc, List.idxOf_append_of_notMem hmem, List.singleton_append,
      List.idxOf_cons_self]
    rfl

/-- Between two states these names have been entered and this code has been put out. -/
structure Puts (s : Parser) (vs : List String) (code : List String → List (Instruction Literal))
    (t : Parser) : Prop where
  names : t.names = vs.foldl enter s.names
  code : ∀ names, t.names <+: names → t.code.toList = s.code.toList ++ code names

namespace Puts

variable {s t u : Parser} {vs ws : List String} {c d : List String → List (Instruction Literal)}

theorem of_eq (hnames : t.names = s.names) (hcode : t.code = s.code) : Puts s [] (fun _ ↦ []) t :=
  ⟨hnames, fun names _ ↦ by rw [hcode, List.append_nil]⟩

theorem trans (h : Puts s vs c t) (h' : Puts t ws d u) :
    Puts s (vs ++ ws) (fun names ↦ c names ++ d names) u := by
  refine ⟨by rw [h'.names, h.names, List.foldl_append], fun names hnames ↦ ?_⟩
  have hsome : t.names <+: u.names := by
    rw [h'.names]
    exact prefix_foldl_enter ws t.names
  rw [h'.code names hnames, h.code names (hsome.trans hnames), List.append_assoc]

/-- A state from which nothing has been put out yet may stand for the first one. -/
theorem of_same (hnames : s.names = t.names) (hcode : s.code = t.code) (h : Puts t vs c u) :
    Puts s vs c u := ⟨by rw [h.names, hnames], fun names hu ↦ by rw [h.code names hu, hcode]⟩

theorem same (h : Puts s vs c t) (hnames : u.names = t.names) (hcode : u.code = t.code) :
    Puts s vs c u :=
  ⟨by rw [hnames, h.names], fun names hu ↦ by rw [hcode, h.code names (hnames ▸ hu)]⟩

theorem emit (h : Puts s vs c t) (i : Instruction Literal) :
    Puts s vs (fun names ↦ c names ++ [i]) (t.emit i) := by
  refine ⟨h.names, fun names hnames ↦ ?_⟩
  change (t.code.push i).toList = _
  rw [Array.toList_push, h.code names hnames, List.append_assoc]

end Puts

/-- What a token and the ones behind it say. -/
def Spells (t : Token) (rest : List Token) : List (Symbol Literal String) → Prop
  | [] => t.kind = .finish ∧ rest = []
  | x :: xs => t.symbol? = some x ∧ rest.map Token.symbol? = xs.map some

/-- These symbols are ahead at this depth, and nothing has been wrong so far. -/
structure Ahead (maxDepth : Int) (depth : Nat) (xs : List (Symbol Literal String)) (s : Parser) :
    Prop where
  limit : s.maxDepth = maxDepth
  depth : s.depth = depth
  clean : s.diagnostics = #[]
  notCut : s.cutOff = false
  finish : s.finish.kind = .finish
  spelled : Spells s.current s.rest xs

theorem Spells.kind_ne_finish {t : Token} {rest : List Token} {xs : List (Symbol Literal String)}
    (h : Spells t rest xs) : ∀ u ∈ rest, u.kind ≠ .finish := by
  intro u hu
  cases xs with
  | nil =>
    rw [h.2] at hu
    exact absurd hu List.not_mem_nil
  | cons x xs =>
    have hmem : u.symbol? ∈ xs.map some := by
      rw [← h.2]
      exact List.mem_map_of_mem hu
    obtain ⟨y, -, hy⟩ := List.mem_map.mp hmem
    rw [Token.kind_of_symbol? hy.symm]
    exact y.kind_ne_finish

theorem Spells.length {t : Token} {rest : List Token} {xs : List (Symbol Literal String)}
    (h : Spells t rest xs) : rest.length = xs.tail.length := by
  cases xs with
  | nil =>
    rw [h.2]
    rfl
  | cons x xs =>
    have hlength := congrArg List.length h.2
    rwa [List.length_map, List.length_map] at hlength

theorem Spells.kind {t : Token} {rest : List Token} {x : Symbol Literal String}
    {xs : List (Symbol Literal String)} (h : Spells t rest (x :: xs)) : t.kind = x.kind :=
  Token.kind_of_symbol? h.1

theorem Spells.precedence {t : Token} {rest : List Token} {xs : List (Symbol Literal String)}
    (h : Spells t rest xs) : t.kind.rule.precedence.level = Symbol.strength xs := by
  cases xs with
  | nil =>
    rw [h.1]
    rfl
  | cons x xs =>
    rw [h.kind, x.rule_kind]
    rfl

namespace Ahead

variable {maxDepth : Int} {depth : Nat} {x : Symbol Literal String}
  {xs : List (Symbol Literal String)} {s t : Parser}

theorem emit (hs : Ahead maxDepth depth xs s) (i : Instruction Literal) :
    Ahead maxDepth depth xs (s.emit i) :=
  ⟨hs.limit, hs.depth, hs.clean, hs.notCut, hs.finish, hs.spelled⟩

theorem faulty_report (hs : Ahead maxDepth depth xs s) (p : Problem) : (s.report p).Faulty :=
  .of_open hs.notCut _ _

/-- Behind tokens without characters that belong to none, loading the next one notes nothing. -/
theorem load {ts : List Token} (hts : ts.map Token.symbol? = xs.map some)
    (hlimit : s.maxDepth = maxDepth) (hdepth : s.depth = depth) (hclean : s.diagnostics = #[])
    (hcut : s.cutOff = false) (hfinish : s.finish.kind = .finish) :
    Ahead maxDepth depth xs (load ts s) ∧ (load ts s).previous = s.previous ∧
      (load ts s).names = s.names ∧ (load ts s).code = s.code := by
  cases ts with
  | nil =>
    cases xs with
    | nil => exact ⟨⟨hlimit, hdepth, hclean, hcut, hfinish, hfinish, rfl⟩, rfl, rfl, rfl⟩
    | cons x xs => cases hts
  | cons t ts =>
    cases xs with
    | nil => cases hts
    | cons x xs =>
      obtain ⟨hx, hmore⟩ := List.cons_eq_cons.mp hts
      have hkind : t.kind ≠ .error := by
        rw [Token.kind_of_symbol? hx]
        exact x.kind_ne_error
      unfold Parser.load
      rw [if_neg hkind]
      exact ⟨⟨hlimit, hdepth, hclean, hcut, hfinish, hx, hmore⟩, rfl, rfl, rfl⟩

theorem advance (hs : Ahead maxDepth depth (x :: xs) s) :
    Ahead maxDepth depth xs s.advance ∧ s.advance.previous.symbol? = some x ∧
      s.advance.names = s.names ∧ s.advance.code = s.code := by
  obtain ⟨hahead, hprevious, hnames, hcode⟩ := load (s := { s with previous := s.current })
    hs.spelled.2 hs.limit hs.depth hs.clean hs.notCut hs.finish
  refine ⟨hahead, ?_, hnames, hcode⟩
  unfold Parser.advance
  rw [hprevious]
  exact hs.spelled.1

/-- At the end the end is read again. -/
theorem advance_nil (hs : Ahead maxDepth depth [] s) :
    Ahead maxDepth depth [] s.advance ∧ s.advance.previous.kind = .finish := by
  obtain ⟨hkind, hrest⟩ := hs.spelled
  unfold Parser.advance
  rw [hrest]
  exact ⟨⟨hs.limit, hs.depth, hs.clean, hs.notCut, hs.finish, hs.finish, rfl⟩, hkind⟩

/-- Consuming the kind of token that is ahead. -/
theorem consume (hs : Ahead maxDepth depth (x :: xs) s) (p : Problem) :
    Ahead maxDepth depth xs (s.consume x.kind p) ∧ (s.consume x.kind p).names = s.names ∧
      (s.consume x.kind p).code = s.code := by
  obtain ⟨hahead, hprevious, hnames, hcode⟩ := hs.advance
  unfold Parser.consume
  dsimp only
  rw [if_pos (Token.kind_of_symbol? hprevious)]
  exact ⟨hahead, hnames, hcode⟩

/-- Consuming a kind of token that is not ahead. -/
theorem faulty_consume (hs : Ahead maxDepth depth xs s) {kind : TokenKind} (hkind : kind ≠ .finish)
    (hxs : ∀ x rest, xs = x :: rest → x.kind ≠ kind) (p : Problem) : (s.consume kind p).Faulty := by
  unfold Parser.consume
  dsimp only
  cases xs with
  | nil =>
    obtain ⟨hahead, hprevious⟩ := hs.advance_nil
    rw [if_neg (by rw [hprevious]; exact hkind.symm)]
    exact hahead.faulty_report p
  | cons x xs =>
    obtain ⟨hahead, hprevious, -, -⟩ := hs.advance
    rw [if_neg (by rw [Token.kind_of_symbol? hprevious]; exact hxs x xs rfl)]
    exact hahead.faulty_report p

/-- Stopping where nothing has been wrong. -/
theorem stopNesting (hs : Ahead maxDepth depth xs s) : Stopped maxDepth s.stopNesting := by
  have hreport : s.report (.tooDeeplyNested s.maxDepth) =
      { s with
        diagnostics := s.diagnostics.push
          ⟨.tooDeeplyNested s.maxDepth, s.current.lexeme, s.current.position⟩ } := by
    unfold report reportAt
    rw [hs.notCut, if_neg Bool.false_ne_true]
  have hrest : s.current.kind = .finish → s.rest = [] := by
    intro hcurrent
    cases xs with
    | nil => exact hs.spelled.2
    | cons x xs =>
      rw [hs.spelled.kind] at hcurrent
      exact absurd hcurrent x.kind_ne_finish
  rw [stopNesting_eq hs.notCut, hreport, hs.limit, hs.clean]
  refine ⟨?_, ?_, ?_, ?_, ?_⟩
  · rw [cutOff_skipTo]
  · exact kind_current_skipTo _ hs.finish
  · exact rest_skipTo hs.spelled.kind_ne_finish fun h ↦ ⟨hrest h, hrest h⟩
  · rw [finish_skipTo]
    exact hs.finish
  · rw [diagnostics_skipTo]
    exact ⟨_, rfl, rfl⟩

end Ahead

end Parser

end CurveCalc
