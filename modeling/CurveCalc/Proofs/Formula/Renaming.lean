import CurveCalc.Proofs.Formula.ExplicitProducts
import CurveCalc.Proofs.Formula.Leaves

/-!
New names for variables. A text is given them piece by piece (`rename`), and since a name and its
new name both begin with a letter or underscore, nothing changes about what is a piece and where a
star is understood (`splits_rename`). So the symbols are the same but for the names, and with them
the formula. Slots are given to names as these first appear; if no two variables are given the same
name, each keeps its slot (`Expression.program_map`), and the code does not change.
-/

set_option autoImplicit false
set_option relaxedAutoImplicit false

namespace CurveCalc

instance (text : String) (t : Token) : Decidable (t.StandsIn text) :=
  inferInstanceAs (Decidable (_ <+: _))

/-- The token with the new name of the variable, if it is one. -/
def Token.renamed (ρ : String → Word) (t : Token) : String :=
  if t.kind = .identifier then (ρ t.lexeme).text else t.lexeme

/-- The text with new names for its variables. Stars that are understood are no part of it. -/
def rename (ρ : String → Word) (source : String) : String :=
  String.join (((scan source).filter fun t ↦ t.StandsIn source).map (Token.renamed ρ))

def Piece.rename (ρ : String → Word) : Piece → Piece
  | name w => name (if w.kind = .identifier then ρ w.text else w)
  | number n => number n
  | character c hnumeral hstart => character c hnumeral hstart

variable {ρ : String → Word}

/-! The pieces of the new text. -/

namespace Piece

theorem renamed_token (p : Piece) (position : Nat) :
    Token.renamed ρ (p.token position) = (p.rename ρ).text := by
  cases p with
  | number n => rfl
  | name w =>
    change (if w.kind = .identifier then (ρ w.text).text else w.text) =
      (if w.kind = .identifier then ρ w.text else w).text
    split <;> rfl
  | character c hnumeral hstart => exact if_neg (characterKind_ne c).2

/-- The star that is understood in front of a piece does not stand there. -/
theorem not_prefix_star {q : Piece} (hopens : q.opens = true) (rest : List Char) :
    ¬ "*".toList <+: q.chars ++ rest := by
  intro hstar
  obtain ⟨first, more, hchars⟩ := q.chars_eq_cons
  rw [hchars, List.cons_append] at hstar
  obtain ⟨rfl, -⟩ := List.cons_prefix_cons.mp hstar
  rw [opens, hchars] at hopens
  cases hopens

end Piece

/-- The tokens that stand in a text are those of its pieces. -/
theorem map_renamed_standing {text : String} {position : Nat} {ps : List Piece}
    (h : text.toList.drop position = ps.flatMap Piece.chars) :
    ((laidOut position ps).filter fun t ↦ t.StandsIn text).map (Token.renamed ρ) =
      ps.map fun p ↦ (p.rename ρ).text := by
  have hpiece : ∀ {position : Nat} {p : Piece} {ps : List Piece} (ts : List Token),
      text.toList.drop position = (p :: ps).flatMap Piece.chars →
      ((p.token position :: ts).filter fun t ↦ t.StandsIn text) =
        p.token position :: ts.filter fun t ↦ t.StandsIn text := by
    intro position p ps ts h
    refine List.filter_cons_of_pos (decide_eq_true ?_)
    change (String.ofList p.chars).toList <+: text.toList.drop position
    rw [h, String.toList_ofList, List.flatMap_cons]
    exact List.prefix_append _ _
  induction position, ps using laidOut.induct with
  | case1 position => rfl
  | case2 position p =>
    rw [laidOut, hpiece [] h, List.filter_nil, List.map_singleton, p.renamed_token]
    rfl
  | case3 position p q ps behind ih =>
    have hbehind : text.toList.drop behind = (q :: ps).flatMap Piece.chars := by
      change text.toList.drop (position + p.chars.length) = _
      rw [← List.drop_drop, h, List.flatMap_cons, List.drop_left]
    have hstar : (if p.endsValue && q.opens then [Token.star behind] else []).filter
        (fun t ↦ t.StandsIn text) = [] := by
      split
      · rename_i hproduct
        refine List.filter_cons_of_neg (mt of_decide_eq_true fun hstands ↦ ?_)
        have hlexeme : "*".toList <+: text.toList.drop behind := hstands
        rw [hbehind] at hlexeme
        exact Piece.not_prefix_star (Bool.and_eq_true_iff.mp hproduct).2 _ hlexeme
      · rfl
    rw [laidOut, hpiece _ h, List.filter_append, hstar, List.nil_append, List.map_cons, ih hbehind,
      p.renamed_token]
    rfl

theorem toList_rename {source : String} {ps : List Piece} (h : Splits source.toList ps) :
    (rename ρ source).toList = (ps.map (Piece.rename ρ)).flatMap Piece.chars := by
  have htexts : ((scan source).filter fun t ↦ t.StandsIn source).map (Token.renamed ρ) =
      (ps.map (Piece.rename ρ)).map Piece.text := by
    rw [scan_eq_laidOut h, List.map_map]
    exact map_renamed_standing (by rw [List.drop_zero, h.flatMap_chars])
  rw [rename, htexts, toList_join_text]

/-- The same character, or letters and underscores both. -/
def Alike (c c' : Char) : Prop := c = c' ∨ isNameStart c = true ∧ isNameStart c' = true

theorem Alike.isNumeral {c c' : Char} (h : Alike c c') (hc' : isNumeral c' = false) :
    isNumeral c = false := by
  rcases h with rfl | ⟨hstart, -⟩
  · exact hc'
  · exact isNumeral_of_isNameStart hstart

theorem Alike.isNamePart {c c' : Char} (h : Alike c c') (hc' : isNamePart c' = false) :
    isNamePart c = false := by
  rcases h with rfl | ⟨-, hstart⟩
  · exact hc'
  · rw [CurveCalc.isNamePart, hstart, Bool.true_or] at hc'
    cases hc'

/-- Where a piece of the new text begins, one of the old text did, with a character that is alike.
-/
theorem first_rename {ps : List Piece} {c : Char} {more : List Char}
    (h : (ps.map (Piece.rename ρ)).flatMap Piece.chars = c :: more) :
    ∃ c' more', ps.flatMap Piece.chars = c' :: more' ∧ Alike c c' := by
  cases ps with
  | nil => cases h
  | cons p ps =>
    rw [List.map_cons, List.flatMap_cons] at h
    rw [List.flatMap_cons]
    cases p with
    | name w =>
      refine ⟨w.first, _, rfl, Or.inr ⟨?_, w.isNameStart_first⟩⟩
      rw [← (List.cons_eq_cons.mp h).1]
      exact Word.isNameStart_first _
    | number n =>
      obtain ⟨first, digits, hchars⟩ := (Piece.number n).chars_eq_cons
      rw [Piece.rename, hchars] at h
      rw [hchars]
      exact ⟨first, _, rfl, Or.inl (List.cons_eq_cons.mp h).1.symm⟩
    | character d hnumeral hstart => exact ⟨d, _, rfl, Or.inl (List.cons_eq_cons.mp h).1.symm⟩

theorem point_rename {ps : List Piece} {c : Char} {more : List Char}
    (h : (ps.map (Piece.rename ρ)).flatMap Piece.chars = '.' :: c :: more) :
    ∃ c' more', ps.flatMap Piece.chars = '.' :: c' :: more' ∧ Alike c c' := by
  cases ps with
  | nil => cases h
  | cons p ps =>
    rw [List.map_cons, List.flatMap_cons] at h
    have hpoint := (Piece.of_point h).1
    have hsame : p.chars = ['.'] := by
      cases p with
      | name w =>
        have hstart := (if w.kind = .identifier then ρ w.text else w).isNameStart_first
        rw [(List.cons_eq_cons.mp hpoint).1] at hstart
        cases hstart
      | number n => exact hpoint
      | character d hnumeral hstart => exact hpoint
    rw [hpoint] at h
    obtain ⟨c', more', hmore, halike⟩ := first_rename (List.cons_eq_cons.mp h).2
    exact ⟨c', more', by rw [List.flatMap_cons, hsame, hmore]; rfl, halike⟩

theorem Piece.Ends.rename {p : Piece} {ps : List Piece} (h : p.Ends (ps.flatMap Piece.chars)) :
    (p.rename ρ).Ends ((ps.map (Piece.rename ρ)).flatMap Piece.chars) := by
  have hdigits : (∀ c more, ps.flatMap Piece.chars = c :: more → isNumeral c = false) →
      ∀ c more, (ps.map (Piece.rename ρ)).flatMap Piece.chars = c :: more →
        isNumeral c = false := by
    intro h c more hmore
    obtain ⟨c', more', hmore', halike⟩ := first_rename hmore
    exact halike.isNumeral (h c' more' hmore')
  cases p with
  | number n =>
    cases n with
    | whole w =>
      refine ⟨hdigits h.1, fun c more hmore ↦ ?_⟩
      obtain ⟨c', more', hmore', halike⟩ := point_rename hmore
      exact halike.isNumeral (h.2 c' more' hmore')
    | fraction w places => exact hdigits h
  | name w =>
    intro c more hmore
    obtain ⟨c', more', hmore', halike⟩ := first_rename hmore
    exact halike.isNamePart (h c' more' hmore')
  | character c hnumeral hstart => trivial

theorem separated_rename {ps : List Piece} (h : Separated ps) :
    Separated (ps.map (Piece.rename ρ)) := by
  induction ps with
  | nil => trivial
  | cons p ps ih => exact ⟨h.1.rename, ih h.2⟩

theorem splits_rename {source : String} {ps : List Piece} (h : Splits source.toList ps) :
    Splits (rename ρ source).toList (ps.map (Piece.rename ρ)) :=
  splits_iff.mpr ⟨(toList_rename h).symm, separated_rename h.separated⟩

/-! What the new text says. -/

theorem Symbol.map_of_kind_ne {κ ν : Type} {x : Symbol κ ν} (g : ν → ν)
    (h : x.kind ≠ .identifier) : x.map id g = x := by
  cases x with
  | identifier v => exact absurd rfl h
  | _ => rfl

/-- If the piece is a variable, its new name is one for a variable. -/
def Piece.Suits (ρ : String → Word) (p : Piece) : Prop :=
  ∀ w, p = .name w → w.kind = .identifier → (ρ w.text).kind = .identifier

namespace Piece

variable {p : Piece}

theorem rename_of_kind_ne (h : p.kind ≠ .identifier) : p.rename ρ = p := by
  cases p with
  | name w => exact congrArg name (if_neg h)
  | _ => rfl

theorem kind_rename (hp : p.Suits ρ) : (p.rename ρ).kind = p.kind := by
  by_cases hkind : p.kind = .identifier
  · cases p with
    | number n => cases hkind
    | name w =>
      change (if w.kind = .identifier then ρ w.text else w).kind = w.kind
      rw [if_pos (show w.kind = .identifier from hkind), hp w rfl hkind]
      exact hkind.symm
    | character c hnumeral hstart => exact absurd hkind (characterKind_ne c).2
  · rw [rename_of_kind_ne hkind]

theorem endsValue_rename (hp : p.Suits ρ) : (p.rename ρ).endsValue = p.endsValue := by
  rw [endsValue, endsValue, kind_rename hp]

theorem opens_rename (p : Piece) : (p.rename ρ).opens = p.opens := by
  have hname : ∀ w : Word, (name w).opens = true := fun w ↦ by
    change (isNameStart w.first || w.first == '(') = true
    rw [w.isNameStart_first, Bool.true_or]
  cases p with
  | name w => rw [rename, hname, hname]
  | _ => rfl

/-- The new piece says the same, but for the name. -/
theorem symbol?_rename (hp : p.Suits ρ) : ((p.rename ρ).token 0).symbol? =
    (p.token 0).symbol?.map (Symbol.map id fun v ↦ (ρ v).text) := by
  by_cases hkind : p.kind = .identifier
  · have hnew : (p.rename ρ).kind = .identifier := (kind_rename hp).trans hkind
    rw [Token.symbol?_identifier (t := p.token 0) hkind,
      Token.symbol?_identifier (t := (p.rename ρ).token 0) hnew]
    have hlexeme : (p.rename ρ).text = (ρ p.text).text := by
      rw [← p.renamed_token 0]
      exact if_pos hkind
    exact congrArg (some ∘ Symbol.identifier) hlexeme
  · rw [rename_of_kind_ne hkind]
    cases hx : (p.token 0).symbol? with
    | none => rfl
    | some x =>
      have hsymbol : x.kind ≠ .identifier := by
        rw [← Token.kind_of_symbol? hx]
        exact hkind
      rw [Option.map_some, Symbol.map_of_kind_ne _ hsymbol]

end Piece

theorem suits_star : Piece.star.Suits ρ := nofun

/-- Stars are understood at the same places. -/
theorem starred_rename {ps : List Piece} (h : ∀ p ∈ ps, p.Suits ρ) :
    starred (ps.map (Piece.rename ρ)) = (starred ps).map (Piece.rename ρ) := by
  induction ps using starred.induct with
  | case1 => rfl
  | case2 p => rfl
  | case3 p q ps ih =>
    obtain ⟨hp, hmore⟩ := List.forall_mem_cons.mp h
    have hrest := ih hmore
    rw [List.map_cons] at hrest
    rw [List.map_cons, List.map_cons, starred, starred, Piece.endsValue_rename hp, q.opens_rename,
      hrest, List.map_cons, List.map_append]
    split <;> rfl

theorem sublist_starred (ps : List Piece) : ps.Sublist (starred ps) := by
  induction ps using starred.induct with
  | case1 => exact List.Sublist.refl _
  | case2 p => exact List.Sublist.refl _
  | case3 p q ps ih =>
    rw [starred]
    exact (ih.trans (List.sublist_append_right _ _)).cons_cons p

theorem symbols_scan {source : String} {ps : List Piece} (h : Splits source.toList ps) :
    (scan source).map Token.symbol? = (starred ps).map fun p ↦ (p.token 0).symbol? := by
  have hunplaced := congrArg (List.map Token.symbol?) (unplaced_laidOut 0 ps)
  rw [List.map_map, List.map_map] at hunplaced
  rw [scan_eq_laidOut h]
  exact hunplaced

theorem symbols_scan_rename {source : String} {ps : List Piece} (h : Splits source.toList ps)
    (hsuits : ∀ p ∈ ps, p.Suits ρ) : (scan (rename ρ source)).map Token.symbol? =
      ((scan source).map Token.symbol?).map
        (Option.map (Symbol.map id fun v ↦ (ρ v).text)) := by
  rw [symbols_scan (splits_rename h), symbols_scan h, starred_rename hsuits, List.map_map,
    List.map_map]
  refine List.map_congr_left fun p hp ↦ Piece.symbol?_rename ?_
  rcases mem_starred hp with rfl | hp
  · exact suits_star
  · exact hsuits p hp

theorem isBlank_rename {source : String} (h : ∀ c ∈ source.toList, Text.isBlank c = false) :
    ∀ c ∈ (rename ρ source).toList, Text.isBlank c = false := by
  obtain ⟨ps, hps⟩ := exists_splits source.toList
  intro c hc
  rw [toList_rename hps, List.flatMap_map] at hc
  obtain ⟨p, hp, hc⟩ := List.mem_flatMap.mp hc
  have hold : ∀ c ∈ p.chars, Text.isBlank c = false := fun c hc ↦
    h c (hps.flatMap_chars ▸ List.mem_flatMap.mpr ⟨p, hp, hc⟩)
  cases p with
  | name w => exact isBlank_of_isNamePart (Word.isNamePart_chars _ c hc)
  | _ => exact hold c hc

/-! Names and slots. -/

/-- No two of the variables are given the same name. -/
def Distinct (ρ : String → Word) (vs : List String) : Prop :=
  ∀ v ∈ vs, ∀ w ∈ vs, (ρ v).text = (ρ w).text → v = w

theorem eraseDups_rename {vs : List String} (h : Distinct ρ vs) :
    (vs.map fun v ↦ (ρ v).text).eraseDups = vs.eraseDups.map fun v ↦ (ρ v).text := by
  induction vs using List.reverseRecOn with
  | nil => rfl
  | append_singleton vs v ih =>
    have hmore : ∀ w ∈ vs, w ∈ vs ++ [v] := fun w ↦ List.mem_append_left _
    have hread := ih fun w hw u hu ↦ h w (hmore w hw) u (hmore u hu)
    rw [List.map_append, List.map_singleton]
    by_cases hv : v ∈ vs
    · rw [eraseDups_concat_of_mem hv, eraseDups_concat_of_mem (List.mem_map_of_mem hv), hread]
    · have hnew : (ρ v).text ∉ vs.map fun v ↦ (ρ v).text := by
        intro hmem
        obtain ⟨w, hw, hsame⟩ := List.mem_map.mp hmem
        have hlast : v ∈ vs ++ [v] := List.mem_append_right _ List.mem_cons_self
        exact hv (h w (hmore w hw) v hlast hsame ▸ hw)
      rw [eraseDups_concat_of_notMem hv, eraseDups_concat_of_notMem hnew, hread, List.map_append,
        List.map_singleton]

/-- A variable keeps its slot. -/
theorem idxOf_rename {vs : List String} (h : Distinct ρ vs) {v : String} (hv : v ∈ vs) :
    (vs.map fun v ↦ (ρ v).text).idxOf (ρ v).text = vs.idxOf v := by
  induction vs with
  | nil => cases hv
  | cons w vs ih =>
    rw [List.map_cons, List.idxOf_cons, List.idxOf_cons]
    by_cases hsame : w = v
    · rw [hsame, beq_self_eq_true, beq_self_eq_true, cond_true, cond_true]
    · have hother : (ρ w).text ≠ (ρ v).text := mt (h w List.mem_cons_self v hv) hsame
      have hmem : v ∈ vs := List.mem_of_ne_of_mem (Ne.symm hsame) hv
      have hmore : Distinct ρ vs := fun u hu u' hu' ↦
        h u (List.mem_cons_of_mem w hu) u' (List.mem_cons_of_mem w hu')
      rw [beq_false_of_ne hother, beq_false_of_ne hsame, cond_false, cond_false, ih hmore hmem]

/-- The program with new names for its variables. -/
def Program.rename {α : Type} (ρ : String → Word) (p : Program α) : Program α :=
  ⟨p.code, p.names.map fun v ↦ (ρ v).text⟩

/-- The code of a tree stays the same when its variables are given new names. -/
theorem Expression.program_map (e : Expression Literal String) (h : Distinct ρ e.vars) :
    (e.map id fun v ↦ (ρ v).text).program = e.program.rename ρ := by
  have hnames : (e.map id fun v ↦ (ρ v).text).names = e.names.map fun v ↦ (ρ v).text := by
    rw [names, vars_map, eraseDups_rename h, names]
  have hslots : (e.map id fun v ↦ (ρ v).text).slotted = e.slotted := by
    rw [slotted, hnames, map_map, slotted]
    refine Expression.map_congr _ fun v hv ↦ idxOf_rename ?_ (List.mem_eraseDups.mpr hv)
    exact fun w hw u hu ↦ h w (List.mem_eraseDups.mp hw) u (List.mem_eraseDups.mp hu)
  rw [program, hnames, hslots]
  rfl

/-- Folding does not look at the names. -/
theorem Program.fold_rename {α : Type} [Primitives α] (p : Program α) :
    (p.rename ρ).fold = p.fold.map (Program.rename ρ) := by
  by_cases hcode : p.code = []
  · unfold fold rename
    rw [hcode]
    rfl
  · rw [fold_eq p hcode, fold_eq (p.rename ρ) hcode]
    change (Folded.steps p.code []).map _ = _
    cases Folded.steps p.code [] <;> rfl

/-- Every name of a variable in a text is that of a token. -/
theorem exists_token {source : String} {ps : List Piece} (h : Splits source.toList ps) {w : Word}
    (hw : .name w ∈ ps) : ∃ t ∈ scan source, t.kind = w.kind ∧ t.lexeme = w.text := by
  have hmem : (Piece.name w).token 0 ∈ (scan source).map Token.unplaced := by
    rw [scan_eq_laidOut h, unplaced_laidOut]
    exact List.mem_map_of_mem ((sublist_starred ps).subset hw)
  obtain ⟨t, ht, hsame⟩ := List.mem_map.mp hmem
  exact ⟨t, ht, congrArg Token.kind hsame, congrArg Token.lexeme hsame⟩

/-- A text without blanks is compiled to the same code when its variables are given new names, no
two of them the same and none that of a constant or function; and each slot has the new name of its
variable. The folded code is the same as well, or folding fails in the same way. -/
theorem compile_rename {maxDepth : Int} {source : String} {p : Program Float}
    (hblank : ∀ c ∈ source.toList, Text.isBlank c = false)
    (h : compile maxDepth source = .ok p)
    (hfree : ∀ v ∈ p.names, (ρ v).text ≠ "pi" ∧ (ρ v).text ≠ "e" ∧
      (ρ v).text ∉ Builtin.all.map Builtin.name) (hdistinct : Distinct ρ p.names) :
    compile maxDepth (rename ρ source) = .ok (p.rename ρ) ∧
      (p.rename ρ).fold = p.fold.map (Program.rename ρ) := by
  refine ⟨?_, p.fold_rename⟩
  rcases compile_cases maxDepth source with ⟨t, hspelled, hgrouped, hwidth, hdepth, hok⟩ |
    ⟨e, herr, -⟩
  · rw [h] at hok
    cases hok
    obtain ⟨ps, hps⟩ := exists_splits source.toList
    have hvars : ∀ v ∈ t.expression.vars, v ∈ t.expression.program.names :=
      fun v hv ↦ List.mem_eraseDups.mpr hv
    have hsuits : ∀ q ∈ ps, q.Suits ρ := by
      rintro q hq w rfl hkind
      obtain ⟨u, hu, hukind, hlexeme⟩ := exists_token hps hq
      have hwritten : w.text ∈ writtenNames source := by
        rw [writtenNames, withoutBlanks_eq hblank, ← hlexeme]
        exact List.mem_map_of_mem (List.mem_filter.mpr ⟨hu, decide_eq_true (hukind.trans hkind)⟩)
      rw [hspelled.writtenNames] at hwritten
      obtain ⟨hpi, he, hfunction⟩ := hfree _ (hvars _ hwritten)
      rw [Word.kind, if_neg (not_or.mpr ⟨hpi, he⟩), if_neg hfunction]
    have hrenamed : SpelledBy (rename ρ source) (t.map id fun v ↦ (ρ v).text).symbols := by
      unfold SpelledBy at hspelled ⊢
      rw [withoutBlanks_eq hblank] at hspelled
      rw [withoutBlanks_eq (isBlank_rename hblank), symbols_scan_rename hps hsuits, hspelled,
        t.symbols_map, List.map_map, List.map_map]
      rfl
    rw [compile_of_spelledBy hrenamed (hgrouped.map _ _) (by rwa [t.width_map])
      (by rwa [t.depth_map]), t.expression_map, Expression.program_map]
    exact fun v hv w hw ↦ hdistinct v (hvars v hv) w (hvars w hw)
  · rw [h] at herr
    cases herr

/-- A number does not go on with the letter of a new name, nor with the digit behind it. -/
theorem compile_rename_digits :
    ∃ p, compile 100 "x+2y" = .ok p ∧ p.names = ["x", "y"] ∧
      compile 100 "y+2e1" = .ok ⟨p.code, ["y", "e1"]⟩ ∧
      ∀ q, p.fold = .ok q → (Program.mk p.code ["y", "e1"]).fold = .ok ⟨q.code, ["y", "e1"]⟩ := by
  let ρ : String → Word := fun v ↦
    if v = "x" then ⟨'y', [], by decide, List.forall_mem_nil _⟩
    else ⟨'e', ['1'], by decide, List.forall_mem_singleton.mpr rfl⟩
  let e : Expression Literal String :=
    .binary .add (.var "x") (.binary .multiply (.constant (.decimal ⟨2, 0⟩)) (.var "y"))
  have h : compile 100 "x+2y" = .ok e.program := by
    rw [← e.expression_formula]
    exact compile_of_spelledBy (by unfold SpelledBy; decide +kernel) e.wellGrouped_formula
      (by decide) (by decide)
  have hdistinct : Distinct ρ e.program.names := by
    unfold Distinct
    decide +kernel
  have hall : "x+2y".toList.all (fun c ↦ !Text.isBlank c) = true := by decide
  have hblank : ∀ c ∈ "x+2y".toList, Text.isBlank c = false := fun c hc ↦
    (Bool.not_eq_true' _).mp (List.all_eq_true.mp hall c hc)
  obtain ⟨hcompile, hfold⟩ := compile_rename hblank h (by decide +kernel) hdistinct
  have htext : rename ρ "x+2y" = "y+2e1" := by decide +kernel
  rw [htext] at hcompile
  refine ⟨_, h, by decide, hcompile, fun q hq ↦ ?_⟩
  obtain ⟨stack, -, -, rfl⟩ := Program.exists_of_fold hq
  exact hfold.trans (congrArg (Except.map (Program.rename ρ)) hq)

end CurveCalc
