import CurveCalc.Proofs.Formula.Pieces
import CurveCalc.Proofs.Formula.Symbol

/-!
What is read from a text. The scanner knows no pieces but only the next character and whether a
value was read last. That it gives the tokens of the pieces nevertheless, one after the other and
then the end for ever, is `scan_pieces`; it rests on what the next piece makes of the cursor
(`Cursor.next_piece`). Every token says something, unless it is a character that belongs to none
(`Cursor.tokens_cases`).
-/

set_option autoImplicit false
set_option relaxedAutoImplicit false

namespace CurveCalc

/-! What the scanner knows of characters and names. -/

theorem nameLength_append {word rest : List Char} (hword : ∀ c ∈ word, isNamePart c = true)
    (hrest : ∀ c more, rest = c :: more → isNamePart c = false) :
    nameLength (word ++ rest) = word.length := by
  unfold nameLength
  rw [List.takeWhile_append_of_pos hword]
  cases rest with
  | nil => rw [List.takeWhile_nil, List.append_nil]
  | cons c more =>
    rw [List.takeWhile_cons, hrest c more rfl, if_neg Bool.false_ne_true, List.append_nil]

theorem classifyName_cases (name : String) :
    (∃ c, classifyName name = (.number, .constant c)) ∨
    (∃ f, classifyName name = (.function, .function f)) ∨
    classifyName name = (.identifier, .absent) := by
  unfold classifyName
  cases NamedConstant.ofName? name with
  | some c => exact Or.inl ⟨c, rfl⟩
  | none =>
    cases Builtin.ofName? name with
    | some f => exact Or.inr (Or.inl ⟨f, rfl⟩)
    | none => exact Or.inr (Or.inr rfl)

theorem characterKind_of_symbolKind? {c : Char} {kind : TokenKind} (h : symbolKind? c = some kind) :
    characterKind c = kind ∧ kind ≠ .error ∧ kind ≠ .number ∧ kind ≠ .identifier := by
  unfold symbolKind? at h
  repeat' split at h
  all_goals
    first
    | rename_i hc
      subst hc
      cases h
      decide
    | cases h

theorem characterKind_eq_error {c : Char} (h : symbolKind? c = none) (hparen : c ≠ '(') :
    characterKind c = .error := by
  unfold characterKind
  split
  case h_8 => exact absurd rfl hparen
  case h_11 => rfl
  all_goals cases h

theorem Word.kind_eq (w : Word) : w.kind = (classifyName w.text).1 := by
  unfold kind classifyName NamedConstant.ofName?
  by_cases hpi : w.text = "pi"
  · rw [if_pos (Or.inl hpi), if_pos hpi]
  by_cases he : w.text = "e"
  · rw [if_pos (Or.inr he), if_neg hpi, if_pos he]
  rw [if_neg (not_or.mpr ⟨hpi, he⟩), if_neg hpi, if_neg he]
  cases hf : Builtin.ofName? w.text with
  | some f =>
    have hname : f.name = w.text := by simpa using List.find?_some hf
    exact if_pos (hname ▸ List.mem_map_of_mem f.mem_all)
  | none =>
    refine if_neg fun hmem ↦ ?_
    obtain ⟨f, hf', hname⟩ := List.mem_map.mp hmem
    have hother := List.find?_eq_none.mp hf f hf'
    simp [hname] at hother

theorem Word.endsValue_eq (w : Word) : (Piece.name w).endsValue = (w.kind != .function) := by
  rw [Piece.endsValue, Piece.kind, w.kind_eq]
  rcases classifyName_cases w.text with ⟨k, h⟩ | ⟨f, h⟩ | h <;> rw [h] <;> rfl

/-! Reading the pieces. -/

namespace Cursor

/-- The token that is read after so many others. -/
def reading (c : Cursor) : Nat → Token
  | 0 => c.next.1
  | n + 1 => c.next.2.reading n

variable {c : Cursor} {rest : List Char}

theorem tokens_nil {c : Cursor} (h : c.rest = []) : c.tokens = [] := by
  unfold tokens
  exact dif_pos h

theorem tokens_cons {c : Cursor} (h : c.rest ≠ []) : c.tokens = c.next.1 :: c.next.2.tokens := by
  rw [tokens]
  exact dif_neg h

theorem next_number {n : Numeral} (hrest : c.rest = n.chars ++ rest) (hends : n.Ends rest) :
    c.nextNumber =
      ((Piece.number n).token c.position, ⟨rest, c.position + n.chars.length, true⟩) := by
  unfold nextNumber token skip
  dsimp only
  rw [hrest, n.numberLength_append hends, List.take_left, List.drop_left]
  rfl

theorem next_name {w : Word} (hrest : c.rest = w.chars ++ rest)
    (hends : ∀ d more, rest = d :: more → isNamePart d = false) :
    c.nextName = ((Piece.name w).token c.position,
      ⟨rest, c.position + w.chars.length, (Piece.name w).endsValue⟩) := by
  have hlength : nameLength c.rest = w.chars.length := by
    rw [hrest, nameLength_append w.isNamePart_chars hends]
  unfold nextName token skip
  dsimp only
  rw [hlength, hrest, List.take_left, List.drop_left, ← Word.text, ← w.kind_eq, w.endsValue_eq]
  rfl

/-- What the next piece makes of the cursor: it is read over, unless a star is understood before it.
-/
theorem next_piece {p : Piece} (hrest : c.rest = p.chars ++ rest) (hends : p.Ends rest) :
    c.next = if c.afterValue && p.opens then
        (Token.star c.position, ⟨c.rest, c.position, false⟩)
      else (p.token c.position, ⟨rest, c.position + p.chars.length, p.endsValue⟩) := by
  obtain ⟨first, more, hchars⟩ := p.chars_eq_cons
  have hfront : c.rest = first :: (more ++ rest) := by rw [hrest, hchars, List.cons_append]
  have hstar : c.impliesStar first = (c.afterValue && p.opens) := by
    rw [impliesStar, Piece.opens, hchars]
    rfl
  unfold next
  rw [hfront]
  dsimp only
  rw [hstar]
  by_cases hopens : (c.afterValue && p.opens) = true
  · rw [if_pos hopens, if_pos hopens, ← hfront]
    rfl
  rw [if_neg hopens, if_neg hopens]
  cases p with
  | number n =>
    obtain ⟨digit, digits, hdigits, hdigit⟩ := n.chars_eq_cons
    obtain ⟨rfl, -⟩ := List.cons_eq_cons.mp (hchars.symm.trans hdigits)
    rw [if_pos hdigit]
    exact next_number hrest hends
  | name w =>
    obtain ⟨rfl, -⟩ := List.cons_eq_cons.mp hchars
    have hnumeral : isNumeral w.first = false := isNumeral_of_isNameStart w.isNameStart_first
    rw [if_neg (ne_true_of_eq_false hnumeral), if_pos w.isNameStart_first]
    exact next_name hrest hends
  | character d hnumeral hstart =>
    obtain ⟨rfl, rfl⟩ := List.cons_eq_cons.mp hchars
    rw [if_neg (ne_true_of_eq_false hnumeral), if_neg (ne_true_of_eq_false hstart)]
    have hread : ∀ kind value b, (c.token 1 kind value, c.skip 1 b) =
        ((⟨kind, String.ofList [d], c.position, value⟩ : Token),
          (⟨rest, c.position + 1, b⟩ : Cursor)) := by
      intro kind value b
      rw [token, skip, hfront]
      rfl
    by_cases hparen : d = '('
    · subst hparen
      rw [if_pos rfl, hread]
      rfl
    rw [if_neg hparen]
    cases hkind : symbolKind? d with
    | some kind =>
      obtain ⟨hcharacter, hproper, hnumber, hvariable⟩ := characterKind_of_symbolKind? hkind
      dsimp only
      rw [hread, Piece.token, Piece.endsValue, Piece.value, Piece.kind, hcharacter, if_neg hproper,
        beq_false_of_ne hnumber, beq_false_of_ne hvariable, Bool.false_or, Bool.false_or]
      rfl
    | none =>
      have hcharacter := characterKind_eq_error hkind hparen
      dsimp only
      rw [hread, Piece.token, Piece.endsValue, Piece.value, Piece.kind, hcharacter, if_pos rfl]
      rfl

/-- A piece is read over where no star is understood before it. -/
theorem next_of_plain {p : Piece} (hrest : c.rest = p.chars ++ rest) (hends : p.Ends rest)
    (hplain : (c.afterValue && p.opens) = false) :
    c.next = (p.token c.position, ⟨rest, c.position + p.chars.length, p.endsValue⟩) := by
  rw [next_piece hrest hends, if_neg (ne_true_of_eq_false hplain)]

theorem rest_ne_nil_of_piece {p : Piece} (hrest : c.rest = p.chars ++ rest) : c.rest ≠ [] := by
  rw [hrest]
  exact List.append_ne_nil_of_left_ne_nil p.chars_ne_nil rest

/-- A piece is read after the star before it, if one is understood there. -/
theorem tokens_piece {p : Piece} (hrest : c.rest = p.chars ++ rest) (hends : p.Ends rest) :
    c.tokens = (if c.afterValue && p.opens then [Token.star c.position] else []) ++
      p.token c.position :: tokens ⟨rest, c.position + p.chars.length, p.endsValue⟩ := by
  have hne := rest_ne_nil_of_piece hrest
  by_cases hopens : (c.afterValue && p.opens) = true
  · have hplain : next ⟨c.rest, c.position, false⟩ =
        (p.token c.position, ⟨rest, c.position + p.chars.length, p.endsValue⟩) :=
      next_of_plain hrest hends rfl
    rw [tokens_cons hne, next_piece hrest hends, if_pos hopens, if_pos hopens]
    dsimp only
    rw [tokens_cons (c := ⟨c.rest, c.position, false⟩) hne, hplain]
    rfl
  · rw [tokens_cons hne, next_of_plain hrest hends (eq_false_of_ne_true hopens), if_neg hopens]
    rfl

/-- The tokens of pieces, from a cursor in front of them. -/
theorem tokens_pieces {p : Piece} {ps : List Piece} (hrest : c.rest = (p :: ps).flatMap Piece.chars)
    (hseparated : Separated (p :: ps)) :
    c.tokens = (if c.afterValue && p.opens then [Token.star c.position] else []) ++
      laidOut c.position (p :: ps) := by
  induction ps generalizing c p with
  | nil =>
    have hpiece := tokens_piece hrest hseparated.1
    rw [hpiece, tokens_nil rfl]
    rfl
  | cons q ps ih =>
    have hpiece := tokens_piece hrest hseparated.1
    rw [hpiece, ih rfl hseparated.2]
    rfl

theorem total_next (h : c.rest ≠ []) :
    c.next.2.position + c.next.2.rest.length = c.position + c.rest.length := by
  obtain ⟨p, rest, hrest, hlongest⟩ := exists_longest h
  rw [hrest] at hlongest
  rw [next_piece hrest (Piece.ends_of_longest hlongest)]
  by_cases hopens : (c.afterValue && p.opens) = true
  · rw [if_pos hopens]
  · rw [if_neg hopens, hrest, List.length_append]
    exact Nat.add_assoc _ _ _

theorem reading_nil (h : c.rest = []) (n : Nat) : c.reading n = Token.finish c.position := by
  have hnext : c.next = (Token.finish c.position, c) := by
    unfold next
    rw [h]
  induction n with
  | zero => rw [reading, hnext]
  | succ n ih => rw [reading, hnext, ih]

/-- Every token is read in its turn, and behind the last one the end. -/
theorem reading_eq (c : Cursor) (n : Nat) :
    c.reading n = c.tokens[n]?.getD (Token.finish (c.position + c.rest.length)) := by
  induction c using Cursor.tokens.induct generalizing n with
  | case1 c h =>
    rw [reading_nil h, tokens_nil h, h]
    rfl
  | case2 c h ih =>
    rw [tokens_cons h]
    cases n with
    | zero => rfl
    | succ n => rw [reading, ih, total_next h, List.getElem?_cons_succ]

end Cursor

/-- A piece is the longest where nothing goes on with it, since the cursor cannot read two pieces of
different lengths. -/
theorem Piece.longest_of_ends {p : Piece} {rest : List Char} (hends : p.Ends rest) :
    ∀ q : Piece, q.chars <+: p.chars ++ rest → q.chars.length ≤ p.chars.length := by
  intro q hq
  have hne := Cursor.rest_ne_nil_of_piece (c := ⟨p.chars ++ rest, 0, false⟩) rfl
  obtain ⟨longest, behind, hsplit, hlongest⟩ := exists_longest hne
  have hread : Cursor.next ⟨p.chars ++ rest, 0, false⟩ =
      (p.token 0, ⟨rest, 0 + p.chars.length, p.endsValue⟩) := Cursor.next_piece rfl hends
  have hbehind : longest.Ends behind := ends_of_longest fun other hother ↦
    hlongest other (hsplit ▸ hother)
  have hother := Cursor.next_piece (c := ⟨p.chars ++ rest, 0, false⟩) hsplit hbehind
  have hlength : p.chars.length = longest.chars.length := by
    have hposition := congrArg (fun r ↦ r.2.position) (hread.symm.trans hother)
    simpa using hposition
  rw [hlength]
  exact hlongest q hq

theorem splits_iff {chars : List Char} {ps : List Piece} :
    Splits chars ps ↔ ps.flatMap Piece.chars = chars ∧ Separated ps := by
  refine ⟨fun h ↦ ⟨h.flatMap_chars, h.separated⟩, ?_⟩
  rintro ⟨rfl, hseparated⟩
  induction ps with
  | nil => exact .nil
  | cons p ps ih => exact .cons (Piece.longest_of_ends hseparated.1) (ih hseparated.2)

theorem scan_eq_laidOut {source : String} {ps : List Piece} (h : Splits source.toList ps) :
    scan source = laidOut 0 ps := by
  cases ps with
  | nil => exact Cursor.tokens_nil h.flatMap_chars.symm
  | cons p ps => exact Cursor.tokens_pieces h.flatMap_chars.symm h.separated

/-! What tokens say. -/

theorem Piece.symbol?_token_number (n : Numeral) (position : Nat) :
    ((Piece.number n).token position).symbol? = some (.number (.decimal n.decimal)) := by
  change (Option.map Literal.decimal
    (Number.readDecimal? (String.ofList n.chars).toList)).map Symbol.number = _
  rw [String.toList_ofList, n.readDecimal?_chars]
  rfl

/-- The token of a piece says something, or is a character that belongs to no token. -/
theorem Piece.token_cases (p : Piece) (position : Nat) :
    (p.token position).kind = .error ∨ ∃ x, (p.token position).symbol? = some x := by
  cases p with
  | number n => exact Or.inr ⟨_, symbol?_token_number n position⟩
  | name w =>
    have htoken : (name w).token position =
        ⟨(classifyName w.text).1, w.text, position, (classifyName w.text).2⟩ := by
      rw [← w.kind_eq]
      rfl
    rw [htoken]
    rcases classifyName_cases w.text with ⟨k, h⟩ | ⟨f, h⟩ | h
    · rw [h]
      exact Or.inr ⟨_, rfl⟩
    · rw [h]
      exact Or.inr ⟨_, rfl⟩
    · rw [h]
      exact Or.inr ⟨_, rfl⟩
  | character c hnumeral hstart =>
    have hkind : ((character c hnumeral hstart).token position).kind = characterKind c := rfl
    unfold Token.symbol?
    rw [hkind]
    unfold characterKind
    split <;> first | exact Or.inl rfl | exact Or.inr ⟨_, rfl⟩

namespace Cursor

variable {P : Token → Prop}

theorem next_induction (hstar : ∀ position, P (Token.star position))
    (hpiece : ∀ (p : Piece) position, P (p.token position)) {c : Cursor} (h : c.rest ≠ []) :
    P c.next.1 := by
  obtain ⟨p, rest, hrest, hlongest⟩ := exists_longest h
  rw [hrest] at hlongest
  rw [next_piece hrest (Piece.ends_of_longest hlongest)]
  split
  · exact hstar _
  · exact hpiece p _

/-- What is true of stars and of the tokens of pieces is true of every token. -/
theorem tokens_induction (hstar : ∀ position, P (Token.star position))
    (hpiece : ∀ (p : Piece) position, P (p.token position)) (c : Cursor) : ∀ t ∈ c.tokens, P t := by
  induction c using Cursor.tokens.induct with
  | case1 c h =>
    rw [tokens_nil h]
    exact fun t ht ↦ absurd ht List.not_mem_nil
  | case2 c h ih =>
    rw [tokens_cons h]
    exact List.forall_mem_cons.mpr ⟨next_induction hstar hpiece h, ih⟩

/-- Every token says something, or is a character that belongs to no token. -/
theorem tokens_cases (c : Cursor) :
    ∀ t ∈ c.tokens, t.kind = .error ∨ ∃ x, t.symbol? = some x :=
  c.tokens_induction (fun _ ↦ Or.inr ⟨.operator .multiply, rfl⟩) Piece.token_cases

end Cursor

theorem exists_map_symbol? {ts : List Token} (h : ∀ t ∈ ts, ∃ x, t.symbol? = some x) :
    ∃ xs : List (Symbol Literal String), ts.map Token.symbol? = xs.map some := by
  induction ts with
  | nil => exact ⟨[], rfl⟩
  | cons t ts ih =>
    obtain ⟨x, hx⟩ := h t List.mem_cons_self
    obtain ⟨xs, hxs⟩ := ih fun u hu ↦ h u (List.mem_cons_of_mem t hu)
    exact ⟨x :: xs, by rw [List.map_cons, hx, hxs, List.map_cons]⟩

/-- Without characters that belong to no token, the tokens of a text say something each. -/
theorem exists_symbols {text : String} (h : ∀ t ∈ scan text, t.kind ≠ .error) :
    ∃ xs : List (Symbol Literal String), (scan text).map Token.symbol? = xs.map some :=
  exists_map_symbol? fun t ht ↦ (Cursor.tokens_cases _ t ht).resolve_left (h t ht)

theorem Token.kind_ne_finish_of_cases {t : Token}
    (ht : t.kind = .error ∨ ∃ x, t.symbol? = some x) : t.kind ≠ .finish := by
  rcases ht with herror | ⟨x, hx⟩
  · rw [herror]
    exact TokenKind.noConfusion
  · rw [kind_of_symbol? hx]
    exact x.kind_ne_finish

theorem kind_ne_finish_of_mem_scan {text : String} : ∀ t ∈ scan text, t.kind ≠ .finish :=
  fun t ht ↦ Token.kind_ne_finish_of_cases (Cursor.tokens_cases _ t ht)

/-- Every text is cut into pieces, and read as their tokens. However it is cut, the texts of the
pieces put together are the text; what is read first, second and so on are the tokens of the pieces,
with the stars between them, and from then on the end; and this comes after at most two tokens for
each character. -/
theorem scan_pieces (source : String) :
    (∃ ps, Splits source.toList ps) ∧ ∀ ps, Splits source.toList ps →
      String.join (ps.map Piece.text) = source ∧
      (∀ n, (Cursor.start source).reading n =
        (laidOut 0 ps)[n]?.getD (Token.finish source.length)) ∧
      (∀ t ∈ laidOut 0 ps, t.kind ≠ .finish) ∧
      (laidOut 0 ps).length ≤ 2 * source.length := by
  refine ⟨exists_splits _, fun ps hps ↦ ⟨?_, ?_, ?_, ?_⟩⟩
  · exact String.toList_injective ((toList_join_text ps).trans hps.flatMap_chars)
  · intro n
    have hlength : 0 + source.toList.length = source.length := by
      rw [Nat.zero_add, String.length_toList]
    rw [Cursor.reading_eq, ← scan_eq_laidOut hps, ← hlength]
    rfl
  · rw [← scan_eq_laidOut hps]
    exact kind_ne_finish_of_mem_scan
  · rw [← String.length_toList, ← hps.flatMap_chars]
    exact length_laidOut_le 0 ps

/-- A number before a name before a parenthesis: three pieces, and two stars between them. -/
theorem scan_pieces_product :
    ∃ ps, Splits "2.5x(".toList ps ∧ ps.map Piece.text = ["2.5", "x", "("] ∧
      ∀ n, (Cursor.start "2.5x(").reading n =
        [⟨.number, "2.5", 0, .absent⟩, Token.star 3, ⟨.identifier, "x", 3, .absent⟩, Token.star 4,
          ⟨.leftParen, "(", 4, .absent⟩][n]?.getD (Token.finish 5) := by
  let two : Digits := ⟨['2'], by decide, List.forall_mem_singleton.mpr rfl⟩
  let five : Digits := ⟨['5'], by decide, List.forall_mem_singleton.mpr rfl⟩
  let x : Word := ⟨'x', [], by decide, List.forall_mem_nil _⟩
  let ps : List Piece := [.number (.fraction two five), .name x, .character '(' rfl rfl]
  have hsplits : Splits "2.5x(".toList ps := by
    refine splits_iff.mpr ⟨by decide, ?_, ?_, trivial, trivial⟩
    · rintro c more h
      obtain ⟨rfl, -⟩ := List.cons_eq_cons.mp h
      rfl
    · rintro c more h
      obtain ⟨rfl, -⟩ := List.cons_eq_cons.mp h
      rfl
  refine ⟨ps, hsplits, by decide, fun n ↦ ?_⟩
  rw [((scan_pieces "2.5x(").2 ps hsplits).2.1 n]
  rfl

end CurveCalc
