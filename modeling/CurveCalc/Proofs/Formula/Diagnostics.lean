import CurveCalc.Proofs.Formula.Progress

/-!
What is noted, and where. A text is a row of marks: its tokens, its characters that belong to none,
and the end. What has been noted is gathered from this row as it stands (`Gathered`): every stray
character once, and a token as often as something is missing or too much at it. Between two tokens
this is true of the problems that have been noted together with the marks that are still ahead
(`Parser.Going`), and each step keeps it; once reading has ended before the text does, it is true
with the marks that were ahead then (`EndedEarly`). So the problems of a formula are in the order of
their places, each is about what stands at its place, and nothing is noted behind one that ends the
reading (`compile_diagnostics`).
-/

set_option autoImplicit false
set_option relaxedAutoImplicit false

namespace CurveCalc

/-! The marks of a text. -/

/-- What stands at a place of a text: a token or the end, or else a stray character. -/
structure Mark where
  stray : Bool
  lexeme : String
  position : Nat

def Token.mark (t : Token) : Mark := ⟨t.kind == .error, t.lexeme, t.position⟩

def Diagnostic.mark (d : Diagnostic) : Mark :=
  ⟨d.problem == .unexpectedCharacter, d.lexeme, d.position⟩

/-- The marks of a text, the end included. -/
def marks (text : String) : List Mark := (scan text ++ [scanFinish text]).map Token.mark

/-- One mark stands before another one, or they share their place and the first is no stray
character. -/
structure Mark.Before (m m' : Mark) : Prop where
  le : m.position ≤ m'.position
  lt : m.stray = true → m.position < m'.position

/-- Marks in their order, taken from a row of marks. Each stray character is among them as often as
it is in the row. -/
structure Gathered (ms row : List Mark) : Prop where
  ordered : ms.Pairwise Mark.Before
  mem : ∀ m ∈ ms, m ∈ row
  strays : ms.filter Mark.stray = row.filter Mark.stray

/-- What the lexeme at a position is: the text of the piece that stands there, the star that is
understood there between a value and what opens another, or nothing at the end. -/
inductive StandsAt : List Piece → String → Nat → Prop
  | piece (front : List Piece) (p : Piece) (behind : List Piece) :
    StandsAt (front ++ p :: behind) p.text (front.flatMap Piece.chars).length
  | star (front : List Piece) (p q : Piece) (behind : List Piece) (hvalue : p.endsValue = true)
    (hopens : q.opens = true) : StandsAt (front ++ p :: q :: behind) "*"
      ((front ++ [p]).flatMap Piece.chars).length
  | finish (ps : List Piece) : StandsAt ps "" (ps.flatMap Piece.chars).length

theorem Mark.Before.of_le {m m' : Mark} (hm : m.stray = false) (h : m.position ≤ m'.position) :
    m.Before m' := ⟨h, fun hstray ↦ absurd (hm.symm.trans hstray) Bool.false_ne_true⟩

theorem Mark.Before.of_lt {m m' : Mark} (h : m.position < m'.position) : m.Before m' :=
  ⟨Nat.le_of_lt h, fun _ ↦ h⟩

namespace Gathered

variable {front behind row : List Mark} {m : Mark}

theorem strays_cons (hm : m.stray = false) (ms : List Mark) :
    (m :: ms).filter Mark.stray = ms.filter Mark.stray :=
  List.filter_cons_of_neg (ne_true_of_eq_false hm)

/-- A mark that is no stray character may be taken once more. -/
theorem double (h : Gathered (front ++ m :: behind) row) (hm : m.stray = false) :
    Gathered (front ++ m :: m :: behind) row := by
  obtain ⟨hfront, hbehind, hacross⟩ := List.pairwise_append.mp h.ordered
  obtain ⟨hmem, hmems⟩ := List.forall_mem_append.mp h.mem
  have hself : m.Before m := .of_le hm (Nat.le_refl _)
  have hnext : ∀ m' ∈ m :: behind, m.Before m' :=
    List.forall_mem_cons.mpr ⟨hself, (List.pairwise_cons.mp hbehind).1⟩
  refine ⟨List.pairwise_append.mpr ⟨hfront, .cons hnext hbehind, fun a ha ↦ ?_⟩, ?_, ?_⟩
  · exact List.forall_mem_cons.mpr ⟨hacross a ha m List.mem_cons_self, hacross a ha⟩
  · exact List.forall_mem_append.mpr
      ⟨hmem, List.forall_mem_cons.mpr ⟨hmems m List.mem_cons_self, hmems⟩⟩
  · rw [← h.strays, List.filter_append, List.filter_append, strays_cons hm]

/-- A mark that is no stray character may be left out. -/
theorem drop (h : Gathered (front ++ m :: behind) row) (hm : m.stray = false) :
    Gathered (front ++ behind) row := by
  have hless : (front ++ behind).Sublist (front ++ m :: behind) :=
    (List.sublist_cons_self m behind).append_left front
  refine ⟨h.ordered.sublist hless, fun a ha ↦ h.mem a (hless.subset ha), ?_⟩
  rw [← h.strays, List.filter_append, List.filter_append, strays_cons hm]

end Gathered

/-! Where the tokens stand. -/

/-- Every token stands where its piece does, or between two pieces as a star that is understood. -/
theorem exists_of_mem_laidOut {position : Nat} {ps : List Piece} {t : Token}
    (h : t ∈ laidOut position ps) :
    (∃ front p behind, ps = front ++ p :: behind ∧
      t = p.token (position + (front.flatMap Piece.chars).length)) ∨
    ∃ front p q behind, ps = front ++ p :: q :: behind ∧ p.endsValue = true ∧ q.opens = true ∧
      t = Token.star (position + ((front ++ [p]).flatMap Piece.chars).length) := by
  induction position, ps using laidOut.induct with
  | case1 position => cases h
  | case2 position p => exact Or.inl ⟨[], p, [], rfl, List.mem_singleton.mp h⟩
  | case3 position p q ps behind ih =>
    have hlater : ∀ front : List Piece, behind + (front.flatMap Piece.chars).length =
        position + ((p :: front).flatMap Piece.chars).length := by
      intro front
      rw [List.flatMap_cons, List.length_append]
      exact Nat.add_assoc _ _ _
    rw [laidOut] at h
    rcases List.mem_cons.mp h with rfl | h
    · exact Or.inl ⟨[], p, q :: ps, rfl, rfl⟩
    rcases List.mem_append.mp h with h | h
    · split at h
      · rename_i hproduct
        obtain ⟨hvalue, hopens⟩ := Bool.and_eq_true_iff.mp hproduct
        refine Or.inr ⟨[], p, q, ps, rfl, hvalue, hopens, ?_⟩
        rw [List.nil_append, List.flatMap_singleton]
        exact List.mem_singleton.mp h
      · cases h
    · rcases ih h with ⟨front, r, more, hps, rfl⟩ | ⟨front, r, u, more, hps, hvalue, hopens, rfl⟩
      · exact Or.inl ⟨p :: front, r, more, by rw [hps]; rfl, by rw [hlater]⟩
      · exact Or.inr ⟨p :: front, r, u, more, by rw [hps]; rfl, hvalue, hopens, by rw [hlater]; rfl⟩

/-- The tokens stand in their order, from the given position on and before the end. -/
theorem ordered_laidOut (position : Nat) (ps : List Piece) :
    ((laidOut position ps).map Token.mark).Pairwise Mark.Before ∧
      ∀ t ∈ laidOut position ps, position ≤ t.position ∧
        t.position < position + (ps.flatMap Piece.chars).length := by
  induction position, ps using laidOut.induct with
  | case1 position => exact ⟨.nil, List.forall_mem_nil _⟩
  | case2 position p =>
    refine ⟨List.pairwise_singleton _ _, List.forall_mem_singleton.mpr ⟨Nat.le_refl _, ?_⟩⟩
    have hpos := p.length_chars_pos
    rw [List.flatMap_singleton]
    exact Nat.lt_add_of_pos_right hpos
  | case3 position p q ps behind ih =>
    obtain ⟨hordered, hbounds⟩ := ih
    have hpos := p.length_chars_pos
    have hbehind : behind = position + p.chars.length := rfl
    have hlength : ((p :: q :: ps).flatMap Piece.chars).length =
        p.chars.length + ((q :: ps).flatMap Piece.chars).length := by
      rw [List.flatMap_cons, List.length_append]
    have hmore : 0 < ((q :: ps).flatMap Piece.chars).length := by
      have := q.length_chars_pos
      rw [List.flatMap_cons, List.length_append]
      omega
    -- the star, if there is one, stands with the next piece
    have hstar : ∀ t ∈ (if p.endsValue && q.opens then [Token.star behind] else []),
        t = Token.star behind := by
      intro t ht
      split at ht
      · exact List.mem_singleton.mp ht
      · cases ht
    have hrest : ∀ t ∈ (if p.endsValue && q.opens then [Token.star behind] else []) ++
        laidOut behind (q :: ps), behind ≤ t.position ∧
          t.position < behind + ((q :: ps).flatMap Piece.chars).length := by
      refine List.forall_mem_append.mpr ⟨fun t ht ↦ ?_, hbounds⟩
      rw [hstar t ht]
      exact ⟨Nat.le_refl _, Nat.lt_add_of_pos_right hmore⟩
    rw [laidOut, hlength]
    constructor
    · rw [List.map_cons, List.pairwise_cons]
      refine ⟨List.forall_mem_map.mpr fun t ht ↦ .of_lt ?_, ?_⟩
      · have hlater := (hrest t ht).1
        change position < t.position
        omega
      · rw [List.map_append, List.pairwise_append]
        refine ⟨?_, hordered, ?_⟩
        · split
          · exact List.pairwise_singleton _ _
          · exact .nil
        · refine List.forall_mem_map.mpr fun t ht ↦ List.forall_mem_map.mpr fun u hu ↦ ?_
          rw [hstar t ht]
          exact .of_le rfl (hbounds u hu).1
    · refine List.forall_mem_cons.mpr ⟨⟨Nat.le_refl _, ?_⟩, fun t ht ↦ ?_⟩
      · change position < _
        omega
      · have h := hrest t ht
        omega

theorem gathered_marks (text : String) : Gathered (marks text) (marks text) := by
  refine ⟨?_, fun m hm ↦ hm, rfl⟩
  obtain ⟨ps, hps⟩ := exists_splits text.toList
  obtain ⟨hordered, hbounds⟩ := ordered_laidOut 0 ps
  rw [marks, List.map_append, List.pairwise_append, scan_eq_laidOut hps]
  refine ⟨hordered, List.pairwise_singleton _ _, ?_⟩
  refine List.forall_mem_map.mpr fun t ht ↦ List.forall_mem_singleton.mpr (.of_lt ?_)
  have hbound := (hbounds t ht).2
  rwa [hps.flatMap_chars, String.length_toList, Nat.zero_add] at hbound

theorem standsAt_of_mem_marks {text : String} {ps : List Piece} (hps : Splits text.toList ps)
    {m : Mark} (hm : m ∈ marks text) : StandsAt ps m.lexeme m.position := by
  rw [marks, List.map_append, List.mem_append, scan_eq_laidOut hps] at hm
  rcases hm with hm | hm
  · obtain ⟨t, ht, rfl⟩ := List.mem_map.mp hm
    rcases exists_of_mem_laidOut ht with ⟨front, p, behind, rfl, rfl⟩ |
      ⟨front, p, q, behind, rfl, hvalue, hopens, rfl⟩
    · have h := StandsAt.piece front p behind
      rwa [← Nat.zero_add (front.flatMap Piece.chars).length] at h
    · have h := StandsAt.star front p q behind hvalue hopens
      rwa [← Nat.zero_add ((front ++ [p]).flatMap Piece.chars).length] at h
  · rw [List.mem_singleton.mp hm]
    have h := StandsAt.finish ps
    rwa [hps.flatMap_chars, String.length_toList] at h

theorem length_flatMap_lt (front : List Piece) (p : Piece) (behind : List Piece) :
    (front.flatMap Piece.chars).length <
      ((front ++ p :: behind).flatMap Piece.chars).length := by
  have hpos := p.length_chars_pos
  rw [List.flatMap_append, List.flatMap_cons, List.length_append, List.length_append]
  omega

/-- No lexeme stands behind the end, and it is empty at the end only. -/
theorem StandsAt.bounds {ps : List Piece} {lexeme : String} {position : Nat}
    (h : StandsAt ps lexeme position) : position ≤ (ps.flatMap Piece.chars).length ∧
      (lexeme = "" ↔ position = (ps.flatMap Piece.chars).length) := by
  cases h with
  | piece front p behind =>
    have hlt := length_flatMap_lt front p behind
    have hne : p.text ≠ "" := fun h ↦ p.chars_ne_nil (String.ofList_eq_empty_iff.mp h)
    exact ⟨Nat.le_of_lt hlt, iff_of_false hne (Nat.ne_of_lt hlt)⟩
  | star front p q behind hvalue hopens =>
    have hlt := length_flatMap_lt (front ++ [p]) q behind
    rw [← List.append_cons] at hlt
    exact ⟨Nat.le_of_lt hlt, iff_of_false (by decide) (Nat.ne_of_lt hlt)⟩
  | finish ps => exact ⟨Nat.le_refl _, iff_of_true rfl rfl⟩

/-- A lexeme has only such characters as the text has, unless it is a star that is understood. -/
theorem StandsAt.mem_chars {ps : List Piece} {lexeme : String} {position : Nat}
    (h : StandsAt ps lexeme position) {c : Char} (hc : c ∈ lexeme.toList) :
    c ∈ ps.flatMap Piece.chars ∨ c = '*' := by
  cases h with
  | piece front p behind =>
    rw [Piece.text, String.toList_ofList] at hc
    exact Or.inl (List.mem_flatMap.mpr ⟨p, List.mem_append_cons_self, hc⟩)
  | star front p q behind hvalue hopens => exact Or.inr (List.mem_singleton.mp hc)
  | finish ps => cases hc

/-! What is noted. -/

/-- A problem that ends the reading before the text ends. -/
def Problem.endsReading : Problem → Bool
  | expectedEnd | tooDeeplyNested _ => true
  | _ => false

/-- Reading has come to the end of the row: no problem has ended it before, and together with marks
that are not stray all has been gathered. -/
def ReadThrough (row : List Mark) (ds : List Diagnostic) : Prop :=
  (∀ d ∈ ds, d.problem.endsReading = false) ∧
    ∃ ahead, (∀ m ∈ ahead, m.stray = false) ∧ Gathered (ds.map Diagnostic.mark ++ ahead) row

/-- Reading has ended early: the last problem says so, and together with the marks that were ahead
then all has been gathered. -/
def EndedEarly (row : List Mark) (ds : List Diagnostic) : Prop :=
  ∃ front d ahead, ds = front ++ [d] ∧ d.problem.endsReading = true ∧
    (∀ d' ∈ front, d'.problem.endsReading = false) ∧
    Gathered (ds.map Diagnostic.mark ++ ahead) row

/-- What is noted of a row when it has been read, to its end or not. -/
def Noted (row : List Mark) (ds : List Diagnostic) : Prop := ReadThrough row ds ∨ EndedEarly row ds

namespace Parser

/-- The tokens from the current one on, the end included. -/
def ahead (s : Parser) : List Token := s.current :: (s.rest ++ [s.finish])

/-- Reading goes on: what has been noted and what is ahead have been gathered from the row. -/
structure Going (row : List Mark) (s : Parser) : Prop where
  finish : s.finish.kind ≠ .error
  current : s.current.kind ≠ .error
  going : ∀ d ∈ s.diagnostics.toList, d.problem.endsReading = false
  gathered : Gathered (s.diagnostics.toList.map Diagnostic.mark ++ s.ahead.map Token.mark) row

/-- What is true between any two tokens of a row of marks. -/
structure Tracks (row : List Mark) (s : Parser) : Prop where
  going : s.cutOff = false → s.Going row
  ended : s.cutOff = true → EndedEarly row s.diagnostics.toList

theorem reportAt_of_cutOff {s : Parser} (h : s.cutOff = true) (t : Token) (p : Problem) :
    s.reportAt t p = s := by
  unfold reportAt
  rw [if_pos h]

theorem reportAt_of_open {s : Parser} (h : s.cutOff = false) (t : Token) (p : Problem) :
    s.reportAt t p =
      { s with diagnostics := s.diagnostics.push ⟨p, t.lexeme, t.position⟩ } := by
  unfold reportAt
  rw [if_neg (ne_true_of_eq_false h)]

theorem diagnostics_load_of_cutOff {s : Parser} (h : s.cutOff = true) (ts : List Token) :
    (load ts s).diagnostics = s.diagnostics := by
  induction ts generalizing s with
  | nil => rfl
  | cons t ts ih =>
    unfold load
    rw [reportAt_of_cutOff h]
    split
    · exact ih h
    · rfl

theorem stray_mark {t : Token} (h : t.kind ≠ .error) : t.mark.stray = false := beq_false_of_ne h

/-- A problem noted at a token has the mark of the token. -/
theorem mark_report {t : Token} (ht : t.kind ≠ .error) {p : Problem}
    (hp : p ≠ .unexpectedCharacter) : Diagnostic.mark ⟨p, t.lexeme, t.position⟩ = t.mark := by
  unfold Diagnostic.mark Token.mark
  rw [beq_false_of_ne ht, beq_false_of_ne hp]

section

variable {row : List Mark} {s : Parser}

/-- A problem noted at the current token leaves what is ahead as it is. -/
theorem Going.gathered_report (hs : s.Going row) {p : Problem} (hp : p ≠ .unexpectedCharacter) :
    Gathered ((s.diagnostics.push ⟨p, s.current.lexeme, s.current.position⟩).toList.map
      Diagnostic.mark ++ s.ahead.map Token.mark) row := by
  rw [Array.toList_push, List.map_append, List.map_singleton, mark_report hs.current hp,
    List.append_assoc]
  exact hs.gathered.double (stray_mark hs.current)

theorem Going.report (hs : s.Going row) (hopen : s.cutOff = false) {p : Problem}
    (hp : p.isInner = true) : (s.report p).Going row := by
  have hgathered := hs.gathered_report (p := p) (by rintro rfl; cases hp)
  have hgoing : p.endsReading = false := by cases p <;> first | rfl | cases hp
  unfold Parser.report
  rw [reportAt_of_open hopen]
  refine ⟨hs.finish, hs.current, ?_, hgathered⟩
  rw [Array.toList_push]
  exact List.forall_mem_append.mpr ⟨hs.going, List.forall_mem_singleton.mpr hgoing⟩

theorem Going.ended (hs : s.Going row) {p : Problem} (hp : p.endsReading = true) :
    EndedEarly row (s.diagnostics.push ⟨p, s.current.lexeme, s.current.position⟩).toList :=
  ⟨s.diagnostics.toList, _, _, Array.toList_push, hp, hs.going,
    hs.gathered_report (by rintro rfl; cases hp)⟩

/-- Stray characters are noted as they are read over, and nothing else is. -/
theorem Going.load {ts : List Token} (hopen : s.cutOff = false) (hfinish : s.finish.kind ≠ .error)
    (hgoing : ∀ d ∈ s.diagnostics.toList, d.problem.endsReading = false)
    (hgathered : Gathered (s.diagnostics.toList.map Diagnostic.mark ++
      (ts ++ [s.finish]).map Token.mark) row) : (load ts s).Going row := by
  induction ts generalizing s with
  | nil => exact ⟨hfinish, hfinish, hgoing, hgathered.double (stray_mark hfinish)⟩
  | cons t ts ih =>
    unfold Parser.load
    by_cases hkind : t.kind = .error
    · have hmark : Diagnostic.mark ⟨.unexpectedCharacter, t.lexeme, t.position⟩ = t.mark := by
        unfold Diagnostic.mark Token.mark
        rw [hkind]
        rfl
      rw [if_pos hkind, reportAt_of_open hopen]
      refine ih hopen hfinish ?_ ?_
      · rw [Array.toList_push]
        exact List.forall_mem_append.mpr ⟨hgoing, List.forall_mem_singleton.mpr rfl⟩
      · rw [Array.toList_push, List.map_append, List.map_singleton, hmark, List.append_assoc]
        exact hgathered
    · rw [if_neg hkind]
      exact ⟨hfinish, hkind, hgoing, hgathered⟩

theorem Going.advance (hs : s.Going row) (hopen : s.cutOff = false) : s.advance.Going row :=
  Going.load (s := { s with previous := s.current }) hopen hs.finish hs.going
    (hs.gathered.drop (stray_mark hs.current))

end

theorem live_tracks (row : List Mark) : Live (Tracks row) where
  emit _ _ hs := ⟨fun h ↦ { hs.going h with }, hs.ended⟩
  report p {s} hp hs := by
    refine ⟨fun h ↦ ?_, fun h ↦ ?_⟩
    · rw [report, cutOff_reportAt] at h
      exact (hs.going h).report h hp
    · rw [report, cutOff_reportAt] at h
      rw [report, reportAt_of_cutOff h]
      exact hs.ended h
  advance {s} hs := by
    refine ⟨fun h ↦ ?_, fun h ↦ ?_⟩
    · rw [cutOff_advance] at h
      exact (hs.going h).advance h
    · rw [cutOff_advance] at h
      have hsame : s.advance.diagnostics = s.diagnostics :=
        diagnostics_load_of_cutOff (s := { s with previous := s.current }) h s.rest
      rw [hsame]
      exact hs.ended h
  stopNesting {s} hopen hs := by
    have hended := (hs.going hopen).ended (p := .tooDeeplyNested s.maxDepth) rfl
    rw [stopNesting_eq hopen]
    refine ⟨fun h ↦ ?_, fun _ ↦ ?_⟩
    · rw [cutOff_skipTo] at h
      cases h
    · rw [diagnostics_skipTo, report, reportAt_of_open hopen]
      exact hended
  names _ _ hs := ⟨fun h ↦ { hs.going h with }, hs.ended⟩
  depth _ _ hs := ⟨fun h ↦ { hs.going h with }, hs.ended⟩

end Parser

theorem noted_parse (maxDepth : Int) (source : String) :
    Noted (marks (Text.withoutBlanks source)) (parse maxDepth source).diagnostics.toList := by
  obtain ⟨s, hcoherent, hkeeps, hparse⟩ := Parser.exists_read maxDepth source
  have htracks : s.Tracks (marks (Text.withoutBlanks source)) := by
    refine hkeeps _ (Parser.live_tracks _) ⟨fun _ ↦ .load rfl nofun nofun (gathered_marks _), ?_⟩
    intro h
    rw [Parser.cutOff_advance] at h
    cases h
  rw [hparse]
  cases hcut : s.cutOff with
  | true =>
    rw [if_pos (hcoherent.skipped hcut)]
    exact Or.inr (htracks.ended hcut)
  | false =>
    have hgoing := htracks.going hcut
    by_cases hcurrent : s.current.kind = .finish
    · rw [if_pos hcurrent]
      refine Or.inl ⟨hgoing.going, _, List.forall_mem_map.mpr fun t ht ↦ ?_, hgoing.gathered⟩
      rw [Parser.ahead, hcoherent.atEnd hcurrent] at ht
      rcases List.mem_cons.mp ht with rfl | ht
      · exact Parser.stray_mark hgoing.current
      · rw [List.mem_singleton.mp ht]
        exact Parser.stray_mark hgoing.finish
    · rw [if_neg hcurrent, Parser.report, Parser.reportAt_of_open hcut]
      exact Or.inr (hgoing.ended rfl)

/-- Either way all has been gathered, and no problem but the last one can have ended the reading. -/
theorem Noted.exists_gathered {row : List Mark} {ds : List Diagnostic} (h : Noted row ds) :
    (∃ ahead, Gathered (ds.map Diagnostic.mark ++ ahead) row) ∧
      ∀ d ∈ ds.dropLast, d.problem.endsReading = false := by
  rcases h with ⟨hgoing, ahead, -, hgathered⟩ | ⟨front, d, ahead, rfl, -, hfront, hgathered⟩
  · exact ⟨⟨ahead, hgathered⟩, fun d hd ↦ hgoing d ((List.dropLast_sublist _).subset hd)⟩
  · exact ⟨⟨ahead, hgathered⟩, by rwa [List.dropLast_concat]⟩

/-! The message. -/

theorem newline_notMem_toString (n : Int) : '\n' ∉ (toString n).toList := by
  have hnat : ∀ n : Nat, '\n' ∉ n.repr.toList := by
    intro n h
    rw [Nat.toList_repr] at h
    cases Nat.isDigit_of_mem_toDigits (by decide) (by decide) h
  rw [Int.toString_eq_repr, Int.repr_eq_if]
  split
  · exact hnat _
  · rw [String.toList_append, List.mem_append]
    exact not_or.mpr ⟨by decide, hnat _⟩

theorem newline_notMem_message (p : Problem) : '\n' ∉ p.message.toList := by
  cases p with
  | tooDeeplyNested maxDepth =>
    unfold Problem.message
    rw [String.toList_append, String.toList_append, List.mem_append, List.mem_append]
    exact not_or.mpr ⟨not_or.mpr ⟨by decide, newline_notMem_toString _⟩, by decide⟩
  | _ => decide

theorem Diagnostic.newline_notMem_text {d : Diagnostic} (h : '\n' ∉ d.lexeme.toList) :
    '\n' ∉ d.text.toList := by
  have hplace : '\n' ∉ (if d.lexeme.isEmpty then "end" else d.lexeme).toList := by
    split
    · decide
    · exact h
  unfold text diagnosticLine
  rw [String.toList_append, String.toList_append, String.toList_append]
  simp only [List.mem_append, not_or]
  exact ⟨⟨⟨by decide, newline_notMem_message _⟩, by decide⟩, hplace⟩

theorem diagnostics_of_compile {maxDepth : Int} {source : String} {e : CompileError}
    (h : compile maxDepth source = .error e) :
    e.diagnostics = (parse maxDepth source).diagnostics.toList ∧ e.diagnostics ≠ [] := by
  unfold compile compileLiterals at h
  dsimp only at h
  split at h
  · cases h
  · rename_i hempty
    cases h
    refine ⟨rfl, fun hnil ↦ hempty ?_⟩
    have hnone : (parse maxDepth source).diagnostics = #[] := Array.toList_eq_nil_iff.mp hnil
    rw [hnone]
    rfl

theorem compile_of_diagnostics {maxDepth : Int} {source : String} {ds : List Diagnostic}
    (h : (parse maxDepth source).diagnostics.toList = ds) (hne : ds ≠ []) :
    compile maxDepth source = .error ⟨ds⟩ := by
  subst h
  refine compile_of_faulty fun hnone ↦ hne ?_
  rw [hnone]

theorem withoutBlanks_notMem {source : String} {c : Char} (hc : Text.isBlank c = true) :
    c ∉ (Text.withoutBlanks source).toList := by
  intro h
  rw [Text.withoutBlanks, String.toList_ofList] at h
  have hkept := (List.mem_filter.mp h).2
  rw [hc] at hkept
  cases hkept

/-- A text that is not compiled has problems, in the order of their places, and the first place is
that of the error. Each problem is about what stands at its place in the text without blanks, and
about the end only if that is its place. Nesting too deep is noted at most once, and nothing behind
it. The message has a line for each problem. -/
theorem compile_diagnostics {maxDepth : Int} {source : String} {e : CompileError}
    (h : compile maxDepth source = .error e) :
    e.diagnostics ≠ [] ∧
    e.diagnostics.Pairwise (fun d d' ↦ d.position ≤ d'.position) ∧
    (∃ d ∈ e.diagnostics, e.position? = some d.position ∧
      ∀ d' ∈ e.diagnostics, d.position ≤ d'.position) ∧
    (∀ d ∈ e.diagnostics, d.position ≤ (Text.withoutBlanks source).length ∧
      (d.lexeme = "" ↔ d.position = (Text.withoutBlanks source).length)) ∧
    (∃ ps, Splits (Text.withoutBlanks source).toList ps ∧
      ∀ d ∈ e.diagnostics, StandsAt ps d.lexeme d.position) ∧
    (∀ d ∈ e.diagnostics.dropLast, ∀ limit, d.problem ≠ .tooDeeplyNested limit) ∧
    (e.text.split '\n').toList.map (·.copy) = e.diagnostics.map Diagnostic.text ∧
    ∀ d ∈ e.diagnostics, "Error: ".toList <+: d.text.toList := by
  obtain ⟨hparse, hne⟩ := diagnostics_of_compile h
  have hnoted := noted_parse maxDepth source
  rw [← hparse] at hnoted
  obtain ⟨⟨ahead, hgathered⟩, hearlier⟩ := hnoted.exists_gathered
  have hordered : e.diagnostics.Pairwise fun d d' ↦ d.position ≤ d'.position := by
    have hmarks := (List.pairwise_append.mp hgathered.ordered).1
    exact (List.pairwise_map.mp hmarks).imp fun h ↦ h.le
  obtain ⟨ps, hps⟩ := exists_splits (Text.withoutBlanks source).toList
  have hstands : ∀ d ∈ e.diagnostics, StandsAt ps d.lexeme d.position := fun d hd ↦
    standsAt_of_mem_marks hps
      (hgathered.mem d.mark (List.mem_append_left _ (List.mem_map_of_mem hd)))
  refine ⟨hne, hordered, ?_, ?_, ⟨ps, hps, hstands⟩, ?_, ?_, ?_⟩
  · cases hds : e.diagnostics with
    | nil => exact absurd hds hne
    | cons d ds =>
      rw [hds] at hordered
      refine ⟨d, List.mem_cons_self, by rw [CompileError.position?, hds]; rfl, ?_⟩
      exact List.forall_mem_cons.mpr ⟨Nat.le_refl _, (List.pairwise_cons.mp hordered).1⟩
  · intro d hd
    have hbounds := (hstands d hd).bounds
    rwa [hps.flatMap_chars, String.length_toList] at hbounds
  · rintro d hd limit hproblem
    have hending := hearlier d hd
    rw [hproblem] at hending
    cases hending
  · have hlines : ∀ line ∈ e.diagnostics.map Diagnostic.text, '\n' ∉ line.toList := by
      refine List.forall_mem_map.mpr fun d hd ↦ Diagnostic.newline_notMem_text fun hmem ↦ ?_
      rcases (hstands d hd).mem_chars hmem with hmem | hmem
      · rw [hps.flatMap_chars] at hmem
        exact withoutBlanks_notMem rfl hmem
      · cases hmem
    have hsplit := String.toList_split_intercalate hlines
    rw [if_neg (mt List.map_eq_nil_iff.mp hne)] at hsplit
    exact hsplit
  · intro d _
    unfold Diagnostic.text diagnosticLine
    rw [String.toList_append, String.toList_append, String.toList_append, List.append_assoc,
      List.append_assoc]
    exact List.prefix_append _ _

/-- The parenthesis is read as the second summand, and what is behind it is a star that is
understood. Behind the parenthesis that is too deep nothing more is noted. -/
theorem compile_diagnostics_star :
    ∃ e, compile 2 "2 + )x & + ((((1 $" = .error e ∧
      e.diagnostics = [⟨.expectedExpression, "*", 3⟩, ⟨.unexpectedCharacter, "&", 4⟩,
        ⟨.tooDeeplyNested 2, "(", 9⟩] ∧
      e.diagnostics.Pairwise (fun d d' ↦ d.position ≤ d'.position) ∧
      (∃ d ∈ e.diagnostics, e.position? = some d.position ∧
        ∀ d' ∈ e.diagnostics, d.position ≤ d'.position) ∧
      (∃ ps, Splits "2+)x&+((((1$".toList ps ∧
        ∀ d ∈ e.diagnostics, StandsAt ps d.lexeme d.position) ∧
      (∀ d ∈ e.diagnostics.dropLast, ∀ limit, d.problem ≠ .tooDeeplyNested limit) ∧
      (e.text.split '\n').toList.map (·.copy) =
        ["Error: Expected expression at *", "Error: Unexpected character at &",
          "Error: Expression too deeply nested (max depth: 2) at ("] := by
  have h : compile 2 "2 + )x & + ((((1 $" = .error ⟨[⟨.expectedExpression, "*", 3⟩,
      ⟨.unexpectedCharacter, "&", 4⟩, ⟨.tooDeeplyNested 2, "(", 9⟩]⟩ :=
    compile_of_diagnostics (by decide +kernel) (List.cons_ne_nil _ _)
  have htext : Text.withoutBlanks "2 + )x & + ((((1 $" = "2+)x&+((((1$" := by decide
  obtain ⟨-, hordered, hfirst, -, hplaces, hcut, hlines, -⟩ := compile_diagnostics h
  rw [htext] at hplaces
  exact ⟨_, h, rfl, hordered, hfirst, hplaces, hcut, hlines⟩

end CurveCalc
