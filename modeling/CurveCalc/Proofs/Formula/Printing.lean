import CurveCalc.Proofs.Formula.Acceptance
import CurveCalc.Proofs.Formula.WrittenSymbol

/-!
Formulas as text. Every well grouped formula over names and numbers as they can be written has a
text, without blanks, whose tokens are those of the formula (`spelledBy_text`), so that its text is
compiled to its listing, as long as it keeps within the bounds (`compile_text`).
-/

set_option autoImplicit false
set_option relaxedAutoImplicit false

namespace CurveCalc

/-- The text of a formula. -/
def Formula.text (t : Formula Constant VariableName) : String :=
  String.ofList (t.symbols.flatMap Symbol.chars)

namespace Formula

variable {κ ν : Type}

/-- What goes on with a formula may stand behind any symbol that ends one. -/
theorem isChain_cons {x : Symbol κ ν} {rest : List (Symbol κ ν)} (hx : ∀ f, x ≠ .function f)
    (hrest : rest.IsChain Symbol.MayPrecede) (hcontinues : ∀ y ∈ rest.head?, y.Continues) :
    (x :: rest).IsChain Symbol.MayPrecede := by
  refine List.isChain_cons.mpr ⟨fun y hy ↦ ?_, hrest⟩
  cases x with
  | number k => exact hcontinues y hy
  | identifier v => exact hcontinues y hy
  | rightParen => exact hcontinues y hy
  | function f => exact absurd rfl (hx f)
  | _ => trivial

theorem isChain_cons_of_starts {x : Symbol κ ν} {rest : List (Symbol κ ν)}
    (hx : ∀ y : Symbol κ ν, x.MayPrecede y) (hrest : rest.IsChain Symbol.MayPrecede) :
    (x :: rest).IsChain Symbol.MayPrecede := List.isChain_cons.mpr ⟨fun y _ ↦ hx y, hrest⟩

theorem isChain_symbolsAll {ts : List (Formula κ ν)}
    (hts : ∀ t ∈ ts, ∀ {rest : List (Symbol κ ν)}, rest.IsChain Symbol.MayPrecede →
      (∀ y ∈ rest.head?, y.Continues) → (t.symbols ++ rest).IsChain Symbol.MayPrecede)
    {rest : List (Symbol κ ν)} (hrest : rest.IsChain Symbol.MayPrecede)
    (hcontinues : ∀ y ∈ rest.head?, y.Continues) :
    (symbolsAll ts ++ rest).IsChain Symbol.MayPrecede := by
  induction ts with
  | nil => exact hrest
  | cons t ts ih =>
    have hmore := ih fun u hu ↦ hts u (List.mem_cons_of_mem t hu)
    rw [symbolsAll, List.append_assoc]
    cases ts with
    | nil => exact hts t List.mem_cons_self hrest hcontinues
    | cons u us =>
      refine hts t List.mem_cons_self (isChain_cons_of_starts (fun _ ↦ trivial) hmore) ?_
      rintro y hy
      cases hy
      trivial

/-- The symbols of a formula may stand as they do. -/
theorem isChain_symbols (t : Formula κ ν) {rest : List (Symbol κ ν)}
    (hrest : rest.IsChain Symbol.MayPrecede) (hcontinues : ∀ y ∈ rest.head?, y.Continues) :
    (t.symbols ++ rest).IsChain Symbol.MayPrecede := by
  have hhead : ∀ {x : Symbol κ ν} {more : List (Symbol κ ν)}, x.Continues →
      ∀ y ∈ (x :: more).head?, y.Continues := by
    rintro x more hx y hy
    cases hy
    exact hx
  induction t generalizing rest with
  | number x => exact isChain_cons nofun hrest hcontinues
  | identifier v => exact isChain_cons nofun hrest hcontinues
  | group e ih =>
    rw [symbols, List.cons_append, List.append_assoc]
    exact isChain_cons_of_starts (fun _ ↦ trivial)
      (ih (isChain_cons nofun hrest hcontinues) (hhead trivial))
  | signed sign e ih => exact isChain_cons_of_starts (fun _ ↦ trivial) (ih hrest hcontinues)
  | factorial e ih =>
    rw [symbols, List.append_assoc]
    exact ih (isChain_cons nofun hrest hcontinues) (hhead trivial)
  | binary op l r ihl ihr =>
    rw [symbols, List.append_assoc, List.cons_append]
    exact ihl (isChain_cons_of_starts (fun _ ↦ trivial) (ihr hrest hcontinues)) (hhead trivial)
  | call f es ih =>
    rw [symbols, List.cons_append, List.cons_append, List.append_assoc]
    refine List.isChain_cons.mpr ⟨fun y hy ↦ ?_, isChain_cons_of_starts (fun _ ↦ trivial)
      (isChain_symbolsAll ih (isChain_cons nofun hrest hcontinues) (hhead trivial))⟩
    cases hy
    rfl

/-- What the parser makes of the formula. -/
def written (t : Formula Constant VariableName) : Formula Literal String :=
  t.map Constant.literal VariableName.text

end Formula

theorem Formula.withoutBlanks_text (t : Formula Constant VariableName) :
    Text.withoutBlanks t.text = t.text := by
  unfold Text.withoutBlanks Formula.text
  rw [String.toList_ofList, List.filter_eq_self.mpr]
  intro c hc
  obtain ⟨x, -, hx⟩ := List.mem_flatMap.mp hc
  rw [x.isBlank_chars c hx]
  rfl

/-- The text of a formula is written with its symbols. -/
theorem spelledBy_text (t : Formula Constant VariableName) :
    SpelledBy t.text t.written.symbols := by
  have hchain : t.symbols.IsChain Symbol.MayPrecede := by
    have h := t.isChain_symbols (List.IsChain.nil) nofun
    rwa [List.append_nil] at h
  unfold SpelledBy scan
  rw [t.withoutBlanks_text, Formula.written, Formula.symbols_map]
  exact Symbol.tokens_chars hchain (String.toList_ofList) nofun

/-- Compiling the text of a formula. -/
theorem compile_text {maxDepth : Int} {t : Formula Constant VariableName} (ht : t.WellGrouped)
    (hdepth : t.depth ≤ maxDepth.toNat) (hwidth : t.width ≤ maxArguments) :
    compile maxDepth t.text = .ok t.written.expression.program := by
  refine compile_of_spelledBy (spelledBy_text t) (ht.map _ _) ?_ ?_
  · rwa [Formula.written, Formula.width_map]
  · rwa [Formula.written, Formula.depth_map]

end CurveCalc
