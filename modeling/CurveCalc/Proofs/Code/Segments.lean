import CurveCalc.Proofs.Code.Loads
import CurveCalc.Proofs.Machine.Peak
import Mathlib.Data.List.Forall2

/-!
Where folding changes code. It reads code in parts: of some instructions it makes nothing, and they
are kept; other parts load no variable and leave one value, and each of these segments is replaced
by this value (`Part`). An entry of the stack accounts for what has been read for it, either as one
segment or as several parts (`Folded.Covers`), and the entries together account for all that has
been read, in the order in which it was read (`Folded.steps_covers`). So the folded code is the code
with its segments replaced where they stand (`Program.fold_segments`).
-/

set_option autoImplicit false
set_option relaxedAutoImplicit false

namespace CurveCalc

open Machine Instruction

/-- A part of code that has been read: an instruction that is kept, or a segment that is replaced by
a value. -/
inductive Part (α : Type) where
  | kept (i : Instruction α)
  | replaced (segment : List (Instruction α)) (x : α)

namespace Part

variable {α : Type}

/-- The part as it is read. -/
def source : Part α → List (Instruction α)
  | kept i => [i]
  | replaced segment _ => segment

/-- The one instruction that is left of the part. -/
def result : Part α → Instruction α
  | kept i => i
  | replaced _ x => .constant (.real x)

end Part

variable {α : Type} [Primitives α]

/-- The code loads no variable, and wherever it is run it leaves the value on top of what was there
before. -/
structure Computes (segment : List (Instruction α)) (x : α) : Prop where
  loads : loads segment = []
  leaves : ∀ names values xs, unbounded names values segment xs = .ok (x :: xs)

/-- What a part is replaced by is what it computes. -/
def Part.Sound : Part α → Prop
  | kept _ => True
  | replaced segment x => Computes segment x

theorem Computes.ne_nil {segment : List (Instruction α)} {x : α} (h : Computes segment x) :
    segment ≠ [] := by
  rintro rfl
  cases h.leaves [] [] []

theorem computes_constant {value : Operand α} {x : α} (h : value.value = .ok x) :
    Computes [.constant value] x := by
  refine ⟨rfl, fun names values xs ↦ ?_⟩
  rw [unbounded_singleton]
  simp only [effect, h, bind, Except.bind, pure, Except.pure]

theorem Part.Sound.length_source_pos {part : Part α} (h : part.Sound) : 0 < part.source.length := by
  cases part with
  | kept i => exact Nat.one_pos
  | replaced segment x => exact List.length_pos_iff.mpr (Computes.ne_nil h)

/-- No part becomes longer. -/
theorem length_le_flatMap_source {parts : List (Part α)} (h : ∀ part ∈ parts, part.Sound) :
    parts.length ≤ (parts.flatMap Part.source).length := by
  induction parts with
  | nil => exact Nat.le_refl 0
  | cons part parts ih =>
    obtain ⟨hpart, hparts⟩ := List.forall_mem_cons.mp h
    have hpos := hpart.length_source_pos
    have hmore := ih hparts
    rw [List.flatMap_cons, List.length_append, List.length_cons]
    omega

namespace Folded

/-- The entry accounts for the code that has been read for it. -/
inductive Covers : List (Instruction α) → Folded α → Prop
  | known {segment : List (Instruction α)} {x : α} (h : Computes segment x) :
    Covers segment (known x)
  | residual {parts : List (Part α)} (h : ∀ part ∈ parts, part.Sound) :
    Covers (parts.flatMap Part.source) (residual (parts.map Part.result))

theorem Covers.exists_parts {read : List (Instruction α)} {entry : Folded α}
    (h : Covers read entry) : ∃ parts : List (Part α), (∀ part ∈ parts, part.Sound) ∧
      read = parts.flatMap Part.source ∧ entry.code = parts.map Part.result := by
  cases h with
  | @known _ x h =>
    exact ⟨[.replaced read x], List.forall_mem_singleton.mpr h,
      (List.flatMap_singleton Part.source (.replaced read x)).symm, rfl⟩
  | @residual parts h => exact ⟨parts, h, rfl, rfl⟩

theorem exists_parts_of_forall₂ {reads : List (List (Instruction α))} {entries : List (Folded α)}
    (h : List.Forall₂ Covers reads entries) :
    ∃ parts : List (Part α), (∀ part ∈ parts, part.Sound) ∧
      reads.flatten = parts.flatMap Part.source ∧ entries.flatMap code = parts.map Part.result := by
  induction h with
  | nil => exact ⟨[], List.forall_mem_nil _, rfl, rfl⟩
  | cons hentry _ ih =>
    obtain ⟨first, hfirst, hread, hcode⟩ := hentry.exists_parts
    obtain ⟨more, hmore, hreads, hcodes⟩ := ih
    refine ⟨first ++ more, List.forall_mem_append.mpr ⟨hfirst, hmore⟩, ?_, ?_⟩
    · rw [List.flatten_cons, hread, hreads, List.flatMap_append]
    · rw [List.flatMap_cons, hcode, hcodes, List.map_append]

/-- Segments behind one another leave their values, the last one on top. -/
theorem computes_known {reads : List (List (Instruction α))} {xs : List α}
    (h : List.Forall₂ Covers reads (xs.map known)) :
    loads reads.flatten = [] ∧
      ∀ names values zs, unbounded names values reads.flatten zs = .ok (xs.reverse ++ zs) := by
  induction xs generalizing reads with
  | nil =>
    rw [List.map_nil, List.forall₂_nil_right_iff] at h
    subst h
    exact ⟨rfl, fun _ _ _ ↦ rfl⟩
  | cons x xs ih =>
    rw [List.map_cons, List.forall₂_cons_right_iff] at h
    obtain ⟨segment, rest, hfirst, hrest, rfl⟩ := h
    cases hfirst with
    | known hcomputes =>
      obtain ⟨hloads, hleaves⟩ := ih hrest
      rw [List.flatten_cons]
      refine ⟨by rw [loads_append, hcomputes.loads, hloads]; rfl, fun names values zs ↦ ?_⟩
      rw [unbounded_append, hcomputes.leaves]
      change unbounded names values rest.flatten (x :: zs) = _
      rw [hleaves, List.reverse_cons, List.append_assoc, List.singleton_append]

/-- An instruction on known values belongs to the segment of these values. -/
theorem computes_operation {i : Instruction α} (hoperates : Operates i)
    {reads : List (List (Instruction α))} {xs : List α}
    (hreads : List.Forall₂ Covers reads (xs.map known)) (hlength : xs.length = i.operandCount.toNat)
    {x : α} (h : evaluate i xs = .ok x) : Computes (reads.flatten ++ [i]) x := by
  obtain ⟨hloads, hleaves⟩ := computes_known hreads
  constructor
  · rw [loads_append, hloads, loads_singleton (slot?_of_operates hoperates), List.append_nil]
  · intro names values zs
    rw [unbounded_append, hleaves]
    change unbounded names values [i] (xs.reverse ++ zs) = _
    rw [unbounded_singleton, effect_of_evaluate names values hlength h]

theorem covers_operation (i : Instruction α) {reads : List (List (Instruction α))}
    {operands : List (Folded α)} (h : List.Forall₂ Covers reads operands) :
    Covers (reads.flatten ++ [i]) (residual (operands.flatMap code ++ [i])) := by
  obtain ⟨parts, hparts, hread, hcode⟩ := exists_parts_of_forall₂ h
  have hall : ∀ part ∈ parts ++ [.kept i], part.Sound :=
    List.forall_mem_append.mpr ⟨hparts, List.forall_mem_singleton.mpr trivial⟩
  have hcovers := Covers.residual hall
  rw [List.flatMap_append, List.flatMap_singleton, List.map_append] at hcovers
  rw [hread, hcode]
  exact hcovers

/-- The entries account for the code that has been read, the top one for the last of it. -/
def Accounts (stack : List (Folded α)) (read : List (Instruction α)) : Prop :=
  ∃ reads, List.Forall₂ Covers reads stack ∧ reads.reverse.flatten = read

/-- An entry in the place of some others accounts for what they did and for the instruction that
took them. -/
theorem Accounts.cons {operands rest : List (Folded α)} {entry : Folded α} {i : Instruction α}
    {read : List (Instruction α)} (h : Accounts (operands.reverse ++ rest) read)
    (hentry : ∀ reads, List.Forall₂ Covers reads operands → Covers (reads.flatten ++ [i]) entry) :
    Accounts (entry :: rest) (read ++ [i]) := by
  obtain ⟨reads, hreads, rfl⟩ := h
  have htaken := List.forall₂_take_append reads operands.reverse rest hreads
  have hbelow := List.forall₂_drop_append reads operands.reverse rest hreads
  generalize operands.reverse.length = n at htaken hbelow
  have hcovers := hentry (reads.take n).reverse
    (List.forall₂_reverse_iff.mp (by rwa [List.reverse_reverse]))
  refine ⟨((reads.take n).reverse.flatten ++ [i]) :: reads.drop n, .cons hcovers hbelow, ?_⟩
  have hsplit : reads.reverse = (reads.drop n).reverse ++ (reads.take n).reverse := by
    rw [← List.reverse_append, List.take_append_drop]
  rw [hsplit, List.reverse_cons, List.flatten_append, List.flatten_append, List.flatten_singleton,
    List.append_assoc]

theorem step_covers {i : Instruction α} {stack next : List (Folded α)}
    {read : List (Instruction α)} (hstack : Accounts stack read) (h : step stack i = .ok next) :
    Accounts next (read ++ [i]) := by
  -- constants and loads take no entries
  have hleaf : ∀ entry, Covers [i] entry → Accounts (entry :: stack) (read ++ [i]) := by
    intro entry hentry
    have hnone : Accounts (List.reverse [] ++ stack) read := hstack
    refine hnone.cons fun reads hreads ↦ ?_
    rw [List.forall₂_nil_right_iff.mp hreads]
    exact hentry
  rcases step_cases i stack with ⟨value, rfl⟩ | ⟨slot, rfl⟩ | ⟨hoperates, hcombine⟩
  · obtain ⟨x, hvalue, rfl⟩ := step_constant_eq_ok.mp h
    exact hleaf _ (.known (computes_constant hvalue))
  · cases h
    have hkept : ∀ part ∈ [Part.kept (.load slot)], Part.Sound (α := α) part :=
      List.forall_mem_singleton.mpr trivial
    exact hleaf _ (.residual hkept)
  rw [hcombine] at h
  rcases combine_cases i stack with ⟨-, e, he⟩ | ⟨operands, rest, rfl, hlength, hresult⟩
  · rw [he] at h
    cases h
  rcases hresult with ⟨xs, rfl, hknown⟩ | ⟨-, hresidual⟩
  · rw [hknown] at h
    obtain ⟨x, hvalue, rfl⟩ := Attempt.map_eq_ok.mp h
    rw [List.length_map] at hlength
    exact hstack.cons fun reads hreads ↦ .known (computes_operation hoperates hreads hlength hvalue)
  · rw [hresidual] at h
    cases h
    exact hstack.cons fun reads hreads ↦ covers_operation i hreads

theorem steps_covers {code read : List (Instruction α)} {stack final : List (Folded α)}
    (hstack : Accounts stack read) (h : steps code stack = .ok final) :
    Accounts final (read ++ code) := by
  induction code generalizing stack read with
  | nil =>
    cases h
    rwa [List.append_nil]
  | cons i code ih =>
    obtain ⟨next, hstep, hnext⟩ := Attempt.bind_eq_ok.mp h
    rw [← List.singleton_append, ← List.append_assoc]
    exact ih (step_covers hstack hstep) hnext

end Folded

namespace Program

/-- Folded code has never more values on the stack at its peak than the code had. -/
theorem peak_le_of_fold {p q : Program α} (h : p.fold = .ok q) (values : List α) :
    q.peak values ≤ p.peak values := by
  by_contra hmore
  have hover : q.run values (p.peak values) = .error (.stackOverflow (p.peak values)) :=
    run_of_lt_peak (by omega)
  have hroom : p.run values (p.peak values) = p.runUnbounded values := run_of_peak_le (by omega)
  have hsame := run_upToOverflow h values (p.peak values)
  rw [hroom, hover] at hsame
  rcases hsame with hsame | hsame <;> exact roomy_runUnbounded p values _ hsame

/-- Folding replaces segments of the code where they stand, each by the value that it computes, and
keeps every instruction outside of them. A segment loads no variable and leaves this value alone on
top of whatever was there before. So the code becomes no longer, and no run of it has more values on
the stack than before. -/
theorem fold_segments {p q : Program α} (h : p.fold = .ok q) :
    (∃ parts : List (Part α), p.code = parts.flatMap Part.source ∧
      q.code = parts.map Part.result ∧
      ∀ segment x, Part.replaced segment x ∈ parts → loads segment = [] ∧
        ∀ names values xs, unbounded names values segment xs = .ok (x :: xs)) ∧
    q.names = p.names ∧ q.code.length ≤ p.code.length ∧
    ∀ values, q.peak values ≤ p.peak values := by
  obtain ⟨stack, -, hsteps, rfl⟩ := exists_of_fold h
  have hstart : Folded.Accounts ([] : List (Folded α)) [] := ⟨[], .nil, rfl⟩
  obtain ⟨reads, hreads, hread⟩ := Folded.steps_covers hstart hsteps
  obtain ⟨parts, hparts, hsource, hresult⟩ :=
    Folded.exists_parts_of_forall₂ (List.forall₂_reverse_iff.mpr hreads)
  have hcode : p.code = parts.flatMap Part.source := by
    rw [← hsource, hread, List.nil_append]
  refine ⟨⟨parts, hcode, hresult, fun segment x hmem ↦ ?_⟩, rfl, ?_, peak_le_of_fold h⟩
  · have hsound : Computes segment x := hparts _ hmem
    exact ⟨hsound.loads, hsound.leaves⟩
  · change (Folded.kept stack).length ≤ _
    rw [show Folded.kept stack = parts.map Part.result from hresult, List.length_map, hcode]
    exact length_le_flatMap_source hparts

/-- In the code of `x * (2 + 3)` the sum is replaced by its value. -/
theorem fold_segments_product :
    ∃ q, Program.fold (α := Float) ⟨[.load (.whole 0), .constant (.real 2.0),
        .constant (.real 3.0), .binary .add, .binary .multiply], ["x"]⟩ = .ok q ∧
      (∃ parts : List (Part Float),
        [.load (.whole 0), .constant (.real 2.0), .constant (.real 3.0), .binary .add,
          .binary .multiply] = parts.flatMap Part.source ∧
        q.code = parts.map Part.result ∧
        ∀ segment x, Part.replaced segment x ∈ parts → loads segment = [] ∧
          ∀ names values xs, unbounded names values segment xs = .ok (x :: xs)) ∧
      q.code.length ≤ 5 ∧ q.peak [4.0] ≤ 3 := by
  have h : Program.fold (α := Float) ⟨[.load (.whole 0), .constant (.real 2.0),
      .constant (.real 3.0), .binary .add, .binary .multiply], ["x"]⟩ =
      .ok ⟨[.load (.whole 0), .constant (.real 5.0), .binary .multiply], ["x"]⟩ := by rfl
  obtain ⟨hparts, -, hlength, hpeak⟩ := fold_segments h
  exact ⟨_, h, hparts, hlength, hpeak [4.0]⟩

end Program

end CurveCalc
