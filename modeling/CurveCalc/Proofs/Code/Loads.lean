import CurveCalc.Proofs.Code.Folding
import Mathlib.Data.List.Induction
import Mathlib.Data.List.Nodup

/-!
The variables that code loads, in order. Folding keeps every load in its place among the others
(`Program.loads_fold`), since only code without loads is replaced by its value. A run that gets over
a load has found a value for its slot, so a run that ends for want of a value ends at the first load
of a slot beyond the values (`Machine.loads_of_follow_undefined`). If slots come up in order that is
the lowest slot without a value (`Machine.eq_of_follow_undefined`).
-/

set_option autoImplicit false
set_option relaxedAutoImplicit false

namespace CurveCalc

namespace Instruction

variable {α : Type}

/-- The slot that the instruction loads. -/
def slot? : Instruction α → Option (Operand α)
  | load slot => some slot
  | _ => none

/-- The slots that the code loads, in order. -/
def loads (code : List (Instruction α)) : List (Operand α) := code.filterMap slot?

theorem loads_append (code more : List (Instruction α)) :
    loads (code ++ more) = loads code ++ loads more := List.filterMap_append

theorem loads_singleton {i : Instruction α} (hi : i.slot? = none) : loads [i] = [] := by
  unfold loads
  rw [List.filterMap_cons_none hi, List.filterMap_nil]

theorem loads_constants (xs : List α) :
    loads (xs.map fun x ↦ .constant (.real x)) = [] := by
  unfold loads
  rw [List.filterMap_map, List.filterMap_eq_nil_iff]
  intro x _
  rfl

end Instruction

open Instruction

namespace Folded

variable {α : Type}

theorem slot?_of_operates {i : Instruction α} (hi : Operates i) : i.slot? = none := by
  cases i with
  | load slot => exact hi.elim
  | _ => rfl

variable [Primitives α]

theorem step_loads {i : Instruction α} {stack next : List (Folded α)}
    (h : step stack i = .ok next) : loads (kept next) = loads (kept stack) ++ loads [i] := by
  rcases step_cases i stack with ⟨value, rfl⟩ | ⟨slot, rfl⟩ | ⟨hoperates, hcombine⟩
  · obtain ⟨x, -, rfl⟩ := step_constant_eq_ok.mp h
    rw [kept_cons, loads_append]
    rfl
  · cases h
    rw [kept_cons, loads_append]
    rfl
  rw [hcombine] at h
  rw [loads_singleton (slot?_of_operates hoperates), List.append_nil]
  rcases combine_cases i stack with ⟨-, e, he⟩ | ⟨operands, rest, rfl, -, hresult⟩
  · rw [he] at h
    cases h
  rw [kept_append, loads_append, kept_reverse]
  rcases hresult with ⟨xs, rfl, hknown⟩ | ⟨-, hresidual⟩
  · rw [hknown] at h
    obtain ⟨x, -, rfl⟩ := Attempt.map_eq_ok.mp h
    rw [kept_cons, loads_append, flatMap_code_known, loads_constants]
    rfl
  · rw [hresidual] at h
    cases h
    rw [kept_cons, loads_append, code, loads_append,
      loads_singleton (slot?_of_operates hoperates), List.append_nil]

theorem steps_loads {code : List (Instruction α)} {stack final : List (Folded α)}
    (h : steps code stack = .ok final) : loads (kept final) = loads (kept stack) ++ loads code := by
  induction code generalizing stack with
  | nil =>
    cases h
    exact (List.append_nil _).symm
  | cons i code ih =>
    obtain ⟨next, hstep, hnext⟩ := Attempt.bind_eq_ok.mp h
    rw [ih hnext, step_loads hstep, List.append_assoc, ← loads_append, List.singleton_append]

end Folded

/-- Folding neither drops a load nor moves it past another one. -/
theorem Program.loads_fold {α : Type} [Primitives α] {p q : Program α} (h : p.fold = .ok q) :
    loads q.code = loads p.code ∧ q.names = p.names := by
  obtain ⟨stack, -, hsteps, rfl⟩ := exists_of_fold h
  exact ⟨Folded.steps_loads hsteps, rfl⟩

namespace Machine

variable {α : Type} [Primitives α] {capacity : Int} {names ns : List String} {values : List α}
  {i : Instruction α} {xs ys : List α} {slot given : Nat}

/-- There is a value for the slot. -/
def Supplied (values : List α) (s : Operand α) : Prop :=
  ∃ n, s.index = .ok n ∧ n < values.length

/-- There is none for want of values, and the slot has this number. -/
def Lacking (values : List α) (slot : Nat) (s : Operand α) : Prop :=
  ∃ n, s.index = .ok n ∧ (values.length : Int) ≤ n ∧ slot = n.toNat

theorem supplied_of_effect {s : Operand α} (h : effect names values (.load s) xs = .ok ys) :
    Supplied values s := by
  obtain ⟨n, hindex, hn⟩ := Attempt.bind_eq_ok.mp h
  obtain ⟨x, hfetch, -⟩ := Attempt.bind_eq_ok.mp hn
  refine ⟨n, hindex, ?_⟩
  by_contra hlong
  rw [fetch, if_pos (Int.not_lt.mp hlong)] at hfetch
  cases hfetch

theorem call_ne_undefined (number : Int) :
    Builtin.call number xs ≠ .error (.undefinedVariable slot ns given) := by
  intro h
  unfold Builtin.call Builtin.resolve at h
  cases hf : Builtin.ofNumber? number with
  | none => simp [hf, bind, Except.bind] at h
  | some f =>
    simp only [hf, bind, Except.bind] at h
    split at h <;> cases h

/-- Only a load fails for want of a value. -/
theorem lacking_of_effect
    (h : effect names values i xs = .error (.undefinedVariable slot ns given)) :
    ∃ s, i = .load s ∧ Lacking values slot s := by
  cases i with
  | load s =>
    refine ⟨s, rfl, ?_⟩
    unfold Lacking
    unfold effect Operand.index at h
    unfold Operand.index
    cases hindex : s.toInt with
    | error fault => simp [hindex, Attempt.mapError_error, bind, Except.bind] at h
    | ok n =>
      refine ⟨n, rfl, ?_⟩
      simp only [hindex, Attempt.mapError_ok, bind, Except.bind, fetch] at h
      by_cases hlong : (values.length : Int) ≤ n
      · simp only [if_pos hlong, Except.error.injEq, RunError.undefinedVariable.injEq] at h
        exact ⟨hlong, h.1.symm⟩
      · rw [if_neg hlong] at h
        cases hvalue : atSlot? values n with
        | some x => simp [hvalue, pure, Except.pure] at h
        | none => simp [hvalue] at h
  | constant value =>
    exfalso
    cases value with
    | real x => cases h
    | whole n =>
      cases hn : (Primitives.ofInt? n : Option α) with
      | none => simp [effect, Operand.value, hn, bind, Except.bind] at h
      | some x => simp [effect, Operand.value, hn, bind, Except.bind, pure, Except.pure] at h
  | binary op =>
    cases xs with
    | nil => cases h
    | cons right xs => cases xs <;> cases h
  | unary op => cases xs <;> cases h
  | call function count =>
    exfalso
    unfold effect Operand.index at h
    cases hindex : function.toInt with
    | error fault => simp [hindex, Attempt.mapError_error, bind, Except.bind] at h
    | ok number =>
      simp only [hindex, Attempt.mapError_ok, bind, Except.bind] at h
      split at h
      · unfold Builtin.resolve at h
        cases hf : Builtin.ofNumber? number with
        | none => simp [hf] at h
        | some f => simp [hf] at h
      · cases hcall : Builtin.call number (xs.take count.toNat).reverse with
        | ok x => simp [hcall, pure, Except.pure] at h
        | error e =>
          simp only [hcall] at h
          cases h
          exact call_ne_undefined number hcall
  | unknown code => cases h

theorem lacking_of_within
    (h : within capacity names values xs i = .error (.undefinedVariable slot ns given)) :
    ∃ s, i = .load s ∧ Lacking values slot s := by
  cases heffect : effect names values i xs with
  | error e =>
    rw [within_error heffect] at h
    cases h
    exact lacking_of_effect heffect
  | ok ys =>
    rw [within_of_effect heffect, fit] at h
    split at h <;> cases h

/-- Code that is run to its end has found a value for each of its loads. -/
theorem loads_of_follow_ok {code : List (Instruction α)}
    (h : follow capacity names values code xs = .ok ys) : ∀ s ∈ loads code, Supplied values s := by
  induction code generalizing xs with
  | nil => exact fun s hs ↦ absurd hs List.not_mem_nil
  | cons i code ih =>
    rw [follow_cons] at h
    obtain ⟨zs, hfirst, hmore⟩ := Attempt.bind_eq_ok.mp h
    intro s hs
    rw [← List.singleton_append, loads_append] at hs
    rcases List.mem_append.mp hs with hs | hs
    · cases i with
      | load slot =>
        obtain rfl : s = slot := List.mem_singleton.mp hs
        exact supplied_of_effect (within_ok hfirst)
      | _ => exact absurd hs List.not_mem_nil
    · exact ih hmore s hs

/-- Code that ends for want of a value has come to the first of its loads without one. -/
theorem loads_of_follow_undefined {code : List (Instruction α)}
    (h : follow capacity names values code xs = .error (.undefinedVariable slot ns given)) :
    ∃ before s after, loads code = before ++ s :: after ∧ Lacking values slot s ∧
      ∀ b ∈ before, Supplied values b := by
  induction code generalizing xs with
  | nil => cases h
  | cons i code ih =>
    rw [follow_cons] at h
    cases hfirst : within capacity names values xs i with
    | error e =>
      rw [hfirst] at h
      cases h
      obtain ⟨s, rfl, hs⟩ := lacking_of_within hfirst
      exact ⟨[], s, loads code, rfl, hs, List.forall_mem_nil _⟩
    | ok zs =>
      rw [hfirst] at h
      obtain ⟨before, s, after, hloads, hs, hbefore⟩ := ih h
      refine ⟨loads [i] ++ before, s, after, ?_, hs, ?_⟩
      · rw [← List.singleton_append, loads_append, hloads, List.append_assoc]
      · have hsingle : follow capacity names values [i] xs = .ok zs := by
          rw [follow_singleton, hfirst]
        have hdone := loads_of_follow_ok hsingle
        intro b hb
        exact (List.mem_append.mp hb).elim (hdone b) (hbefore b)

end Machine

/-- Every slot that comes up has had all lower ones before it. -/
def InOrder (slots : List Nat) : Prop :=
  ∀ before slot after, slots = before ++ slot :: after → ∀ n < slot, n ∈ before

theorem eraseDups_concat_of_mem {v : String} {vs : List String} (hv : v ∈ vs) :
    (vs ++ [v]).eraseDups = vs.eraseDups := by
  simp [List.eraseDups_append, List.removeAll, hv]

theorem eraseDups_concat_of_notMem {v : String} {vs : List String} (hv : v ∉ vs) :
    (vs ++ [v]).eraseDups = vs.eraseDups ++ [v] := by
  simp [List.eraseDups_append, List.removeAll, hv, List.eraseDups_cons]

theorem nodup_eraseDups (vs : List String) : vs.eraseDups.Nodup := by
  induction vs using List.reverseRecOn with
  | nil => exact List.nodup_nil
  | append_singleton vs v ih =>
    by_cases hv : v ∈ vs
    · rwa [eraseDups_concat_of_mem hv]
    · rw [eraseDups_concat_of_notMem hv]
      refine List.nodup_append.mpr ⟨ih, List.nodup_singleton v, ?_⟩
      intro u hu w hw huw
      rw [List.mem_singleton.mp hw] at huw
      exact hv (List.mem_eraseDups.mp (huw ▸ hu))

/-- Slots that are given to names as these first appear come up in order. -/
theorem inOrder_idxOf (vs : List String) : InOrder (vs.map vs.eraseDups.idxOf) := by
  intro before slot after hslots n hn
  obtain ⟨us, ws, rfl, rfl, hws⟩ := List.map_eq_append_iff.mp hslots
  obtain ⟨v, ws, rfl, rfl, rfl⟩ := List.map_eq_cons_iff.mp hws
  have hnames : (us ++ v :: ws).eraseDups =
      us.eraseDups ++ ((v :: ws).removeAll us).eraseDups := List.eraseDups_append
  have hlength : n < us.eraseDups.length := by
    refine Nat.lt_of_lt_of_le hn ?_
    rw [hnames]
    by_cases hv : v ∈ us
    · have hmem : v ∈ us.eraseDups := List.mem_eraseDups.mpr hv
      rw [List.idxOf_append_of_mem hmem]
      exact Nat.le_of_lt (List.idxOf_lt_length_iff.mpr hmem)
    · have hnew : v ∉ us.eraseDups := mt List.mem_eraseDups.mp hv
      have hfirst : ((v :: ws).removeAll us).eraseDups.idxOf v = 0 := by
        simp [List.removeAll, hv, List.eraseDups_cons]
      rw [List.idxOf_append_of_notMem hnew, hfirst]
      exact Nat.le_refl _
  have hmem : us.eraseDups[n] ∈ us.eraseDups := List.getElem_mem hlength
  refine List.mem_map.mpr ⟨us.eraseDups[n], List.mem_eraseDups.mp hmem, ?_⟩
  rw [hnames, List.idxOf_append_of_mem hmem]
  exact (nodup_eraseDups us).idxOf_getElem n hlength

namespace Machine

variable {α : Type} [Primitives α] {capacity : Int} {names ns : List String} {values : List α}
  {xs : List α} {slot given : Nat}

/-- Where slots come up in order, a run that ends for want of a value ends at the lowest slot
without one. -/
theorem eq_of_follow_undefined {code : List (Instruction α)} {slots : List Nat}
    (hloads : loads code = slots.map fun n : Nat ↦ .whole n) (horder : InOrder slots)
    (h : follow capacity names values code xs = .error (.undefinedVariable slot ns given)) :
    slot = values.length := by
  obtain ⟨before, s, after, hsplit, ⟨m, hm, hlong, rfl⟩, hbefore⟩ := loads_of_follow_undefined h
  rw [hloads] at hsplit
  obtain ⟨ls, rs, rfl, rfl, hrs⟩ := List.map_eq_append_iff.mp hsplit
  obtain ⟨k, rs, rfl, rfl, rfl⟩ := List.map_eq_cons_iff.mp hrs
  obtain rfl : (k : Int) = m := Except.ok.inj hm
  rw [Int.toNat_natCast]
  by_contra hne
  have hmem := horder ls k rs rfl values.length (by omega)
  obtain ⟨n, hn, hlt⟩ := hbefore _ (List.mem_map_of_mem hmem)
  obtain rfl : (values.length : Int) = n := Except.ok.inj hn
  exact Int.lt_irrefl _ hlt

end Machine

end CurveCalc
