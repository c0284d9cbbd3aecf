import CurveCalc.Machine.Float
import CurveCalc.Proofs.Code.WellFormed

/-!
Faults: ways in which a run ends other than with a value or a failure that is told as one
(`RunError.Told`). Where every argument is of the kind its instruction asks for
(`Instruction.Typed`), only a load can lead to one. A slot from zero on has the value in its place,
or there is none and the variable is undefined; a slot below zero counts from the end of the values,
so it has the value of another slot (`Machine.fetch_from_end`), and one that counts beyond the first
of them is a fault (`Machine.fetch_far`). A run comes to a fault exactly if it gets as far as such a
load (`Program.run_fault_iff`).
-/

set_option autoImplicit false
set_option relaxedAutoImplicit false

namespace CurveCalc

/-- The argument of a constant is a value, and all other arguments are whole numbers. -/
def Instruction.Typed {α : Type} : Instruction α → Prop
  | constant (.whole _) => False
  | load (.real _) => False
  | call (.real _) _ => False
  | _ => True

/-- A failure that is told as one of the evaluation. -/
def RunError.Told (e : RunError) : Prop := ∀ fault, e ≠ .badOperand fault

namespace Machine

variable {α : Type} {names : List String} {values : List α}

section Slots

variable (names : List String) {values : List α}

theorem fetch_of_lt {n : Nat} (h : n < values.length) :
    fetch names values n = .ok values[n] := by
  have hlong : ¬ (values.length : Int) ≤ n := by omega
  rw [fetch, if_neg hlong, atSlot?, if_pos (Int.natCast_nonneg n), Int.toNat_natCast,
    List.getElem?_eq_getElem h]

theorem fetch_of_le {n : Nat} (h : values.length ≤ n) :
    fetch names values n = .error (.undefinedVariable n names values.length) := by
  rw [fetch, if_pos (Int.ofNat_le.mpr h), Int.toNat_natCast]

/-- A slot below zero counts from the end of the values. -/
theorem fetch_from_end {n : Nat} (h : n < values.length) :
    fetch names values (n - values.length : Int) = .ok values[n] := by
  have hlong : ¬ (values.length : Int) ≤ n - values.length := by omega
  have hsign : ¬ (0 : Int) ≤ n - values.length := by omega
  have hback : (n - values.length : Int).natAbs ≤ values.length := by omega
  have hplace : values.length - (n - values.length : Int).natAbs = n := by omega
  rw [fetch, if_neg hlong, atSlot?, if_neg hsign, if_pos hback, hplace,
    List.getElem?_eq_getElem h]

theorem fetch_far {slot : Int} (h : slot < -(values.length : Int)) :
    fetch names values slot = .error (.badOperand .outOfRange) := by
  have hlong : ¬ (values.length : Int) ≤ slot := by omega
  have hsign : ¬ 0 ≤ slot := by omega
  have hback : ¬ slot.natAbs ≤ values.length := by omega
  rw [fetch, if_neg hlong, atSlot?, if_neg hsign, if_neg hback]

theorem fetch_told {slot : Int} (h : -(values.length : Int) ≤ slot) :
    Ends RunError.Told (fun _ ↦ True) (fetch names values slot) := by
  by_cases hsign : slot < 0
  · obtain ⟨n, hn⟩ := Int.eq_ofNat_of_zero_le (a := slot + values.length) (by omega)
    obtain rfl : slot = n - values.length := by omega
    rw [fetch_from_end names (by omega)]
    trivial
  · obtain ⟨n, rfl⟩ := Int.eq_ofNat_of_zero_le (Int.not_lt.mp hsign)
    by_cases hn : n < values.length
    · rw [fetch_of_lt names hn]
      trivial
    · rw [fetch_of_le names (Nat.not_lt.mp hn)]
      exact fun _ ↦ nofun

end Slots

theorem fit_told (capacity : Int) (xs : List α) :
    Ends RunError.Told (fun _ ↦ True) (fit capacity xs) := by
  unfold fit
  split
  · exact fun _ ↦ nofun
  · trivial

theorem resolve_told (number : Int) :
    Ends RunError.Told (fun _ ↦ True) (Builtin.resolve number) := by
  unfold Builtin.resolve
  cases Builtin.ofNumber? number with
  | none => exact fun _ ↦ nofun
  | some f => trivial

variable [Primitives α]

theorem call_told (number : Int) (xs : List α) :
    Ends RunError.Told (fun _ ↦ True) (Builtin.call number xs) := by
  refine (resolve_told number).bind fun f _ ↦ ?_
  split
  · trivial
  · exact fun _ ↦ nofun

variable {i : Instruction α} {capacity : Int} {xs : List α}

/-- An instruction that loads from no slot too far below zero succeeds, or its failure is told. -/
theorem effect_told (hi : i.Typed) (hslot : ∀ slot, i = .load (.whole slot) →
    -(values.length : Int) ≤ slot) :
    Ends RunError.Told (fun _ ↦ True) (effect names values i xs) := by
  cases i with
  | constant value =>
    cases value with
    | whole n => exact hi.elim
    | real x => trivial
  | load slot =>
    cases slot with
    | real x => exact hi.elim
    | whole slot => exact (fetch_told names (hslot slot rfl)).bind fun _ _ ↦ trivial
  | binary op =>
    rcases xs with _ | ⟨right, _ | ⟨left, xs⟩⟩
    · rintro _ ⟨⟩
    · rintro _ ⟨⟩
    · trivial
  | unary op =>
    cases xs with
    | nil => rintro _ ⟨⟩
    | cons x xs => trivial
  | call function count =>
    cases function with
    | real x => exact hi.elim
    | whole number =>
      simp only [effect, Operand.index, Operand.toInt, Attempt.mapError_ok, bind, Except.bind]
      split
      · refine (resolve_told number).bind fun _ _ ↦ ?_
        rintro _ ⟨⟩
      · exact (call_told number _).bind fun _ _ ↦ trivial
  | unknown code => rintro _ ⟨⟩

theorem within_told (hi : i.Typed) (hslot : ∀ slot, i = .load (.whole slot) →
    -(values.length : Int) ≤ slot) :
    Ends RunError.Told (fun _ ↦ True) (within capacity names values xs i) :=
  (effect_told hi hslot).bind fun ys _ ↦ fit_told capacity ys

theorem within_far {slot : Int} (hslot : slot < -(values.length : Int)) :
    within capacity names values xs (.load (.whole slot)) =
      .error (.badOperand .outOfRange) := by
  refine within_error ?_
  change (fetch names values slot).bind _ = _
  rw [fetch_far names hslot]
  rfl

/-- Typed code comes to a fault where it gets as far as a load that counts beyond the first value.
-/
theorem follow_fault_iff {code : List (Instruction α)} (hcode : ∀ i ∈ code, i.Typed)
    {fault : OperandFault} :
    follow capacity names values code xs = .error (.badOperand fault) ↔
      fault = .outOfRange ∧ ∃ before slot after ys, code = before ++ .load (.whole slot) :: after ∧
        slot < -(values.length : Int) ∧ follow capacity names values before xs = .ok ys := by
  constructor
  · intro h
    induction code generalizing xs with
    | nil => cases h
    | cons i code ih =>
      rw [follow_cons] at h
      by_cases hfar : ∃ slot, i = .load (.whole slot) ∧ slot < -(values.length : Int)
      · obtain ⟨slot, rfl, hslot⟩ := hfar
        rw [within_far hslot] at h
        cases h
        exact ⟨rfl, [], slot, code, xs, rfl, hslot, rfl⟩
      · have hnear : ∀ slot, i = .load (.whole slot) → -(values.length : Int) ≤ slot :=
          fun slot hi ↦ Int.not_lt.mp fun hslot ↦ hfar ⟨slot, hi, hslot⟩
        have htold : Ends RunError.Told (fun _ ↦ True) (within capacity names values xs i) :=
          within_told (hcode i List.mem_cons_self) hnear
        cases hfirst : within capacity names values xs i with
        | error e =>
          rw [hfirst] at h htold
          exact absurd (Except.error.inj h) (htold fault)
        | ok zs =>
          rw [hfirst] at h
          obtain ⟨rfl, before, slot, after, ys, rfl, hslot, hbefore⟩ :=
            ih (fun j hj ↦ hcode j (List.mem_cons_of_mem i hj)) h
          refine ⟨rfl, i :: before, slot, after, ys, rfl, hslot, ?_⟩
          rw [follow_cons, hfirst]
          exact hbefore
  · rintro ⟨rfl, before, slot, after, ys, rfl, hslot, hbefore⟩
    rw [follow_append, hbefore]
    change follow capacity names values (.load (.whole slot) :: after) ys = _
    rw [follow_cons, within_far hslot]
    rfl

theorem step_load (names : List String) (values : List α) (s : Stack α) (slot : Int) :
    step names values s (.load (.whole slot)) = (fetch names values slot).bind (push · s) := rfl

end Machine

open Machine

variable {α : Type} [Primitives α]

theorem Program.run_eq_fault_iff {p : Program α} (hp : ∀ i ∈ p.code, i.Typed) (values : List α)
    (capacity : Int) (fault : OperandFault) :
    p.run values capacity = .error (.badOperand fault) ↔
      fault = .outOfRange ∧ ∃ before slot after ys,
        p.code = before ++ .load (.whole slot) :: after ∧ slot < -(values.length : Int) ∧
          follow capacity p.names values before [] = .ok ys := by
  rw [← follow_fault_iff hp]
  by_cases hcode : p.code = []
  · have hrun : p.run values capacity = .error .noInstructions := by
      unfold run
      rw [hcode]
      rfl
    rw [hrun, hcode]
    exact iff_of_false nofun nofun
  · rw [run_eq p hcode]
    cases follow capacity p.names values p.code [] with
    | error e =>
      change Except.error e = _ ↔ _
      rw [Except.error.injEq, Except.error.injEq]
    | ok ys => cases ys <;> exact iff_of_false nofun nofun

/-- A run of typed code, whatever the names, the values and the room. A load puts the value in the
place of its slot on the stack if there is one, and says that the variable is undefined if the slot
is too high; below zero it puts the value of another slot there, or there is none, which is a fault.
A run ends with a fault exactly if it gets to such a load. So it gives a value or tells of its
failure if no slot of its code is below zero. -/
theorem Program.run_fault_iff {p : Program α} (hp : ∀ i ∈ p.code, i.Typed) (values : List α)
    (capacity : Int) :
    (∀ (s : Stack α) (n : Nat) (h : n < values.length),
      step p.names values s (.load (.whole n)) = push values[n] s ∧
      step p.names values s (.load (.whole (n - values.length))) = push values[n] s) ∧
    (∀ (s : Stack α) (n : Nat), values.length ≤ n →
      step p.names values s (.load (.whole n)) =
        .error (.undefinedVariable n p.names values.length)) ∧
    (∀ (s : Stack α) (slot : Int), slot < -(values.length : Int) →
      step p.names values s (.load (.whole slot)) = .error (.badOperand .outOfRange)) ∧
    (∀ fault, p.run values capacity = .error (.badOperand fault) ↔
      fault = .outOfRange ∧ ∃ before slot after ys,
        p.code = before ++ .load (.whole slot) :: after ∧ slot < -(values.length : Int) ∧
          follow capacity p.names values before [] = .ok ys) ∧
    ((∀ slot, .load (.whole slot) ∈ p.code → 0 ≤ slot) →
      (∃ y, p.run values capacity = .ok y) ∨
        ∃ e, p.run values capacity = .error e ∧ e.Told) := by
  refine ⟨?_, ?_, ?_, run_eq_fault_iff hp values capacity, ?_⟩
  · intro s n h
    rw [step_load, step_load, fetch_of_lt p.names h, fetch_from_end p.names h]
    exact ⟨rfl, rfl⟩
  · intro s n h
    rw [step_load, fetch_of_le p.names h]
    rfl
  · intro s slot h
    rw [step_load, fetch_far p.names h]
    rfl
  · intro hslots
    cases hrun : p.run values capacity with
    | ok y => exact Or.inl ⟨y, rfl⟩
    | error e =>
      refine Or.inr ⟨e, rfl, ?_⟩
      rintro fault rfl
      obtain ⟨-, before, slot, after, ys, hsplit, hslot, -⟩ :=
        (run_eq_fault_iff hp values capacity fault).mp hrun
      have hmem : .load (.whole slot) ∈ p.code := by
        rw [hsplit]
        exact List.mem_append_right _ List.mem_cons_self
      have hnonneg := hslots slot hmem
      omega

/-- Behind a variable that has a value, a slot that counts beyond the first one. -/
theorem Program.run_fault_second :
    (∀ i ∈ ([.load (.whole 1), .load (.whole (-3))] : List (Instruction Float)), i.Typed) ∧
    Program.run (α := Float) ⟨[.load (.whole 1), .load (.whole (-3))], ["x", "y"]⟩
      [1.0, 2.0] 64 = .error (.badOperand .outOfRange) := by
  have htyped : ∀ i ∈ ([.load (.whole 1), .load (.whole (-3))] : List (Instruction Float)),
      i.Typed := List.forall_mem_cons.mpr ⟨trivial, List.forall_mem_singleton.mpr trivial⟩
  refine ⟨htyped, ?_⟩
  have hfault := (Program.run_fault_iff (p := ⟨_, ["x", "y"]⟩) htyped [1.0, 2.0] 64).2.2.2.1
  exact (hfault .outOfRange).mpr ⟨rfl, [.load (.whole 1)], -3, [], [2.0], rfl, by decide, rfl⟩

/-- A slot below zero: without any values it is a fault, and with two of them it has the value of
the second variable. -/
theorem Program.run_slot_below_zero :
    Program.run (α := Float) ⟨[.load (.whole (-1))], []⟩ [] 64 =
      .error (.badOperand .outOfRange) ∧
    ¬ (RunError.badOperand .outOfRange).Told ∧
    Program.run (α := Float) ⟨[.load (.whole (-1))], ["x", "y"]⟩ [1.0, 2.0] 64 = .ok 2.0 :=
  ⟨rfl, fun h ↦ h .outOfRange rfl, rfl⟩

end CurveCalc
