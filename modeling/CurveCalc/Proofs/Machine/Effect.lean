import CurveCalc.Machine.Run
import CurveCalc.Proofs.Attempt

/-!
The machine seen as working on plain lists of values. An instruction has an effect on the values
alone, whatever room there is for them, and it leaves one value in the place of those it takes; so
all that the room decides is whether this value fits. A call for a negative number of values would
move the top of the stack over places without values, but no function does without arguments: such a
call fails, and nothing is ever seen of those places.
-/

set_option autoImplicit false
set_option relaxedAutoImplicit false

namespace CurveCalc.Machine

variable {α : Type}

/-- Values for which there has to be room. -/
def fit (capacity : Int) (xs : List α) : Except RunError (List α) :=
  if capacity < xs.length then .error (.stackOverflow capacity) else .ok xs

theorem fit_of_le {capacity : Int} {xs : List α} (h : (xs.length : Int) ≤ capacity) :
    fit capacity xs = .ok xs := if_neg (Int.not_lt.mpr h)

/-- A stack of some capacity holds these values, the top one first, and its top is in its place. -/
structure Holds (s : Stack α) (capacity : Int) (xs : List α) : Prop where
  overhang : s.overhang = 0
  capacity : s.capacity = capacity
  live : s.live = xs

/-- A stack holds what a list says is left, and failures are the same. -/
def Shows (capacity : Int) : Except RunError (Stack α) → Except RunError (List α) → Prop
  | .ok s, .ok xs => Holds s capacity xs
  | .error e, .error e' => e = e'
  | _, _ => False

theorem Shows.cases {capacity : Int} {a : Except RunError (Stack α)} {b : Except RunError (List α)}
    (h : Shows capacity a b) :
    (∃ e, a = .error e ∧ b = .error e) ∨ ∃ s xs, a = .ok s ∧ b = .ok xs ∧ Holds s capacity xs := by
  cases a with
  | error e =>
    cases b with
    | error e' =>
      obtain rfl : e = e' := h
      exact Or.inl ⟨e, rfl, rfl⟩
    | ok xs => exact h.elim
  | ok s =>
    cases b with
    | error e => exact h.elim
    | ok xs => exact Or.inr ⟨s, xs, rfl, rfl, h⟩

section Places

variable {s : Stack α} {capacity : Int} {xs : List α}

theorem holds_empty (fresh : α) (capacity : Int) : Holds (Stack.empty fresh capacity) capacity [] :=
  ⟨rfl, rfl, rfl⟩

theorem Holds.size (h : Holds s capacity xs) : s.size = xs.length := by
  rw [Stack.size, h.overhang, h.live, Nat.add_zero]

theorem push_shows (h : Holds s capacity xs) (x : α) :
    Shows capacity (push x s) (fit capacity (x :: xs)) := by
  have hsize : s.capacity ≤ s.size ↔ capacity < ((x :: xs).length : Int) := by
    rw [h.size, h.capacity, List.length_cons]
    omega
  unfold push Stack.push fit
  by_cases hfull : s.capacity ≤ s.size
  · rw [if_pos hfull, if_pos (hsize.mp hfull)]
    exact congrArg RunError.stackOverflow h.capacity
  · rw [if_neg hfull, if_neg (mt hsize.mpr hfull)]
    exact ⟨h.overhang, h.capacity, congrArg (List.cons x) h.live⟩

theorem pop_cons {x : α} (h : Holds s capacity (x :: xs)) :
    ∃ t, pop s = .ok (x, t) ∧ Holds t capacity xs := by
  refine ⟨{ s with live := xs, spent := x :: s.spent }, ?_, ⟨h.overhang, h.capacity, rfl⟩⟩
  simp only [pop, Stack.pop, h.overhang, h.live]

theorem pop_nil (h : Holds s capacity []) : pop s = .error .stackUnderflow := by
  simp only [pop, Stack.pop, h.overhang, h.live]

theorem popN_of_lt (h : Holds s capacity xs) {count : Int} (hcount : (xs.length : Int) < count) :
    s.popN count = (none, s) := by
  rw [Stack.popN, h.size, if_pos hcount]

theorem popN_of_le (h : Holds s capacity xs) {count : Int} (hcount : 0 ≤ count)
    (hlen : count ≤ xs.length) :
    ∃ t, s.popN count = (some (xs.take count.toNat).reverse, t) ∧
      Holds t capacity (xs.drop count.toNat) := by
  refine ⟨{ s with
    live := xs.drop count.toNat
    spent := (xs.take count.toNat).reverse ++ s.spent }, ?_, ⟨h.overhang, h.capacity, rfl⟩⟩
  rw [Stack.popN, h.size, if_neg (Int.not_lt.mpr hlen), if_neg (Int.not_lt.mpr hcount)]
  simp only [h.overhang, h.live, Nat.min_zero, Nat.sub_zero]

theorem popN_of_neg {count : Int} (hcount : count < 0) :
    s.popN count = (some [], s.raise count.natAbs) := by
  have hsize : ¬ (s.size : Int) < count := by omega
  rw [Stack.popN, if_neg hsize, if_pos hcount]

end Places

variable [Primitives α]

/-- What an instruction makes of the values on a stack, the top one first, if there is room for any
number of them. -/
def effect (names : List String) (values : List α) :
    Instruction α → List α → Except RunError (List α)
  | .constant value, xs => do return (← value.value) :: xs
  | .load slot, xs => do return (← fetch names values (← slot.index)) :: xs
  | .binary op, right :: left :: xs => .ok (Primitives.binary op left right :: xs)
  | .binary _, _ => .error .stackUnderflow
  | .unary op, x :: xs => .ok (Primitives.unary op x :: xs)
  | .unary _, [] => .error .stackUnderflow
  | .call function count, xs => do
    let number ← function.index
    if (xs.length : Int) < count then .error (.notEnoughArguments (← Builtin.resolve number))
    else return (← Builtin.call number (xs.take count.toNat).reverse) :: xs.drop count.toNat
  | .unknown code, _ => .error (.invalidInstruction code)

/-- An instruction that succeeds finds the values it takes and leaves one in their place. -/
theorem effect_ok {names : List String} {values : List α} {i : Instruction α} {xs ys : List α}
    (h : effect names values i xs = .ok ys) :
    i.operandCount ≤ xs.length ∧ ∃ y, ys = y :: xs.drop i.operandCount.toNat := by
  cases i with
  | constant value =>
    obtain ⟨x, -, hx⟩ := Attempt.bind_eq_ok.mp h
    cases hx
    exact ⟨Int.natCast_nonneg _, x, rfl⟩
  | load slot =>
    obtain ⟨n, -, hn⟩ := Attempt.bind_eq_ok.mp h
    obtain ⟨x, -, hx⟩ := Attempt.bind_eq_ok.mp hn
    cases hx
    exact ⟨Int.natCast_nonneg _, x, rfl⟩
  | binary op =>
    match xs with
    | [] => simp [effect] at h
    | [right] => simp [effect] at h
    | right :: left :: xs =>
      simp only [effect, Except.ok.injEq] at h
      refine ⟨?_, Primitives.binary op left right, h.symm⟩
      simp only [Instruction.operandCount, List.length_cons]
      omega
  | unary op =>
    cases xs with
    | nil => simp [effect] at h
    | cons x xs =>
      simp only [effect, Except.ok.injEq] at h
      refine ⟨?_, Primitives.unary op x, h.symm⟩
      simp only [Instruction.operandCount, List.length_cons]
      omega
  | call function count =>
    obtain ⟨number, -, hnumber⟩ := Attempt.bind_eq_ok.mp h
    by_cases hlen : (xs.length : Int) < count
    · rw [if_pos hlen] at hnumber
      obtain ⟨f, -, hf⟩ := Attempt.bind_eq_ok.mp hnumber
      cases hf
    · rw [if_neg hlen] at hnumber
      obtain ⟨x, -, hx⟩ := Attempt.bind_eq_ok.mp hnumber
      cases hx
      exact ⟨Int.not_lt.mp hlen, x, rfl⟩
  | unknown code => simp [effect] at h

/-- A call whose arguments are on top gives them to its function in the order they were put there.
-/
theorem effect_call (names : List String) (values : List α) (function : Operand α) {count : Int}
    {xs : List α} (hlen : xs.length = count.toNat) (zs : List α) :
    effect names values (.call function count) (xs.reverse ++ zs) =
      (function.index.bind fun number ↦ Builtin.call number xs).map (· :: zs) := by
  have hroom : ¬ ((xs.reverse ++ zs).length : Int) < count := by
    rw [List.length_append, List.length_reverse]
    omega
  have htake : (xs.reverse ++ zs).take count.toNat = xs.reverse := by
    rw [← hlen, ← List.length_reverse, List.take_left]
  have hdrop : (xs.reverse ++ zs).drop count.toNat = zs := by
    rw [← hlen, ← List.length_reverse, List.drop_left]
  cases hindex : function.index with
  | error e => simp only [effect, hindex, bind, Except.bind, Except.map]
  | ok number =>
    simp only [effect, hindex, bind, Except.bind, if_neg hroom, htake, hdrop, List.reverse_reverse]
    cases Builtin.call number xs <;> rfl

section Lists

variable (capacity : Int) (names : List String) (values : List α)

/-- The effect of an instruction where there is room for `capacity` values. -/
def within (xs : List α) (i : Instruction α) : Except RunError (List α) :=
  (effect names values i xs).bind (fit capacity)

/-- The effects of instructions one after the other. -/
def follow (code : List (Instruction α)) (xs : List α) : Except RunError (List α) :=
  code.foldlM (within capacity names values) xs

theorem follow_cons (i : Instruction α) (code : List (Instruction α)) (xs : List α) :
    follow capacity names values (i :: code) xs =
      (within capacity names values xs i).bind (follow capacity names values code) := rfl

theorem follow_append (code more : List (Instruction α)) (xs : List α) :
    follow capacity names values (code ++ more) xs =
      (follow capacity names values code xs).bind (follow capacity names values more) :=
  List.foldlM_append

theorem follow_singleton (i : Instruction α) (xs : List α) :
    follow capacity names values [i] xs = within capacity names values xs i := by
  rw [follow_cons]
  cases within capacity names values xs i <;> rfl

variable {capacity names values}

theorem within_of_effect {i : Instruction α} {xs ys : List α}
    (h : effect names values i xs = .ok ys) :
    within capacity names values xs i = fit capacity ys := by
  rw [within, h]
  rfl

theorem within_error {i : Instruction α} {xs : List α} {e : RunError}
    (h : effect names values i xs = .error e) : within capacity names values xs i = .error e := by
  rw [within, h]
  rfl

theorem within_ok {i : Instruction α} {xs ys : List α}
    (h : within capacity names values xs i = .ok ys) : effect names values i xs = .ok ys := by
  obtain ⟨zs, heffect, hfit⟩ := Attempt.bind_eq_ok.mp h
  unfold fit at hfit
  by_cases hfull : capacity < zs.length
  · rw [if_pos hfull] at hfit
    cases hfit
  · rw [if_neg hfull] at hfit
    rwa [← hfit]

end Lists

/-- Every function takes an argument at least. -/
theorem call_nil (number : Int) : ∃ e, Builtin.call number ([] : List α) = .error e := by
  unfold Builtin.call Builtin.resolve
  cases Builtin.ofNumber? number with
  | none => exact ⟨_, rfl⟩
  | some f =>
    have harity : 0 ≠ f.arity := by cases f <;> decide
    exact ⟨.wrongArgumentCount f 0, if_neg harity⟩

theorem call_number (f : Builtin) (xs : List α) :
    Builtin.call (f.number : Int) xs =
      if xs.length = f.arity then .ok (Primitives.apply f xs)
      else .error (.wrongArgumentCount f xs.length) := by
  unfold Builtin.call Builtin.resolve
  rw [Builtin.ofNumber?_number]
  rfl

section Runs

variable (names : List String) (values : List α) {s : Stack α} {capacity : Int} {xs : List α}

theorem step_binary_shows (h : Holds s capacity xs) (op : BinaryOperator) :
    Shows capacity (step names values s (.binary op))
      (within capacity names values xs (.binary op)) := by
  match xs with
  | [] => simp only [step, within, effect, pop_nil h, bind, Except.bind, Shows]
  | [right] =>
    obtain ⟨t, ht, hright⟩ := pop_cons h
    simp only [step, within, effect, ht, pop_nil hright, bind, Except.bind, Shows]
  | right :: left :: xs =>
    obtain ⟨t, ht, hright⟩ := pop_cons h
    obtain ⟨u, hu, hleft⟩ := pop_cons hright
    simp only [step, within, effect, ht, hu, bind, Except.bind]
    exact push_shows hleft (Primitives.binary op left right)

theorem step_call_shows (h : Holds s capacity xs) (function : Operand α) (count : Int) :
    Shows capacity (step names values s (.call function count))
      (within capacity names values xs (.call function count)) := by
  cases hindex : function.index with
  | error e => simp only [step, within, effect, hindex, bind, Except.bind, Shows]
  | ok number =>
    simp only [step, within, effect, hindex, bind, Except.bind]
    by_cases hlen : (xs.length : Int) < count
    · rw [popN_of_lt h hlen, if_pos hlen]
      cases Builtin.resolve number <;> rfl
    · rw [if_neg hlen]
      by_cases hcount : count < 0
      · obtain ⟨e, he⟩ := call_nil (α := α) number
        have htake : (xs.take count.toNat).reverse = [] := by
          rw [Int.toNat_of_nonpos (Int.le_of_lt hcount), List.take_zero, List.reverse_nil]
        simp only [popN_of_neg hcount, htake, he, Shows]
      · obtain ⟨t, ht, hrest⟩ := popN_of_le h (Int.not_lt.mp hcount) (Int.not_lt.mp hlen)
        rw [ht]
        cases hcall : Builtin.call number (xs.take count.toNat).reverse with
        | error e => simp only [hcall, Shows]
        | ok x =>
          simp only [hcall]
          exact push_shows hrest x

theorem step_shows (h : Holds s capacity xs) (i : Instruction α) :
    Shows capacity (step names values s i) (within capacity names values xs i) := by
  cases i with
  | constant value =>
    cases hvalue : value.value with
    | error e => simp only [step, within, effect, hvalue, bind, Except.bind, Shows]
    | ok x =>
      simp only [step, within, effect, hvalue, bind, Except.bind]
      exact push_shows h x
  | load slot =>
    cases hslot : slot.index with
    | error e => simp only [step, within, effect, hslot, bind, Except.bind, Shows]
    | ok n =>
      cases hfetch : fetch names values n with
      | error e => simp only [step, within, effect, hslot, hfetch, bind, Except.bind, Shows]
      | ok x =>
        simp only [step, within, effect, hslot, hfetch, bind, Except.bind]
        exact push_shows h x
  | binary op => exact step_binary_shows names values h op
  | unary op =>
    cases xs with
    | nil => simp only [step, within, effect, pop_nil h, bind, Except.bind, Shows]
    | cons x xs =>
      obtain ⟨t, ht, hrest⟩ := pop_cons h
      simp only [step, within, effect, ht, bind, Except.bind]
      exact push_shows hrest (Primitives.unary op x)
  | call function count => exact step_call_shows names values h function count
  | unknown code => rfl

/-- A whole run on places shows the run on lists: the room is the same throughout, and the top is
never out of its place. -/
theorem exec_shows (h : Holds s capacity xs) (code : List (Instruction α)) :
    Shows capacity (exec names values code s) (follow capacity names values code xs) := by
  induction code generalizing s xs with
  | nil => exact h
  | cons i code ih =>
    rw [follow_cons, exec]
    rcases (step_shows names values h i).cases with ⟨e, hplaces, hlist⟩ |
      ⟨t, ys, hplaces, hlist, ht⟩
    · rw [hplaces, hlist]
      rfl
    · rw [hplaces, hlist]
      exact ih ht

end Runs

/-- The top of the values that are left. -/
def top : List α → Except RunError α
  | [] => .error .stackUnderflow
  | x :: _ => .ok x

end CurveCalc.Machine

namespace CurveCalc.Program

variable {α : Type} [Primitives α]

open Machine

theorem run_nil (names : List String) (values : List α) (capacity : Int) :
    Program.run ⟨[], names⟩ values capacity = .error .noInstructions := rfl

/-- Running a program is following its code from no values at all. -/
theorem run_eq (p : Program α) (hp : p.code ≠ []) (values : List α) (capacity : Int) :
    p.run values capacity = (follow capacity p.names values p.code []).bind top := by
  have hexec := exec_shows p.names values (holds_empty Primitives.zero capacity) p.code
  have hcode : p.code.isEmpty = false := by simpa using hp
  simp only [Program.run, hcode, Bool.false_eq_true, if_false]
  rcases hexec.cases with ⟨e, hplaces, hlist⟩ | ⟨t, xs, hplaces, hlist, ht⟩
  · rw [hplaces, hlist]
    rfl
  · rw [hplaces, hlist]
    cases xs with
    | nil => simp only [bind, Except.bind, pop_nil ht, top]
    | cons x xs =>
      obtain ⟨u, hu, -⟩ := pop_cons ht
      simp only [bind, Except.bind, hu, top]
      rfl

end CurveCalc.Program
