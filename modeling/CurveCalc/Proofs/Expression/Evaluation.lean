import CurveCalc.Proofs.Expression.Tree
import CurveCalc.Proofs.Machine.Effect

/-!
The value of an expression tree, worked out from left to right; the first failure ends it. The
machine gets the same from the tree's listing wherever there is room for the tree, on top of
whatever else is on the stack (`Expression.exec_postorder`).
-/

set_option autoImplicit false
set_option relaxedAutoImplicit false

namespace CurveCalc.Expression

open Machine

variable {α : Type} [Primitives α] (names : List String) (values : List α)

mutual

/-- The value of a tree over slots, where `values` are those of the variables. -/
def evaluate : Expression α Nat → Except RunError α
  | constant x => .ok x
  | var slot =>
    match values[slot]? with
    | some x => .ok x
    | none => .error (.undefinedVariable slot names values.length)
  | unary op e => do
    let x ← evaluate e
    return Primitives.unary op x
  | binary op l r => do
    let x ← evaluate l
    let y ← evaluate r
    return Primitives.binary op x y
  | call f es => do
    let xs ← evaluateAll es
    if xs.length = f.arity then .ok (Primitives.apply f xs)
    else .error (.wrongArgumentCount f xs.length)

def evaluateAll : List (Expression α Nat) → Except RunError (List α)
  | [] => .ok []
  | e :: es => do
    let x ← evaluate e
    let xs ← evaluateAll es
    return x :: xs

end

theorem fetch_slot (slot : Nat) :
    fetch names values (slot : Int) = evaluate names values (var slot) := by
  unfold fetch evaluate
  by_cases hslot : slot < values.length
  · have hle : ¬ (values.length : Int) ≤ slot := by omega
    rw [if_neg hle, atSlot?, if_pos (Int.natCast_nonneg slot), Int.toNat_natCast,
      List.getElem?_eq_getElem hslot]
  · have hle : (values.length : Int) ≤ slot := by omega
    rw [if_pos hle, List.getElem?_eq_none (Nat.le_of_not_lt hslot), Int.toNat_natCast]

theorem effect_slot (slot : Nat) (xs : List α) :
    effect names values (.load (.whole slot)) xs =
      (evaluate names values (var slot)).map (· :: xs) := by
  rw [← fetch_slot]
  change (fetch names values (slot : Int)).bind _ = _
  cases fetch names values (slot : Int) <;> rfl

theorem length_evaluateAll {es : List (Expression α Nat)} {xs : List α}
    (h : evaluateAll names values es = .ok xs) : xs.length = es.length := by
  induction es generalizing xs with
  | nil =>
    cases h
    rfl
  | cons e es ih =>
    obtain ⟨x, -, hx⟩ := Attempt.bind_eq_ok.mp h
    obtain ⟨ys, hys, hcons⟩ := Attempt.bind_eq_ok.mp hx
    cases hcons
    rw [List.length_cons, List.length_cons, ih hys]

variable {names values} {capacity : Int} {xs : List α}

theorem within_push {i : Instruction α} {zs : List α} {x : α}
    (heffect : effect names values i zs = .ok (x :: xs)) (hroom : xs.length + 1 ≤ capacity) :
    within capacity names values zs i = .ok (x :: xs) := by
  rw [within_of_effect heffect]
  exact fit_of_le (by rw [List.length_cons]; omega)

/-- Arguments on top of a stack are replaced by the value of their call. -/
theorem within_call (f : Builtin) (ys : List α) (hroom : xs.length + 1 ≤ capacity) :
    within capacity names values (ys.reverse ++ xs) (.call (.whole f.number) ys.length) =
      (if ys.length = f.arity then .ok (Primitives.apply f ys)
        else .error (.wrongArgumentCount f ys.length) : Except RunError α).map (· :: xs) := by
  have heffect := effect_call names values (.whole f.number) (Int.toNat_natCast ys.length).symm xs
  change _ = (Builtin.call (f.number : Int) ys).map (· :: xs) at heffect
  rw [call_number] at heffect
  by_cases harity : ys.length = f.arity
  · rw [if_pos harity] at heffect ⊢
    exact within_push heffect hroom
  · rw [if_neg harity] at heffect ⊢
    exact within_error heffect

/-- Arguments one after the other end up in reverse, if the listing of each does what it should. -/
theorem follow_postorderAll {es : List (Expression α Nat)}
    (hes : ∀ e ∈ es, ∀ {xs : List α}, xs.length + e.room ≤ capacity →
      follow capacity names values e.postorder xs = (e.evaluate names values).map (· :: xs))
    (hroom : xs.length + roomAll es ≤ capacity) :
    follow capacity names values (postorderAll es) xs =
      (evaluateAll names values es).map fun ys ↦ ys.reverse ++ xs := by
  induction es generalizing xs with
  | nil => rfl
  | cons e es ih =>
    rw [roomAll] at hroom
    rw [postorderAll, follow_append, hes e List.mem_cons_self (by omega), evaluateAll]
    cases e.evaluate names values with
    | error err => rfl
    | ok x =>
      change follow capacity names values (postorderAll es) (x :: xs) = _
      rw [ih (fun e he ↦ hes e (List.mem_cons_of_mem _ he)) (by rw [List.length_cons]; omega)]
      cases evaluateAll names values es with
      | error err => rfl
      | ok ys =>
        simp only [bind, Except.bind, Except.map, pure, Except.pure, List.reverse_cons,
          List.append_assoc, List.singleton_append]

/-- The listing of a tree puts its value on top of the values before, or fails as the tree does. -/
theorem follow_postorder (e : Expression α Nat) (hroom : xs.length + e.room ≤ capacity) :
    follow capacity names values e.postorder xs = (e.evaluate names values).map (· :: xs) := by
  induction e generalizing xs with
  | constant x =>
    rw [postorder, follow_singleton]
    exact within_push rfl hroom
  | var slot =>
    rw [postorder, follow_singleton]
    have heffect := effect_slot names values slot xs
    cases hvalue : (var slot).evaluate names values with
    | error err =>
      rw [hvalue] at heffect
      exact within_error heffect
    | ok x =>
      rw [hvalue] at heffect
      exact within_push heffect hroom
  | unary op e ih =>
    have hpos := e.room_pos
    rw [room] at hroom
    rw [postorder, follow_append, ih hroom, evaluate]
    cases e.evaluate names values with
    | error err => rfl
    | ok x =>
      change follow capacity names values [.unary op] (x :: xs) = _
      rw [follow_singleton]
      exact within_push rfl (by omega)
  | binary op l r ihl ihr =>
    have hpos := l.room_pos
    rw [room] at hroom
    rw [postorder, List.append_assoc, follow_append, ihl (by omega), evaluate]
    cases l.evaluate names values with
    | error err => rfl
    | ok x =>
      change follow capacity names values (r.postorder ++ [.binary op]) (x :: xs) = _
      rw [follow_append, ihr (by rw [List.length_cons]; omega)]
      cases hy : r.evaluate names values with
      | error err => simp only [bind, Except.bind, Except.map]
      | ok y =>
        simp only [bind, Except.bind, Except.map]
        rw [follow_singleton]
        exact within_push rfl (by omega)
  | call f es ih =>
    rw [room] at hroom
    rw [postorder, follow_append, follow_postorderAll (fun e he ↦ ih e he) (by omega), evaluate]
    cases hys : evaluateAll names values es with
    | error err => rfl
    | ok ys =>
      change follow capacity names values [.call (.whole f.number) es.length] (ys.reverse ++ xs) = _
      rw [← length_evaluateAll names values hys, follow_singleton, within_call f ys (by omega)]
      rfl

/-- On the machine: from any stack with room for the tree, its listing ends with the value of the
tree on top of what was there before, or fails as the tree does. -/
theorem exec_postorder (e : Expression α Nat) {s : Stack α} (hs : Holds s capacity xs)
    (hroom : xs.length + e.room ≤ capacity) :
    (∀ x, e.evaluate names values = .ok x →
      ∃ t, exec names values e.postorder s = .ok t ∧ Holds t capacity (x :: xs)) ∧
    (∀ err, e.evaluate names values = .error err →
      exec names values e.postorder s = .error err) := by
  have hfollow : follow capacity names values e.postorder xs =
      (e.evaluate names values).map (· :: xs) := follow_postorder e hroom
  rcases (exec_shows names values hs e.postorder).cases with ⟨err, hexec, hlist⟩ |
    ⟨t, ys, hexec, hlist, ht⟩
  · rw [hlist] at hfollow
    constructor
    · intro x hx
      rw [hx] at hfollow
      cases hfollow
    · intro err' herr
      rw [herr] at hfollow
      cases hfollow
      exact hexec
  · rw [hlist] at hfollow
    constructor
    · intro x hx
      rw [hx] at hfollow
      cases hfollow
      exact ⟨t, hexec, ht⟩
    · intro err' herr
      rw [herr] at hfollow
      cases hfollow

/-- Running the listing of a tree as a program gives the value of the tree. -/
theorem run_postorder (e : Expression α Nat) (hroom : e.room ≤ capacity) :
    Program.run ⟨e.postorder, names⟩ values capacity = e.evaluate names values := by
  have hcode : (⟨e.postorder, names⟩ : Program α).code ≠ [] := e.postorder_ne_nil
  rw [Program.run_eq _ hcode]
  change (follow capacity names values e.postorder []).bind top = _
  rw [follow_postorder e (by rw [List.length_nil]; omega)]
  cases e.evaluate names values <;> rfl

end CurveCalc.Expression
