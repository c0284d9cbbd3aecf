import CurveCalc.Code.Instruction
import CurveCalc.Formula.Builtin
import Mathlib.Data.List.Basic

/-!
What a formula says, as a tree: constants and variables put together by operators and calls. The
constants and the names of the variables are left open. Over slots a tree has a listing, which gives
operands before operators and arguments before calls (`Expression.postorder`).
-/

set_option autoImplicit false
set_option relaxedAutoImplicit false

namespace CurveCalc

inductive Expression (κ ν : Type) where
  | constant (x : κ)
  | var (v : ν)
  | unary (op : UnaryOperator) (operand : Expression κ ν)
  | binary (op : BinaryOperator) (left right : Expression κ ν)
  | call (f : Builtin) (arguments : List (Expression κ ν))

namespace Expression

variable {κ κ' ν ν' : Type}

/-- Induction that gives the statement of every argument of a call. -/
@[elab_as_elim, induction_eliminator]
theorem induction {motive : Expression κ ν → Prop} (constant : ∀ x, motive (.constant x))
    (var : ∀ v, motive (.var v)) (unary : ∀ op operand, motive operand → motive (.unary op operand))
    (binary : ∀ op left right, motive left → motive right → motive (.binary op left right))
    (call : ∀ f arguments, (∀ e ∈ arguments, motive e) → motive (.call f arguments)) :
    ∀ e, motive e
  | .constant x => constant x
  | .var v => var v
  | .unary op e => unary op e (induction constant var unary binary call e)
  | .binary op l r =>
    binary op l r (induction constant var unary binary call l)
      (induction constant var unary binary call r)
  | .call f es => call f es fun e _ ↦ induction constant var unary binary call e

mutual

/-- The tree over other constants and names. -/
def map (f : κ → κ') (g : ν → ν') : Expression κ ν → Expression κ' ν'
  | constant x => constant (f x)
  | var v => var (g v)
  | unary op e => unary op (map f g e)
  | binary op l r => binary op (map f g l) (map f g r)
  | call h es => call h (mapAll f g es)

def mapAll (f : κ → κ') (g : ν → ν') : List (Expression κ ν) → List (Expression κ' ν')
  | [] => []
  | e :: es => map f g e :: mapAll f g es

end

mutual

/-- The code that works the tree out on a stack: operands from left to right, then the operator. -/
def postorder : Expression κ Nat → List (Instruction κ)
  | constant x => [.constant (.real x)]
  | var slot => [.load (.whole slot)]
  | unary op e => postorder e ++ [.unary op]
  | binary op l r => postorder l ++ postorder r ++ [.binary op]
  | call f es => postorderAll es ++ [.call (.whole f.number) es.length]

def postorderAll : List (Expression κ Nat) → List (Instruction κ)
  | [] => []
  | e :: es => postorder e ++ postorderAll es

end

mutual

/-- The variables of the tree from left to right. -/
def vars : Expression κ ν → List ν
  | constant _ => []
  | var v => [v]
  | unary _ e => vars e
  | binary _ l r => vars l ++ vars r
  | call _ es => varsAll es

def varsAll : List (Expression κ ν) → List ν
  | [] => []
  | e :: es => vars e ++ varsAll es

end

mutual

/-- How many values there are at most on a stack on which the tree is worked out, besides those that
were there before. -/
def room : Expression κ ν → Nat
  | constant _ => 1
  | var _ => 1
  | unary _ e => room e
  | binary _ l r => max (room l) (room r + 1)
  | call _ es => max 1 (roomAll es)

def roomAll : List (Expression κ ν) → Nat
  | [] => 0
  | e :: es => max (room e) (roomAll es + 1)

end

theorem mapAll_eq (f : κ → κ') (g : ν → ν') (es : List (Expression κ ν)) :
    mapAll f g es = es.map (map f g) := by
  induction es with
  | nil => rfl
  | cons e es ih => rw [mapAll, ih, List.map_cons]

theorem postorderAll_eq (es : List (Expression κ Nat)) :
    postorderAll es = es.flatMap postorder := by
  induction es with
  | nil => rfl
  | cons e es ih => rw [postorderAll, ih, List.flatMap_cons]

theorem varsAll_eq (es : List (Expression κ ν)) : varsAll es = es.flatMap vars := by
  induction es with
  | nil => rfl
  | cons e es ih => rw [varsAll, ih, List.flatMap_cons]

theorem map_map {κ'' ν'' : Type} (f : κ → κ') (g : ν → ν') (f' : κ' → κ'') (g' : ν' → ν'')
    (e : Expression κ ν) : (e.map f g).map f' g' = e.map (f' ∘ f) (g' ∘ g) := by
  induction e with
  | constant x => rfl
  | var v => rfl
  | unary op e ih => rw [map, map, map, ih]
  | binary op l r ihl ihr => rw [map, map, map, ihl, ihr]
  | call h es ih =>
    rw [map, map, map, mapAll_eq, mapAll_eq, mapAll_eq, List.map_map]
    exact congrArg (call h) (List.map_congr_left ih)

theorem vars_map (f : κ → κ') (g : ν → ν') (e : Expression κ ν) :
    (e.map f g).vars = e.vars.map g := by
  induction e with
  | constant x => rfl
  | var v => rfl
  | unary op e ih => exact ih
  | binary op l r ihl ihr => rw [map, vars, vars, ihl, ihr, List.map_append]
  | call h es ih =>
    rw [map, vars, vars, mapAll_eq, varsAll_eq, varsAll_eq, List.flatMap_map, List.map_flatMap]
    exact List.flatMap_congr ih

/-- What becomes of a tree depends on what becomes of the variables in it. -/
theorem map_congr (f : κ → κ') {g g' : ν → ν'} {e : Expression κ ν}
    (h : ∀ v ∈ e.vars, g v = g' v) : e.map f g = e.map f g' := by
  induction e with
  | constant x => rfl
  | var v => exact congrArg var (h v List.mem_cons_self)
  | unary op e ih => exact congrArg (unary op) (ih h)
  | binary op l r ihl ihr =>
    obtain ⟨hl, hr⟩ := List.forall_mem_append.mp h
    rw [map, map, ihl hl, ihr hr]
  | call b es ih =>
    rw [vars, varsAll_eq] at h
    rw [map, map, mapAll_eq, mapAll_eq]
    refine congrArg (call b) (List.map_congr_left fun e he ↦ ih e he fun v hv ↦ ?_)
    exact h v (List.mem_flatMap.mpr ⟨e, he, hv⟩)

theorem postorder_ne_nil (e : Expression κ Nat) : e.postorder ≠ [] := by
  cases e <;> simp [postorder]

/-- The listing over other constants. -/
theorem postorder_map (f : κ → κ') (e : Expression κ Nat) :
    (e.map f id).postorder = e.postorder.map (Instruction.map f) := by
  induction e with
  | constant x => rfl
  | var slot => rfl
  | unary op e ih =>
    rw [map, postorder, postorder, ih, List.map_append]
    rfl
  | binary op l r ihl ihr =>
    rw [map, postorder, postorder, ihl, ihr, List.map_append, List.map_append]
    rfl
  | call h es ih =>
    have hall : (es.map (map f id)).flatMap postorder =
        (es.flatMap postorder).map (Instruction.map f) := by
      rw [List.flatMap_map, List.map_flatMap]
      exact List.flatMap_congr ih
    rw [map, postorder, postorder, mapAll_eq, postorderAll_eq, postorderAll_eq, hall,
      List.length_map, List.map_append]
    rfl

theorem roomAll_eq (es : List (Expression κ ν)) :
    roomAll es = (es.map room).foldr (fun n m ↦ max n (m + 1)) 0 := by
  induction es with
  | nil => rfl
  | cons e es ih => rw [roomAll, ih, List.map_cons, List.foldr_cons]

theorem room_map (f : κ → κ') (g : ν → ν') (e : Expression κ ν) : (e.map f g).room = e.room := by
  induction e with
  | constant x => rfl
  | var v => rfl
  | unary op e ih => exact ih
  | binary op l r ihl ihr => rw [map, room, room, ihl, ihr]
  | call h es ih =>
    have hall : es.map (room ∘ map f g) = es.map room := List.map_congr_left ih
    rw [map, room, room, mapAll_eq, roomAll_eq, roomAll_eq, List.map_map, hall]

/-- While arguments are worked out, the values of those before wait. -/
theorem roomAll_lt {n : Nat} (hn : 1 ≤ n) {es : List (Expression κ ν)}
    (hes : ∀ e ∈ es, e.room ≤ n) : roomAll es < n + es.length := by
  induction es with
  | nil => exact hn
  | cons e es ih =>
    have hfirst := hes e List.mem_cons_self
    have hrest := ih fun e' he' ↦ hes e' (List.mem_cons_of_mem e he')
    rw [roomAll, List.length_cons]
    omega

theorem room_pos (e : Expression κ ν) : 0 < e.room := by
  induction e with
  | constant x => exact Nat.one_pos
  | var v => exact Nat.one_pos
  | unary op e ih => exact ih
  | binary op l r ihl ihr => exact Nat.lt_of_lt_of_le ihl (Nat.le_max_left _ _)
  | call h es ih => exact Nat.lt_of_lt_of_le Nat.one_pos (Nat.le_max_left _ _)

end Expression

end CurveCalc
