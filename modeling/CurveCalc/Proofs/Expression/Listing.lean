import CurveCalc.Proofs.Code.Loads
import CurveCalc.Proofs.Code.WellFormed
import CurveCalc.Proofs.Expression.Tree
import Mathlib.Data.List.MinMax

/-!
What the listing of a tree is like. It takes nothing from a stack and leaves one value on it, has
the constants and variables of the tree from left to right, and is well formed if the tree has no
more variables than there are names and no call in it has more than 255 arguments.
-/

set_option autoImplicit false
set_option relaxedAutoImplicit false

namespace CurveCalc

section Leaves

variable {κ κ' ν ν' : Type} (f : κ → κ') (g : ν → ν') (leaves : List (κ ⊕ ν))

theorem lefts_map : (leaves.map (Sum.map f g)).filterMap Sum.getLeft? =
    (leaves.filterMap Sum.getLeft?).map f := by
  rw [List.filterMap_map, List.map_filterMap]
  refine List.filterMap_congr fun leaf _ ↦ ?_
  cases leaf <;> rfl

theorem rights_map : (leaves.map (Sum.map f g)).filterMap Sum.getRight? =
    (leaves.filterMap Sum.getRight?).map g := by
  rw [List.filterMap_map, List.map_filterMap]
  refine List.filterMap_congr fun leaf _ ↦ ?_
  cases leaf <;> rfl

end Leaves

namespace Instruction

variable {α : Type}

/-- What the instruction puts on a stack without taking anything from it: a constant, or the
variable of a slot. -/
def leaf? : Instruction α → Option (Operand α ⊕ Operand α)
  | constant value => some (.inl value)
  | load slot => some (.inr slot)
  | _ => none

/-- The constants in the code, in order. -/
def constants (code : List (Instruction α)) : List (Operand α) :=
  (code.filterMap leaf?).filterMap Sum.getLeft?

theorem loads_eq (code : List (Instruction α)) :
    loads code = (code.filterMap leaf?).filterMap Sum.getRight? := by
  have hslot : ∀ i : Instruction α, i.slot? = i.leaf?.bind Sum.getRight? := by
    intro i
    cases i <;> rfl
  unfold loads
  rw [List.filterMap_filterMap]
  exact List.filterMap_congr fun i _ ↦ hslot i

end Instruction

namespace Expression

open Instruction

variable {κ κ' ν ν' : Type}

mutual

/-- The largest number of arguments of a call in the tree. -/
def width : Expression κ ν → Nat
  | constant _ => 0
  | var _ => 0
  | unary _ e => width e
  | binary _ l r => max (width l) (width r)
  | call _ es => max es.length (widthAll es)

def widthAll : List (Expression κ ν) → Nat
  | [] => 0
  | e :: es => max (width e) (widthAll es)

end

theorem widthAll_eq (es : List (Expression κ ν)) : widthAll es = (es.map width).foldr max 0 := by
  induction es with
  | nil => rfl
  | cons e es ih => rw [widthAll, ih, List.map_cons, List.foldr_cons]

theorem width_le_widthAll {e : Expression κ ν} {es : List (Expression κ ν)} (he : e ∈ es) :
    e.width ≤ widthAll es := by
  rw [widthAll_eq]
  exact List.le_max_of_le' 0 (List.mem_map_of_mem he) (Nat.le_refl _)

theorem width_map (f : κ → κ') (g : ν → ν') (e : Expression κ ν) :
    (e.map f g).width = e.width := by
  induction e with
  | constant x => rfl
  | var v => rfl
  | unary op e ih => exact ih
  | binary op l r ihl ihr => rw [map, width, width, ihl, ihr]
  | call h es ih =>
    have hall : es.map (width ∘ map f g) = es.map width := List.map_congr_left ih
    rw [map, width, width, mapAll_eq, widthAll_eq, widthAll_eq, List.map_map, hall,
      List.length_map]

mutual

/-- The constants and variables of the tree from left to right. -/
def leaves : Expression κ ν → List (κ ⊕ ν)
  | constant x => [.inl x]
  | var v => [.inr v]
  | unary _ e => leaves e
  | binary _ l r => leaves l ++ leaves r
  | call _ es => leavesAll es

def leavesAll : List (Expression κ ν) → List (κ ⊕ ν)
  | [] => []
  | e :: es => leaves e ++ leavesAll es

end

theorem leavesAll_eq (es : List (Expression κ ν)) : leavesAll es = es.flatMap leaves := by
  induction es with
  | nil => rfl
  | cons e es ih => rw [leavesAll, ih, List.flatMap_cons]

theorem leaves_map (f : κ → κ') (g : ν → ν') (e : Expression κ ν) :
    (e.map f g).leaves = e.leaves.map (Sum.map f g) := by
  induction e with
  | constant x => rfl
  | var v => rfl
  | unary op e ih => exact ih
  | binary op l r ihl ihr => rw [map, leaves, leaves, ihl, ihr, List.map_append]
  | call h es ih =>
    rw [map, leaves, leaves, mapAll_eq, leavesAll_eq, leavesAll_eq, List.flatMap_map,
      List.map_flatMap]
    exact List.flatMap_congr ih

theorem rights_leaves (e : Expression κ ν) : e.leaves.filterMap Sum.getRight? = e.vars := by
  induction e with
  | constant x => rfl
  | var v => rfl
  | unary op e ih => exact ih
  | binary op l r ihl ihr => rw [leaves, vars, List.filterMap_append, ihl, ihr]
  | call f es ih =>
    rw [leaves, vars, leavesAll_eq, varsAll_eq, List.filterMap_flatMap]
    exact List.flatMap_congr ih

/-- A listing leaves one value, whatever there was before. -/
theorem balanced_postorder (e : Expression κ Nat) : Balanced e.postorder := by
  induction e with
  | constant x => exact balanced_singleton rfl
  | var slot => exact balanced_singleton rfl
  | unary op e ih =>
    have hcode := balanced_operation (i := .unary op) (f := postorder) [e]
      (List.forall_mem_singleton.mpr ih) rfl
    rwa [List.flatMap_singleton] at hcode
  | binary op l r ihl ihr =>
    have hcode := balanced_operation (i := .binary op) (f := postorder) [l, r]
      (List.forall_mem_cons.mpr ⟨ihl, List.forall_mem_singleton.mpr ihr⟩) rfl
    rwa [List.flatMap_cons, List.flatMap_singleton] at hcode
  | call f es ih =>
    rw [postorder, postorderAll_eq]
    exact balanced_operation es ih rfl

theorem leaves_postorder (e : Expression κ Nat) :
    e.postorder.filterMap leaf? =
      e.leaves.map (Sum.map Operand.real fun slot : Nat ↦ .whole slot) := by
  induction e with
  | constant x => rfl
  | var slot => rfl
  | unary op e ih =>
    rw [postorder, List.filterMap_append, ih]
    exact List.append_nil _
  | binary op l r ihl ihr =>
    rw [postorder, List.filterMap_append, List.filterMap_append, ihl, ihr, leaves, List.map_append]
    exact List.append_nil _
  | call f es ih =>
    rw [postorder, List.filterMap_append, postorderAll_eq, List.filterMap_flatMap,
      List.flatMap_congr ih, ← List.map_flatMap, ← leavesAll_eq]
    exact List.append_nil _

theorem loads_postorder (e : Expression κ Nat) :
    loads e.postorder = e.vars.map fun slot : Nat ↦ .whole slot := by
  rw [loads_eq, leaves_postorder, rights_map, rights_leaves]

theorem constants_postorder (e : Expression κ Nat) :
    constants e.postorder = (e.leaves.filterMap Sum.getLeft?).map Operand.real := by
  unfold constants
  rw [leaves_postorder, lefts_map]

theorem proper_postorder {names : Nat} {e : Expression κ Nat}
    (hvars : ∀ slot ∈ e.vars, slot < names) (hwidth : e.width ≤ 255) :
    ∀ i ∈ e.postorder, i.Proper names := by
  induction e with
  | constant x => exact List.forall_mem_singleton.mpr trivial
  | var slot =>
    have hslot : slot < names := hvars slot List.mem_cons_self
    exact List.forall_mem_singleton.mpr ⟨Int.natCast_nonneg slot, Int.ofNat_lt.mpr hslot⟩
  | unary op e ih =>
    refine List.forall_mem_append.mpr ⟨ih hvars hwidth, List.forall_mem_singleton.mpr trivial⟩
  | binary op l r ihl ihr =>
    rw [vars, List.forall_mem_append] at hvars
    rw [width, Nat.max_le] at hwidth
    refine List.forall_mem_append.mpr ⟨List.forall_mem_append.mpr ⟨?_, ?_⟩,
      List.forall_mem_singleton.mpr trivial⟩
    · exact ihl hvars.1 hwidth.1
    · exact ihr hvars.2 hwidth.2
  | call f es ih =>
    rw [vars, varsAll_eq] at hvars
    rw [width, Nat.max_le] at hwidth
    rw [postorder, postorderAll_eq]
    have hcall : (Instruction.call (.whole f.number) es.length : Instruction κ).Proper names :=
      ⟨by cases f <;> decide, Int.natCast_nonneg _, Int.ofNat_le.mpr hwidth.1⟩
    refine List.forall_mem_append.mpr ⟨fun i hi ↦ ?_, List.forall_mem_singleton.mpr hcall⟩
    obtain ⟨e, he, hi⟩ := List.mem_flatMap.mp hi
    exact ih e he (fun slot hslot ↦ hvars slot (List.mem_flatMap.mpr ⟨e, he, hslot⟩))
      (Nat.le_trans (width_le_widthAll he) hwidth.2) i hi

theorem wellFormed_postorder {names : List String} {e : Expression κ Nat}
    (hvars : ∀ slot ∈ e.vars, slot < names.length) (hwidth : e.width ≤ 255) :
    (⟨e.postorder, names⟩ : Program κ).WellFormed :=
  ⟨e.balanced_postorder 0 (Int.le_refl 0), proper_postorder hvars hwidth⟩

end Expression

end CurveCalc
