/-!
The stack of values. It has a fixed number of places, and values that have been taken off stay in
their places until others are put there. Taking off a negative number of values moves the top up
over such places, beyond the last place even; nothing else lets them be seen.
-/

set_option autoImplicit false
set_option relaxedAutoImplicit false

namespace CurveCalc

structure Stack (α : Type) where
  capacity : Int
  /-- What a place holds that nothing has been put in. -/
  fresh : α
  /-- The values on the stack, the top one first. -/
  live : List α
  /-- The values above the top that are still in their places, the lowest one first. -/
  spent : List α
  /-- How far the top has been moved beyond the last place. -/
  overhang : Nat
  deriving DecidableEq

/-- What taking the top value off gives. -/
inductive Popped (α : Type) where
  | nothing
  /-- The top was beyond the last place. -/
  | missing
  | value (x : α)
  deriving DecidableEq

namespace Stack

variable {α : Type}

def empty (fresh : α) (capacity : Int) : Stack α :=
  ⟨capacity, fresh, [], [], 0⟩

def size (s : Stack α) : Nat := s.live.length + s.overhang

/-- Puts a value on the stack, if there is a place for it. -/
def push (x : α) (s : Stack α) : Bool × Stack α :=
  if s.capacity ≤ s.size then (false, s)
  else (true, { s with live := x :: s.live, spent := s.spent.tail })

def pop (s : Stack α) : Popped α × Stack α :=
  match s.overhang, s.live with
  | n + 1, _ => (.missing, { s with overhang := n })
  | 0, [] => (.nothing, s)
  | 0, x :: rest => (.value x, { s with live := rest, spent := x :: s.spent })

/-- Moves the top up by a number of places. -/
def raise (n : Nat) (s : Stack α) : Stack α :=
  let free := s.capacity.toNat - s.live.length
  let above := (s.spent ++ List.replicate (free - s.spent.length) s.fresh).take n
  { s with
    live := above.reverse ++ s.live
    spent := s.spent.drop n
    overhang := s.overhang + (n - above.length) }

/-- Takes the top `n` values off, if there are as many; they are given in the order in which they
were put on. -/
def popN (n : Int) (s : Stack α) : Option (List α) × Stack α :=
  if (s.size : Int) < n then (none, s)
  else if n < 0 then (some [], s.raise n.natAbs)
  else
    let beyond := min n.toNat s.overhang
    let values := (s.live.take (n.toNat - beyond)).reverse
    (some values,
      { s with
        live := s.live.drop (n.toNat - beyond)
        spent := values ++ s.spent
        overhang := s.overhang - beyond })

end Stack

end CurveCalc
