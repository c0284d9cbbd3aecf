import CurveCalc.Proofs.Machine.Effect
import Mathlib.Data.List.Induction

/-!
What a stack has been told tells what is on it. A history says what was done with a stack, one thing
after the other, and what came of each; the values that were put on and not given back since, in the
order in which they were put on, can be read off it (`Stack.held`). As long as no negative number of
values is taken off, these are the values on the stack: they alone, and the capacity, decide what
comes of everything that is done next (`Stack.Keeps`), and what is left in places above the top is
never seen (`Stack.acts_congr`). Taking off a negative number of values gives none back and yet
changes the size, so that afterwards the history tells it no more (`Stack.size_popN_of_neg`).
-/

set_option autoImplicit false
set_option relaxedAutoImplicit false

namespace CurveCalc.Stack

/-- What can be done with a stack. -/
inductive Action (α : Type) where
  | push (x : α)
  | pop
  | popN (n : Int)

/-- What comes of it. -/
inductive Answer (α : Type) where
  | pushed (done : Bool)
  | popped (p : Popped α)
  | several (values : Option (List α))

variable {α : Type}

/-- Taking off several values asks for a number of them that is not negative. -/
def Action.Proper : Action α → Prop
  | popN n => 0 ≤ n
  | _ => True

instance (a : Action α) : Decidable a.Proper :=
  match a with
  | .push _ => inferInstanceAs (Decidable True)
  | .pop => inferInstanceAs (Decidable True)
  | .popN n => inferInstanceAs (Decidable (0 ≤ n))

/-- What comes of an action, and the stack it leaves. -/
def act (s : Stack α) : Action α → Answer α × Stack α
  | .push x => (.pushed (s.push x).1, (s.push x).2)
  | .pop => (.popped s.pop.1, s.pop.2)
  | .popN n => (.several (s.popN n).1, (s.popN n).2)

/-- What comes of actions one after the other, each with its answer, and the stack they leave. -/
def acts (s : Stack α) : List (Action α) → List (Action α × Answer α) × Stack α
  | [] => ([], s)
  | a :: actions =>
    let r := s.act a
    let more := r.2.acts actions
    ((a, r.1) :: more.1, more.2)

/-- The values that are held after an action, if these were held before. -/
def heldAfter (xs : List α) : Action α × Answer α → List α
  | (.push x, .pushed true) => xs ++ [x]
  | (.pop, .popped (.value _)) => xs.dropLast
  | (.popN _, .several (some ys)) => xs.take (xs.length - ys.length)
  | _ => xs

/-- The values that a history has put on a stack and not given back, in the order in which they were
put on. -/
def held (history : List (Action α × Answer α)) : List α := history.foldl heldAfter []

/-- Values are held only if they were put on. -/
theorem mem_of_mem_held {history : List (Action α × Answer α)} {x : α} (h : x ∈ held history) :
    (.push x, .pushed true) ∈ history := by
  induction history using List.reverseRecOn with
  | nil => cases h
  | append_singleton history entry ih =>
    unfold held at h
    rw [List.foldl_append, List.foldl_cons, List.foldl_nil] at h
    change x ∈ heldAfter (held history) entry at h
    unfold heldAfter at h
    split at h
    · rcases List.mem_append.mp h with h | h
      · exact List.mem_append_left _ (ih h)
      · rw [List.mem_singleton.mp h]
        exact List.mem_append_right _ List.mem_cons_self
    · exact List.mem_append_left _ (ih (List.dropLast_subset _ h))
    · exact List.mem_append_left _ (ih (List.mem_of_mem_take h))
    · exact List.mem_append_left _ (ih h)

/-- What comes of the next action is what these values and the capacity say. -/
structure Keeps (s : Stack α) (capacity : Int) (xs : List α) : Prop where
  size : s.size = xs.length
  size_le : (s.size : Int) ≤ max capacity 0
  push : ∀ x, (s.push x).1 = true ↔ (s.size : Int) < capacity
  pop : s.pop.1 = (xs.getLast?.map Popped.value).getD .nothing
  popN : ∀ n : Int, 0 ≤ n →
    (s.popN n).1 = if n ≤ s.size then some (xs.drop (s.size - n.toNat)) else none
  push_refused : ∀ x, (s.push x).1 = false → (s.push x).2 = s
  pop_refused : s.pop.1 = .nothing → s.pop.2 = s
  popN_refused : ∀ n, (s.popN n).1 = none → (s.popN n).2 = s

/-- The values are on the stack, each in its place, and there is room for them. -/
structure Stands (s : Stack α) (capacity : Int) (xs : List α) : Prop where
  holds : Machine.Holds s capacity xs.reverse
  length_le : (xs.length : Int) ≤ max capacity 0

section Places

variable {s t : Stack α} {capacity : Int} {xs : List α}

theorem stands_empty (fresh : α) (capacity : Int) : (empty fresh capacity).Stands capacity [] :=
  ⟨Machine.holds_empty fresh capacity, Int.le_max_right capacity 0⟩

theorem Stands.size (h : s.Stands capacity xs) : s.size = xs.length := by
  rw [h.holds.size, List.length_reverse]

theorem Stands.push_of_lt (h : s.Stands capacity xs) (hroom : (xs.length : Int) < capacity)
    (x : α) : ∃ t, s.push x = (true, t) ∧ t.Stands capacity (xs ++ [x]) := by
  have hfree : ¬ s.capacity ≤ s.size := by
    rw [h.size, h.holds.capacity]
    omega
  refine ⟨{ s with live := x :: s.live, spent := s.spent.tail }, if_neg hfree,
    ⟨h.holds.overhang, h.holds.capacity, ?_⟩, ?_⟩
  · rw [List.reverse_append, List.reverse_singleton, List.singleton_append, ← h.holds.live]
  · rw [List.length_append, List.length_singleton]
    omega

theorem Stands.push_of_le (h : s.Stands capacity xs) (hfull : capacity ≤ xs.length) (x : α) :
    s.push x = (false, s) := by
  refine if_pos ?_
  rwa [h.size, h.holds.capacity]

theorem Stands.pop_nil (h : s.Stands capacity []) : s.pop = (.nothing, s) := by
  have hlive : s.live = [] := h.holds.live
  simp only [Stack.pop, h.holds.overhang, hlive]

theorem Stands.pop_concat {x : α} (h : s.Stands capacity (xs ++ [x])) :
    ∃ t, s.pop = (.value x, t) ∧ t.Stands capacity xs := by
  have hlive : s.live = x :: xs.reverse := by
    rw [h.holds.live, List.reverse_append, List.reverse_singleton, List.singleton_append]
  have hlength := h.length_le
  rw [List.length_append, List.length_singleton] at hlength
  refine ⟨{ s with live := xs.reverse, spent := x :: s.spent }, ?_,
    ⟨h.holds.overhang, h.holds.capacity, rfl⟩, by omega⟩
  simp only [Stack.pop, h.holds.overhang, hlive]

theorem Stands.popN_of_le (h : s.Stands capacity xs) {n : Int} (hn : 0 ≤ n)
    (hlength : n ≤ xs.length) :
    ∃ t, s.popN n = (some (xs.drop (xs.length - n.toNat)), t) ∧
      t.Stands capacity (xs.take (xs.length - n.toNat)) := by
  obtain ⟨t, ht, hholds⟩ := Machine.popN_of_le h.holds hn (by rwa [List.length_reverse])
  rw [List.take_reverse, List.reverse_reverse] at ht
  rw [List.drop_reverse] at hholds
  have hbound := h.length_le
  refine ⟨t, ht, hholds, ?_⟩
  rw [List.length_take]
  omega

theorem Stands.popN_of_lt (h : s.Stands capacity xs) {n : Int} (hlength : (xs.length : Int) < n) :
    s.popN n = (none, s) :=
  Machine.popN_of_lt h.holds (by rwa [List.length_reverse])

/-- A refusal to take off several values changes nothing, whatever was asked for. -/
theorem popN_refused {n : Int} (h : (s.popN n).1 = none) : (s.popN n).2 = s := by
  unfold Stack.popN at h ⊢
  split at h
  · rw [if_pos ‹_›]
  · split at h <;> cases h

theorem Stands.keeps (h : s.Stands capacity xs) : s.Keeps capacity xs where
  size := h.size
  size_le := by
    rw [h.size]
    exact h.length_le
  push x := by
    rw [h.size]
    by_cases hroom : (xs.length : Int) < capacity
    · obtain ⟨t, ht, -⟩ := h.push_of_lt hroom x
      rw [ht]
      exact iff_of_true rfl hroom
    · rw [h.push_of_le (Int.not_lt.mp hroom)]
      exact iff_of_false nofun hroom
  pop := by
    cases xs using List.reverseRecOn with
    | nil =>
      rw [h.pop_nil]
      rfl
    | append_singleton xs x =>
      obtain ⟨t, ht, -⟩ := h.pop_concat
      rw [ht, List.getLast?_concat]
      rfl
  popN n hn := by
    rw [h.size]
    by_cases hlength : n ≤ xs.length
    · obtain ⟨t, ht, -⟩ := h.popN_of_le hn hlength
      rw [ht, if_pos hlength]
    · rw [h.popN_of_lt (Int.not_le.mp hlength), if_neg hlength]
  push_refused x hrefused := by
    by_cases hroom : (xs.length : Int) < capacity
    · obtain ⟨t, ht, -⟩ := h.push_of_lt hroom x
      rw [ht] at hrefused
      cases hrefused
    · rw [h.push_of_le (Int.not_lt.mp hroom)]
  pop_refused hrefused := by
    cases xs using List.reverseRecOn with
    | nil => rw [h.pop_nil]
    | append_singleton xs x =>
      obtain ⟨t, ht, -⟩ := h.pop_concat
      rw [ht] at hrefused
      cases hrefused
  popN_refused _ := popN_refused

/-- Each action leaves what the history says. -/
theorem Stands.act (h : s.Stands capacity xs) {a : Action α} (ha : a.Proper) :
    (s.act a).2.Stands capacity (heldAfter xs (a, (s.act a).1)) := by
  cases a with
  | push x =>
    by_cases hroom : (xs.length : Int) < capacity
    · obtain ⟨t, ht, hstands⟩ := h.push_of_lt hroom x
      simpa only [Stack.act, ht, heldAfter] using hstands
    · simpa only [Stack.act, h.push_of_le (Int.not_lt.mp hroom), heldAfter] using h
  | pop =>
    cases xs using List.reverseRecOn with
    | nil => simpa only [Stack.act, h.pop_nil, heldAfter] using h
    | append_singleton xs x =>
      obtain ⟨t, ht, hstands⟩ := h.pop_concat
      simpa only [Stack.act, ht, heldAfter, List.dropLast_concat] using hstands
  | popN n =>
    by_cases hlength : n ≤ xs.length
    · obtain ⟨t, ht, hstands⟩ := h.popN_of_le ha hlength
      have hleft : xs.length - (xs.drop (xs.length - n.toNat)).length = xs.length - n.toNat := by
        rw [List.length_drop]
        omega
      simpa only [Stack.act, ht, heldAfter, hleft] using hstands
    · simpa only [Stack.act, h.popN_of_lt (Int.not_le.mp hlength), heldAfter] using h

theorem Stands.acts (h : s.Stands capacity xs) {actions : List (Action α)}
    (hactions : ∀ a ∈ actions, a.Proper) :
    (s.acts actions).2.Stands capacity ((s.acts actions).1.foldl heldAfter xs) := by
  induction actions generalizing s xs with
  | nil => exact h
  | cons a actions ih =>
    exact ih (h.act (hactions a List.mem_cons_self)) fun b hb ↦
      hactions b (List.mem_cons_of_mem a hb)

theorem Keeps.act_eq (hs : s.Keeps capacity xs) (ht : t.Keeps capacity xs) {a : Action α}
    (ha : a.Proper) : (s.act a).1 = (t.act a).1 := by
  have hsize : s.size = t.size := hs.size.trans ht.size.symm
  cases a with
  | push x =>
    refine congrArg Answer.pushed (Bool.eq_iff_iff.mpr ?_)
    rw [hs.push, ht.push, hsize]
  | pop => exact congrArg Answer.popped (hs.pop.trans ht.pop.symm)
  | popN n =>
    refine congrArg Answer.several ?_
    rw [hs.popN n ha, ht.popN n ha, hsize]

/-- Two stacks with the same values on them answer alike from then on, whatever is left in the
places above. -/
theorem acts_congr (hs : s.Stands capacity xs) (ht : t.Stands capacity xs)
    {actions : List (Action α)} (hactions : ∀ a ∈ actions, a.Proper) :
    (s.acts actions).1 = (t.acts actions).1 := by
  induction actions generalizing s t xs with
  | nil => rfl
  | cons a actions ih =>
    have ha := hactions a List.mem_cons_self
    have hanswer := hs.keeps.act_eq ht.keeps ha
    have hmore := ih (hs.act ha) (hanswer ▸ ht.act ha) fun b hb ↦
      hactions b (List.mem_cons_of_mem a hb)
    change (a, (s.act a).1) :: ((s.act a).2.acts actions).1 = _
    rw [hanswer, hmore]
    rfl

theorem size_raise (n : Nat) (s : Stack α) : (s.raise n).size = s.size + n := by
  simp only [Stack.size, Stack.raise, List.length_append, List.length_reverse, List.length_take,
    List.length_replicate]
  omega

/-- A negative number of values is taken off by adding to the size. -/
theorem size_popN_of_neg (s : Stack α) {n : Int} (hn : n < 0) :
    (s.popN n).1 = some [] ∧ ((s.popN n).2.size : Int) = s.size - n := by
  have hpop := Machine.popN_of_neg (s := s) hn
  refine ⟨congrArg Prod.fst hpop, ?_⟩
  rw [congrArg Prod.snd hpop, size_raise]
  omega

end Places

/-- A stack of any capacity, after any actions that take off no negative number of values. Its size
is between zero and the capacity, and what is done next succeeds or is refused, and gives back, what
the values say that were put on and not given back yet: there is room up to the capacity, one value
is the last of them, and several are as many of the last ones in the order in which they were put
on. What is refused changes nothing. What is left in the places above the top has no part in any
answer from then on. Only taking off a negative number of values makes the size another than that of
these values. -/
theorem acts_keeps (capacity : Int) (fresh : α) {actions : List (Action α)}
    (hactions : ∀ a ∈ actions, a.Proper) :
    let history := ((empty fresh capacity).acts actions).1
    let s := ((empty fresh capacity).acts actions).2
    s.Keeps capacity (held history) ∧
    (∀ x ∈ held history, (.push x, .pushed true) ∈ history) ∧
    (∀ t : Stack α, t.capacity = s.capacity → t.live = s.live → t.overhang = s.overhang →
      ∀ more : List (Action α), (∀ a ∈ more, a.Proper) → (t.acts more).1 = (s.acts more).1) ∧
    ∀ n : Int, n < 0 → (s.popN n).1 = some [] ∧ ((s.popN n).2.size : Int) = s.size - n := by
  intro history s
  have hstands : s.Stands capacity (held history) := (stands_empty fresh capacity).acts hactions
  refine ⟨hstands.keeps, fun x ↦ mem_of_mem_held, ?_, fun n ↦ size_popN_of_neg s⟩
  intro t hcapacity hlive hoverhang more hmore
  have ht : t.Stands capacity (held history) :=
    ⟨⟨hoverhang.trans hstands.holds.overhang, hcapacity.trans hstands.holds.capacity,
      hlive.trans hstands.holds.live⟩, hstands.length_le⟩
  exact acts_congr ht hstands hmore

/-- Two values are put on, both are taken off, and one is put on again, where there is room for two.
-/
theorem acts_keeps_reused :
    let actions : List (Action Nat) := [.push 1, .push 2, .push 3, .popN 2, .pop, .push 4]
    (∀ a ∈ actions, a.Proper) ∧ ((empty 0 2).acts actions).2.Keeps 2 [4] := by
  intro actions
  have hproper : ∀ a ∈ actions, a.Proper := by decide
  exact ⟨hproper, (acts_keeps 2 0 hproper).1⟩

/-- A value that was given back is seen again behind a negative number of values, and where there is
room for none the size is one. -/
theorem popN_below_zero :
    ((empty 0 1).acts [.push 5, .pop, .popN (-1), .pop]).1 =
      [(.push 5, .pushed true), (.pop, .popped (.value 5)), (.popN (-1), .several (some [])),
        (.pop, .popped (.value 5))] ∧
    ((empty 0 0).acts [.popN (-1)]).2.size = 1 ∧
    ((empty 0 0).acts [.popN (-1), .pop]).1 =
      [(.popN (-1), .several (some [])), (.pop, .popped .missing)] :=
  ⟨rfl, rfl, rfl⟩

end CurveCalc.Stack
