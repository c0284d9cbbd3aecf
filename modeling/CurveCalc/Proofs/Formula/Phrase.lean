import CurveCalc.Proofs.Formula.Tree

/-!
Formulas as a flat grammar has them: operands with signs in front, one after the other, with
operators between them and factorials behind, and nothing said of how tightly any of it binds. What
nests is counted for each operand: the groups and argument lists around it and the signs that are
still open before it. A sign stays open until the next sum or difference among its own operands.
-/

set_option autoImplicit false
set_option relaxedAutoImplicit false

namespace CurveCalc

mutual

/-- Operands with operators between them, from the left. -/
inductive Phrase (κ ν : Type) where
  | first (signs : List Sign) (a : Primary κ ν)
  | binary (e : Phrase κ ν) (op : BinaryOperator) (signs : List Sign) (a : Primary κ ν)
  | bang (e : Phrase κ ν)

inductive Primary (κ ν : Type) where
  | number (x : κ)
  | identifier (v : ν)
  | group (e : Phrase κ ν)
  | call (f : Builtin) (arguments : List (Phrase κ ν))

end

/-- Signs as they are written. -/
def signSymbols {κ ν : Type} (signs : List Sign) : List (Symbol κ ν) :=
  signs.map fun sign ↦ .operator sign.operator

variable {κ ν : Type}

mutual

/-- The symbols of the phrase. -/
def Phrase.symbols : Phrase κ ν → List (Symbol κ ν)
  | .first signs a => signSymbols signs ++ a.symbols
  | .binary e op signs a => e.symbols ++ .operator op :: (signSymbols signs ++ a.symbols)
  | .bang e => e.symbols ++ [.bang]

def Primary.symbols : Primary κ ν → List (Symbol κ ν)
  | .number x => [.number x]
  | .identifier v => [.identifier v]
  | .group e => .leftParen :: (e.symbols ++ [.rightParen])
  | .call f es => .function f :: .leftParen :: (Phrase.symbolsAll es ++ [.rightParen])

/-- The symbols of arguments, with commas between them. -/
def Phrase.symbolsAll : List (Phrase κ ν) → List (Symbol κ ν)
  | [] => []
  | e :: es => e.symbols ++ (if es.isEmpty then [] else .comma :: Phrase.symbolsAll es)

end

namespace Phrase

/-- How many signs are open behind the phrase. A sum or difference closes those before it. -/
def openSigns : Phrase κ ν → Nat
  | first signs _ => signs.length
  | binary e op signs _ => (if op.precedence = .term then 0 else openSigns e) + signs.length
  | bang e => openSigns e

/-- How many signs are open behind the phrase and an operator. -/
def openBehind (e : Phrase κ ν) (op : BinaryOperator) : Nat :=
  if op.precedence = .term then 0 else e.openSigns

end Phrase

mutual

/-- How deep each operand of the phrase nests, if the phrase itself nests this deep. -/
def Phrase.nestings (depth : Nat) : Phrase κ ν → List Nat
  | .first signs a => a.nestings (depth + signs.length)
  | .binary e op signs a =>
    e.nestings depth ++ a.nestings (depth + (e.openBehind op + signs.length))
  | .bang e => e.nestings depth

def Primary.nestings (depth : Nat) : Primary κ ν → List Nat
  | .number _ => [depth]
  | .identifier _ => [depth]
  | .group e => depth :: e.nestings (depth + 1)
  | .call _ es => depth :: Phrase.nestingsAll (depth + 1) es

def Phrase.nestingsAll (depth : Nat) : List (Phrase κ ν) → List Nat
  | [] => []
  | e :: es => e.nestings depth ++ Phrase.nestingsAll depth es

end

mutual

/-- How many arguments each call in the phrase has. -/
def Phrase.argumentCounts : Phrase κ ν → List Nat
  | .first _ a => a.argumentCounts
  | .binary e _ _ a => e.argumentCounts ++ a.argumentCounts
  | .bang e => e.argumentCounts

def Primary.argumentCounts : Primary κ ν → List Nat
  | .number _ => []
  | .identifier _ => []
  | .group e => e.argumentCounts
  | .call _ es => es.length :: Phrase.argumentCountsAll es

def Phrase.argumentCountsAll : List (Phrase κ ν) → List Nat
  | [] => []
  | e :: es => e.argumentCounts ++ Phrase.argumentCountsAll es

end

namespace Phrase

/-- The phrase with one more sign in front. -/
def addSign (sign : Sign) : Phrase κ ν → Phrase κ ν
  | first signs a => first (sign :: signs) a
  | binary e op signs a => binary (addSign sign e) op signs a
  | bang e => bang (addSign sign e)

/-- One phrase behind another and an operator. -/
def join (l : Phrase κ ν) (op : BinaryOperator) : Phrase κ ν → Phrase κ ν
  | first signs a => binary l op signs a
  | binary e op' signs a => binary (join l op e) op' signs a
  | bang e => bang (join l op e)

theorem symbols_addSign (sign : Sign) : ∀ e : Phrase κ ν,
    (e.addSign sign).symbols = .operator sign.operator :: e.symbols
  | first signs a => rfl
  | binary e op signs a => by
    rw [addSign, symbols, symbols, symbols_addSign sign e, List.cons_append]
  | bang e => by rw [addSign, symbols, symbols, symbols_addSign sign e, List.cons_append]

theorem symbols_join (l : Phrase κ ν) (op : BinaryOperator) : ∀ e : Phrase κ ν,
    (join l op e).symbols = l.symbols ++ .operator op :: e.symbols
  | first signs a => by rw [join, symbols, symbols]
  | binary e op' signs a => by
    rw [join, symbols, symbols, symbols_join l op e, List.append_assoc, List.cons_append]
  | bang e => by
    rw [join, symbols, symbols, symbols_join l op e, List.append_assoc, List.cons_append]

theorem exists_symbolsAll {ts : List (Formula κ ν)}
    (h : ∀ t ∈ ts, ∃ e : Phrase κ ν, e.symbols = t.symbols) :
    ∃ es : List (Phrase κ ν), symbolsAll es = Formula.symbolsAll ts := by
  suffices hes : ∃ es : List (Phrase κ ν), symbolsAll es = Formula.symbolsAll ts ∧
      es.isEmpty = ts.isEmpty from hes.imp fun _ h ↦ h.1
  induction ts with
  | nil => exact ⟨[], rfl, rfl⟩
  | cons t ts ih =>
    obtain ⟨e, he⟩ := h t List.mem_cons_self
    obtain ⟨es, hes, hempty⟩ := ih fun u hu ↦ h u (List.mem_cons_of_mem t hu)
    exact ⟨e :: es, by rw [symbolsAll, Formula.symbolsAll, he, hes, hempty], rfl⟩

/-- Every formula is written as a phrase. -/
theorem exists_symbols (t : Formula κ ν) : ∃ e : Phrase κ ν, e.symbols = t.symbols := by
  induction t with
  | number x => exact ⟨.first [] (.number x), rfl⟩
  | identifier v => exact ⟨.first [] (.identifier v), rfl⟩
  | group t ih =>
    obtain ⟨e, he⟩ := ih
    exact ⟨.first [] (.group e), by rw [Formula.symbols, ← he]; rfl⟩
  | signed sign t ih =>
    obtain ⟨e, he⟩ := ih
    exact ⟨e.addSign sign, by rw [symbols_addSign, he, Formula.symbols]⟩
  | factorial t ih =>
    obtain ⟨e, he⟩ := ih
    exact ⟨.bang e, by rw [symbols, he, Formula.symbols]⟩
  | binary op l r ihl ihr =>
    obtain ⟨e, he⟩ := ihl
    obtain ⟨e', he'⟩ := ihr
    exact ⟨join e op e', by rw [symbols_join, he, he', Formula.symbols]⟩
  | call f ts ih =>
    obtain ⟨es, hes⟩ := exists_symbolsAll ih
    exact ⟨.first [] (.call f es), by rw [Formula.symbols, ← hes]; rfl⟩

end Phrase

end CurveCalc
