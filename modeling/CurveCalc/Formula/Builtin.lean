/-!
The functions and constants a formula may name.
-/

set_option autoImplicit false
set_option relaxedAutoImplicit false

namespace CurveCalc

inductive Builtin where
  | sin | asin | sinh | cos | acos | cosh | tan | atan | tanh
  | ln | log | sqrt | abs | floor | ceil | round | trunc | exp
  deriving DecidableEq

namespace Builtin

/-- Every function, in the order of their numbers. -/
def all : List Builtin :=
  [sin, asin, sinh, cos, acos, cosh, tan, atan, tanh, ln, log, sqrt, abs, floor, ceil, round, trunc,
    exp]

/-- The name as written in formulas. -/
def name : Builtin → String
  | sin => "sin"
  | asin => "asin"
  | sinh => "sinh"
  | cos => "cos"
  | acos => "acos"
  | cosh => "cosh"
  | tan => "tan"
  | atan => "atan"
  | tanh => "tanh"
  | ln => "ln"
  | log => "log"
  | sqrt => "sqrt"
  | abs => "abs"
  | floor => "floor"
  | ceil => "ceil"
  | round => "round"
  | trunc => "trunc"
  | exp => "exp"

/-- The number that stands for the function in code; zero stands for none. -/
def number : Builtin → Nat
  | sin => 1
  | asin => 2
  | sinh => 3
  | cos => 4
  | acos => 5
  | cosh => 6
  | tan => 7
  | atan => 8
  | tanh => 9
  | ln => 10
  | log => 11
  | sqrt => 12
  | abs => 13
  | floor => 14
  | ceil => 15
  | round => 16
  | trunc => 17
  | exp => 18

/-- How many arguments the function takes; the logarithm takes its base first. -/
def arity : Builtin → Nat
  | log => 2
  | _ => 1

def ofName? (name : String) : Option Builtin :=
  all.find? fun f ↦ f.name == name

def ofNumber? (number : Int) : Option Builtin :=
  all.find? fun f ↦ (f.number : Int) == number

theorem mem_all (f : Builtin) : f ∈ all := by cases f <;> decide

theorem number_injective (f g : Builtin) (h : f.number = g.number) : f = g := by
  cases f <;> cases g <;> first | rfl | exact absurd h (by decide)

theorem ofNumber?_number (f : Builtin) : ofNumber? f.number = some f := by cases f <;> rfl

end Builtin

/-- A constant that a formula may name. -/
inductive NamedConstant where
  | pi | e
  deriving DecidableEq

namespace NamedConstant

def name : NamedConstant → String
  | pi => "pi"
  | e => "e"

def ofName? (name : String) : Option NamedConstant :=
  if name = "pi" then some pi else if name = "e" then some e else none

def toFloat : NamedConstant → Float
  | pi => Float.ofBits 0x400921FB54442D18
  | e => Float.ofBits 0x4005BF0A8B145769

end NamedConstant

end CurveCalc
