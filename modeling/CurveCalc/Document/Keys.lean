import CurveCalc.Document.Value

/-!
Keys of mappings: when two values are one key, and how mappings are built and looked up.
-/

set_option autoImplicit false
set_option relaxedAutoImplicit false

namespace CurveCalc

/-- Whether a double is exactly a whole number. -/
def isExactly (x : Float) (n : Int) : Bool :=
  match Number.Binary.ofFloat x with
  | .finite negative significand exponent =>
    let r := Number.ratio significand exponent
    let m : Int := if negative then -(r.1 : Int) else r.1
    m == n * r.2
  | _ => false

namespace Value

/-- Whether two values are one key: numbers and truth values by what they count, others by kind and
content. -/
def sameKey : Value → Value → Bool
  | null, null => true
  | text s, text t => s == t
  | bytes a, bytes b => a == b
  | day d, day e => d == e
  | moment m, moment n => m.same n
  | float x, float y => x == y
  | float x, int n => isExactly x n
  | int n, float x => isExactly x n
  | float x, bool b => isExactly x (if b then 1 else 0)
  | bool b, float x => isExactly x (if b then 1 else 0)
  | int n, int m => n == m
  | int n, bool b => n == (if b then 1 else 0)
  | bool b, int n => n == (if b then 1 else 0)
  | bool a, bool b => a == b
  | _, _ => false

/-- Sets a key; one that is there already keeps its spelling and its place. `same` tells which keys
are one. -/
def setKey (same : Value → Value → Bool) (entries : List (Value × Value)) (key value : Value) :
    List (Value × Value) :=
  if entries.any fun e ↦ same e.1 key then
    entries.map fun e ↦ if same e.1 key then (e.1, value) else e
  else entries ++ [(key, value)]

/-- The entries that setting keys one after the other gives. -/
def setKeys (same : Value → Value → Bool) (entries : List (Value × Value)) :
    List (Value × Value) :=
  entries.foldl (fun all e ↦ setKey same all e.1 e.2) []

def ofEntriesBy (same : Value → Value → Bool) (entries : List (Value × Value)) : Value :=
  mapping (setKeys same entries)

def wholeNumber? : Value → Option Int
  | int n => some n
  | _ => none

/-- The set of the values of a list, written in ascending order if all are whole numbers. -/
def ofKeysBy (same : Value → Value → Bool) (keys : List Value) : Value :=
  let once := (setKeys same (keys.map fun k ↦ (k, null))).map Prod.fst
  match once.mapM wholeNumber? with
  | some numbers => set ((numbers.mergeSort fun a b ↦ decide (a ≤ b)).map .int)
  | none => set once

/-- The mapping that setting the keys one after the other gives. -/
def ofEntries (entries : List (Value × Value)) : Value := ofEntriesBy sameKey entries

/-- The value of a name in a mapping. -/
def lookup? (entries : List (Value × Value)) (name : String) : Option Value :=
  (entries.find? fun e ↦ sameKey e.1 (text name)).map Prod.snd

end Value

end CurveCalc
