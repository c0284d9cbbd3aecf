import CurveCalc.Document.Keys
import CurveCalc.Yaml.Parts
import CurveCalc.Yaml.Scan

/-!
From a YAML text to data.
-/

set_option autoImplicit false
set_option relaxedAutoImplicit false

namespace CurveCalc.Yaml

/-- A value with the labels in it that stand for collections around it. -/
structure Found where
  value : Value
  leads : List Nat
  /-- Whether some collection in it leads back to itself. -/
  tangled : Bool

namespace Found

def leaf (v : Value) : Found := ⟨v, [], false⟩

/-- A collection of what was found of its parts. -/
def collect (build : List Value → Value) (parts : List Found) : Found :=
  ⟨build (parts.map Found.value), parts.flatMap Found.leads, parts.any Found.tangled⟩

/-- Labels a collection if something in it leads out of it or back to it. -/
def tie (label : Nat) (f : Found) : Found :=
  if f.leads.isEmpty then f
  else ⟨.knot label f.value, f.leads.filter fun l ↦ l != label, true⟩

end Found

/-- Whether two values are one key in a file, where all that are no numbers are one. -/
def sameKeyInFile (a b : Value) : Bool :=
  match a, b with
  | .float x, .float y => x == y || (x.isNaN && y.isNaN)
  | a, b => Value.sameKey a b

/-- Values two by two. -/
def paired : List Value → List (Value × Value)
  | a :: b :: rest => (a, b) :: paired rest
  | _ => []

def flatEntries (entries : List (Nat × Nat)) : List Nat := entries.flatMap fun e ↦ [e.1, e.2]

/-- The value of a node. `path` are the collections around it, by number; a collection among them is
told by its label. Values without labels are kept for the next time. -/
def findValue (parts : Array (Option Part)) :
    Nat → List Nat → Nat → StateM (Array (Option Value)) Found
  | 0, _, _ => return .leaf .null
  | fuel + 1, path, id => do
    if path.contains id then return ⟨.back id, [id], true⟩
    match (← get)[id]? with
    | some (some v) => return .leaf v
    | _ =>
      let inside := fun (i : Nat) ↦ findValue parts fuel (id :: path) i
      let found ← match parts[id]?.join with
        | some (.leaf v) => pure (.leaf v)
        | some (.list items) => (Found.collect .list) <$> items.mapM inside
        | some (.pairs entries) =>
          (Found.collect fun vs ↦ .list ((paired vs).map fun e ↦ .pair e.1 e.2)) <$>
            (flatEntries entries).mapM inside
        | some (.set keys) =>
          (Found.collect (Value.ofKeysBy sameKeyInFile)) <$> keys.mapM inside
        | some (.mapping entries) =>
          (Found.collect fun vs ↦ Value.ofEntriesBy sameKeyInFile (paired vs)) <$>
            (flatEntries entries).mapM inside
        | none => pure (.leaf .null)
      let found := found.tie id
      if !found.tangled then modify fun known ↦ known.setIfInBounds id (some found.value)
      return found

/-- The data of a graph. -/
def Graph.toValue (g : Graph) : Except YamlError Value := do
  let parts ← g.parts
  return (findValue parts (parts.size + 1) [] g.root (parts.map fun _ ↦ none)).1.value

/-- The data of a text; nothing at all counts as null. -/
def read (text : String) : Except YamlError Value := do
  match ← Graph.ofTokens? (tokens text) with
  | none => return .null
  | some g => g.toValue

end CurveCalc.Yaml
