import CurveCalc.Yaml.Graph
import CurveCalc.Yaml.Meaning

/-!
What the nodes of a graph stand for. Scalars are understood when they are met, and collections in
the order in which they were met: first the whole, then its parts, then the parts of those. That
order decides which of several faults is found.
-/

set_option autoImplicit false
set_option relaxedAutoImplicit false

namespace CurveCalc.Yaml

/-- What a node stands for, its parts by their numbers. -/
inductive Part where
  | leaf (v : Value)
  | list (items : List Nat)
  | pairs (entries : List (Nat × Nat))
  | set (keys : List Nat)
  | mapping (entries : List (Nat × Nat))

abbrev Nodes := Array Node

namespace Nodes

def kindOf (nodes : Nodes) (id : Nat) : Kind :=
  match nodes[id]? with
  | some (.scalar kind _) => kind
  | some (.sequence kind _) => kind
  | some (.mapping kind _) => kind
  | none => .unknown

/-- The entries of a mapping; other nodes have none. -/
def entriesOf (nodes : Nodes) (id : Nat) : List (Nat × Nat) :=
  match nodes[id]? with
  | some (.mapping _ entries) => entries
  | _ => []

def setEntries (nodes : Nodes) (id : Nat) (entries : List (Nat × Nat)) : Nodes :=
  match nodes[id]? with
  | some (.mapping kind _) => nodes.setIfInBounds id (.mapping kind entries)
  | _ => nodes

/-- Makes a text of what is the mark of a value. -/
def unmark (nodes : Nodes) (id : Nat) : Nodes :=
  match nodes[id]? with
  | some (.scalar .valueMark text) => nodes.setIfInBounds id (.scalar .str text)
  | some (.mapping .valueMark entries) => nodes.setIfInBounds id (.mapping .str entries)
  | _ => nodes

/-- The entries of all mappings together. -/
def entryCount (nodes : Nodes) : Nat :=
  nodes.foldl (fun n node ↦ match node with
    | .mapping _ entries => n + entries.length
    | _ => n) 0

/-- Goes through the entries of a mapping from `index` on, and takes out those that ask for the
entries of others. `inner` does the same with another mapping, whose entries are then taken over; of
several mappings the first one comes last. -/
def takeOver (inner : Nat → Nodes → Except YamlError Nodes) (id : Nat) :
    Nat → Nat → List (Nat × Nat) → Nodes → Except YamlError (List (Nat × Nat) × Nodes)
  | 0, _, taken, nodes => .ok (taken, nodes)
  | steps + 1, index, taken, nodes =>
    match (nodes.entriesOf id)[index]? with
    | none => .ok (taken, nodes)
    | some (key, value) =>
      if nodes.kindOf key = .merge then do
        let nodes := nodes.setEntries id ((nodes.entriesOf id).eraseIdx index)
        match nodes[value]? with
        | some (.mapping _ _) =>
          let nodes ← inner value nodes
          takeOver inner id steps index (taken ++ nodes.entriesOf value) nodes
        | some (.sequence _ items) =>
          let (groups, nodes) ← items.foldlM
            (fun (groups, nodes) item ↦ do
              match nodes[item]? with
              | some (.mapping _ _) =>
                let nodes ← inner item nodes
                return (nodes.entriesOf item :: groups, nodes)
              | _ => throw .badMerge)
            (([], nodes) : List (List (Nat × Nat)) × Nodes)
          takeOver inner id steps index (taken ++ groups.flatten) nodes
        | _ => throw .badMerge
      else takeOver inner id steps (index + 1) taken (nodes.unmark key)

/-- Puts the entries that a mapping takes over in front of its own ones. Each step down takes out an
entry, so there are no more steps than entries. -/
def flatten : Nat → Nat → Nodes → Except YamlError Nodes
  | 0, _, nodes => .ok nodes
  | depth + 1, id, nodes => do
    let inner := fun (id : Nat) (nodes : Nodes) ↦ flatten depth id nodes
    let (taken, nodes) ← takeOver inner id (nodes.entriesOf id).length 0 [] nodes
    return nodes.setEntries id (taken ++ nodes.entriesOf id)

/-- The text of a scalar, or of the value that stands for a mapping; and whether it is a scalar. -/
def scalarText (nodes : Nodes) : Nat → Nat → Except YamlError (String × Bool)
  | 0, _ => .error .endless
  | fuel + 1, id =>
    match nodes[id]? with
    | some (.scalar _ text) => .ok (text, true)
    | some (.mapping _ entries) =>
      match entries.find? fun e ↦ nodes.kindOf e.1 = .valueMark with
      | some e => (scalarText nodes fuel e.2).map fun r ↦ (r.1, false)
      | none => .error .wrongForm
    | _ => .error .wrongForm

end Nodes

/-- Nodes on their way to being understood. -/
structure Building where
  nodes : Nodes
  /-- What the nodes stand for that have been met; a collection is empty until its turn comes. -/
  parts : Array (Option Part)
  /-- Collections whose turn has not come, the last one first. -/
  due : List Nat

namespace Building

def give (id : Nat) (part : Part) (b : Building) : Building :=
  { b with parts := b.parts.setIfInBounds id (some part) }

/-- The value of a scalar, or of a mapping that stands for one. -/
def leafOf (kind : Kind) (id : Nat) (b : Building) : Except YamlError Value := do
  let (text, isScalar) ← b.nodes.scalarText (b.nodes.size + 1) id
  -- a moment is told by the form of the scalar itself
  if kind = .stamp && !isScalar then throw (.value .wrongType)
  kind.meaning text

/-- Meets a node. -/
def meet (b : Building) (id : Nat) : Except YamlError Building := do
  match b.parts[id]? with
  | some (some _) => return b
  | _ =>
    let kind := b.nodes.kindOf id
    if kind.isCollection then return { b.give id (.list []) with due := id :: b.due }
    else if [.merge, .valueMark, .unknown].contains kind then throw .unknownTag
    else return b.give id (.leaf (← b.leafOf kind id))

/-- Meets the keys and values of a mapping in turn. A key is no collection. -/
def meetEntries (b : Building) (entries : List (Nat × Nat)) : Except YamlError Building :=
  entries.foldlM
    (fun b e ↦ do
      let b ← b.meet e.1
      if (b.nodes.kindOf e.1).isCollection then throw .unusableKey
      b.meet e.2) b

/-- The only entry of a mapping that stands for a pair. -/
def pairOf (b : Building) (id : Nat) : Except YamlError (Nat × Nat) :=
  match b.nodes[id]? with
  | some (.mapping _ [entry]) => .ok entry
  | _ => .error .wrongForm

/-- Looks at a collection whose turn has come. -/
def turn (b : Building) (id : Nat) : Except YamlError Building := do
  match b.nodes.kindOf id, b.nodes[id]? with
  | .seq, some (.sequence _ items) =>
    let b ← items.foldlM meet b
    return b.give id (.list items)
  | .omap, some (.sequence _ items) | .pairs, some (.sequence _ items) =>
    let (entries, b) ← items.foldlM
      (fun (entries, b) item ↦ do
        let entry ← b.pairOf item
        let b ← (← b.meet entry.1).meet entry.2
        return (entries ++ [entry], b))
      (([], b) : List (Nat × Nat) × Building)
    return b.give id (.pairs entries)
  | .map, some (.mapping _ _) | .set, some (.mapping _ _) =>
    let nodes ← b.nodes.flatten (b.nodes.entryCount + 1) id
    let entries := nodes.entriesOf id
    let b ← { b with nodes := nodes }.meetEntries entries
    return b.give id
      (if nodes.kindOf id = .set then .set (entries.map Prod.fst) else .mapping entries)
  | _, _ => throw .wrongForm

/-- Lets all collections have their turn. Each round but the last meets a node for the first time.
-/
def rounds : Nat → Building → Except YamlError Building
  | 0, b => .ok b
  | fuel + 1, b =>
    if b.due.isEmpty then .ok b
    else do rounds fuel (← b.due.reverse.foldlM turn { b with due := [] })

end Building

/-- What the nodes of a graph stand for. -/
def Graph.parts (g : Graph) : Except YamlError (Array (Option Part)) := do
  let b : Building := ⟨g.nodes, g.nodes.map fun _ ↦ none, []⟩
  let b ← (← b.meet g.root).rounds (g.nodes.size + 1)
  return b.parts

end CurveCalc.Yaml
