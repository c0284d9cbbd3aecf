import CurveCalc.Entries
import CurveCalc.Yaml.Kind
import CurveCalc.Yaml.Token

/-!
The graph of a YAML text, built from its tokens. Parts are numbered in the order in which they
begin, and a part that is named once and used again is one node. The readers call one another as the
tokens nest; each call spends one unit of a supply that is set by the number of tokens.
-/

set_option autoImplicit false
set_option relaxedAutoImplicit false

namespace CurveCalc.Yaml

/-- A part of a document. Other parts are told by their numbers. -/
inductive Node where
  | scalar (kind : Kind) (text : String)
  | sequence (kind : Kind) (items : List Nat)
  | mapping (kind : Kind) (entries : List (Nat × Nat))

/-- The parts of a document by number, and the number of the whole. -/
structure Graph where
  nodes : Array Node
  root : Nat

namespace Node

/-- The tokens that are left, the nodes that have begun, and the numbers of those that have been
given a name. -/
structure State where
  tokens : List YamlToken
  handles : Entries String String
  nodes : Array Node
  anchors : Entries String Nat

namespace State

def skip (s : State) : State := { s with tokens := s.tokens.tail }

def headIs (s : State) (t : YamlToken) : Bool := s.tokens.head? == some t

def headAmong (s : State) (ts : List YamlToken) : Bool := ts.any s.headIs

/-- The fault at which the tokens end, if they are at their end, or else another one. -/
def fault (s : State) (e : YamlError) : YamlError :=
  match s.tokens with
  | .fault f :: _ => f
  | _ => e

/-- Adds a node; its name is known from its beginning. -/
def add (anchor : Option String) (node : Node) (s : State) : Nat × State :=
  let id := s.nodes.size
  (id, { s with
    nodes := s.nodes.push node
    anchors := match anchor with
      | some a => s.anchors.set a id
      | none => s.anchors })

/-- Puts a node in the place of one that has begun. -/
def finish (id : Nat) (node : Node) (s : State) : State :=
  { s with nodes := s.nodes.setIfInBounds id node }

end State

/-- What stands where nothing is written. -/
def empty : Node := scalar .null ""

/-- What may be said of a node before it: a name and a tag. -/
structure Properties where
  anchor : Option String
  tag : Option Tag

def takeProperties : List YamlToken → Properties × List YamlToken
  | .anchor a :: .tag t :: rest => (⟨some a, some t⟩, rest)
  | .anchor a :: rest => (⟨some a, none⟩, rest)
  | .tag t :: .anchor a :: rest => (⟨some a, some t⟩, rest)
  | .tag t :: rest => (⟨none, some t⟩, rest)
  | rest => (⟨none, none⟩, rest)

/-- The full form of a tag. -/
def expandTag (handles : Entries String String) : Tag → Except YamlError String
  | ⟨none, suffix⟩ => .ok suffix
  | ⟨some handle, suffix⟩ =>
    match handles.get? handle with
    | some start => .ok (start ++ suffix)
    | none => .error .unknownTag

/-- The kind that the properties of a node say, or else another one. A lone mark says nothing. -/
def kindOr (tag : Option String) (otherwise : Kind) : Kind :=
  match tag with
  | none => otherwise
  | some t => if t = "!" then otherwise else Kind.ofTag t

abbrev Reads := Except YamlError (Nat × State)

mutual

/-- Reads one node. Blocks may begin only if `block` holds, and a sequence whose entries are not
indented only if `flush` holds. -/
def read (block flush : Bool) : Nat → State → Reads
  | 0, _ => .error .tooDeep
  | fuel + 1, s =>
    match s.tokens with
    | .alias name :: rest =>
      match s.anchors.get? name with
      | some id => .ok (id, { s with tokens := rest })
      | none => .error .undefinedAlias
    | tokens => do
      let (properties, tokens) := takeProperties tokens
      let s := { s with tokens := tokens }
      match tokens with
      | .fault e :: _ => throw e
      | _ => pure ()
      let tag ← properties.tag.mapM (expandTag s.handles)
      readContent block flush tag properties.anchor fuel s

def readContent (block flush : Bool) (tag anchor : Option String) : Nat → State → Reads
  | 0, _ => .error .tooDeep
  | fuel + 1, s => do
    let fresh := (anchor.bind fun a ↦ s.anchors.get? a).isNone
    let begun := fun (node : Node) ↦
      if fresh then Except.ok (s.add anchor node) else Except.error YamlError.duplicateAnchor
    let plain := fun (text : String) ↦ kindOr tag (.ofPlain text)
    let sequence' := fun (reader : State → Except YamlError (List Nat × State)) ↦ do
      let (id, s) ← begun (sequence (kindOr tag .seq) [])
      let (items, s) ← reader s
      return (id, s.finish id (sequence (kindOr tag .seq) items))
    let mapping' := fun (reader : State → Except YamlError (List (Nat × Nat) × State)) ↦ do
      let (id, s) ← begun (mapping (kindOr tag .map) [])
      let (entries, s) ← reader s
      return (id, s.finish id (mapping (kindOr tag .map) entries))
    let nothing := fun (_ : Unit) ↦
      if anchor.isSome || tag.isSome then begun (scalar (plain "") "")
      else .error (s.fault .missingContent)
    match s.tokens with
    | .blockEntry :: _ => if flush then sequence' (readFlush fuel) else nothing ()
    | .scalar text isPlain :: _ =>
      let kind := if isPlain || tag.isSome then plain text else .str
      let (id, s) ← begun (scalar kind text)
      return (id, s.skip)
    | .flowSequenceStart :: _ => sequence' fun s ↦ readFlowSequence true fuel s.skip
    | .flowMappingStart :: _ => mapping' fun s ↦ readFlowMapping true fuel s.skip
    | .blockSequenceStart :: _ =>
      if block then sequence' fun s ↦ readBlockSequence fuel s.skip else nothing ()
    | .blockMappingStart :: _ =>
      if block then mapping' fun s ↦ readBlockMapping fuel s.skip else nothing ()
    | _ => nothing ()

/-- Reads a node unless one of the given tokens shows that there is none. -/
def readUnless (ends : List YamlToken) (block flush : Bool) : Nat → State → Reads
  | 0, _ => .error .tooDeep
  | fuel + 1, s => if s.headAmong ends then .ok (s.add none empty) else read block flush fuel s

def readBlockSequence : Nat → State → Except YamlError (List Nat × State)
  | 0, _ => .error .tooDeep
  | fuel + 1, s => do
    if s.headIs .blockEntry then
      let (item, s) ← readUnless [.blockEntry, .blockEnd] true false fuel s.skip
      let (items, s) ← readBlockSequence fuel s
      return (item :: items, s)
    else if s.headIs .blockEnd then return ([], s.skip)
    else throw (s.fault .unclosedBlock)

/-- Reads a sequence whose entries are not indented. -/
def readFlush : Nat → State → Except YamlError (List Nat × State)
  | 0, _ => .error .tooDeep
  | fuel + 1, s => do
    if s.headIs .blockEntry then
      let (item, s) ← readUnless [.blockEntry, .key, .value, .blockEnd] true false fuel s.skip
      let (items, s) ← readFlush fuel s
      return (item :: items, s)
    else return ([], s)

def readBlockMapping : Nat → State → Except YamlError (List (Nat × Nat) × State)
  | 0, _ => .error .tooDeep
  | fuel + 1, s => do
    let ends := [YamlToken.key, .value, .blockEnd]
    if s.headIs .key then
      let (k, s) ← readUnless ends true true fuel s.skip
      let (v, s) ← readValue ends true true fuel s
      let (entries, s) ← readBlockMapping fuel s
      return ((k, v) :: entries, s)
    else if s.headIs .blockEnd then return ([], s.skip)
    else throw (s.fault .unclosedBlock)

/-- Reads a colon and the value behind it, if they are there. -/
def readValue (ends : List YamlToken) (block flush : Bool) : Nat → State → Reads
  | 0, _ => .error .tooDeep
  | fuel + 1, s =>
    if s.headIs .value then readUnless ends block flush fuel s.skip else .ok (s.add none empty)

/-- Reads items up to the closing bracket; each but the first follows a comma. -/
def readFlowSequence (first : Bool) : Nat → State → Except YamlError (List Nat × State)
  | 0, _ => .error .tooDeep
  | fuel + 1, s => do
    if s.headIs .flowSequenceEnd then return ([], s.skip)
    if !first && !s.headIs .flowEntry then throw (s.fault .unclosedFlow)
    let s := if first then s else s.skip
    if s.headIs .flowSequenceEnd then return ([], s.skip)
    let (item, s) ← readFlowItem fuel s
    let (items, s) ← readFlowSequence false fuel s
    return (item :: items, s)

/-- Reads an item of a sequence in brackets; a key there makes a mapping of one entry. -/
def readFlowItem : Nat → State → Reads
  | 0, _ => .error .tooDeep
  | fuel + 1, s => do
    if s.headIs .key then
      let (id, s) := s.add none (mapping .map [])
      let (k, s) ← readUnless [.value, .flowEntry, .flowSequenceEnd] false false fuel s.skip
      let (v, s) ← readValue [.flowEntry, .flowSequenceEnd] false false fuel s
      return (id, s.finish id (mapping .map [(k, v)]))
    else read false false fuel s

/-- Reads entries up to the closing brace; each but the first follows a comma. -/
def readFlowMapping (first : Bool) : Nat → State → Except YamlError (List (Nat × Nat) × State)
  | 0, _ => .error .tooDeep
  | fuel + 1, s => do
    if s.headIs .flowMappingEnd then return ([], s.skip)
    if !first && !s.headIs .flowEntry then throw (s.fault .unclosedFlow)
    let s := if first then s else s.skip
    if s.headIs .flowMappingEnd then return ([], s.skip)
    let (entry, s) ← readFlowEntry fuel s
    let (entries, s) ← readFlowMapping false fuel s
    return (entry :: entries, s)

/-- Reads an entry of a mapping in braces; without a colon its value is empty. -/
def readFlowEntry : Nat → State → Except YamlError ((Nat × Nat) × State)
  | 0, _ => .error .tooDeep
  | fuel + 1, s => do
    if s.headIs .key then
      let (k, s) ← readUnless [.value, .flowEntry, .flowMappingEnd] false false fuel s.skip
      let (v, s) ← readValue [.flowEntry, .flowMappingEnd] false false fuel s
      return ((k, v), s)
    else
      let (k, s) ← read false false fuel s
      let (v, s) := s.add none empty
      return ((k, v), s)

end

/-- What the handles of tags stand for unless a directive says otherwise. -/
def defaultHandles : Entries String String := [("!", "!"), ("!!", coreTag)]

/-- Takes the directives in front of a document: at most one for the version, which must begin with
one, and at most one for each handle. -/
def takeDirectives (versioned : Bool) (handles : Entries String String) :
    List YamlToken → Except YamlError (Entries String String × List YamlToken)
  | .directive (.version major) :: rest =>
    if versioned || major != 1 then .error .badDirective else takeDirectives true handles rest
  | .directive (.handle name start) :: rest =>
    if (handles.get? name).isSome then .error .badDirective
    else takeDirectives versioned (handles.set name start) rest
  | .directive .unknown :: rest => takeDirectives versioned handles rest
  | rest => .ok (handles, rest)

/-- The node of the document at the front of the tokens. -/
def readDocument (tokens : List YamlToken) : Reads := do
  let fuel := 8 * (tokens.length + 2)
  let state := fun (handles : Entries String String) (tokens : List YamlToken) ↦
    State.mk tokens handles #[] []
  match tokens with
  | .directive _ :: _ | .documentStart :: _ =>
    let (own, tokens) ← takeDirectives false [] tokens
    let handles := own ++ defaultHandles
    match tokens with
    | .documentStart :: rest =>
      match rest with
      | [] | .directive _ :: _ | .documentStart :: _ | .documentEnd :: _ =>
        return (state handles rest).add none empty
      | _ => read true false fuel (state handles rest)
    | tokens => throw ((state handles tokens).fault .missingDocumentMark)
  | _ => read true false fuel (state defaultHandles tokens)

/-- Nothing may follow a document except marks of its end. -/
def readEnd (s : State) : Except YamlError Unit := do
  let rest := s.tokens.dropWhile fun t ↦ t == .documentEnd
  if rest.isEmpty then return ()
  let (_, rest) ← takeDirectives false [] rest
  let s := { s with tokens := rest }
  throw (if s.headIs .documentStart then .secondDocument else s.fault .missingDocumentMark)

end Node

/-- The graph of a text that holds one document, or none if it holds nothing. -/
def Graph.ofTokens? (tokens : List YamlToken) : Except YamlError (Option Graph) := do
  if tokens.isEmpty then return none
  let (root, s) ← Node.readDocument tokens
  Node.readEnd s
  return some ⟨s.nodes, root⟩

end CurveCalc.Yaml
