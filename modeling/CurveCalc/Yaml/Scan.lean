import CurveCalc.Yaml.Tag

/-!
From a YAML text to its tokens. Depth of indentation opens and closes blocks. A key is known for one
only by the colon behind it, so the reader remembers where a key may have begun and puts its token
in front once the colon comes.
-/

set_option autoImplicit false
set_option relaxedAutoImplicit false

namespace CurveCalc.Yaml

/-- A token that may turn out to be a key. -/
structure PendingKey where
  /-- How many tokens were read before it. -/
  tokens : Nat
  /-- Without a colon the text is wrong. -/
  required : Bool
  index : Nat
  line : Nat
  column : Nat

structure Scanner where
  place : Place
  /-- How many brackets and braces are open. -/
  depth : Nat
  indent : Int
  indents : List Int
  /-- Whether a key may begin here. -/
  keyAllowed : Bool
  /-- At most one for each depth. -/
  pending : List (Nat × PendingKey)
  tokens : Array YamlToken
  ended : Bool

namespace Scanner

def start (text : List Char) : Scanner where
  place := ⟨text, 0, 0, 0⟩
  depth := 0
  indent := -1
  indents := []
  keyAllowed := true
  pending := []
  tokens := #[]
  ended := false

def put (t : YamlToken) (s : Scanner) : Scanner := { s with tokens := s.tokens.push t }

def inFlow (s : Scanner) : Bool := s.depth != 0

/-- Blanks, comments and line breaks before the next token. -/
def skipBlanks : Nat → Scanner → Scanner
  | 0, s => s
  | fuel + 1, s =>
    let p := s.place.skipSpaces
    let p := if p.peek 0 = some '#' then (p.takeWhile fun c ↦ !isBreak c).2 else p
    match p.takeBreak with
    | (none, _) => { s with place := p }
    | (some _, q) => skipBlanks fuel { s with place := q, keyAllowed := s.keyAllowed || !s.inFlow }

/-- A key and its colon stand on one line, and not too far apart. -/
def isStale (s : Scanner) (k : PendingKey) : Bool :=
  k.line != s.place.line || 1024 < s.place.index - k.index

def dropStale (s : Scanner) : Except YamlError Scanner :=
  if s.pending.any fun k ↦ s.isStale k.2 && k.2.required then .error .keyWithoutValue
  else .ok { s with pending := s.pending.filter fun k ↦ !s.isStale k.2 }

def closeBlocks (column : Int) : List Int → Scanner → Scanner
  | [], s => s
  | outer :: rest, s =>
    if column < s.indent then
      closeBlocks column rest { s.put .blockEnd with indent := outer, indents := rest }
    else s

/-- Closes the blocks that are indented deeper than a column. -/
def unwind (column : Int) (s : Scanner) : Scanner :=
  if s.inFlow then s else closeBlocks column s.indents s

/-- Opens a block at a column, if it is deeper than the one around it. -/
def opens (column : Nat) (s : Scanner) : Bool := s.indent < column

def openBlock (column : Nat) (s : Scanner) : Scanner :=
  { s with indent := column, indents := s.indent :: s.indents }

/-- Forgets the key that may have begun at this depth. -/
def dropPending (s : Scanner) : Except YamlError Scanner :=
  match s.pending.lookup s.depth with
  | none => .ok s
  | some k =>
    if k.required then .error .keyWithoutValue
    else .ok { s with pending := s.pending.filter fun k ↦ k.1 != s.depth }

/-- Remembers that a key may begin here. -/
def savePending (s : Scanner) : Except YamlError Scanner :=
  if s.keyAllowed then do
    let s ← s.dropPending
    let k : PendingKey :=
      { tokens := s.tokens.size
        required := !s.inFlow && s.indent == s.place.column
        index := s.place.index
        line := s.place.line
        column := s.place.column }
    return { s with pending := (s.depth, k) :: s.pending }
  else .ok s

def finish (s : Scanner) : Except YamlError Scanner := do
  let s ← (s.unwind (-1)).dropPending
  return { s with ended := true }

def mark (t : YamlToken) (s : Scanner) : Except YamlError Scanner := do
  let s ← (s.unwind (-1)).dropPending
  return { s.put t with keyAllowed := false, place := s.place.steps 3 }

def openFlow (t : YamlToken) (s : Scanner) : Except YamlError Scanner := do
  let s ← s.savePending
  return { s.put t with depth := s.depth + 1, keyAllowed := true, place := s.place.step }

def closeFlow (t : YamlToken) (s : Scanner) : Except YamlError Scanner := do
  let s ← s.dropPending
  return { s.put t with depth := s.depth - 1, keyAllowed := false, place := s.place.step }

def flowEntry (s : Scanner) : Except YamlError Scanner := do
  let s ← s.dropPending
  return { s.put .flowEntry with keyAllowed := true, place := s.place.step }

/-- Opens a block at this column for an entry, a key or a value that stands outside brackets. -/
def blockFor (start : YamlToken) (misplaced : YamlError) (s : Scanner) :
    Except YamlError Scanner :=
  if s.inFlow then .ok s
  else if !s.keyAllowed then .error misplaced
  else if s.opens s.place.column then .ok ((s.openBlock s.place.column).put start)
  else .ok s

def blockEntry (s : Scanner) : Except YamlError Scanner := do
  let s ← s.blockFor .blockSequenceStart .misplacedEntry
  let s ← s.dropPending
  return { s.put .blockEntry with keyAllowed := true, place := s.place.step }

def key (s : Scanner) : Except YamlError Scanner := do
  let s ← s.blockFor .blockMappingStart .misplacedKey
  let s ← s.dropPending
  return { s.put .key with keyAllowed := !s.inFlow, place := s.place.step }

/-- Puts tokens in front of the one a key began with. -/
def insertAt (index : Nat) (inserted : List YamlToken) (tokens : Array YamlToken) :
    Array YamlToken :=
  let after := tokens.extract index tokens.size
  tokens.shrink index ++ inserted.toArray ++ after

def value (s : Scanner) : Except YamlError Scanner := do
  match s.pending.lookup s.depth with
  | some k =>
    let opening := !s.inFlow && s.opens k.column
    let inserted := (if opening then [YamlToken.blockMappingStart] else []) ++ [.key]
    let s := { s with
      pending := s.pending.filter fun k ↦ k.1 != s.depth
      tokens := insertAt k.tokens inserted s.tokens
      keyAllowed := false }
    let s := if opening then s.openBlock k.column else s
    return { s.put .value with place := s.place.step }
  | none =>
    let s ← s.blockFor .blockMappingStart .misplacedValue
    return { s.put .value with keyAllowed := !s.inFlow, place := s.place.step }

/-- A name behind the mark of an anchor or alias. -/
def anchorName (p : Place) : Except YamlError (String × Place) := do
  let name := p.step.takeWhile isNameChar
  if name.1.isEmpty then throw .badAnchorName
  let follows := name.2.peek 0
  if !(endOr isBlankOrBreak follows || among "?:,]\x7d%@\x60" follows) then throw .badAnchorName
  return (String.ofList name.1, name.2)

def anchor (t : String → YamlToken) (s : Scanner) : Except YamlError Scanner := do
  let s ← s.savePending
  let (name, p) ← anchorName s.place
  return { s.put (t name) with keyAllowed := false, place := p }

def tag (s : Scanner) : Except YamlError Scanner := do
  let s ← s.savePending
  let (t, p) ← tagAt s.place
  return { s.put (.tag t) with keyAllowed := false, place := p }

def block (folded : Bool) (s : Scanner) : Except YamlError Scanner := do
  let s ← { s with keyAllowed := true }.dropPending
  let r ← blockScalar folded s.indent s.place.step
  return { s.put (.scalar (String.ofList r.text) false) with place := r.place }

def quoted (double : Bool) (s : Scanner) : Except YamlError Scanner := do
  let s ← s.savePending
  let r ← quotedScalar double (s.place.rest.length + 1) s.place.step
  return { s.put (.scalar (String.ofList r.text) false) with keyAllowed := false, place := r.place }

def plain (s : Scanner) : Except YamlError Scanner := do
  let s ← s.savePending
  let r := plainScalar s.inFlow (s.indent + 1) (s.place.rest.length + 1) [] false s.place
  return { s.put (.scalar (String.ofList r.1.text) true) with
    keyAllowed := r.2, place := r.1.place }

def directive (s : Scanner) : Except YamlError Scanner := do
  let s ← (s.unwind (-1)).dropPending
  let (d, p) ← directiveAt s.place
  return { s.put (.directive d) with keyAllowed := false, place := p }

/-- Whether a plain scalar may begin with these two characters. -/
def beginsPlain (inFlow : Bool) (first : Char) (second : Option Char) : Bool :=
  !(isBlankOrBreak first || "-?:,[]\x7b\x7d#&*!|>\x27\"%@\x60".toList.contains first) ||
    (!endOr isBlankOrBreak second && (first = '-' || (!inFlow && (first = '?' || first = ':'))))

/-- Reads one token, together with the ends and starts of blocks around it. -/
def next (s : Scanner) : Except YamlError Scanner := do
  let s := s.skipBlanks (s.place.rest.length + 1)
  let s ← s.dropStale
  let s := s.unwind s.place.column
  let p := s.place
  match p.peek 0 with
  | none => s.finish
  | some c =>
    let spaced := endOr isBlankOrBreak (p.peek 1)
    let atStart := p.column = 0
    if c = '%' && atStart then s.directive
    else if atStart && p.atMark '-' then s.mark .documentStart
    else if atStart && p.atMark '.' then s.mark .documentEnd
    else if c = '[' then s.openFlow .flowSequenceStart
    else if c = '\x7b' then s.openFlow .flowMappingStart
    else if c = ']' then s.closeFlow .flowSequenceEnd
    else if c = '\x7d' then s.closeFlow .flowMappingEnd
    else if c = ',' then s.flowEntry
    else if c = '-' && spaced then s.blockEntry
    else if c = '?' && (s.inFlow || spaced) then s.key
    else if c = ':' && (s.inFlow || spaced) then s.value
    else if c = '*' then s.anchor .alias
    else if c = '&' then s.anchor .anchor
    else if c = '!' then s.tag
    else if c = '|' && !s.inFlow then s.block false
    else if c = '>' && !s.inFlow then s.block true
    else if c = '\x27' then s.quoted false
    else if c = '"' then s.quoted true
    else if beginsPlain s.inFlow c (p.peek 1) then s.plain
    else throw .unexpectedCharacter

/-- The tokens that are known for what they are: those before the first one that may turn out to be
a key, as far as it still may at this place. -/
def settled (s : Scanner) : List YamlToken :=
  let pending := (s.pending.filter fun k ↦ !s.isStale k.2).map fun k ↦ k.2.tokens
  s.tokens.toList.take (pending.foldl min s.tokens.size)

/-- Reads tokens up to the end of the text, or to the first fault. -/
def run : Nat → Scanner → List YamlToken
  | 0, s => s.tokens.toList
  | fuel + 1, s =>
    if s.ended then s.tokens.toList
    else
      match s.next with
      | .ok t => run fuel t
      | .error e => s.settled ++ [.fault e]

end Scanner

/-- The tokens of a text. What comes before a fault is known before the fault is. -/
def tokens (text : String) : List YamlToken :=
  let chars := text.toList
  if !chars.all isPrintable then [.fault .unprintable]
  else
    let chars := if chars.head? = some '\uFEFF' then chars.tail else chars
    Scanner.run (chars.length + 2) (Scanner.start chars)

end CurveCalc.Yaml
