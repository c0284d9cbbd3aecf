import CurveCalc.Document.Value

/-!
The pieces a YAML text is read in, and what can be wrong with one.
-/

set_option autoImplicit false
set_option relaxedAutoImplicit false

namespace CurveCalc.Yaml

/-- What is wrong with a text. -/
inductive YamlError where
  | unprintable
  /-- A character that begins nothing. -/
  | unexpectedCharacter
  | keyWithoutValue
  | misplacedEntry
  | misplacedKey
  | misplacedValue
  | unclosedQuote
  | unknownEscape
  /-- A document mark inside quotes. -/
  | markInQuotes
  /-- What stands behind the mark of a block of text is neither a sign nor a depth. -/
  | badBlockHeader
  | badAnchorName
  | badTag
  | badDirective
  | missingDocumentMark
  | unclosedBlock
  | unclosedFlow
  | missingContent
  | secondDocument
  | undefinedAlias
  | duplicateAnchor
  /-- A tag, or a value read as having one, for which there is no data. -/
  | unknownTag
  /-- A part of one form, a scalar, sequence or mapping, where its kind needs another. -/
  | wrongForm
  | unusableKey
  | badMerge
  | badBytes
  /-- A scalar whose text is that of a part that leads back to it. -/
  | endless
  | tooDeep
  /-- A text of the right form that means nothing. -/
  | value (e : ValueError)
  deriving DecidableEq

/-- A tag as written: its handle, if it has one, and the rest. -/
structure Tag where
  handle : Option String
  suffix : String
  deriving DecidableEq

/-- What is said before a document. -/
inductive Directive where
  | version (major : Nat)
  /-- What a handle stands for in tags. -/
  | handle (name start : String)
  | unknown
  deriving DecidableEq

inductive YamlToken where
  | directive (d : Directive)
  | documentStart
  | documentEnd
  | blockSequenceStart
  | blockMappingStart
  | blockEnd
  | flowSequenceStart
  | flowSequenceEnd
  | flowMappingStart
  | flowMappingEnd
  | blockEntry
  | flowEntry
  | key
  | value
  | alias (name : String)
  | anchor (name : String)
  | tag (t : Tag)
  | scalar (text : String) (plain : Bool)
  /-- The text cannot be read any further. -/
  | fault (e : YamlError)
  deriving DecidableEq

/-- A place in a text. -/
structure Place where
  rest : List Char
  index : Nat
  line : Nat
  column : Nat

def isBreak (c : Char) : Bool :=
  c = '\n' || c = '\r' || c = '\x85' || c = '\u2028' || c = '\u2029'

def isSpaceOrTab (c : Char) : Bool := c = ' ' || c = '\t'

def isBlankOrBreak (c : Char) : Bool := isSpaceOrTab c || isBreak c

/-- Whether there is no character or one of a class. -/
def endOr (p : Char → Bool) : Option Char → Bool
  | none => true
  | some c => p c

/-- Whether there is a character and it is one of a text. -/
def among (chars : String) : Option Char → Bool
  | none => false
  | some c => chars.toList.contains c

namespace Place

def peek (p : Place) (ahead : Nat) : Option Char := p.rest[ahead]?

/-- The place behind the next character. -/
def step (p : Place) : Place :=
  match p.rest with
  | [] => p
  | c :: rest =>
    let ended := isBreak c && !(c = '\r' && rest.head? = some '\n')
    { rest := rest
      index := p.index + 1
      line := if ended then p.line + 1 else p.line
      column := if ended then 0 else if c = '\uFEFF' then p.column else p.column + 1 }

def steps : Nat → Place → Place
  | 0, p => p
  | n + 1, p => steps n p.step

/-- The characters of a class at the front, and the place behind them. -/
def takeWhile (f : Char → Bool) (p : Place) : List Char × Place :=
  let taken := p.rest.takeWhile f
  (taken, p.steps taken.length)

def skipSpaces (p : Place) : Place := (p.takeWhile fun c ↦ c = ' ').2

/-- A line break at the front, as the character that stands for it. -/
def takeBreak (p : Place) : Option Char × Place :=
  match p.rest with
  | '\r' :: '\n' :: _ => (some '\n', p.steps 2)
  | c :: _ =>
    if c = '\u2028' ∨ c = '\u2029' then (some c, p.step)
    else if isBreak c then (some '\n', p.step)
    else (none, p)
  | [] => (none, p)

/-- Whether a mark of three characters stands here, with nothing joined to it. -/
def atMark (mark : Char) (p : Place) : Bool :=
  p.rest.take 3 = [mark, mark, mark] && endOr isBlankOrBreak (p.peek 3)

def atDocumentMark (p : Place) : Bool := p.atMark '-' || p.atMark '.'

end Place

/-- Characters a text may hold. -/
def isPrintable (c : Char) : Bool :=
  c = '\t' || c = '\n' || c = '\r' || c = '\x85' || (0x20 ≤ c.toNat && c.toNat ≤ 0x7E) ||
    (0xA0 ≤ c.toNat && c.toNat ≤ 0xFFFD) || 0x10000 ≤ c.toNat

end CurveCalc.Yaml
