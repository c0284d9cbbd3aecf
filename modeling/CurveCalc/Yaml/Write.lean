import CurveCalc.Text.Quoted
import CurveCalc.Yaml.Kind
import CurveCalc.Yaml.Token

/-!
Data written as YAML in blocks. A text is left plain where it would read back as the same text, else
it stands in single quotes, and in double quotes where it holds what only an escape can express.
Lines are broken at spaces behind the eightieth column.
-/

set_option autoImplicit false
set_option relaxedAutoImplicit false

namespace CurveCalc.Yaml

/-- A number: where the point is missing before a marked exponent, it is put there. -/
def numberStyle : Number.Style :=
  { Number.Style.answer with pointBeforeMark := true, nan := ".nan", infinity := ".inf" }

/-- Column behind which lines are broken. -/
def bestWidth : Nat := 80

def isLineBreak (c : Char) : Bool := c = '\n' || c = '\x85' || c = '\u2028' || c = '\u2029'

/-- How a text may be written. -/
structure Analysis where
  plain : Bool
  singleQuoted : Bool
  multiline : Bool
  deriving DecidableEq

/-- Characters that are written as they are. -/
def isOrdinary (c : Char) : Bool := c = '\n' || (0x20 ≤ c.toNat && c.toNat ≤ 0x7E)

/-- Whether a character inside a text, between the two around it, could be taken for a mark. -/
def marksInside (before c : Char) (after : Option Char) : Bool :=
  (c = ':' && endOr isBlankOrBreak after) || (c = '#' && isBlankOrBreak before)

def marksWithin : List Char → Bool
  | before :: c :: rest => marksInside before c rest.head? || marksWithin (c :: rest)
  | _ => false

/-- Whether the first character of a text could be taken for a mark. -/
def marksFirst : List Char → Bool
  | [] => false
  | c :: rest =>
    "#,[]\x7b\x7d&*!|>\x27\"%@\x60".toList.contains c ||
      ((c = '?' || c = ':' || c = '-') && endOr isBlankOrBreak rest.head?)

/-- Whether a space stands next to a character of a class in that order. -/
def followed (p q : Char → Bool) : List Char → Bool
  | c :: d :: rest => (p c && q d) || followed p q (d :: rest)
  | _ => false

def analyze (chars : List Char) : Analysis :=
  let isSpace := fun c : Char ↦ c = ' '
  let breaks := chars.any isLineBreak
  let special := !chars.all isOrdinary
  let edge := fun c : Option Char ↦ (c.map fun c ↦ isSpace c || isLineBreak c).getD false
  let breakSpace := followed isLineBreak isSpace chars
  let spaceBreak := followed isSpace isLineBreak chars
  let marked :=
    marksFirst chars || marksWithin chars || "---".toList.isPrefixOf chars ||
      "...".toList.isPrefixOf chars
  { plain := !(edge chars.head? || edge chars.getLast? || breakSpace || spaceBreak || special ||
      breaks || marked)
    singleQuoted := !(breakSpace || spaceBreak || special)
    multiline := breaks }

/-- A text that is being written, the last character first, and the column behind it. -/
structure Output where
  reversed : List Char
  column : Nat

namespace Output

def add (chars : List Char) (o : Output) : Output :=
  ⟨chars.reverse ++ o.reversed, o.column + chars.length⟩

/-- Ends the line and indents the next one. -/
def newLine (indent : Nat) (o : Output) : Output :=
  ⟨List.replicate indent ' ' ++ '\n' :: o.reversed, indent⟩

def lineBreak (c : Char) (o : Output) : Output := ⟨c :: o.reversed, 0⟩

/-- Moves to the indentation, ending the line if it is not empty. -/
def toIndent (indent : Nat) (o : Output) : Output :=
  if o.column = 0 then o.add (List.replicate indent ' ') else o.newLine indent

/-- Writes the pieces of a plain text that spaces separate. -/
def plainPieces (indent : Nat) (split : Bool) : Nat → List Char → Output → Output
  | 0, _, o => o
  | fuel + 1, chars, o =>
    let word := chars.takeWhile fun c ↦ c != ' '
    let rest := chars.dropWhile fun c ↦ c != ' '
    let o := o.add word
    let spaces := rest.takeWhile fun c ↦ c = ' '
    let rest := rest.dropWhile fun c ↦ c = ' '
    if spaces.isEmpty then o
    else
      let o :=
        if spaces.length = 1 && bestWidth < o.column && split then o.newLine indent
        else o.add spaces
      plainPieces indent split fuel rest o

/-- Writes the pieces of a text in single quotes; `first` says that nothing was written yet. -/
def quotedPieces (indent : Nat) (split first : Bool) : Nat → List Char → Output → Output
  | 0, _, o => o
  | fuel + 1, chars, o =>
    match chars with
    | [] => o
    | c :: _ =>
      if c = ' ' then
        let spaces := chars.takeWhile fun c ↦ c = ' '
        let rest := chars.dropWhile fun c ↦ c = ' '
        let o :=
          if spaces.length = 1 && bestWidth < o.column && split && !first && !rest.isEmpty then
            o.newLine indent
          else o.add spaces
        quotedPieces indent split false fuel rest o
      else if isLineBreak c then
        let breaks := chars.takeWhile isLineBreak
        let rest := chars.dropWhile isLineBreak
        let o := if c = '\n' then o.lineBreak '\n' else o
        let o := (breaks.foldl (fun o b ↦ o.lineBreak b) o).toIndent indent
        quotedPieces indent split false fuel rest o
      else if c = '\x27' then
        quotedPieces indent split false fuel chars.tail (o.add ['\x27', '\x27'])
      else
        let ordinary := fun c : Char ↦ !(c = ' ' || isLineBreak c || c = '\x27')
        quotedPieces indent split false fuel (chars.dropWhile ordinary)
          (o.add (chars.takeWhile ordinary))

end Output

def hexUpper (width n : Nat) : List Char :=
  (Text.hex width n).toList.map fun c ↦
    if 'a' ≤ c && c ≤ 'f' then Char.ofNat (c.toNat - 32) else c

/-- How a character is written between double quotes. -/
def escapedChar? (c : Char) : Option (List Char) :=
  if c = '\x00' then some "\\0".toList
  else if c = '\x07' then some "\\a".toList
  else if c = '\x08' then some "\\b".toList
  else if c = '\t' then some "\\t".toList
  else if c = '\n' then some "\\n".toList
  else if c = '\x0b' then some "\\v".toList
  else if c = '\x0c' then some "\\f".toList
  else if c = '\r' then some "\\r".toList
  else if c = '\x1b' then some "\\e".toList
  else if c = '"' then some "\\\"".toList
  else if c = '\\' then some "\\\\".toList
  else if c = '\x85' then some "\\N".toList
  else if c = '\xa0' then some "\\_".toList
  else if c = '\u2028' then some "\\L".toList
  else if c = '\u2029' then some "\\P".toList
  else if 0x20 ≤ c.toNat && c.toNat ≤ 0x7E then none
  else if c.toNat ≤ 0xFF then some ('\\' :: 'x' :: hexUpper 2 c.toNat)
  else if c.toNat ≤ 0xFFFF then some ('\\' :: 'u' :: hexUpper 4 c.toNat)
  else some ('\\' :: 'U' :: hexUpper 8 c.toNat)

namespace Output

/-- Writes the characters of a text between double quotes. `pending` are ordinary characters not
written yet, the last one first; `index` counts the characters before the front. A line that grows
too long is continued behind a backslash. -/
def escapedPieces (indent : Nat) (split : Bool) (size : Nat) :
    Nat → List Char → List Char → Output → Output
  | _, pending, [], o => o.add pending.reverse
  | index, pending, c :: rest, o =>
    let inside := 0 < index && index + 1 < size && split
    let continued := fun (o : Output) (next : Char) ↦
      let o := (o.add ['\\']).newLine indent
      if next = ' ' then o.add ['\\'] else o
    match escapedChar? c with
    | some escape =>
      let o := (o.add pending.reverse).add escape
      let o :=
        if inside && bestWidth + 1 < o.column then continued o (rest.headD 'x') else o
      escapedPieces indent split size (index + 1) [] rest o
    | none =>
      if inside && (c = ' ' || pending.isEmpty) && bestWidth < o.column + pending.length then
        let o := continued (o.add pending.reverse) c
        escapedPieces indent split size (index + 1) [c] rest o
      else escapedPieces indent split size (index + 1) (c :: pending) rest o

end Output

/-- Writes a text; keys stay on one line. -/
def writeText (indent : Nat) (isKey : Bool) (text : String) (o : Output) : Output :=
  let chars := text.toList
  let a := analyze chars
  let split := !isKey
  if Kind.ofPlain text = .str && !chars.isEmpty && a.plain then
    o.plainPieces indent split (chars.length + 1) chars
  else if a.singleQuoted && !(isKey && a.multiline) then
    ((o.add ['\x27']).quotedPieces indent split true (chars.length + 1) chars).add ['\x27']
  else
    ((o.add ['"']).escapedPieces indent split chars.length 0 [] chars).add ['"']

/-- Writes a null, truth value, number or text. A configuration has no values of other kinds beside
lists and mappings, and nothing is written of them. -/
def writeScalar (indent : Nat) (isKey : Bool) (v : Value) (o : Output) : Output :=
  match v with
  | .null => o.add "null".toList
  | .bool b => o.add (if b then "true" else "false").toList
  | .int n => o.add (toString n).toList
  | .float x => o.add (Number.text numberStyle x).toList
  | .text s => writeText indent isKey s o
  | _ => o

/-- Longest text of a key that may stand on one line with its value. -/
def longestKey : Nat := 122

/-- Whether a key has to be announced by a mark and followed by its value on a line of its own. -/
def isAnnounced : Value → Bool
  | .text s => s.isEmpty || longestKey < s.length || (analyze s.toList).multiline
  | _ => false

/-- Writes a key and the colon behind it. -/
def writeKey (indent : Nat) (k : Value) (o : Output) : Output :=
  if isAnnounced k then
    ((writeScalar (indent + 2) false k (o.add ['?', ' '])).newLine indent).add [':']
  else (writeScalar indent true k o).add [':']

mutual

/-- Writes a value behind its key or dash; `indent` is the column of the block around it. Entries of
a list stand at the column of the key that the list belongs to. -/
def writeValue (indent : Nat) (inList : Bool) (v : Value) (o : Output) : Output :=
  match v with
  | .list [] => o.add " []".toList
  | .list (item :: rest) =>
    if inList then writeItems (indent + 2) (item :: rest) true (o.add [' '])
    else writeItems indent (item :: rest) false o
  | .mapping [] => o.add " \x7b\x7d".toList
  | .mapping (entry :: rest) =>
    if inList then writeEntries (indent + 2) (entry :: rest) true (o.add [' '])
    else writeEntries (indent + 2) (entry :: rest) false o
  | v => writeScalar (indent + 2) false v (o.add [' '])

/-- Writes the entries of a list; the first one may stand on the line that has begun. -/
def writeItems (indent : Nat) (items : List Value) (onLine : Bool) (o : Output) : Output :=
  match items with
  | [] => o
  | v :: rest =>
    let o := if onLine then o else o.toIndent indent
    writeItems indent rest false (writeValue indent true v (o.add ['-']))

/-- Writes the entries of a mapping; the first one may stand on the line that has begun. -/
def writeEntries (indent : Nat) (entries : List (Value × Value)) (onLine : Bool) (o : Output) :
    Output :=
  match entries with
  | [] => o
  | (k, v) :: rest =>
    let o := if onLine then o else o.toIndent indent
    writeEntries indent rest false (writeValue indent false v (writeKey indent k o))

end

/-- The text of a mapping that is a document. -/
def write (entries : List (Value × Value)) : String :=
  if entries.isEmpty then "\x7b\x7d\n"
  else
    let o := writeEntries 0 entries true ⟨[], 0⟩
    String.ofList ('\n' :: o.reversed).reverse

end CurveCalc.Yaml
