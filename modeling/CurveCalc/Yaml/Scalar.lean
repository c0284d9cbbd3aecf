import CurveCalc.Yaml.Token

/-!
Reading the text of scalars: plain ones, ones in quotes, and blocks of lines. Lines of a plain or
quoted scalar are joined by a space, and empty lines between them are kept.
-/

set_option autoImplicit false
set_option relaxedAutoImplicit false

namespace CurveCalc.Yaml

/-- The text of a scalar as far as it was read, and the place behind it. -/
structure Reading where
  text : List Char
  place : Place

/-- What joins two lines: the break itself if it is a special one, else a space unless empty lines
follow, and then those. -/
def joinLines (lineBreak : Char) (empty : List Char) : List Char :=
  (if lineBreak != '\n' then [lineBreak] else if empty.isEmpty then [' '] else []) ++ empty

/-! Plain scalars. -/

/-- The characters at the front that belong to a plain scalar. -/
def plainRun (inFlow : Bool) : List Char → List Char
  | [] => []
  | c :: rest =>
    let ends := fun d ↦ isBlankOrBreak d || (inFlow && ",[]\x7b\x7d".toList.contains d)
    if isBlankOrBreak c || (c = ':' && endOr ends rest.head?) ||
        (inFlow && ",?[]\x7b\x7d".toList.contains c) then []
    else c :: plainRun inFlow rest

/-- Spaces and line breaks, as far as no document mark ends them: the breaks, and whether a mark was
found. -/
def emptyLines : Nat → Place → List Char × Bool × Place
  | 0, p => ([], false, p)
  | fuel + 1, p =>
    match p.peek 0 with
    | some ' ' => emptyLines fuel p.step
    | _ =>
      match p.takeBreak with
      | (none, _) => ([], false, p)
      | (some c, q) =>
        if q.atDocumentMark then ([c], true, q)
        else
          let r := emptyLines fuel q
          (c :: r.1, r.2)

/-- What separates two pieces of a plain scalar, and whether a line ended. -/
def plainSpaces (p : Place) : Reading × Bool :=
  let spaces := p.takeWhile fun c ↦ c = ' '
  match spaces.2.takeBreak with
  | (none, _) => (⟨spaces.1, spaces.2⟩, false)
  | (some c, q) =>
    if q.atDocumentMark then (⟨[], q⟩, true)
    else
      let r := emptyLines q.rest.length q
      (⟨if r.2.1 then [] else joinLines c r.1, r.2.2⟩, true)

/-- Reads a plain scalar whose further lines are indented by at least `indent`. The last part says
whether a line has ended behind it. -/
def plainScalar (inFlow : Bool) (indent : Int) : Nat → List Char → Bool → Place → Reading × Bool
  | 0, _, ended, p => (⟨[], p⟩, ended)
  | fuel + 1, spaces, ended, p =>
    let run := if p.peek 0 = some '#' then [] else plainRun inFlow p.rest
    if run.isEmpty then (⟨[], p⟩, ended)
    else
      let between := plainSpaces (p.steps run.length)
      let q := between.1.place
      if between.1.text.isEmpty || q.peek 0 = some '#' || (!inFlow && q.column < indent) then
        (⟨spaces ++ run, q⟩, between.2)
      else
        let r := plainScalar inFlow indent fuel between.1.text between.2 q
        (⟨spaces ++ run ++ r.1.text, r.1.place⟩, r.2)

/-! Scalars in quotes. -/

/-- The character an escape by one letter stands for. -/
def escapeOf? (c : Char) : Option Char :=
  match c with
  | '0' => some '\x00'
  | 'a' => some '\x07'
  | 'b' => some '\x08'
  | 't' => some '\t'
  | '\t' => some '\t'
  | 'n' => some '\n'
  | 'v' => some '\x0b'
  | 'f' => some '\x0c'
  | 'r' => some '\r'
  | 'e' => some '\x1b'
  | ' ' => some ' '
  | '"' => some '"'
  | '\\' => some '\\'
  | '/' => some '/'
  | 'N' => some '\x85'
  | '_' => some '\xa0'
  | 'L' => some '\u2028'
  | 'P' => some '\u2029'
  | _ => none

/-- How many digits follow the letter of an escape by code. -/
def escapeDigits? (c : Char) : Option Nat :=
  match c with
  | 'x' => some 2
  | 'u' => some 4
  | 'U' => some 8
  | _ => none

def hexValue? (c : Char) : Option Nat :=
  if '0' ≤ c && c ≤ '9' then some (c.toNat - '0'.toNat)
  else if 'a' ≤ c && c ≤ 'f' then some (c.toNat - 'a'.toNat + 10)
  else if 'A' ≤ c && c ≤ 'F' then some (c.toNat - 'A'.toNat + 10)
  else none

/-- The number that digits in base sixteen spell. -/
def hexNumber? (digits : List Char) : Option Nat :=
  digits.foldlM (fun n c ↦ (hexValue? c).map fun d ↦ 16 * n + d) 0

/-- The breaks of empty lines inside quotes. -/
def quotedBreaks : Nat → Place → Except YamlError Reading
  | 0, p => .ok ⟨[], p⟩
  | fuel + 1, p => do
    if p.atDocumentMark then throw .markInQuotes
    match (p.takeWhile isSpaceOrTab).2.takeBreak with
    | (none, q) => return ⟨[], q⟩
    | (some c, q) =>
      let r ← quotedBreaks fuel q
      return ⟨c :: r.text, r.place⟩

/-- Spaces inside quotes; around a line break they are dropped and the lines joined. -/
def quotedSpaces (p : Place) : Except YamlError Reading := do
  let spaces := p.takeWhile isSpaceOrTab
  match spaces.2.takeBreak with
  | (some c, q) =>
    let r ← quotedBreaks (q.rest.length + 1) q
    return ⟨joinLines c r.text, r.place⟩
  | (none, q) =>
    if q.rest.isEmpty then throw .unclosedQuote
    return ⟨spaces.1, q⟩

/-- The number behind the letter of an escape by code, and the place behind that. -/
def escapedCode (count : Nat) (p : Place) : Except YamlError (Nat × Place) :=
  let digits := p.rest.take count
  match hexNumber? digits with
  | some n => if digits.length < count then .error .unknownEscape else .ok (n, p.steps count)
  | none => .error .unknownEscape

/-- The second half of a character that is written as two codes. -/
def lowHalf? (p : Place) : Option (Nat × Place) :=
  match p.peek 0, (p.peek 1).bind escapeDigits? with
  | some '\\', some count =>
    match escapedCode count (p.steps 2) with
    | .ok (n, q) => if 0xDC00 ≤ n ∧ n ≤ 0xDFFF then some (n, q) else none
    | .error _ => none
  | _, _ => none

/-- The character of a code. Numbers that are no code are a fault of the value, not of the text. -/
def characterOf (n : Nat) (p : Place) : Except YamlError Reading :=
  if 0x80000000 ≤ n then .error (.value .outOfRange)
  else if 0x110000 ≤ n then .error (.value .codePoint)
  else if 0xD800 ≤ n ∧ n ≤ 0xDFFF then
    match lowHalf? p with
    | some (low, q) =>
      if n ≤ 0xDBFF then
        .ok ⟨[Char.ofNat (0x10000 + 0x400 * (n - 0xD800) + (low - 0xDC00))], q⟩
      else .ok ⟨['\uFFFD'], p⟩
    | none => .ok ⟨['\uFFFD'], p⟩
  else .ok ⟨[Char.ofNat n], p⟩

/-- What a backslash and the characters behind it stand for. -/
def escaped (p : Place) : Except YamlError Reading := do
  match p.peek 0 with
  | none => throw .unknownEscape
  | some c =>
    match escapeOf? c, escapeDigits? c with
    | some d, _ => return ⟨[d], p.step⟩
    | none, some count =>
      let (n, q) ← escapedCode count p.step
      characterOf n q
    | none, none =>
      match p.takeBreak with
      | (none, _) => throw .unknownEscape
      | (some _, q) => quotedBreaks (q.rest.length + 1) q

/-- Reads up to the closing quote. -/
def quotedScalar (double : Bool) : Nat → Place → Except YamlError Reading
  | 0, _ => throw .unclosedQuote
  | fuel + 1, p => do
    let piece ← (do
      match p.rest with
      | [] => throw .unclosedQuote
      | c :: rest =>
        if isBlankOrBreak c then return some (← quotedSpaces p)
        else if double && c = '\\' then return some (← escaped p.step)
        else if double && c = '"' then return none
        else if !double && c = '\x27' then
          if rest.head? = some '\x27' then return some ⟨['\x27'], p.steps 2⟩ else return none
        else return some ⟨[c], p.step⟩ : Except YamlError (Option Reading))
    match piece with
    | none => return ⟨[], p.step⟩
    | some r =>
      let more ← quotedScalar double fuel r.place
      return ⟨r.text ++ more.text, more.place⟩

/-! Blocks of lines. -/

/-- What becomes of the line breaks at the end of a block. -/
inductive Chomp where
  | strip | clip | keep
  deriving DecidableEq

/-- The mark of a block: what becomes of its end, and how deep it is indented if that is said. -/
structure BlockHeader where
  chomp : Chomp
  depth : Option Nat

def chompOf? : Option Char → Option Chomp
  | some '+' => some .keep
  | some '-' => some .strip
  | _ => none

def depthOf? : Option Char → Option Nat
  | some c => if '0' ≤ c && c ≤ '9' then some (c.toNat - '0'.toNat) else none
  | none => none

/-- The signs behind the mark of a block, in either order. -/
def blockHeader (p : Place) : Except YamlError (BlockHeader × Place) := do
  let (chomp, depth, q) := match chompOf? (p.peek 0), depthOf? (p.peek 0) with
    | some chomp, _ =>
      match depthOf? (p.peek 1) with
      | some depth => (chomp, some depth, p.steps 2)
      | none => (chomp, none, p.step)
    | none, some depth =>
      match chompOf? (p.peek 1) with
      | some chomp => (chomp, some depth, p.steps 2)
      | none => (.clip, some depth, p.step)
    | none, none => (.clip, none, p)
  if depth = some 0 then throw .badBlockHeader
  if !endOr (fun c ↦ c = ' ' || isBreak c) (q.peek 0) then throw .badBlockHeader
  return (⟨chomp, depth⟩, q)

/-- The rest of a line that may hold only a comment. -/
def restOfLine (e : YamlError) (p : Place) : Except YamlError Place := do
  let q := p.skipSpaces
  let q := if q.peek 0 = some '#' then (q.takeWhile fun c ↦ !isBreak c).2 else q
  if !endOr isBreak (q.peek 0) then throw e
  return q.takeBreak.2

/-- The empty lines in front of a block whose depth is not said, and the deepest column in them. -/
def blockIndentation : Nat → Nat → Place → List Char × Nat × Place
  | 0, deepest, p => ([], deepest, p)
  | fuel + 1, deepest, p =>
    if p.peek 0 = some ' ' then blockIndentation fuel (max deepest p.step.column) p.step
    else
      match p.takeBreak with
      | (none, _) => ([], deepest, p)
      | (some c, q) =>
        let r := blockIndentation fuel deepest q
        (c :: r.1, r.2)

/-- Spaces up to a column. -/
def indentTo : Nat → Nat → Place → Place
  | 0, _, p => p
  | fuel + 1, column, p =>
    if p.column < column && p.peek 0 = some ' ' then indentTo fuel column p.step else p

/-- Empty lines inside a block that is indented to a column. -/
def blockBreaks (column : Nat) : Nat → Place → Reading
  | 0, p => ⟨[], p⟩
  | fuel + 1, p =>
    let q := indentTo p.rest.length column p
    match q.takeBreak with
    | (none, _) => ⟨[], q⟩
    | (some c, after) =>
      let r := blockBreaks column fuel after
      ⟨c :: r.text, r.place⟩

/-- Reads the lines of a block; `before` are the breaks in front of the next line. -/
def blockLines (folded : Bool) (chomp : Chomp) (column : Nat) :
    Nat → List Char → Option Char → Place → Reading
  | 0, _, _, p => ⟨[], p⟩
  | fuel + 1, before, lineBreak, p =>
    let finish : List Char :=
      match chomp with
      | .strip => []
      | .clip => lineBreak.toList
      | .keep => lineBreak.toList ++ before
    if p.column = column && !p.rest.isEmpty then
      let line := p.takeWhile fun c ↦ !isBreak c
      let ended := line.2.takeBreak
      let breaks := blockBreaks column (ended.2.rest.length + 1) ended.2
      let q := breaks.place
      let joined : List Char :=
        if q.column = column && !q.rest.isEmpty then
          if folded && ended.1 = some '\n' && !endOr isSpaceOrTab (p.peek 0) &&
              !endOr isSpaceOrTab (q.peek 0) then
            if breaks.text.isEmpty then [' '] else []
          else ended.1.toList
        else []
      let more := blockLines folded chomp column fuel breaks.text ended.1 q
      ⟨before ++ line.1 ++ joined ++ more.text, more.place⟩
    else ⟨finish, p⟩

/-- Reads a block of lines behind its mark, inside something indented by `indent`. -/
def blockScalar (folded : Bool) (indent : Int) (p : Place) : Except YamlError Reading := do
  let (header, p) ← blockHeader p
  let p ← restOfLine .badBlockHeader p
  let least := (max (indent + 1) 1).toNat
  let fuel := p.rest.length + 1
  match header.depth with
  | some depth =>
    let column := least + depth - 1
    let breaks := blockBreaks column fuel p
    return blockLines folded header.chomp column fuel breaks.text none breaks.place
  | none =>
    let (breaks, deepest, p) := blockIndentation fuel 0 p
    return blockLines folded header.chomp (max least deepest) fuel breaks none p

end CurveCalc.Yaml
