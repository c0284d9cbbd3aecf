import CurveCalc.Yaml.Scalar

/-!
Reading tags and directives. A tag is a handle with what follows it, and a directive may say what a
handle stands for. Characters of a tag may be written as the bytes of their code behind percent
signs.
-/

set_option autoImplicit false
set_option relaxedAutoImplicit false

namespace CurveCalc.Yaml

def isNameChar (c : Char) : Bool :=
  ('0' ≤ c && c ≤ '9') || ('a' ≤ c && c ≤ 'z') || ('A' ≤ c && c ≤ 'Z') || c = '-' || c = '_'

def isTagChar (c : Char) : Bool :=
  isNameChar c || ";/?:@&=+$,_.!~*\x27()[]".toList.contains c

/-- Bytes behind percent signs, one after the other. -/
def escapedBytes : Nat → Place → Except YamlError (List UInt8 × Place)
  | 0, p => .ok ([], p)
  | fuel + 1, p =>
    if p.peek 0 = some '%' then do
      let digits := p.step.rest.take 2
      if digits.length < 2 then throw .badTag
      match hexNumber? digits with
      | none => throw .badTag
      | some n =>
        let (bytes, q) ← escapedBytes fuel (p.steps 3)
        return (UInt8.ofNat n :: bytes, q)
    else .ok ([], p)

/-- The characters of a tag at the front. -/
def tagChars : Nat → Place → Except YamlError (List Char × Place)
  | 0, p => .ok ([], p)
  | fuel + 1, p =>
    match p.peek 0 with
    | none => .ok ([], p)
    | some c => do
      if c = '%' then
        let (bytes, q) ← escapedBytes (p.rest.length + 1) p
        match String.fromUTF8? ⟨bytes.toArray⟩ with
        | none => throw .badTag
        | some s =>
          let (chars, q) ← tagChars fuel q
          return (s.toList ++ chars, q)
      else if isTagChar c then
        let (chars, q) ← tagChars fuel p.step
        return (c :: chars, q)
      else return ([], p)

/-- What stands behind the handle of a tag; it is not empty. -/
def tagSuffix (p : Place) : Except YamlError (String × Place) := do
  let (chars, q) ← tagChars (p.rest.length + 1) p
  if chars.isEmpty then throw .badTag
  return (String.ofList chars, q)

/-- A handle: a lone mark, or a name between two marks. -/
def tagHandle (p : Place) : Except YamlError (String × Place) := do
  if p.peek 0 != some '!' then throw .badTag
  if p.peek 1 = some ' ' then return ("!", p.step)
  let name := p.step.takeWhile isNameChar
  if name.2.peek 0 != some '!' then throw .badTag
  return (String.ofList (['!'] ++ name.1 ++ ['!']), name.2.step)

def atSpaceOrBreak (p : Place) : Bool := endOr (fun c ↦ c = ' ' || isBreak c) (p.peek 0)

/-- A tag: in angle brackets, a lone mark, or a handle with what follows it. -/
def tagAt (p : Place) : Except YamlError (Tag × Place) := do
  let (t, q) ← (match p.peek 1 with
    | some '<' => do
      let (suffix, q) ← tagSuffix (p.steps 2)
      if q.peek 0 != some '>' then throw .badTag
      return (⟨none, suffix⟩, q.step)
    | next => do
      if endOr isBlankOrBreak next then return (⟨none, "!"⟩, p.step)
      let word := p.step.takeWhile fun c ↦ !(c = ' ' || isBreak c)
      let (handle, q) ← if word.1.contains '!' then tagHandle p else pure ("!", p.step)
      let (suffix, q) ← tagSuffix q
      return (⟨some handle, suffix⟩, q) : Except YamlError (Tag × Place))
  if !atSpaceOrBreak q then throw .badTag
  return (t, q)

/-- A number in the version of a document. -/
def versionNumber (p : Place) : Except YamlError (Nat × Place) := do
  let digits := p.takeWhile Number.isDigit
  if digits.1.isEmpty then throw .badDirective
  if Number.maxDigits < digits.1.length then
    throw (.value (.tooManyDigits (some digits.1.length)))
  return (Number.ofDigits digits.1, digits.2)

/-- The version of a document, of which only the part before the point matters. -/
def versionAt (p : Place) : Except YamlError (Directive × Place) := do
  let (major, p) ← versionNumber p.skipSpaces
  if p.peek 0 != some '.' then throw .badDirective
  let (_, p) ← versionNumber p.step
  if !atSpaceOrBreak p then throw .badDirective
  return (.version major, p)

/-- A handle and what it stands for. -/
def handleAt (p : Place) : Except YamlError (Directive × Place) := do
  let (name, p) ← tagHandle p.skipSpaces
  if p.peek 0 != some ' ' then throw .badDirective
  let (start, p) ← tagSuffix p.skipSpaces
  if !atSpaceOrBreak p then throw .badDirective
  return (.handle name start, p)

/-- A directive, and the place behind its line. -/
def directiveAt (p : Place) : Except YamlError (Directive × Place) := do
  let (name, p) := p.step.takeWhile isNameChar
  if name.isEmpty || !atSpaceOrBreak p then throw .badDirective
  let (d, p) ← (
    if name = "YAML".toList then versionAt p
    else if name = "TAG".toList then handleAt p
    else pure (.unknown, (p.takeWhile fun c ↦ !isBreak c).2) :
    Except YamlError (Directive × Place))
  return (d, ← restOfLine .badDirective p)

end CurveCalc.Yaml
