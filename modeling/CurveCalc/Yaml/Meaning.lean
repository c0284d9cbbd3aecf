import CurveCalc.Document.Value
import CurveCalc.Yaml.Kind
import CurveCalc.Yaml.Token

/-!
What the text of a scalar means, once its kind is known. Any text may be said to be of any kind, so
every text has a meaning or a fault of its own.
-/

set_option autoImplicit false
set_option relaxedAutoImplicit false

namespace CurveCalc.Yaml

/-- The characters that count in a number. -/
def withoutGaps (text : String) : List Char := text.toList.filter fun c ↦ c != '_'

def readWholeIn (base : Nat) (digits : List Char) : Except ValueError Int :=
  intOfText base (Text.quoted (String.ofList digits)) (String.ofList digits)

def readReal (digits : List Char) : Except ValueError Float :=
  floatOfText (Text.quoted (String.ofList digits)) (String.ofList digits)

/-- A whole number behind its sign: in base two or sixteen behind a mark, in base eight behind a
zero, and in base sixty if there are colons in it. -/
def wholeOf : List Char → Except ValueError Int
  | [] => .error .emptyNumber
  | ['0'] => .ok 0
  | '0' :: 'b' :: rest => readWholeIn 2 rest
  | '0' :: 'x' :: rest => readWholeIn 16 rest
  | '0' :: rest => readWholeIn 8 ('0' :: rest)
  | digits =>
    if digits.contains ':' then do
      let pieces ← (splitColons digits).mapM (readWholeIn 10)
      return pieces.foldl (fun n piece ↦ 60 * n + piece) 0
    else readWholeIn 10 digits

def intOf (text : String) : Except ValueError Int := do
  let chars := withoutGaps text
  if chars.isEmpty then throw .emptyNumber
  let sign := Number.takeSign chars
  let n ← wholeOf sign.2
  return if sign.1 then -n else n

/-- Pieces in base sixty, the ones first; `place` is what the first of them counts. -/
def addSixties (place : Nat) (sum : Float) : List Float → Except ValueError Float
  | [] => .ok sum
  | piece :: rest =>
    match Number.floatOfInt? place with
    | none => .error .outOfRange
    | some x => addSixties (60 * place) (sum + piece * x) rest

/-- A number behind its sign, in lower case. -/
def realOf (chars : List Char) : Except ValueError Float :=
  if chars.contains ':' then do
    let pieces ← (splitColons chars).mapM readReal
    addSixties 1 0.0 pieces.reverse
  else readReal chars

def floatOf (text : String) : Except ValueError Float := do
  let chars := (withoutGaps text).map Number.lowerAscii
  if chars.isEmpty then throw .emptyNumber
  let sign := Number.takeSign chars
  if sign.2 = ".nan".toList then return 0.0 / 0.0
  let x ← if sign.2 = ".inf".toList then pure (1.0 / 0.0) else realOf sign.2
  return if sign.1 then -1.0 * x else x

def boolOf (text : String) : Except ValueError Bool :=
  let word := String.ofList (text.toList.map Number.lowerAscii)
  if trueWords.contains word then .ok true
  else if falseWords.contains word then .ok false
  else .error .unknownWord

/-- The day or moment that a text tells; one line break at its end does not count. -/
def stampOf (text : String) : Except ValueError Value :=
  match Stamp.ofChars? (Text.withoutLastBreak text.toList) with
  | none => .error .notAMoment
  | some s =>
    match s.read with
    | .error f => .error (.calendar f)
    | .ok (.inl d) => .ok (.day d)
    | .ok (.inr m) => .ok (.moment m)

def bytesOf (text : String) : Except YamlError Bytes :=
  if text.toList.any fun c ↦ 0x80 ≤ c.toNat then .error .badBytes
  else
    match Bytes.ofBase64 0 0 0 text.toList with
    | some b => .ok b
    | none => .error .badBytes

/-- The value of a text of a kind that is none of collections. -/
def Kind.meaning (kind : Kind) (text : String) : Except YamlError Value :=
  match kind with
  | null => .ok .null
  | str => .ok (.text text)
  | bool => ((boolOf text).map .bool).mapError .value
  | int => ((intOf text).map .int).mapError .value
  | float => ((floatOf text).map .float).mapError .value
  | stamp => (stampOf text).mapError .value
  | binary => (bytesOf text).map .bytes
  | _ => .error .unknownTag

end CurveCalc.Yaml
