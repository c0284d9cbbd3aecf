import CurveCalc.Text.Quoted

/-!
Strings of bytes: how they are shown, how they are read as text, and how they are written with the
sixty-four characters of base64.
-/

set_option autoImplicit false
set_option relaxedAutoImplicit false

namespace CurveCalc

abbrev Bytes := List UInt8

namespace Bytes

def quoteFor (bytes : Bytes) : Nat :=
  if bytes.any (fun b ↦ b.toNat = 0x27) && !(bytes.any fun b ↦ b.toNat = 0x22) then 0x22 else 0x27

def escapedByte (quote n : Nat) : String :=
  if n = 0x5C ∨ n = quote then String.ofList ['\\', Char.ofNat n]
  else if n = 0x09 then "\\t"
  else if n = 0x0A then "\\n"
  else if n = 0x0D then "\\r"
  else if n < 0x20 ∨ 0x7F ≤ n then "\\x" ++ Text.hex 2 n
  else String.singleton (Char.ofNat n)

/-- The bytes between quotes, marked as bytes. -/
def shown (bytes : Bytes) : String :=
  let quote := quoteFor bytes
  let mark := String.singleton (Char.ofNat quote)
  "b" ++ mark ++ String.join (bytes.map fun b ↦ escapedByte quote b.toNat) ++ mark

/-- The bytes as text, with a question mark for each that is not ASCII. -/
def toText (bytes : Bytes) : String :=
  String.ofList (bytes.map fun b ↦ if b.toNat < 0x80 then Char.ofNat b.toNat else '?')

/-- What a character of base64 counts. -/
def sextet? (c : Char) : Option Nat :=
  if 'A' ≤ c && c ≤ 'Z' then some (c.toNat - 'A'.toNat)
  else if 'a' ≤ c && c ≤ 'z' then some (c.toNat - 'a'.toNat + 26)
  else if '0' ≤ c && c ≤ '9' then some (c.toNat - '0'.toNat + 52)
  else if c = '+' then some 62
  else if c = '/' then some 63
  else none

/-- The bytes that characters of base64 spell. `held` is how many characters of a group of four have
been read, `kept` what they left over, and `padding` how many equals signs have just been seen.
Characters that mean nothing are passed over, a filled group ends the text, and a group that is
neither filled nor padded spells nothing. -/
def ofBase64 (held kept padding : Nat) : List Char → Option Bytes
  | [] => if held = 0 then some [] else none
  | c :: rest =>
    if c = '=' then
      if 2 ≤ held then
        if 4 ≤ held + padding + 1 then some [] else ofBase64 held kept (padding + 1) rest
      else ofBase64 held kept padding rest
    else
      match sextet? c with
      | none => ofBase64 held kept padding rest
      | some n =>
        match held with
        | 0 => ofBase64 1 n 0 rest
        | 1 => (ofBase64 2 (n % 16) 0 rest).map (UInt8.ofNat (4 * kept + n / 16) :: ·)
        | 2 => (ofBase64 3 (n % 4) 0 rest).map (UInt8.ofNat (16 * kept + n / 4) :: ·)
        | _ => (ofBase64 0 0 0 rest).map (UInt8.ofNat (64 * kept + n) :: ·)

end Bytes

end CurveCalc
