import SealedEnvelope.Octets

set_option autoImplicit false

/-! # Base64 text

The standard alphabet with padding. Three octets become four symbols; a last group of one or two
octets is padded with `=`. Reading is strict: only whole groups, padding only at the end, and the
bits that padding leaves over must be zero, so each octet string has one text. Faults name the first
offending symbol and its offset. -/

namespace SealedEnvelope.Text.Base64

/-- Why a text is not base64. -/
inductive Fault where
  /-- The octet is no symbol, or padding where none may stand. -/
  | badSymbol (symbol : UInt8) (offset : Nat)
  /-- The last symbol before the padding carries bits that no octet takes. -/
  | spareBits (symbol : UInt8) (offset : Nat)
  /-- The text does not consist of whole groups. -/
  | badLength
deriving DecidableEq, Repr

/-- The fault in words. -/
def Fault.message : Fault → String
  | .badSymbol symbol offset => s!"Invalid symbol {symbol.toNat}, offset {offset}."
  | .spareBits symbol offset => s!"Invalid last symbol {symbol.toNat}, offset {offset}."
  | .badLength => "Invalid padding"

/-- The symbol of a six-bit value, as an octet of text. -/
def symbol (v : Nat) : UInt8 :=
  UInt8.ofNat <|
    if v < 26 then v + 65 else if v < 52 then v + 71 else if v < 62 then v - 4
    else if v = 62 then 43 else 47

/-- The six-bit value of a symbol. -/
def value? (b : UInt8) : Option Nat :=
  let n := b.toNat
  if 65 ≤ n && n ≤ 90 then some (n - 65)
  else if 97 ≤ n && n ≤ 122 then some (n - 71)
  else if 48 ≤ n && n ≤ 57 then some (n + 4)
  else if n = 43 then some 62
  else if n = 47 then some 63
  else none

/-- The padding symbol, `=`. -/
def pad : UInt8 := 61

/-- The text of an octet string, as octets. -/
def encodeBytes : Bytes → Bytes
  | [] => []
  | [a] => [symbol (a.toNat / 4), symbol (a.toNat % 4 * 16), pad, pad]
  | [a, b] =>
    [symbol (a.toNat / 4), symbol (a.toNat % 4 * 16 + b.toNat / 16), symbol (b.toNat % 16 * 4), pad]
  | a :: b :: c :: rest =>
    symbol (a.toNat / 4) :: symbol (a.toNat % 4 * 16 + b.toNat / 16)
      :: symbol (b.toNat % 16 * 4 + c.toNat / 64) :: symbol (c.toNat % 64) :: encodeBytes rest

/-- The text of an octet string. -/
def encode (bytes : Bytes) : String :=
  String.ofList ((encodeBytes bytes).map fun b => Char.ofNat b.toNat)

/-- The value of the symbol at an offset. -/
def valueAt (offset : Nat) (b : UInt8) : Except Fault Nat :=
  match value? b with
  | some v => .ok v
  | none => .error (.badSymbol b offset)

/-- The last group, which may end in padding: in its third and fourth place together, or in its
    fourth place alone. -/
def decodeLast (offset : Nat) (s0 s1 s2 s3 : UInt8) : Except Fault Bytes := do
  let v0 ← valueAt offset s0
  let v1 ← valueAt (offset + 1) s1
  let first := UInt8.ofNat (v0 * 4 + v1 / 16)
  if s2 = pad then
    if s3 ≠ pad then throw (.badSymbol pad (offset + 2))
    if v1 % 16 ≠ 0 then throw (.spareBits s1 (offset + 1))
    return [first]
  let v2 ← valueAt (offset + 2) s2
  let second := UInt8.ofNat (v1 % 16 * 16 + v2 / 4)
  if s3 = pad then
    if v2 % 4 ≠ 0 then throw (.spareBits s2 (offset + 2))
    return [first, second]
  let v3 ← valueAt (offset + 3) s3
  return [first, second, UInt8.ofNat (v2 % 4 * 64 + v3)]

/-- Reads groups of four symbols from `offset` on. -/
def decodeFrom (offset : Nat) : Bytes → Except Fault Bytes
  | [] => .ok []
  | [s0, s1, s2, s3] => decodeLast offset s0 s1 s2 s3
  | s0 :: s1 :: s2 :: s3 :: rest => do
    let v0 ← valueAt offset s0
    let v1 ← valueAt (offset + 1) s1
    let v2 ← valueAt (offset + 2) s2
    let v3 ← valueAt (offset + 3) s3
    let tail ← decodeFrom (offset + 4) rest
    return UInt8.ofNat (v0 * 4 + v1 / 16) :: UInt8.ofNat (v1 % 16 * 16 + v2 / 4)
      :: UInt8.ofNat (v2 % 4 * 64 + v3) :: tail
  | _ => .error .badLength

/-- The octets that a base64 text, given as octets, denotes. -/
def decode (text : Bytes) : Except Fault Bytes := decodeFrom 0 text

end SealedEnvelope.Text.Base64
