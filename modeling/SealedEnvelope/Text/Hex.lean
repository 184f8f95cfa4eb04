import SealedEnvelope.Octets
import SealedEnvelope.Text.Quoted

set_option autoImplicit false

/-! # Hexadecimal text

`encode` writes two lower-case digits per octet; `decode` reads digits of either case from the
octets of a text. An odd number of digits is reported before anything else, then the first octet
that is no digit, with its offset and as the Latin-1 character of that value. -/

namespace SealedEnvelope.Text.Hex

/-- Why a text is not hexadecimal. -/
inductive Fault where
  | oddLength
  | badDigit (octet : UInt8) (offset : Nat)
deriving DecidableEq, Repr

/-- The fault in words. -/
def Fault.message : Fault → String
  | .oddLength => "Odd number of digits"
  | .badDigit octet offset =>
    "Invalid character " ++ quoteChar (Char.ofNat octet.toNat) ++ s!" at position {offset}"

/-- The lower-case digit of a value below 16. -/
def digit (n : Nat) : Char := Nat.digitChar n

/-- The value of a digit of either case, given as an octet of text. -/
def value? (b : UInt8) : Option Nat :=
  let n := b.toNat
  if 48 ≤ n && n ≤ 57 then some (n - 48)
  else if 97 ≤ n && n ≤ 102 then some (n - 87)
  else if 65 ≤ n && n ≤ 70 then some (n - 55)
  else none

/-- The two digits of an octet. -/
def digits (b : UInt8) : List Char := [digit (b.toNat / 16), digit (b.toNat % 16)]

/-- Two lower-case digits per octet. -/
def encode (bytes : Bytes) : String := String.ofList (bytes.flatMap digits)

/-- Reads pairs of digits from `offset` on, behind the octets already read in reverse. -/
def decodePairs (offset : Nat) (read : Bytes) : Bytes → Except Fault Bytes
  | [] => .ok read.reverse
  | [_] => .error .oddLength
  | hi :: lo :: rest =>
    match value? hi, value? lo with
    | none, _ => .error (.badDigit hi offset)
    | _, none => .error (.badDigit lo (offset + 1))
    | some h, some l => decodePairs (offset + 2) (UInt8.ofNat (h * 16 + l) :: read) rest

/-- The octets that a text of digits denotes. -/
def decode (text : Bytes) : Except Fault Bytes :=
  if text.length % 2 = 1 then .error .oddLength else decodePairs 0 [] text

end SealedEnvelope.Text.Hex
