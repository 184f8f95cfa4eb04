import SealedEnvelope.Text.Hex

set_option autoImplicit false

/-! # Dashed hexadecimal text

Sixteen octets written as hexadecimal in groups of 4, 2, 2, 2 and 6 octets with a dash between
groups, the usual form of a universally unique identifier. Writing gives lower-case digits; reading
takes either case and nothing but this form. -/

namespace SealedEnvelope.Text.DashedHex

/-- The octets in each group. -/
def groupSizes : List Nat := [4, 2, 2, 2, 6]

/-- The text of octets cut into groups, as octets of text. -/
def encodeGroups : List Nat → Bytes → List Char
  | [], bytes => bytes.flatMap Hex.digits
  | [_], bytes => bytes.flatMap Hex.digits
  | n :: sizes, bytes =>
    (bytes.take n).flatMap Hex.digits ++ '-' :: encodeGroups sizes (bytes.drop n)

/-- The dashed text of an octet string. -/
def encode (bytes : Bytes) : String := String.ofList (encodeGroups groupSizes bytes)

/-- The octets of exactly these groups. -/
def decodeGroups : List Nat → Bytes → Option Bytes
  | [], text => if text.isEmpty then some [] else none
  | [n], text => if text.length = 2 * n then (Hex.decode text).toOption else none
  | n :: sizes, text => do
    let group ← (Hex.decode (text.take (2 * n))).toOption
    match text.drop (2 * n) with
    | dash :: rest =>
      if dash = 45 ∧ group.length = n then
        let tail ← decodeGroups sizes rest
        return group ++ tail
      else none
    | [] => none

/-- The sixteen octets that a dashed text, given as octets, denotes. -/
def decode? (text : Bytes) : Option Bytes := decodeGroups groupSizes text

end SealedEnvelope.Text.DashedHex
