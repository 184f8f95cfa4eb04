import SealedEnvelope.Error
import SealedEnvelope.Octets

set_option autoImplicit false

/-! # Length prefixes

A length is written as one tag octet and a big-endian number of 1, 2, 4 or 8 octets; the tag tells
the width. Writing always takes the narrowest width (`Width.ofLength`), reading takes any. Lengths
beyond `maxLength` are refused both ways, so that a peer may keep them in a double. -/

namespace SealedEnvelope.LengthPrefix

/-- The largest length that is written or read. -/
def maxLength : Nat := 1 <<< 53 - 1

/-- The width of a length field. -/
inductive Width where
  | one | two | four | eight
deriving DecidableEq, Repr

namespace Width

/-- The octets of a number of this width. -/
def size : Width → Nat
  | one => 1
  | two => 2
  | four => 4
  | eight => 8

/-- The tag octet that announces this width. -/
def tag : Width → UInt8
  | one => 0
  | two => 1
  | four => 2
  | eight => 3

/-- The width that a tag octet announces. -/
def ofTag (tag : UInt8) : Except Error Width :=
  if tag = 0 then .ok one
  else if tag = 1 then .ok two
  else if tag = 2 then .ok four
  else if tag = 3 then .ok eight
  else .error (.unknownWidthTag tag)

/-- The narrowest width that holds a length. -/
def ofLength (length : Nat) : Width :=
  if length < UInt8.size then one
  else if length < UInt16.size then two
  else if length < UInt32.size then four
  else eight

end Width

/-- The octets of a length's prefix, tag included. -/
def size (length : Nat) : Nat := 1 + (Width.ofLength length).size

/-- Refuses a length beyond the ceiling. -/
def checkCeiling (length : Nat) : Except Error Unit :=
  if maxLength < length then .error (.lengthTooLong length maxLength) else .ok ()

/-- The tag and number of a length within the ceiling. -/
def octets (length : Nat) : Bytes :=
  let width := Width.ofLength length
  width.tag :: bigEndian width.size length

/-- A length behind the octets already written. -/
def append (out : Bytes) (length : Nat) : Except Error Bytes := do
  checkCeiling length
  return out ++ octets length

/-- The length at the front of the input, and the octets it takes. -/
def decode (input : Bytes) : Except Error (Nat × Nat) :=
  match input with
  | [] => .error (.lengthTooShort 1 0)
  | tag :: rest => do
    let width ← Width.ofTag tag
    if rest.length < width.size then
      throw (.lengthTooShort (1 + width.size) input.length)
    let length := ofBigEndian (rest.take width.size)
    checkCeiling length
    return (length, 1 + width.size)

/-- A payload behind its length. -/
def encodePayload (payload : Bytes) : Except Error Bytes := do
  return (← append [] payload.length) ++ payload

/-- The payload at the front of the input, and the octets it takes with its length. -/
def decodePayload (input : Bytes) : Except Error (Bytes × Nat) := do
  let (length, offset) ← decode input
  let rest := input.drop offset
  if rest.length < length then
    throw (.lengthTooShort length rest.length)
  return (rest.take length, offset + length)

end SealedEnvelope.LengthPrefix
