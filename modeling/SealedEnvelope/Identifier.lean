import SealedEnvelope.Identifier.ObjectId
import SealedEnvelope.Text.Base64
import SealedEnvelope.Text.DashedHex
import SealedEnvelope.Text.Utf8

set_option autoImplicit false

/-! # Recipient identifiers

Recipients of an envelope are told apart by identifiers of one width. A provider fixes the width,
the text form, and what makes an identifier valid:

| provider   | octets | text                   | valid                       |
|------------|--------|------------------------|-----------------------------|
| `objectId` | 12     | hexadecimal            | every one                   |
| `guid`     | 16     | base64                 | version 4, standard variant |
| `uuid`     | 16     | dashed hexadecimal     | standard variant, not zero  |
| `custom n` | `n`    | hexadecimal            | every one                   |

Texts are read strictly: of the right length, in exactly the provider's form, and only if they name
a valid identifier. -/

namespace SealedEnvelope

/-- Where identifiers come from. -/
inductive IdProvider where
  | objectId
  | guid
  | uuid
  /-- Identifiers of a chosen number of octets. -/
  | custom (length : UInt64)
deriving DecidableEq, Repr

namespace IdProvider

/-- The least number of octets of a custom identifier. -/
def minCustomLength : Nat := 1

/-- The greatest number of octets of a custom identifier. -/
def maxCustomLength : Nat := 255

/-- Octets in a universally unique identifier. -/
def uuidSize : Nat := 16

/-- A custom identifier may have this many octets. -/
def CustomLength (n : Nat) : Prop := minCustomLength ≤ n ∧ n ≤ maxCustomLength

instance (n : Nat) : Decidable (CustomLength n) := inferInstanceAs (Decidable (_ ∧ _))

/-- The provider's name in documents and messages. -/
def name : IdProvider → String
  | objectId => "object_id"
  | guid => "guid_v4"
  | uuid => "uuid"
  | custom _ => "custom"

/-- Octets in the provider's identifiers. -/
def byteLength : IdProvider → Nat
  | objectId => ObjectId.size
  | guid => uuidSize
  | uuid => uuidSize
  | custom length => length.toNat

/-- Refuses a custom length out of bounds. -/
def checkCustomLength (n : Nat) : Except Error Unit :=
  if CustomLength n then .ok () else .error (.invalidProviderLength n)

/-- The custom provider of a length within bounds. -/
def ofCustomLength (n : UInt64) : Except Error IdProvider := do
  checkCustomLength n.toNat
  return custom n

/-- Refuses a custom provider whose length is out of bounds. -/
def check : IdProvider → Except Error Unit
  | custom length => checkCustomLength length.toNat
  | _ => .ok ()

/-! ## Validity -/

/-- The octets have the variant bits of the standard. -/
def hasStandardVariant (id : Bytes) : Bool := id.getD 8 0 &&& 0xc0 = 0x80

/-- The octets carry version 4. -/
def hasVersion4 (id : Bytes) : Bool := id.getD 6 0 >>> 4 = 4

/-- Whether the provider could have made this identifier. -/
def isValid (provider : IdProvider) (id : Bytes) : Bool :=
  id.length = provider.byteLength &&
    match provider with
    | objectId => true
    | guid => hasVersion4 id && hasStandardVariant id
    | uuid => id.any (· ≠ 0) && hasStandardVariant id
    | custom length => CustomLength length.toNat

/-! ## Drawing -/

/-- Sixteen octets marked as version 4 of the standard variant. -/
def markVersion4 (bytes : Bytes) : Bytes :=
  (bytes.modify 6 fun b => b &&& 0x0f ||| 0x40).modify 8 fun b => b &&& 0x3f ||| 0x80

/-- A fresh random identifier. Universally unique ones are drawn as one little-endian number of 128
    bits, so last octet first, and then marked. A custom length out of bounds is brought within
    them. An object identifier is the first of a new generator, at the given clock. -/
def draw (clock : Int) : IdProvider → Draw Bytes
  | objectId => do return ((← ObjectId.Generator.draw).next clock).1.bytes
  | guid | uuid => do return markVersion4 (← Draw.bytes uuidSize).reverse
  | custom length => Draw.bytes (max minCustomLength (min maxCustomLength length.toNat))

/-! ## Text -/

/-- An identifier that does not have the provider's length. -/
def wrongLength (provider : IdProvider) (id : Bytes) : Error :=
  .invalidIdentifier
    s!"{provider.name} identifier must be {provider.byteLength} bytes, got {id.length}"

/-- Refuses an identifier of the wrong length. -/
def checkLength (provider : IdProvider) (id : Bytes) : Except Error Unit :=
  if id.length ≠ provider.byteLength then .error (provider.wrongLength id) else .ok ()

/-- The seconds that the octets of an object identifier carry. -/
def timestamp (id : Bytes) : Except Error Nat :=
  match Octets.ofBytes? ObjectId.size id with
  | some id => .ok (ObjectId.timestamp id)
  | none => .error (wrongLength objectId id)

/-- The identifier in the provider's text form. -/
def toText (provider : IdProvider) (id : Bytes) : Except Error String := do
  provider.check
  provider.checkLength id
  return match provider with
    | objectId | custom _ => Text.Hex.encode id
    | guid => Text.Base64.encode id
    | uuid => Text.DashedHex.encode id

/-- The octets of a text in the provider's form. -/
def textOctets (provider : IdProvider) : Nat :=
  match provider with
  | objectId | custom _ => 2 * provider.byteLength
  | guid => 24
  | uuid => 36

/-- What the provider calls its texts. -/
def textForm (provider : IdProvider) : String :=
  match provider with
  | objectId => s!"object_id text must be {provider.textOctets} hex characters"
  | custom _ => s!"custom identifier text must be {provider.textOctets} hex characters"
  | guid => s!"guid_v4 text must be {provider.textOctets} base64 characters"
  | uuid => s!"uuid text must be {provider.textOctets} characters"

/-- The octets that a text of the right length spells. -/
def decodeText (provider : IdProvider) (text : Bytes) : Except Error Bytes :=
  match provider with
  | objectId | custom _ =>
    (Text.Hex.decode text).mapError fun fault =>
      .invalidIdentifier ("invalid hex: " ++ fault.message)
  | guid =>
    (Text.Base64.decode text).mapError fun fault =>
      .invalidIdentifier ("invalid base64: " ++ fault.message)
  | uuid =>
    match Text.DashedHex.decode? text with
    | some id => .ok id
    | none => .error (.invalidIdentifier "invalid uuid: failed to parse a UUID")

/-- Why a text that spells octets still names no identifier. -/
def invalidReason : IdProvider → String
  | guid => "guid_v4 text does not decode to a version 4 GUID"
  | _ => "uuid is nil or not RFC 4122"

/-- The identifier that a text in the provider's form names. -/
def ofText (provider : IdProvider) (text : String) : Except Error Bytes := do
  provider.check
  let octets := Text.utf8 text
  if octets.length ≠ provider.textOctets then
    throw (.invalidIdentifier (provider.textForm ++ s!", got {octets.length}"))
  let id ← provider.decodeText octets
  provider.checkLength id
  if ¬ provider.isValid id then
    throw (.invalidIdentifier provider.invalidReason)
  return id

end IdProvider

end SealedEnvelope
