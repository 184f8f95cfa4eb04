import SealedEnvelope.RecipientTable

set_option autoImplicit false

/-! # Message headers

An envelope starts with its header; the ciphertext follows. All three modes share the first fields,
and all numbers are big-endian:

```text
simple   : [tag 33 | ephemeral key (33) | iv (16) | tag (16)]
single   : [tag 66 | ephemeral key (33) | iv (16) | tag (16) | plaintext length (8)]
multiple : [tag 99 | ephemeral key (33) | iv (16) | tag (16) | recipient table]
```

The payload's authentication tag cannot cover itself. What it covers of the header is the header
with that field cut out (`Header.aad`). -/

namespace SealedEnvelope

/-- The three forms of an envelope. -/
inductive Mode where
  /-- One recipient. -/
  | simple
  /-- One recipient, and the length of the plaintext. -/
  | single
  /-- Any number of recipients. -/
  | multiple
deriving DecidableEq, Repr

namespace Mode

/-- The first octet of an envelope. -/
def tag : Mode → UInt8
  | simple => 33
  | single => 66
  | multiple => 99

/-- The mode that an envelope's first octet announces. -/
def ofTag (tag : UInt8) : Except Error Mode :=
  if tag = 33 then .ok simple
  else if tag = 66 then .ok single
  else if tag = 99 then .ok multiple
  else .error (.unknownTypeTag tag)

/-- The mode's name. -/
def name : Mode → String
  | simple => "simple"
  | single => "single"
  | multiple => "multiple"

/-- An ASCII letter in lower case. -/
def lowerAscii (c : Char) : Char := if 'A' ≤ c ∧ c ≤ 'Z' then Char.ofNat (c.toNat + 32) else c

/-- The mode of a name, in letters of either case; the multiple mode has a short name too. -/
def ofName (name : String) : Except Error Mode :=
  let lower := String.ofList (name.toList.map lowerAscii)
  if lower = "simple" then .ok simple
  else if lower = "single" then .ok single
  else if lower = "multiple" ∨ lower = "multi" then .ok multiple
  else .error (.malformedHeader ("unknown encryption mode '" ++ name ++ "'"))

/-- Octets of the mode's header, without the lines of a recipient table. -/
def overhead (config : Config) : Mode → Nat
  | simple => config.settings.simple.overhead.toNat
  | single => config.settings.single.overhead.toNat
  | multiple => config.settings.multiple.overhead.toNat

end Mode

/-- The fields that a mode adds. -/
inductive HeaderBody where
  | simple
  | single (dataLength : UInt64)
  | multiple (recipients : List RecipientEntry)
deriving DecidableEq, Repr

/-- A message header. -/
structure Header where
  /-- The message's ephemeral key, compressed. -/
  ephemeral : Octets 33
  iv : Octets 16
  tag : Octets 16
  body : HeaderBody
deriving DecidableEq, Repr

/-- The mode of a body. -/
def HeaderBody.mode : HeaderBody → Mode
  | simple => .simple
  | single _ => .single
  | multiple _ => .multiple

namespace Header

/-- The mode of a header. -/
def mode (h : Header) : Mode := h.body.mode

/-- The recipients that a header lists. -/
def recipients (h : Header) : List RecipientEntry :=
  match h.body with
  | .multiple entries => entries
  | _ => []

/-- The entry of a recipient. -/
def find? (h : Header) (id : Bytes) : Option RecipientEntry := h.recipients.find? (·.id = id)

/-- Octets of a header, by the sizes that the configuration declares. -/
def encodedLength (config : Config) (h : Header) : Nat :=
  h.mode.overhead config + h.recipients.length * RecipientTable.entrySize config

/-- The octets that a mode adds. -/
def encodeBody (config : Config) : HeaderBody → Except Error Bytes
  | .simple => .ok []
  | .single dataLength => .ok (bigEndian 8 dataLength.toNat)
  | .multiple entries => RecipientTable.encode config entries

/-- The octets of a header. -/
def encode (config : Config) (h : Header) : Except Error Bytes := do
  let body ← encodeBody config h.body
  return h.mode.tag :: (h.ephemeral.bytes ++ h.iv.bytes ++ h.tag.bytes ++ body)

/-- The octets of a header without its authentication tag. -/
def aad (config : Config) (h : Header) : Except Error Bytes := do
  let body ← encodeBody config h.body
  return h.mode.tag :: (h.ephemeral.bytes ++ h.iv.bytes ++ body)

/-- Reads the fields that a mode adds. -/
def readBody (config : Config) : Mode → Reader HeaderBody
  | .simple => pure .simple
  | .single => do return .single (UInt64.ofNat (← Reader.nat 8 "data length"))
  | .multiple => do return .multiple (← RecipientTable.read config)

/-- Reads a header. -/
def read (config : Config) : Reader Header := do
  let mode ← Mode.ofTag (← Reader.octet "type tag")
  let ephemeral ← Reader.octets 33 "ephemeral public key"
  let iv ← Reader.octets 16 "iv"
  let tag ← Reader.octets 16 "auth tag"
  let body ← readBody config mode
  return { ephemeral, iv, tag, body }

/-- The header at the front of an envelope, and the ciphertext behind it. -/
def split (config : Config) (envelope : Bytes) : Except Error (Header × Bytes) :=
  (read config).run envelope

/-- The header at the front of an envelope, and the octets it takes. -/
def decode (config : Config) (envelope : Bytes) : Except Error (Header × Nat) := do
  let (header, rest) ← split config envelope
  return (header, envelope.length - rest.length)

end Header

end SealedEnvelope
