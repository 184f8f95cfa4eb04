import SealedEnvelope.Hash.Sha256
import SealedEnvelope.Header

set_option autoImplicit false

/-! # Stream headers

A stream starts with its header behind a length prefix. All numbers are big-endian:

```text
single   : [tag 0x53 | ephemeral key (33) | base iv (16) | chunk size (4)]
multiple : [tag 0x4D | ephemeral key (33) | base iv (16) | chunk size (4) | recipient table]
```

The header has no tag of its own. Its hash is part of what every chunk authenticates. -/

namespace SealedEnvelope.Stream

/-- Whether a stream is for one recipient or for several. -/
inductive Kind where
  | single
  | multiple
deriving DecidableEq, Repr

namespace Kind

/-- The first octet of a stream header. -/
def tag : Kind → UInt8
  | single => 0x53
  | multiple => 0x4d

/-- The kind that a stream header's first octet announces. -/
def ofTag (tag : UInt8) : Except Error Kind :=
  if tag = 0x53 then .ok single
  else if tag = 0x4d then .ok multiple
  else .error (.unknownTypeTag tag)

/-- The kind's name. -/
def name : Kind → String
  | single => "Single"
  | multiple => "Multiple"

end Kind

/-- A stream header. -/
structure Header where
  /-- The stream's ephemeral key, compressed. -/
  ephemeral : Octets 33
  baseIv : Octets 16
  /-- Plaintext octets of every chunk but the last. -/
  chunkSize : UInt32
  /-- The recipients, where there may be several. -/
  recipients : Option (List RecipientEntry)
deriving DecidableEq, Repr

namespace Header

/-- The kind of a header. -/
def kind (h : Header) : Kind := if h.recipients.isSome then .multiple else .single

/-- Octets of a header without its recipient table. -/
def fixedSize : Nat := 54

/-- The most octets of a header under a configuration. -/
def maxEncodedLength (config : Config) : Nat :=
  fixedSize + config.settings.multiple.countSize.toNat
    + config.maxRecipients * RecipientTable.entrySize config

/-- The octets of the recipient table, if there is one. -/
def encodeRecipients (config : Config) : Option (List RecipientEntry) → Except Error Bytes
  | none => .ok []
  | some entries => RecipientTable.encode config entries

/-- The octets of a header. -/
def encode (config : Config) (h : Header) : Except Error Bytes := do
  let table ← encodeRecipients config h.recipients
  return h.kind.tag
    :: (h.ephemeral.bytes ++ h.baseIv.bytes ++ bigEndian 4 h.chunkSize.toNat ++ table)

/-- Refuses a chunk size out of bounds. -/
def checkChunkSize (config : Config) (chunkSize : Nat) : Except Error Unit :=
  if chunkSize = 0 then .error (.malformedHeader "chunk size is zero")
  else if config.maxChunkSize < chunkSize then
    .error (.lengthTooLong chunkSize config.maxChunkSize)
  else .ok ()

/-- Reads the recipient table that a kind asks for. -/
def readRecipients (config : Config) : Kind → Reader (Option (List RecipientEntry))
  | .single => pure none
  | .multiple => do return some (← RecipientTable.read config)

/-- Reads a header. -/
def read (config : Config) : Reader Header := do
  let kind ← Kind.ofTag (← Reader.octet "stream type")
  let ephemeral ← Reader.octets 33 "ephemeral public key"
  let baseIv ← Reader.octets 16 "base iv"
  let chunkSize ← Reader.nat 4 "chunk size"
  checkChunkSize config chunkSize
  let recipients ← readRecipients config kind
  return { ephemeral, baseIv, chunkSize := UInt32.ofNat chunkSize, recipients }

/-- The header that an octet string holds, and nothing behind it. -/
def decode (config : Config) (bytes : Bytes) : Except Error Header := do
  let (header, rest) ← (read config).run bytes
  if rest ≠ [] then
    throw (.malformedHeader s!"{rest.length} unexpected bytes after stream header")
  return header

/-- The hash of a header's octets. -/
def hash (bytes : Bytes) : Octets 32 := Sha256.hash bytes

end Header

end SealedEnvelope.Stream
