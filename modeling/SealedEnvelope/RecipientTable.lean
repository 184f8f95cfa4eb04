import SealedEnvelope.Config
import SealedEnvelope.Reader

set_option autoImplicit false

/-! # The recipient table

A header for several recipients lists them in a table: a count of two octets and, for each, the
identifier and a copy of the message key wrapped for that recipient alone. Writing and reading
enforce the same limits (a count of at least one and no more than the configuration allows,
identifiers of the configured width, none twice), though not in the same order. -/

namespace SealedEnvelope

/-- The message key wrapped for one recipient. -/
structure WrappedKey where
  /-- The message's ephemeral key, uncompressed. -/
  ephemeral : Octets 65
  iv : Octets 16
  tag : Octets 16
  encryptedKey : Octets 32
deriving DecidableEq, Repr

namespace WrappedKey

/-- Octets of a wrapped key. -/
def size : Nat := 129

/-- The octets of a wrapped key. -/
def octets (w : WrappedKey) : Bytes :=
  w.ephemeral.bytes ++ w.iv.bytes ++ w.tag.bytes ++ w.encryptedKey.bytes

@[simp] theorem length_octets (w : WrappedKey) : w.octets.length = size := by
  simp [octets, size]

/-- Reads a wrapped key. -/
def read : Reader WrappedKey := do
  let ephemeral ← Reader.octets 65 "wrapped key ephemeral public key"
  let iv ← Reader.octets 16 "wrapped key iv"
  let tag ← Reader.octets 16 "wrapped key tag"
  let encryptedKey ← Reader.octets 32 "wrapped key ciphertext"
  return { ephemeral, iv, tag, encryptedKey }

end WrappedKey

/-- One line of the table. -/
structure RecipientEntry where
  id : Bytes
  wrappedKey : WrappedKey
deriving DecidableEq, Repr

namespace RecipientEntry

/-- The octets of one line. -/
def octets (e : RecipientEntry) : Bytes := e.id ++ e.wrappedKey.octets

/-- Reads a line with an identifier of `idSize` octets. -/
def read (idSize : Nat) : Reader RecipientEntry := do
  let id ← Reader.octets idSize "recipient id"
  let wrappedKey ← WrappedKey.read
  return { id := id.bytes, wrappedKey }

end RecipientEntry

/-! ## Limits -/

/-- The first element that equals one of `seen` or one before it. -/
def firstRepeatAfter (seen : List Bytes) : List Bytes → Option Bytes
  | [] => none
  | id :: rest => if id ∈ seen then some id else firstRepeatAfter (id :: seen) rest

/-- The first identifier that is listed a second time. -/
def firstRepeat (ids : List Bytes) : Option Bytes := firstRepeatAfter [] ids

/-- Refuses identifiers that are listed twice. -/
def checkUnique (ids : List Bytes) : Except Error Unit :=
  match firstRepeat ids with
  | some id => .error (.duplicateRecipient (Text.Hex.encode id))
  | none => .ok ()

/-- Refuses a number of recipients out of bounds. -/
def Config.checkCount (config : Config) (count : Nat) : Except Error Unit :=
  let max := min config.maxRecipients 65535
  if count = 0 then .error .noRecipients
  else if max < count then .error (.tooManyRecipients count max)
  else .ok ()

/-- Refuses an identifier of the wrong width. -/
def Config.checkIdSize (config : Config) (id : Bytes) : Except Error Unit :=
  if id.length ≠ config.idSize then
    .error (.invalidIdentifier s!"recipient id must be {config.idSize} bytes, got {id.length}")
  else .ok ()

namespace RecipientTable

/-- Octets of a table's line. -/
def entrySize (config : Config) : Nat := config.idSize + WrappedKey.size

/-- The octets of the lines, each with an identifier of the configured width. -/
def encodeEntries (config : Config) : List RecipientEntry → Except Error Bytes
  | [] => .ok []
  | entry :: rest => do
    config.checkIdSize entry.id
    return entry.octets ++ (← encodeEntries config rest)

/-- The octets of a table. -/
def encode (config : Config) (entries : List RecipientEntry) : Except Error Bytes := do
  config.checkCount entries.length
  checkUnique (entries.map (·.id))
  return bigEndian 2 entries.length ++ (← encodeEntries config entries)

/-- Refuses, as a malformed header, a count out of bounds. -/
def checkReadCount (config : Config) (count : Nat) : Except Error Unit :=
  if count = 0 then .error (.malformedHeader "recipient count is zero")
  else if config.maxRecipients < count then
    .error (.malformedHeader s!"recipient count {count} exceeds maximum {config.maxRecipients}")
  else .ok ()

/-- Refuses a table with fewer octets left than its lines need. -/
def checkRemaining (config : Config) (count remaining : Nat) : Except Error Unit :=
  let needed := count * entrySize config
  if remaining < needed then
    .error (.malformedHeader
      (s!"truncated recipient table: {count} entries need {needed} bytes, "
        ++ s!"{remaining} remain"))
  else .ok ()

/-- Refuses, as a malformed header, identifiers that are listed twice. -/
def checkReadUnique (ids : List Bytes) : Except Error Unit :=
  (checkUnique ids).mapError fun e => .malformedHeader e.message

/-- Reads a table. -/
def read (config : Config) : Reader (List RecipientEntry) := do
  let count ← Reader.nat 2 "recipient count"
  checkReadCount config count
  checkRemaining config count (← Reader.remaining)
  let entries ← Reader.times (RecipientEntry.read config.idSize) count
  checkReadUnique (entries.map (·.id))
  return entries

end RecipientTable

end SealedEnvelope
