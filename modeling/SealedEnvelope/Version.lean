import SealedEnvelope.Header
import SealedEnvelope.Json

set_option autoImplicit false

/-! # Version

What the program says of itself: its version, the revision of the envelope format, and the features
it has. -/

namespace SealedEnvelope.Version

/-- Major, minor and patch number. -/
def parts : List Nat := [0, 1, 0]

/-- The version number. -/
def number : String := ".".intercalate (parts.map Nat.repr)

/-- The day of the build. -/
def buildDate : String := "2025-10-20"

/-- The version with a hint of what it has. -/
def build : String := "v0.1.0-ecies-streaming-2025-10-20"

/-- The revision of the envelope format. -/
def wireFormat : Nat := 1

/-- What this version can do. -/
def features : List String :=
  ["secp256k1", "hkdf-sha256", "aes-256-gcm", "simple-mode", "single-mode", "multi-recipient",
   "chunked-streaming", "stream-progress", "stream-cancellation", "pluggable-identifiers",
   "config-registry", "secure-buffers"]

/-- The version on one line. -/
def line : String := "Fabstir ECIES " ++ number ++ " (" ++ buildDate ++ ")"

/-- A mode's name and tag. -/
def tagMember (mode : Mode) : String × Json := (mode.name, Json.ofNat mode.tag.toNat)

/-- All of it as a document, with its members in order of their names. -/
def document : Json :=
  .object
    [("build", .string build),
     ("date", .string buildDate),
     ("envelope_types", .object [tagMember .multiple, tagMember .simple, tagMember .single]),
     ("features", .array (features.map .string)),
     ("version", .string number),
     ("wire_format", Json.ofNat wireFormat)]

end SealedEnvelope.Version
