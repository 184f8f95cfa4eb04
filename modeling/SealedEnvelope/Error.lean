set_option autoImplicit false

/-! # Errors

One error type for every operation of the engine. Each error has a stable `code` for look-up tables,
a broad `kind`, and a `message` for people. Failures of the authenticated cipher are all the one
`decryptionFailed`, so a caller cannot tell a wrong recipient from a tampered header. An `Overflow`
stands beside the errors: an operation that ends in one reports nothing. -/

namespace SealedEnvelope

/-- One configuration rule that a document breaks: its name and what is wrong. -/
structure Violation where
  rule : String
  detail : String
deriving DecidableEq, Repr

/-- The rule's name in brackets, then what is wrong. -/
def Violation.text (v : Violation) : String := "[" ++ v.rule ++ "] " ++ v.detail

/-- A number that is reckoned from sizes leaves the 64 bits in which sizes are held. This is no
    error that an operation reports: the operation ends where it happens. -/
inductive Overflow where
  | product
  | sum
deriving DecidableEq, Repr

/-- The overflow in words. -/
def Overflow.message : Overflow → String
  | product => "attempt to multiply with overflow"
  | sum => "attempt to add with overflow"

/-- What an operation of the engine can report instead of a result. -/
inductive Error where
  /-- A configuration breaks rules; all of them are listed. -/
  | invalidConfiguration (violations : List Violation)
  /-- An override document cannot be merged or read. -/
  | invalidOverride (reason : String)
  /-- The registry's default entry cannot be replaced or removed. -/
  | reservedKey (key : String)
  /-- The input ends before the declared length, or before the length field. -/
  | lengthTooShort (needed available : Nat)
  /-- A length exceeds the safe ceiling or a configured bound. -/
  | lengthTooLong (length max : Nat)
  /-- A length prefix starts with an unknown width tag. -/
  | unknownWidthTag (tag : UInt8)
  /-- An envelope or stream starts with an unknown type tag. -/
  | unknownTypeTag (tag : UInt8)
  /-- A header is structurally wrong. -/
  | malformedHeader (reason : String)
  /-- A key has the wrong size or denotes no scalar or point. -/
  | invalidKey (role reason : String)
  /-- The authenticated cipher rejected its input. -/
  | decryptionFailed
  /-- The cipher refused to encrypt. -/
  | encryptionFailed (reason : String)
  | invalidSignature
  /-- The caller's identifier is not among the header's recipients. -/
  | recipientNotFound
  | noRecipients
  /-- Two recipients share an identifier, given in hexadecimal. -/
  | duplicateRecipient (id : String)
  | tooManyRecipients (count max : Nat)
  /-- Identifier octets or text that the provider rejects. -/
  | invalidIdentifier (reason : String)
  /-- A custom provider's length lies outside 1 to 255. -/
  | invalidProviderLength (length : Nat)
  /-- A stream ends early. -/
  | streamTruncated (reason : String)
  | chunkOutOfSequence (expected actual : Nat)
  /-- Octets follow the final chunk. -/
  | trailingData
  | cancelled
  | bufferDisposed
  /-- A secret string does not hold UTF-8. -/
  | notText
  /-- A source or sink failed. -/
  | io (reason : String)
deriving DecidableEq, Repr

/-- The broad class of an error. -/
inductive ErrorKind where
  | validation | authentication | capacity | provider | io | cancelled | disposed
deriving DecidableEq, Repr

/-- The name under which a kind is reported. -/
def ErrorKind.name : ErrorKind → String
  | .validation => "Validation"
  | .authentication => "Authentication"
  | .capacity => "Capacity"
  | .provider => "Provider"
  | .io => "Io"
  | .cancelled => "Cancelled"
  | .disposed => "Disposed"

namespace Error

/-- The class an error belongs to. -/
def kind : Error → ErrorKind
  | decryptionFailed | invalidSignature => .authentication
  | lengthTooLong _ _ | tooManyRecipients _ _ => .capacity
  | invalidIdentifier _ | invalidProviderLength _ => .provider
  | io _ => .io
  | cancelled => .cancelled
  | bufferDisposed => .disposed
  | _ => .validation

/-- A stable name for look-up tables. -/
def code : Error → String
  | invalidConfiguration _ => "CONFIG_INVALID"
  | invalidOverride _ => "CONFIG_OVERRIDE_INVALID"
  | reservedKey _ => "CONFIG_KEY_RESERVED"
  | lengthTooShort _ _ => "LENGTH_TOO_SHORT"
  | lengthTooLong _ _ => "LENGTH_TOO_LONG"
  | unknownWidthTag _ => "LENGTH_INVALID_TYPE"
  | unknownTypeTag _ => "ENCRYPTION_TYPE_UNSUPPORTED"
  | malformedHeader _ => "HEADER_MALFORMED"
  | invalidKey _ _ => "KEY_INVALID"
  | decryptionFailed => "DECRYPTION_FAILED"
  | encryptionFailed _ => "ENCRYPTION_FAILED"
  | invalidSignature => "SIGNATURE_INVALID"
  | recipientNotFound => "RECIPIENT_NOT_FOUND"
  | noRecipients => "RECIPIENTS_EMPTY"
  | duplicateRecipient _ => "RECIPIENT_DUPLICATE"
  | tooManyRecipients _ _ => "RECIPIENTS_TOO_MANY"
  | invalidIdentifier _ => "IDENTIFIER_INVALID"
  | invalidProviderLength _ => "IDENTIFIER_LENGTH_INVALID"
  | streamTruncated _ => "STREAM_TRUNCATED"
  | chunkOutOfSequence _ _ => "STREAM_CHUNK_SEQUENCE"
  | trailingData => "STREAM_TRAILING_DATA"
  | cancelled => "CANCELLED"
  | bufferDisposed => "SECURE_BUFFER_DISPOSED"
  | notText => "SECURE_STRING_ENCODING"
  | io _ => "IO"

/-- One octet as `0x` and two lower-case hexadecimal digits. -/
def octetText (b : UInt8) : String :=
  "0x" ++ String.ofList [Nat.digitChar (b.toNat / 16), Nat.digitChar (b.toNat % 16)]

/-- The error in words. -/
def message : Error → String
  | invalidConfiguration violations =>
    s!"Invalid configuration ({violations.length} violations): "
      ++ "; ".intercalate (violations.map Violation.text)
  | invalidOverride reason => "Invalid configuration override: " ++ reason
  | reservedKey key => "Configuration key '" ++ key ++ "' is reserved"
  | lengthTooShort needed available =>
    s!"Length too short: needed {needed} bytes, {available} available"
  | lengthTooLong length max => s!"Length too long: {length} exceeds maximum {max}"
  | unknownWidthTag tag => "Invalid length encoding type: " ++ octetText tag
  | unknownTypeTag tag => s!"Unsupported encryption type: {tag.toNat}"
  | malformedHeader reason => "Malformed header: " ++ reason
  | invalidKey role reason => "Invalid key (" ++ role ++ "): " ++ reason
  | decryptionFailed => "Decryption failed"
  | encryptionFailed reason => "Encryption failed: " ++ reason
  | invalidSignature => "Invalid signature"
  | recipientNotFound => "Recipient not found in header"
  | noRecipients => "At least one recipient is required"
  | duplicateRecipient id => "Duplicate recipient ID: " ++ id
  | tooManyRecipients count max => s!"Too many recipients: {count} exceeds maximum {max}"
  | invalidIdentifier reason => "Invalid identifier: " ++ reason
  | invalidProviderLength length => s!"Invalid identifier length: {length} (must be 1-255)"
  | streamTruncated reason => "Stream truncated: " ++ reason
  | chunkOutOfSequence expected actual =>
    s!"Chunk out of sequence: expected {expected}, got {actual}"
  | trailingData => "Trailing data after final chunk"
  | cancelled => "Operation cancelled"
  | bufferDisposed => "Secure buffer has been disposed"
  | notText => "Secure string is not valid UTF-8"
  | io reason => "IO error: " ++ reason

end Error

end SealedEnvelope
