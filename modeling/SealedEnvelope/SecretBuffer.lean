import SealedEnvelope.Random
import SealedEnvelope.Text.Utf8

set_option autoImplicit false

/-! # Secret buffers

A secret that is kept for a while is kept masked: combined octet by octet with a random mask of its
own length. Disposing of a buffer wipes both parts, and from then on every access fails. A
`SecretText` is a buffer that holds the octets of a text. -/

namespace SealedEnvelope

/-- A masked secret. -/
structure SecretBuffer where
  masked : Bytes
  mask : Bytes
  disposed : Bool
deriving DecidableEq, Repr

namespace SecretBuffer

/-- A secret under a given mask. -/
def withMask (secret mask : Bytes) : SecretBuffer := ⟨xorBytes secret mask, mask, false⟩

/-- A secret under a mask that is drawn for it. -/
def ofBytes (secret : Bytes) : Draw SecretBuffer :=
  withMask secret <$> Draw.bytes secret.length

/-- The number of octets kept. -/
def size (b : SecretBuffer) : Nat := b.masked.length

/-- The secret. -/
def expose (b : SecretBuffer) : Except Error Bytes :=
  if b.disposed then .error .bufferDisposed else .ok (xorBytes b.masked b.mask)

/-- The buffer wiped. -/
def dispose (_ : SecretBuffer) : SecretBuffer := ⟨[], [], true⟩

/-- The secret once more, under a mask of its own. -/
def clone (b : SecretBuffer) : ExceptT Error Draw SecretBuffer := do
  ofBytes (← b.expose)

/-- A truth value as it is shown. -/
def showBool (b : Bool) : String := if b then "true" else "false"

/-- How a buffer shows itself in logs, under a type's name: by its size only. -/
def describeAs (name : String) (b : SecretBuffer) : String :=
  name ++ s!" \x7b len: {b.size}, disposed: " ++ showBool b.disposed ++ " \x7d"

/-- How a buffer shows itself in logs. -/
def describe (b : SecretBuffer) : String := b.describeAs "SecureBuffer"

end SecretBuffer

/-- A masked text. -/
structure SecretText where
  buffer : SecretBuffer
deriving DecidableEq, Repr

namespace SecretText

/-- A text under a mask that is drawn for it. -/
def ofString (text : String) : Draw SecretText :=
  SecretText.mk <$> SecretBuffer.ofBytes (Text.utf8 text)

/-- The number of octets kept. -/
def size (t : SecretText) : Nat := t.buffer.size

/-- The text. -/
def expose (t : SecretText) : Except Error String := do
  match Text.ofUtf8? (← t.buffer.expose) with
  | some text => return text
  | none => throw .notText

/-- The text wiped. -/
def dispose (t : SecretText) : SecretText := ⟨t.buffer.dispose⟩

/-- How a text shows itself in logs. -/
def describe (t : SecretText) : String := t.buffer.describeAs "SecureString"

end SecretText

end SealedEnvelope
