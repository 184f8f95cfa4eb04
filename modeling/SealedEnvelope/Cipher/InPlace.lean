import SealedEnvelope.Cipher.Aead

set_option autoImplicit false

/-! # The authenticated cipher in place

The operations of `Aead` on a buffer: it holds the plaintext before encryption and the ciphertext
behind it, and the other way round for decryption. Counter mode passes through the buffer block by
block with a running counter, of which only the low 32 bits count; a last block that is not full
takes the front of its keystream. Decryption looks at the tag first, so a buffer that is refused
stays as it is. -/

namespace SealedEnvelope

/-! ## Buffers -/

/-- An operation on a buffer that may fail. -/
abbrev InPlace := ExceptT Error (StateM Bytes)

namespace InPlace

variable {α : Type}

/-- How an operation on a buffer ends, and what the buffer holds then. -/
def on (operation : InPlace α) (buffer : Bytes) : Except Error α × Bytes :=
  operation.run.run buffer

theorem on_pure (a : α) (buffer : Bytes) : (pure a : InPlace α).on buffer = (.ok a, buffer) := rfl

theorem on_throw (e : Error) (buffer : Bytes) :
    (throw e : InPlace α).on buffer = (.error e, buffer) := rfl

theorem on_get_bind (f : Bytes → InPlace α) (buffer : Bytes) :
    (get >>= f).on buffer = (f buffer).on buffer := rfl

theorem on_modify (f : Bytes → Bytes) (buffer : Bytes) :
    (modify f : InPlace Unit).on buffer = (.ok (), f buffer) := rfl

theorem on_modify_bind (f : Bytes → Bytes) (g : Unit → InPlace α) (buffer : Bytes) :
    (modify f >>= g).on buffer = (g ()).on (f buffer) := rfl

end InPlace

/-! ## The mode -/

namespace Gcm

/-- The counter block behind another. -/
def nextCounter (counter : Nat) : Nat := counterBlock counter 1

/-- Combines blocks with the encrypted counter blocks from `counter` on. -/
def maskBlocks (keys : List UInt32) : (counter : Nat) → List Bytes → List Bytes
  | _, [] => []
  | counter, block :: rest =>
    xorBytes block (bigEndian 16 (Aes256.encryptNat keys counter))
      :: maskBlocks keys (nextCounter counter) rest

namespace Setup

/-- Combines a buffer with the keystream, sixteen octets at a time. -/
def maskInPlace (s : Setup) (buffer : Bytes) : Bytes :=
  (maskBlocks s.keys (nextCounter s.start) (blocks 16 buffer)).flatten

/-- Encrypts what the buffer holds, and gives the tag. -/
def encryptInPlace (s : Setup) (aad : Bytes) : InPlace (Octets 16) := do
  modify s.maskInPlace
  let ciphertext ← get
  return s.tag aad ciphertext

/-- Decrypts what the buffer holds, if the tag is right. -/
def decryptInPlace (s : Setup) (aad : Bytes) (tag : Octets 16) : InPlace Unit := do
  let ciphertext ← get
  if s.tag aad ciphertext = tag then modify s.maskInPlace else throw .decryptionFailed

end Setup

end Gcm

/-! ## Octets of any length -/

namespace Aead

/-- Encrypts what the buffer holds, and gives the tag. -/
def encryptInPlace (key iv aad : Bytes) : InPlace (Octets 16) :=
  match Octets.ofBytes? 32 key, Octets.ofBytes? 16 iv with
  | none, _ => throw (.invalidKey "symmetric" s!"expected {keySize} bytes, got {key.length}")
  | _, none => throw (.encryptionFailed s!"IV must be {ivSize} bytes, got {iv.length}")
  | some key, some iv => (Gcm.setup key iv).encryptInPlace aad

/-- Decrypts what the buffer holds, if key, initialisation vector, tag and data all fit together. -/
def decryptInPlace (key iv aad tag : Bytes) : InPlace Unit :=
  match Octets.ofBytes? 32 key, Octets.ofBytes? 16 iv, Octets.ofBytes? 16 tag with
  | some key, some iv, some tag => (Gcm.setup key iv).decryptInPlace aad tag
  | _, _, _ => throw .decryptionFailed

end Aead

end SealedEnvelope
