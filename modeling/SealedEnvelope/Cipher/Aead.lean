import SealedEnvelope.Cipher.Gcm
import SealedEnvelope.Error

set_option autoImplicit false

/-! # The authenticated cipher

`Aead.encrypt` and `Aead.decrypt` take octet strings of any length and check the sizes. Encryption
names what is wrong, the key before the initialisation vector. Decryption reports every problem,
wrong sizes and a wrong tag alike, as the one `decryptionFailed`. -/

namespace SealedEnvelope.Aead

/-- Octets in a key. -/
def keySize : Nat := 32

/-- Octets in an initialisation vector. -/
def ivSize : Nat := 16

/-- Octets in a tag. -/
def tagSize : Nat := 16

/-- Encrypts to the ciphertext and its tag. Data of more than 2³⁶ octets, which the cipher is not
    meant for, is not refused here. -/
def encrypt (key iv aad plaintext : Bytes) : Except Error (Bytes × Octets 16) :=
  match Octets.ofBytes? 32 key, Octets.ofBytes? 16 iv with
  | none, _ =>
    .error (.invalidKey "symmetric" s!"expected {keySize} bytes, got {key.length}")
  | _, none => .error (.encryptionFailed s!"IV must be {ivSize} bytes, got {iv.length}")
  | some key, some iv => .ok (Gcm.encrypt key iv aad plaintext)

/-- Decrypts if key, initialisation vector, tag and data all fit together. -/
def decrypt (key iv aad ciphertext tag : Bytes) : Except Error Bytes :=
  match Octets.ofBytes? 32 key, Octets.ofBytes? 16 iv, Octets.ofBytes? 16 tag with
  | some key, some iv, some tag =>
    match Gcm.decrypt? key iv aad ciphertext tag with
    | some plaintext => .ok plaintext
    | none => .error .decryptionFailed
  | _, _, _ => .error .decryptionFailed

end SealedEnvelope.Aead
