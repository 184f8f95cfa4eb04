import SealedEnvelope.Cipher.Aead
import SealedEnvelope.Proofs.Cipher.Gcm

set_option autoImplicit false

/-! # What the authenticated cipher accepts

On keys, initialisation vectors and tags of the right sizes the checks of `Aead` pass, and what is
left is the cipher itself. So decryption accepts exactly what encryption produces
(`decrypt_eq_ok_iff`), for octet strings of any length. -/

namespace SealedEnvelope.Aead

variable {aad plaintext ciphertext : Bytes}

@[simp] theorem encrypt_bytes (key : Octets 32) (iv : Octets 16) (aad plaintext : Bytes) :
    encrypt key.bytes iv.bytes aad plaintext = .ok (Gcm.encrypt key iv aad plaintext) := by
  simp [encrypt]

/-- Decryption gives a plaintext exactly if encrypting it gives the ciphertext and the tag. -/
theorem decrypt_eq_ok_iff {key iv tag : Bytes} :
    decrypt key iv aad ciphertext tag = .ok plaintext
      ↔ ∃ sealedTag : Octets 16, sealedTag.bytes = tag
        ∧ encrypt key iv aad plaintext = .ok (ciphertext, sealedTag) := by
  unfold decrypt encrypt
  cases hkey : Octets.ofBytes? 32 key with
  | none => simp
  | some key =>
    cases hiv : Octets.ofBytes? 16 iv with
    | none => simp
    | some iv =>
      cases htag : Octets.ofBytes? 16 tag with
      | none =>
        have hsize (sealedTag : Octets 16) : sealedTag.bytes ≠ tag := by
          rintro rfl
          simp at htag
        simp [hsize]
      | some sealedTag =>
        obtain rfl := Octets.ofBytes?_eq_some_iff.1 htag
        simp only [← Octets.ext_iff, exists_eq_left, Except.ok.injEq,
          ← Gcm.decrypt?_eq_some_iff]
        cases Gcm.decrypt? key iv aad ciphertext sealedTag <;> simp

end SealedEnvelope.Aead
