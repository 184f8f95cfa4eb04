import SealedEnvelope.Cipher.Gcm
import SealedEnvelope.Proofs.Octets

set_option autoImplicit false

/-! # Decryption inverts encryption

The keystream depends on the key, the initialisation vector and the number of octets only, so
masking twice restores the data (`Setup.mask_mask`). Decryption gives a plaintext exactly if
encrypting it gives the ciphertext and the tag (`decrypt?_eq_some_iff`). -/

namespace SealedEnvelope.Gcm

theorem Setup.mask_mask (s : Setup) (data : Bytes) : s.mask (s.mask data) = data := by
  rw [mask, length_mask, mask]
  exact xorBytes_xorBytes _ _ (by simp)

theorem decrypt?_eq_some_iff {key : Octets 32} {iv tag : Octets 16}
    {aad ciphertext plaintext : Bytes} :
    decrypt? key iv aad ciphertext tag = some plaintext
      ↔ encrypt key iv aad plaintext = (ciphertext, tag) := by
  simp only [decrypt?, encrypt, Prod.mk.injEq]
  constructor
  · intro h
    split_ifs at h with htag
    obtain rfl := Option.some.inj h
    rw [Setup.mask_mask]
    exact ⟨rfl, htag⟩
  · rintro ⟨rfl, htag⟩
    rw [if_pos htag, Setup.mask_mask]

theorem decrypt?_encrypt (key : Octets 32) (iv : Octets 16) (aad plaintext : Bytes) :
    decrypt? key iv aad (encrypt key iv aad plaintext).1 (encrypt key iv aad plaintext).2
      = some plaintext :=
  decrypt?_eq_some_iff.2 rfl

end SealedEnvelope.Gcm
