import SealedEnvelope.Cipher.InPlace
import SealedEnvelope.Proofs.Cipher.Aead

set_option autoImplicit false

/-! # Decryption as the exact inverse of encryption

Block by block with a running counter or all at once, a buffer is combined with the same keystream
(`Setup.maskInPlace_eq`). So the operations in place do to a buffer what those on octet strings give
(`encryptInPlace_on`, `decryptInPlace_on`), and in both forms decryption takes back what
encryption does, and nothing else (`decrypt_inverts_encrypt`). -/

namespace SealedEnvelope

/-! ## Masks -/

/-- A mask in two parts works on the front of the data and on what follows it. -/
theorem xorBytes_append_right (data mask mask' : Bytes) :
    xorBytes data (mask ++ mask')
      = xorBytes (data.take mask.length) mask ++ xorBytes (data.drop mask.length) mask' := by
  induction mask generalizing data with
  | nil => simp [xorBytes]
  | cons m mask ih =>
    cases data with
    | nil => simp [xorBytes]
    | cons b data => simpa [xorBytes] using ih data

/-- Of a mask as much counts as there is data. -/
theorem xorBytes_take_right (data mask : Bytes) :
    xorBytes data (mask.take data.length) = xorBytes data mask := by
  induction data generalizing mask with
  | nil => simp [xorBytes]
  | cons b data ih =>
    cases mask with
    | nil => rfl
    | cons m mask => simpa [xorBytes] using ih mask

namespace Gcm

/-! ## Counter mode block by block -/

theorem nextCounter_counterBlock (start i : Nat) :
    nextCounter (counterBlock start i) = counterBlock start (i + 1) := by
  simp only [nextCounter, counterBlock, UInt32.size]
  omega

/-- From a counter block on, blocks are combined with the keystream that starts there. -/
theorem flatten_maskBlocks (keys : List UInt32) (start i : Nat) (data : Bytes) :
    (maskBlocks keys (counterBlock start (i + 1)) (blocks 16 data)).flatten
      = xorBytes data ((List.range' i ((data.length + 15) / 16)).flatMap fun j =>
          bigEndian 16 (Aes256.encryptNat keys (counterBlock start (j + 1)))) := by
  -- The induction is on the octets left, and takes off the first block and its counter.
  induction hlen : data.length using Nat.strong_induction_on generalizing data i with
  | _ n ih =>
    by_cases hdata : data = []
    · subst hdata
      simp [maskBlocks, xorBytes]
    · have hpos := List.length_pos_iff.2 hdata
      have hdrop : (data.drop 16).length = data.length - 16 := List.length_drop
      have hcount : (n + 15) / 16 = ((data.drop 16).length + 15) / 16 + 1 := by omega
      have hrest := ih (data.drop 16).length (by omega) (i + 1) (data.drop 16) rfl
      rw [blocks_of_ne_nil (by decide) hdata, maskBlocks, nextCounter_counterBlock,
        List.flatten_cons, hrest, hcount, List.range'_succ, List.flatMap_cons,
        xorBytes_append_right, length_bigEndian]

/-- In place a buffer is masked as it is all at once. -/
theorem Setup.maskInPlace_eq (s : Setup) (buffer : Bytes) :
    s.maskInPlace buffer = s.mask buffer := by
  have hfirst : nextCounter s.start = counterBlock s.start (0 + 1) := rfl
  rw [maskInPlace, hfirst, flatten_maskBlocks, ← List.range_eq_range', mask, keystream,
    xorBytes_take_right]

/-- In place the mode encrypts a buffer as it does an octet string. -/
theorem encryptInPlace_on (key : Octets 32) (iv : Octets 16) (aad buffer : Bytes) :
    ((setup key iv).encryptInPlace aad).on buffer
      = (.ok (encrypt key iv aad buffer).2, (encrypt key iv aad buffer).1) := by
  rw [Setup.encryptInPlace, InPlace.on_modify_bind, InPlace.on_get_bind, InPlace.on_pure,
    Setup.maskInPlace_eq]
  rfl

/-- So it decrypts one, which is left alone if the tag is wrong. -/
theorem decryptInPlace_on (key : Octets 32) (iv : Octets 16) (aad : Bytes) (tag : Octets 16)
    (buffer : Bytes) :
    ((setup key iv).decryptInPlace aad tag).on buffer
      = match decrypt? key iv aad buffer tag with
        | some plaintext => (.ok (), plaintext)
        | none => (.error .decryptionFailed, buffer) := by
  rw [Setup.decryptInPlace, InPlace.on_get_bind]
  unfold decrypt?
  by_cases htag : (setup key iv).tag aad buffer = tag
  · rw [if_pos htag, InPlace.on_modify, Setup.maskInPlace_eq]
    simp only [if_pos htag]
  · rw [if_neg htag, InPlace.on_throw]
    simp only [if_neg htag]

end Gcm

namespace Aead

variable {key iv aad plaintext ciphertext tag : Bytes} {e : Error}

/-! ## Sizes -/

/-- Encryption asks for the right sizes of key and initialisation vector, and for nothing else. -/
theorem exists_encrypt_iff :
    (∃ sealing, encrypt key iv aad plaintext = .ok sealing) ↔ key.length = 32 ∧ iv.length = 16 := by
  unfold encrypt Octets.ofBytes?
  by_cases hkey : key.length = 32
  · by_cases hiv : iv.length = 16
    · simp [hkey, hiv]
    · simp [hkey, hiv]
  · simp [hkey]

/-- Whatever is wrong, decryption reports the same. -/
theorem eq_decryptionFailed_of_decrypt (h : decrypt key iv aad ciphertext tag = .error e) :
    e = .decryptionFailed := by
  unfold decrypt at h
  split at h
  · split at h
    · cases h
    · exact (Except.error.inj h).symm
  · exact (Except.error.inj h).symm

/-- Decryption fails exactly on what encryption does not produce. -/
theorem decrypt_eq_error_iff_not_encrypted :
    decrypt key iv aad ciphertext tag = .error e
      ↔ e = .decryptionFailed
        ∧ ¬∃ (plaintext : Bytes) (sealedTag : Octets 16), sealedTag.bytes = tag
          ∧ encrypt key iv aad plaintext = .ok (ciphertext, sealedTag) := by
  constructor
  · intro h
    refine ⟨eq_decryptionFailed_of_decrypt h, ?_⟩
    intro h
    obtain ⟨plaintext, hsealed⟩ := h
    rw [decrypt_eq_ok_iff.2 hsealed] at h
    cases h
  · intro h
    obtain ⟨rfl, hnone⟩ := h
    cases hdecrypt : decrypt key iv aad ciphertext tag with
    | ok plaintext => exact (hnone ⟨plaintext, decrypt_eq_ok_iff.1 hdecrypt⟩).elim
    | error e => rw [eq_decryptionFailed_of_decrypt hdecrypt]

/-! ## In place -/

/-- Encryption in place leaves the ciphertext in the buffer; sizes that are wrong leave it alone. -/
theorem encryptInPlace_on (key iv aad buffer : Bytes) :
    (encryptInPlace key iv aad).on buffer
      = match encrypt key iv aad buffer with
        | .ok (ciphertext, tag) => (.ok tag, ciphertext)
        | .error e => (.error e, buffer) := by
  unfold encryptInPlace encrypt
  cases Octets.ofBytes? 32 key with
  | none => exact InPlace.on_throw ..
  | some key =>
    cases Octets.ofBytes? 16 iv with
    | none => exact InPlace.on_throw ..
    | some iv => exact Gcm.encryptInPlace_on ..

/-- Decryption in place leaves the plaintext in the buffer; what is refused is left alone. -/
theorem decryptInPlace_on (key iv aad tag buffer : Bytes) :
    (decryptInPlace key iv aad tag).on buffer
      = match decrypt key iv aad buffer tag with
        | .ok plaintext => (.ok (), plaintext)
        | .error e => (.error e, buffer) := by
  unfold decryptInPlace decrypt
  cases Octets.ofBytes? 32 key with
  | none => exact InPlace.on_throw ..
  | some key =>
    cases Octets.ofBytes? 16 iv with
    | none => exact InPlace.on_throw ..
    | some iv =>
      cases Octets.ofBytes? 16 tag with
      | none => exact InPlace.on_throw ..
      | some tag =>
        dsimp only
        rw [Gcm.decryptInPlace_on]
        cases Gcm.decrypt? key iv aad buffer tag <;> rfl

/-! ## Both forms -/

/-- **Decryption is the exact inverse of encryption.** On keys, initialisation vectors, tags and
    data of any length, decryption gives a plaintext exactly if encrypting it gives the ciphertext
    and the tag; in every other case, wrong sizes included, it fails, with `decryptionFailed`.
    In place, encryption and decryption end as they do on octet strings and leave the same octets
    behind. -/
theorem decrypt_inverts_encrypt (key iv aad : Bytes) :
    (∀ ciphertext tag plaintext : Bytes,
        decrypt key iv aad ciphertext tag = .ok plaintext
          ↔ ∃ sealedTag : Octets 16, sealedTag.bytes = tag
            ∧ encrypt key iv aad plaintext = .ok (ciphertext, sealedTag))
      ∧ (∀ (ciphertext tag : Bytes) (e : Error),
        decrypt key iv aad ciphertext tag = .error e
          ↔ e = .decryptionFailed
            ∧ ¬∃ (plaintext : Bytes) (sealedTag : Octets 16), sealedTag.bytes = tag
              ∧ encrypt key iv aad plaintext = .ok (ciphertext, sealedTag))
      ∧ (∀ plaintext : Bytes,
        (∃ sealing, encrypt key iv aad plaintext = .ok sealing)
          ↔ key.length = 32 ∧ iv.length = 16)
      ∧ (∀ (plaintext ciphertext : Bytes) (tag : Octets 16),
        (encryptInPlace key iv aad).on plaintext = (.ok tag, ciphertext)
          ↔ encrypt key iv aad plaintext = .ok (ciphertext, tag))
      ∧ (∀ (plaintext : Bytes) (e : Error),
        ((encryptInPlace key iv aad).on plaintext).1 = .error e
          ↔ encrypt key iv aad plaintext = .error e)
      ∧ (∀ ciphertext tag plaintext : Bytes,
        (decryptInPlace key iv aad tag).on ciphertext = (.ok (), plaintext)
          ↔ decrypt key iv aad ciphertext tag = .ok plaintext)
      ∧ ∀ (ciphertext tag : Bytes) (e : Error),
        ((decryptInPlace key iv aad tag).on ciphertext).1 = .error e
          ↔ decrypt key iv aad ciphertext tag = .error e := by
  refine ⟨fun _ _ _ => decrypt_eq_ok_iff, fun _ _ _ => decrypt_eq_error_iff_not_encrypted,
    fun _ => exists_encrypt_iff, ?_, ?_, ?_, ?_⟩
  · intro plaintext ciphertext tag
    rw [encryptInPlace_on]
    cases encrypt key iv aad plaintext with
    | ok sealing => simp [Prod.ext_iff, and_comm]
    | error e => simp
  · intro plaintext e
    rw [encryptInPlace_on]
    cases encrypt key iv aad plaintext with
    | ok sealing => simp
    | error e' => simp
  · intro ciphertext tag plaintext
    rw [decryptInPlace_on]
    cases decrypt key iv aad ciphertext tag with
    | ok plaintext' => simp
    | error e => simp
  · intro ciphertext tag e
    rw [decryptInPlace_on]
    cases decrypt key iv aad ciphertext tag with
    | ok plaintext => simp
    | error e' => simp

end Aead

end SealedEnvelope
