import SealedEnvelope.Proofs.Signature

set_option autoImplicit false

/-! # Which octets are private keys

A key pair is made of 32 octets whose number lies strictly between zero and the group's order
(`PrivateKey.exists_ofBytes_iff`), and so is a shared secret. For signing, 24 to 31 octets will do
as well: they are taken as if zeros stood in front (`Signature.sign_pad`), so the front of a key
signs for another scalar (`sign_front_of_key`). Otherwise the three agree, and each of them refuses
what it does not take as a private key (`private_keys_taken`). -/

namespace SealedEnvelope

open Curve (order Point)

variable {bytes message publicKey : Bytes} {key : PrivateKey} {e : Error}

/-! ## Key pairs and secrets -/

/-- The number that the octets denote may serve as a private key. -/
def PrivateKey.InRange (bytes : Bytes) : Prop := 0 < ofBigEndian bytes ∧ ofBigEndian bytes < order

theorem PrivateKey.exists_scalar_iff :
    (∃ key : PrivateKey, ofBigEndian bytes = key.scalar) ↔ InRange bytes := by
  constructor
  · rintro ⟨key, hkey⟩
    rw [InRange, hkey]
    exact ⟨key.pos, key.lt_order⟩
  · rintro ⟨hpos, hlt⟩
    exact ⟨⟨_, hpos, hlt⟩, rfl⟩

theorem PrivateKey.ofBytes_eq_ok_iff_scalar :
    ofBytes bytes = .ok key ↔ bytes.length = 32 ∧ ofBigEndian bytes = key.scalar := by
  rw [ofBytes_eq_ok_iff]
  constructor
  · rintro rfl
    exact ⟨Octets.length_bytes _, Octets.toNat_ofNat key.scalar_lt⟩
  · rintro ⟨hlength, hscalar⟩
    rw [octets, ← hscalar, Octets.bytes_ofNat, ← hlength, bigEndian_ofBigEndian]

theorem PrivateKey.exists_ofBytes_iff :
    (∃ key, ofBytes bytes = .ok key) ↔ bytes.length = 32 ∧ InRange bytes := by
  simp only [ofBytes_eq_ok_iff_scalar, exists_and_left, exists_scalar_iff]

theorem PrivateKey.ofBytes_eq_error (h : ofBytes bytes = .error e) :
    ∃ reason, e = .invalidKey "private" reason := by
  rw [ofBytes] at h
  split_ifs at h
  · exact ⟨_, (Except.error.inj h).symm⟩
  · split at h
    · cases h
    · exact ⟨_, (Except.error.inj h).symm⟩

theorem exists_deriveSharedSecret_iff {P : Point} (hpublic : parsePublicKey publicKey = .ok P) :
    (∃ secret, deriveSharedSecret bytes publicKey = .ok secret)
      ↔ ∃ key, PrivateKey.ofBytes bytes = .ok key := by
  simp only [deriveSharedSecret, bind_eq_ok, hpublic, pure_eq_ok, Except.ok.injEq]
  constructor
  · rintro ⟨_, key, hkey, -⟩
    exact ⟨key, hkey⟩
  · rintro ⟨key, hkey⟩
    exact ⟨_, key, hkey, P, rfl, rfl⟩

theorem deriveSharedSecret_eq_error {P : Point} (hpublic : parsePublicKey publicKey = .ok P)
    (h : deriveSharedSecret bytes publicKey = .error e) :
    ∃ reason, e = .invalidKey "private" reason := by
  rw [deriveSharedSecret, bind_eq_error] at h
  rcases h with h | ⟨key, -, h⟩
  · exact PrivateKey.ofBytes_eq_error h
  · rw [hpublic] at h
    cases h

/-! ## Signing keys -/

namespace Signature

theorem signingKey_eq_error (h : signingKey bytes = .error e) :
    ∃ reason, e = .invalidKey "private" reason := by
  rw [signingKey] at h
  split at h
  · cases h
  · exact ⟨_, (Except.error.inj h).symm⟩

theorem exists_signingKey_iff :
    (∃ key, signingKey bytes = .ok key)
      ↔ (24 ≤ bytes.length ∧ bytes.length ≤ 32) ∧ PrivateKey.InRange bytes := by
  simp only [signingKey_eq_ok_iff, exists_and_left, PrivateKey.exists_scalar_iff]

theorem ofBigEndian_zeros_append (n : Nat) (bytes : Bytes) :
    ofBigEndian (List.replicate n 0 ++ bytes) = ofBigEndian bytes := by
  induction n with
  | zero => rfl
  | succ n ih => rw [List.replicate_succ, List.cons_append, ofBigEndian_cons, ih]; simp

/-- Zeros in front of a key for signing make no difference. -/
theorem sign_pad (h : 24 ≤ bytes.length ∧ bytes.length ≤ 32) (message : Bytes) :
    sign bytes message = sign (List.replicate (32 - bytes.length) 0 ++ bytes) message := by
  have hpadded : (List.replicate (32 - bytes.length) 0 ++ bytes).length = 32 := by
    rw [List.length_append, List.length_replicate]
    omega
  have hkey : signingKey bytes = signingKey (List.replicate (32 - bytes.length) 0 ++ bytes) := by
    rw [signingKey, signingKey, hpadded, ofBigEndian_zeros_append, if_pos h, if_pos (by decide)]
  rw [sign, sign, hkey]

/-- Where the nonce fits, nothing but the key decides whether a message is signed. -/
theorem exists_sign_iff (hnonce : ∀ key, signingKey bytes = .ok key → NonceFits key message) :
    (∃ signature, sign bytes message = .ok signature) ↔ ∃ key, signingKey bytes = .ok key := by
  simp only [sign_eq_ok_iff]
  constructor
  · rintro ⟨_, key, hkey, -⟩
    exact ⟨key, hkey⟩
  · rintro ⟨key, hkey⟩
    obtain ⟨k, hk, hr, hs⟩ := hnonce key hkey
    exact ⟨_, key, hkey, signWith_of_nonce hk hr hs⟩

theorem sign_eq_error (hnonce : ∀ key, signingKey bytes = .ok key → NonceFits key message)
    (h : sign bytes message = .error e) : ∃ reason, e = .invalidKey "private" reason := by
  have hfailed := h
  rw [sign, bind_eq_error] at hfailed
  rcases hfailed with hrefused | ⟨key, hkey, -⟩
  · exact signingKey_eq_error hrefused
  · obtain ⟨signature, hsign⟩ := (exists_sign_iff hnonce).2 ⟨key, hkey⟩
    rw [hsign] at h
    cases h

end Signature

/-! ## All together -/

/-- **The private keys that are taken.** Let a public key be read, and the nonce for the key that
    some octets denote and a message fit. A key pair is made of the octets exactly if they are 32
    and their number lies strictly between zero and the group's order, and exactly then they share a
    secret with the public key. The message is signed with them exactly if their number lies in
    these bounds and they are 24 to 32, so with 32 octets all three agree; fewer are taken with
    zeros in front. Whatever is refused is refused as a private key. -/
theorem private_keys_taken {P : Point} (hpublic : parsePublicKey publicKey = .ok P)
    (hnonce : ∀ key, Signature.signingKey bytes = .ok key → Signature.NonceFits key message) :
    ((∃ key, PrivateKey.ofBytes bytes = .ok key)
        ↔ bytes.length = 32 ∧ 0 < ofBigEndian bytes ∧ ofBigEndian bytes < order)
      ∧ ((∃ secret, deriveSharedSecret bytes publicKey = .ok secret)
        ↔ bytes.length = 32 ∧ 0 < ofBigEndian bytes ∧ ofBigEndian bytes < order)
      ∧ ((∃ signature, Signature.sign bytes message = .ok signature)
        ↔ (24 ≤ bytes.length ∧ bytes.length ≤ 32)
          ∧ 0 < ofBigEndian bytes ∧ ofBigEndian bytes < order)
      ∧ (24 ≤ bytes.length ∧ bytes.length ≤ 32 → Signature.sign bytes message
        = Signature.sign (List.replicate (32 - bytes.length) 0 ++ bytes) message)
      ∧ ∀ e, PrivateKey.ofBytes bytes = .error e ∨ deriveSharedSecret bytes publicKey = .error e
          ∨ Signature.sign bytes message = .error e →
        ∃ reason, e = .invalidKey "private" reason := by
  refine ⟨PrivateKey.exists_ofBytes_iff, ?_, ?_, fun h => Signature.sign_pad h message, ?_⟩
  · exact (exists_deriveSharedSecret_iff hpublic).trans PrivateKey.exists_ofBytes_iff
  · exact (Signature.exists_sign_iff hnonce).trans Signature.exists_signingKey_iff
  · rintro e (h | h | h)
    · exact PrivateKey.ofBytes_eq_error h
    · exact deriveSharedSecret_eq_error hpublic h
    · exact Signature.sign_eq_error hnonce h

/-- Whatever octets denote one, the nonce for that key and a message of one octet fits. -/
theorem nonceFits_of_one (hbytes : ofBigEndian bytes = 1) :
    ∀ key, Signature.signingKey bytes = .ok key → Signature.NonceFits key [2] := by
  rintro ⟨scalar, hpos, hlt⟩ hkey
  obtain ⟨-, hscalar⟩ := Signature.signingKey_eq_ok_iff.1 hkey
  obtain rfl : scalar = 1 := hscalar.symm.trans hbytes
  exact Signature.nonceFits_least_key

/-- The number one in 24 octets signs, but neither makes a key pair nor shares a secret. -/
theorem private_keys_taken_short :
    let bytes : Bytes := List.replicate 23 0 ++ [1]
    let peer := Curve.generator.compressed.bytes
    parsePublicKey peer = .ok Curve.generator
      ∧ (∀ key, Signature.signingKey bytes = .ok key → Signature.NonceFits key [2])
      ∧ (∃ signature, Signature.sign bytes [2] = .ok signature)
      ∧ (¬∃ key, PrivateKey.ofBytes bytes = .ok key)
      ∧ ¬∃ secret, deriveSharedSecret bytes peer = .ok secret := by
  intro bytes peer
  have hpublic : parsePublicKey peer = .ok Curve.generator :=
    parsePublicKey_eq_ok_iff.2 ⟨Curve.onCurve_generator, .compressed⟩
  have hnonce : ∀ key, Signature.signingKey bytes = .ok key → Signature.NonceFits key [2] :=
    nonceFits_of_one (by decide)
  obtain ⟨hpair, hsecret, hsign, -⟩ := private_keys_taken hpublic hnonce
  have hlength : bytes.length ≠ 32 := by decide
  refine ⟨hpublic, hnonce, hsign.2 (by decide), fun h => ?_, fun h => ?_⟩
  · exact hlength (hpair.1 h).1
  · exact hlength (hsecret.1 h).1

/-- The front of a key signs, and for another scalar than the key, though it makes no key pair. -/
theorem sign_front_of_key :
    let bytes : Bytes := List.replicate 30 0 ++ [1, 5]
    let front := bytes.take 31
    (∃ signature, Signature.sign front [2] = .ok signature)
      ∧ PrivateKey.ofBytes front = .error (.invalidKey "private" "expected 32 bytes, got 31")
      ∧ ∃ key key', PrivateKey.ofBytes bytes = .ok key ∧ Signature.signingKey front = .ok key'
        ∧ key.scalar ≠ key'.scalar := by
  intro bytes front
  have hfront : Signature.signingKey front = .ok ⟨1, by decide, by decide⟩ :=
    Signature.signingKey_eq_ok_iff.2 ⟨by decide, by decide⟩
  have hwhole : PrivateKey.ofBytes bytes = .ok ⟨261, by decide, by decide⟩ :=
    PrivateKey.ofBytes_eq_ok_iff_scalar.2 ⟨by decide, by decide⟩
  refine ⟨?_, ?_, _, _, hwhole, hfront, by decide⟩
  · exact (Signature.exists_sign_iff (nonceFits_of_one (by decide))).2 ⟨_, hfront⟩
  · decide +kernel

end SealedEnvelope
