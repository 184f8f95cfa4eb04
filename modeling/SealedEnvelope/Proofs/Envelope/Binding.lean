import SealedEnvelope.Proofs.Envelope

set_option autoImplicit false

/-! # Every octet of an envelope is bound

What the payload's tag covers is not the octets that came in, but the header as it was read, written
again without its tag. Since reading accepts only what writing produces, that is the same: the
covered octets are those received with the tag cut out (`Header.covered_eq_cut`), and together with
the tag they give all of them back (`Header.octets_eq_of_covered_eq`). So two different envelopes
never come to the cipher as one (`Envelope.cipher_input_injective`). -/

namespace SealedEnvelope

namespace Header

/-! ## The tag within a header -/

/-- The octets in front of the tag. -/
def beforeTag (h : Header) : Bytes := h.mode.tag :: (h.ephemeral.bytes ++ h.iv.bytes)

@[simp] theorem length_beforeTag (h : Header) : h.beforeTag.length = 50 := by
  simp [beforeTag]

theorem octets_eq_append (h : Header) :
    h.octets = h.beforeTag ++ (h.tag.bytes ++ h.body.octets) := by
  simp [octets, beforeTag]

theorem covered_eq_append (h : Header) : h.covered = h.beforeTag ++ h.body.octets := by
  simp [covered, beforeTag]

/-- What is covered is the written form with the tag cut out. -/
theorem covered_eq_cut (h : Header) : h.covered = h.octets.take 50 ++ h.octets.drop 66 := by
  have htag : (h.beforeTag ++ h.tag.bytes).length = 66 := by simp
  have htake : h.octets.take 50 = h.beforeTag := by
    rw [octets_eq_append]
    exact List.take_left' h.length_beforeTag
  have hdrop : h.octets.drop 66 = h.body.octets := by
    rw [octets_eq_append, ← List.append_assoc]
    exact List.drop_left' htag
  rw [covered_eq_append, htake, hdrop]

/-- The covered octets and the tag give the whole written form. -/
theorem octets_eq_of_covered_eq {h h' : Header} (hcovered : h.covered = h'.covered)
    (htag : h.tag = h'.tag) : h.octets = h'.octets := by
  rw [covered_eq_append, covered_eq_append] at hcovered
  obtain ⟨hbefore, hbody⟩ := List.append_inj hcovered (by simp)
  rw [octets_eq_append, octets_eq_append, hbefore, htag, hbody]

end Header

namespace Envelope

variable {config : Config} {envelope plaintext : Bytes}

/-! ## What comes to the cipher -/

/-- A payload that opens was decrypted by the cipher from the parts of its envelope. -/
theorem exists_decrypt_of_openWith {key : Octets 32} {header : Header} {ciphertext : Bytes}
    (hsplit : Header.split config envelope = .ok (header, ciphertext))
    (hopen : openWith config key header ciphertext = .ok plaintext) :
    ∃ n aad, Header.decode config envelope = .ok (header, n) ∧ header.aad config = .ok aad
      ∧ Aead.decrypt key.bytes header.iv.bytes aad (envelope.drop n) header.tag.bytes
        = .ok plaintext := by
  obtain ⟨n, hdecode, rfl⟩ := Header.split_eq_ok_iff_decode.1 hsplit
  obtain ⟨aad, haad, hsealed⟩ := openWith_eq_ok_iff_encrypt.1 hopen
  exact ⟨n, aad, hdecode, haad, Aead.decrypt_eq_ok_iff.2 ⟨header.tag, rfl, hsealed⟩⟩

/-- An envelope gives a plaintext only through the cipher, for one recipient or for several. -/
theorem exists_decrypt {privateKey : Bytes}
    (h : decryptForOne config privateKey envelope = .ok plaintext
      ∨ ∃ id, decryptMultiple config id privateKey envelope = .ok plaintext) :
    ∃ header n aad, ∃ key : Octets 32, Header.decode config envelope = .ok (header, n)
      ∧ header.aad config = .ok aad
      ∧ Aead.decrypt key.bytes header.iv.bytes aad (envelope.drop n) header.tag.bytes
        = .ok plaintext := by
  rcases h with hone | ⟨id, hmany⟩
  · obtain ⟨key, -, hopen⟩ := bind_eq_ok.1 hone
    obtain ⟨header, ciphertext, peer, hsplit, -, -, hopen⟩ := openForOne_eq_ok_iff.1 hopen
    obtain ⟨n, aad, hcipher⟩ := exists_decrypt_of_openWith hsplit hopen
    exact ⟨header, n, aad, key.sharedKey peer, hcipher⟩
  · obtain ⟨key, -, hopen⟩ := bind_eq_ok.1 hmany
    obtain ⟨header, ciphertext, entry, messageKey, hsplit, -, -, -, hopen⟩ :=
      openForId_eq_ok_iff.1 hopen
    obtain ⟨n, aad, hcipher⟩ := exists_decrypt_of_openWith hsplit hopen
    exact ⟨header, n, aad, messageKey, hcipher⟩

/-- **Every octet of an envelope is bound.** The cipher covers the received header with exactly its
    tag cut out; two envelopes that differ anywhere, of one mode or of two, come to it with
    different covered octets, initialisation vector, ciphertext or tag; and what it is given so is
    what decides on the plaintext. -/
theorem cipher_input_injective (config : Config) :
    (∀ (envelope : Bytes) (h : Header) (n : Nat), Header.decode config envelope = .ok (h, n) →
        h.aad config = .ok (envelope.take 50 ++ (envelope.take n).drop 66))
      ∧ (∀ (envelope envelope' : Bytes) (h h' : Header) (n n' : Nat), envelope ≠ envelope' →
        Header.decode config envelope = .ok (h, n) →
        Header.decode config envelope' = .ok (h', n') →
        (h.aad config, h.iv, envelope.drop n, h.tag)
          ≠ (h'.aad config, h'.iv, envelope'.drop n', h'.tag))
      ∧ ∀ privateKey envelope plaintext : Bytes,
        (decryptForOne config privateKey envelope = .ok plaintext
          ∨ ∃ id, decryptMultiple config id privateKey envelope = .ok plaintext) →
        ∃ h n aad, ∃ key : Octets 32, Header.decode config envelope = .ok (h, n)
          ∧ h.aad config = .ok aad
          ∧ Aead.decrypt key.bytes h.iv.bytes aad (envelope.drop n) h.tag.bytes
            = .ok plaintext := by
  refine ⟨?_, ?_, fun privateKey envelope plaintext => exists_decrypt⟩
  · intro envelope h n hdecode
    obtain ⟨hvalid, rfl, rest, rfl⟩ := Header.decode_eq_ok_iff.1 hdecode
    have hlong : 50 ≤ h.octets.length := by simp [Header.octets_eq_append]
    rw [Header.aad_eq_ok_iff, List.take_left, List.take_append_of_le_length hlong]
    exact ⟨hvalid, h.covered_eq_cut.symm⟩
  · intro envelope envelope' h h' n n' hne hdecode hdecode' heq
    obtain ⟨hvalid, rfl, rest, rfl⟩ := Header.decode_eq_ok_iff.1 hdecode
    obtain ⟨hvalid', rfl, rest', rfl⟩ := Header.decode_eq_ok_iff.1 hdecode'
    rw [Header.aad_eq_ok_iff.2 ⟨hvalid, rfl⟩, Header.aad_eq_ok_iff.2 ⟨hvalid', rfl⟩,
      List.drop_left, List.drop_left] at heq
    simp only [Prod.mk.injEq, Except.ok.injEq] at heq
    obtain ⟨hcovered, -, hrest, htag⟩ := heq
    exact hne (by rw [Header.octets_eq_of_covered_eq hcovered htag, hrest])

/-- A single envelope that opens, and a simple one with the same ciphertext. -/
theorem cipher_input_injective_two_modes :
    let key : PrivateKey := ⟨2, by decide, by decide⟩
    ∃ (envelope envelope' : Bytes) (h h' : Header) (n n' : Nat) (aad : Bytes) (sealing : Octets 32),
      Header.decode .standard envelope = .ok (h, n) ∧ h.mode = .single
        ∧ Header.decode .standard envelope' = .ok (h', n') ∧ h'.mode = .simple
        ∧ h.aad .standard = .ok (envelope.take 50 ++ (envelope.take n).drop 66)
        ∧ (h.aad .standard, h.iv, envelope.drop n, h.tag)
          ≠ (h'.aad .standard, h'.iv, envelope'.drop n', h'.tag)
        ∧ decryptForOne .standard key.octets.bytes envelope = .ok [1, 2, 3]
        ∧ h.aad .standard = .ok aad
        ∧ Aead.decrypt sealing.bytes h.iv.bytes aad (envelope.drop n) h.tag.bytes
          = .ok [1, 2, 3] := by
  intro key
  let ephemeral : PrivateKey := ⟨1, by decide, by decide⟩
  let blank : Header :=
    { ephemeral := ephemeral.publicKey.compressed, iv := .zero 16, tag := .zero 16
      body := .single 3 }
  have hvalid : blank.Valid .standard := trivial
  obtain ⟨tag, ciphertext, -, hlength, hopen⟩ :=
    exists_close (key.sharedKey ephemeral.publicKey) [1, 2, 3] hvalid
  let h : Header := { blank with tag }
  let h' : Header := { h with body := .simple }
  have hdecode : Header.decode .standard (h.octets ++ ciphertext) = .ok (h, h.octets.length) :=
    Header.decode_eq_ok_iff.2 ⟨hvalid, rfl, List.prefix_append _ _⟩
  have hdecode' : Header.decode .standard (h'.octets ++ ciphertext) = .ok (h', h'.octets.length) :=
    Header.decode_eq_ok_iff.2 ⟨trivial, rfl, List.prefix_append _ _⟩
  have htags : Mode.single.tag ≠ Mode.simple.tag := by decide
  have hne : h.octets ++ ciphertext ≠ h'.octets ++ ciphertext := by
    intro heq
    exact htags (List.cons.inj heq).1
  have hone : decryptForOne .standard key.octets.bytes (h.octets ++ ciphertext)
      = .ok [1, 2, 3] := by
    rw [decryptForOne_octets]
    refine openForOne_eq_ok_iff.2 ⟨h, ciphertext, ephemeral.publicKey,
      Header.split_eq_ok_iff.2 ⟨hvalid, rfl⟩, ?_, parsePublicKey_publicKey .compressed, hopen⟩
    rw [hlength]
    rfl
  obtain ⟨hcovered, hinjective, hcipher⟩ := cipher_input_injective .standard
  obtain ⟨header, n, aad, sealing, hread, haad, hdecrypt⟩ := hcipher _ _ _ (Or.inl hone)
  rw [hdecode] at hread
  obtain ⟨rfl, rfl⟩ := Prod.mk.inj (Except.ok.inj hread)
  exact ⟨_, _, h, h', _, _, aad, sealing, hdecode, rfl, hdecode', rfl, hcovered _ _ _ hdecode,
    hinjective _ _ _ _ _ _ hne hdecode hdecode', hone, haad, hdecrypt⟩

end Envelope

end SealedEnvelope
