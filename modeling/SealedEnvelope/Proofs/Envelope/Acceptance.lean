import SealedEnvelope.Proofs.Envelope

set_option autoImplicit false

/-! # The envelopes that open

Decryption makes several checks and each of them could be too strict or too lax. The statements say
that they are neither: the envelopes that open to a plaintext are those that consist of a header and
of what the cipher produces for that plaintext, under the key the header leads to
(`decrypt_eq_ok_iff_sealed`). -/

namespace SealedEnvelope.Envelope

variable {config : Config} {envelope plaintext : Bytes} {header : Header} {n : Nat}
  {peer : Curve.Point} {aad : Bytes}

/-! ## Sealed envelopes -/

/-- An envelope that holds a plaintext for one recipient, taken apart. -/
structure SealedForOne (config : Config) (key : PrivateKey) (envelope plaintext : Bytes)
    (header : Header) (n : Nat) (peer : Curve.Point) (aad : Bytes) : Prop where
  decode_eq : Header.decode config envelope = .ok (header, n)
  mode_ne : header.mode ≠ .multiple
  /-- The length that a single header declares is that of the ciphertext and the plaintext. -/
  dataLength_eq : ∀ dataLength, header.body = .single dataLength →
    dataLength.toNat = (envelope.drop n).length ∧ (envelope.drop n).length = plaintext.length
  ephemeral_eq : parsePublicKey header.ephemeral.bytes = .ok peer
  aad_eq : header.aad config = .ok aad
  payload_eq : Aead.encrypt (key.sharedKey peer).bytes header.iv.bytes aad plaintext
    = .ok (envelope.drop n, header.tag)

/-- An envelope that holds a plaintext for the recipient of an identifier, taken apart. -/
structure SealedForId (config : Config) (id : Bytes) (key : PrivateKey)
    (envelope plaintext : Bytes) (header : Header) (n : Nat) (entry : RecipientEntry)
    (peer : Curve.Point) (messageKey : Octets 32) (aad : Bytes) : Prop where
  decode_eq : Header.decode config envelope = .ok (header, n)
  mode_eq : header.mode = .multiple
  entry_mem : entry ∈ header.recipients
  entry_id : entry.id = id
  embedded_eq : normalizePublicKey entry.wrappedKey.ephemeral.bytes = .ok header.ephemeral
  ephemeral_eq : parsePublicKey header.ephemeral.bytes = .ok peer
  wrapped_eq : Aead.encrypt (key.sharedKey peer).bytes entry.wrappedKey.iv.bytes id messageKey.bytes
    = .ok (entry.wrappedKey.encryptedKey.bytes, entry.wrappedKey.tag)
  aad_eq : header.aad config = .ok aad
  payload_eq : Aead.encrypt messageKey.bytes header.iv.bytes aad plaintext
    = .ok (envelope.drop n, header.tag)

/-! ## The checks -/

/-- Up to a machine number of octets the length field of a header cannot be mistaken. -/
theorem fitsOne_iff {length : Nat} (hlength : length < UInt64.size) {body : HeaderBody} :
    FitsOne length body
      ↔ body.mode ≠ .multiple ∧ ∀ dataLength, body = .single dataLength →
        dataLength.toNat = length := by
  cases body with
  | simple => simp [FitsOne, HeaderBody.mode]
  | single dataLength =>
    simp only [FitsOne, HeaderBody.mode, HeaderBody.single.injEq, forall_eq', ne_eq, reduceCtorEq,
      not_false_eq_true, true_and]
    rw [← UInt64.toNat_inj, UInt64.toNat_ofNat_of_lt' hlength]
  | multiple entries => simp [FitsOne, HeaderBody.mode]

/-- A header that was read lists no identifier twice. -/
theorem find?_eq_some_iff_of_decode (hdecode : Header.decode config envelope = .ok (header, n))
    {id : Bytes} {entry : RecipientEntry} :
    header.find? id = some entry ↔ entry ∈ header.recipients ∧ entry.id = id := by
  refine RecipientTable.find?_eq_some_iff_of_nodup ?_
  obtain ⟨hvalid, -⟩ := Header.decode_eq_ok_iff.1 hdecode
  unfold Header.Valid at hvalid
  unfold Header.recipients
  cases hbody : header.body with
  | multiple entries =>
    rw [hbody] at hvalid
    exact hvalid.nodup
  | _ => simp

/-! ## One recipient -/

theorem openForOne_eq_ok_iff_sealed {key : PrivateKey} (hlength : envelope.length < UInt64.size) :
    openForOne config key envelope = .ok plaintext
      ↔ ∃ header n peer aad, SealedForOne config key envelope plaintext header n peer aad := by
  have hciphertext (n : Nat) : (envelope.drop n).length < UInt64.size := by
    rw [List.length_drop]
    omega
  rw [openForOne_eq_ok_iff]
  constructor
  · intro h
    obtain ⟨header, ciphertext, peer, hsplit, hfits, hpeer, hopen⟩ := h
    obtain ⟨n, hdecode, rfl⟩ := Header.split_eq_ok_iff_decode.1 hsplit
    obtain ⟨aad, haad, hsealed⟩ := openWith_eq_ok_iff_encrypt.1 hopen
    obtain ⟨hmode, hdata⟩ := (fitsOne_iff (hciphertext n)).1 hfits
    have hsame : (envelope.drop n).length = plaintext.length := by
      rw [Aead.encrypt_bytes] at hsealed
      have hpayload := congrArg (fun sealing => sealing.1.length) (Except.ok.inj hsealed)
      rw [← hpayload, Gcm.length_encrypt]
    exact ⟨header, n, peer, aad, hdecode, hmode, fun d hd => ⟨hdata d hd, hsame⟩, hpeer, haad,
      hsealed⟩
  · intro h
    obtain ⟨header, n, peer, aad, h⟩ := h
    exact ⟨header, envelope.drop n, peer, Header.split_eq_ok_iff_decode.2 ⟨n, h.decode_eq, rfl⟩,
      (fitsOne_iff (hciphertext n)).2 ⟨h.mode_ne, fun d hd => (h.dataLength_eq d hd).1⟩,
      h.ephemeral_eq, openWith_eq_ok_iff_encrypt.2 ⟨aad, h.aad_eq, h.payload_eq⟩⟩

/-! ## Several recipients -/

theorem openForId_eq_ok_iff_sealed {id : Bytes} {key : PrivateKey} :
    openForId config id key envelope = .ok plaintext
      ↔ ∃ header n entry peer messageKey aad,
        SealedForId config id key envelope plaintext header n entry peer messageKey aad := by
  rw [openForId_eq_ok_iff]
  constructor
  · intro h
    obtain ⟨header, ciphertext, entry, messageKey, hsplit, hmode, hfind, hunwrap, hopen⟩ := h
    obtain ⟨n, hdecode, rfl⟩ := Header.split_eq_ok_iff_decode.1 hsplit
    obtain ⟨aad, haad, hsealed⟩ := openWith_eq_ok_iff_encrypt.1 hopen
    obtain ⟨hentry, rfl⟩ := (find?_eq_some_iff_of_decode hdecode).1 hfind
    obtain ⟨hembedded, peer, hpeer, hwrapped⟩ := KeyWrap.unwrap_eq_ok_iff.1 hunwrap
    refine ⟨header, n, entry, peer, messageKey, aad, hdecode, hmode, hentry, rfl, hembedded, hpeer,
      ?_, haad, hsealed⟩
    rw [Aead.encrypt_bytes, hwrapped]
  · intro h
    obtain ⟨header, n, entry, peer, messageKey, aad, h⟩ := h
    obtain rfl := h.entry_id
    have hwrapped := h.wrapped_eq
    rw [Aead.encrypt_bytes] at hwrapped
    exact ⟨header, envelope.drop n, entry, messageKey,
      Header.split_eq_ok_iff_decode.2 ⟨n, h.decode_eq, rfl⟩, h.mode_eq,
      (find?_eq_some_iff_of_decode h.decode_eq).2 ⟨h.entry_mem, rfl⟩,
      KeyWrap.unwrap_eq_ok_iff.2 ⟨h.embedded_eq, peer, h.ephemeral_eq, Except.ok.inj hwrapped⟩,
      openWith_eq_ok_iff_encrypt.2 ⟨aad, h.aad_eq, h.payload_eq⟩⟩

/-! ## Sealing -/

/-- Under every ephemeral key a plaintext can be sealed for one recipient. -/
theorem exists_sealedForOne (config : Config) (key ephemeral : PrivateKey) (plaintext : Bytes)
    (body : HeaderBody) (hmode : body.mode ≠ .multiple)
    (hdata : ∀ dataLength, body = .single dataLength → dataLength.toNat = plaintext.length) :
    ∃ header ciphertext aad, header.body = body ∧ header.Valid config
      ∧ ciphertext.length = plaintext.length
      ∧ SealedForOne config key (header.octets ++ ciphertext) plaintext header
        header.octets.length ephemeral.publicKey aad := by
  let blank : Header :=
    { ephemeral := ephemeral.publicKey.compressed, iv := .zero 16, tag := .zero 16, body }
  have hvalid : blank.Valid config := by
    cases body with
    | multiple entries => exact absurd rfl hmode
    | _ => trivial
  obtain ⟨tag, ciphertext, -, hlength, hopen⟩ :=
    exists_close (key.sharedKey ephemeral.publicKey) plaintext hvalid
  obtain ⟨aad, haad, hsealed⟩ := openWith_eq_ok_iff_encrypt.1 hopen
  refine ⟨{ blank with tag }, ciphertext, aad, rfl, hvalid, hlength, ?_⟩
  exact
    { decode_eq := Header.decode_eq_ok_iff.2 ⟨hvalid, rfl, List.prefix_append _ _⟩
      mode_ne := hmode
      dataLength_eq := by
        intro dataLength hbody
        rw [List.drop_left, hlength]
        exact ⟨hdata dataLength hbody, rfl⟩
      ephemeral_eq := parsePublicKey_publicKey .compressed
      aad_eq := haad
      payload_eq := by
        rw [List.drop_left]
        exact hsealed }

/-- Under every ephemeral key and message key a plaintext can be sealed for a recipient that is
    listed alone. -/
theorem exists_sealedForId (config : Config) {id : Bytes} (key ephemeral : PrivateKey)
    (messageKey : Octets 32) (plaintext : Bytes) (hid : id.length = config.idSize) :
    ∃ header ciphertext entry peer aad, header.body = .multiple [entry] ∧ header.Valid config
      ∧ ciphertext.length = plaintext.length
      ∧ SealedForId config id key (header.octets ++ ciphertext) plaintext header
        header.octets.length entry peer messageKey aad := by
  let entry := KeyWrap.wrap config ephemeral messageKey id key.publicKey (.zero 16)
  let blank : Header :=
    { ephemeral := ephemeral.publicKey.compressed, iv := .zero 16, tag := .zero 16
      body := .multiple [entry] }
  have hvalid : blank.Valid config :=
    { pos := Nat.one_pos, le_max := config.maxRecipients_pos, nodup := List.nodup_singleton _
      idSize := List.forall_mem_singleton.2 hid }
  obtain ⟨tag, ciphertext, -, hlength, hopen⟩ := exists_close messageKey plaintext hvalid
  obtain ⟨aad, haad, hsealed⟩ := openWith_eq_ok_iff_encrypt.1 hopen
  have hunwrap := KeyWrap.unwrap_wrap config config ephemeral key messageKey id (.zero 16)
  obtain ⟨hembedded, peer, hpeer, hwrapped⟩ := KeyWrap.unwrap_eq_ok_iff.1 hunwrap
  refine ⟨{ blank with tag }, ciphertext, entry, peer, aad, rfl, hvalid, hlength, ?_⟩
  exact
    { decode_eq := Header.decode_eq_ok_iff.2 ⟨hvalid, rfl, List.prefix_append _ _⟩
      mode_eq := rfl
      entry_mem := List.mem_singleton_self _
      entry_id := rfl
      embedded_eq := hembedded
      ephemeral_eq := hpeer
      wrapped_eq := (Aead.encrypt_bytes ..).trans (congrArg Except.ok hwrapped)
      aad_eq := haad
      payload_eq := by
        rw [List.drop_left]
        exact hsealed }

/-! ## Any mode -/

/-- **The envelopes that open are the sealed ones.** With a private key, and for several recipients
    an identifier, an envelope opens to a plaintext exactly if it is a header that the key can read
    and, behind it, what the cipher produces for the plaintext. -/
theorem decrypt_eq_ok_iff_sealed (config : Config) (key : PrivateKey) (envelope plaintext : Bytes)
    (hlength : envelope.length < UInt64.size) :
    (decryptForOne config key.octets.bytes envelope = .ok plaintext
        ↔ ∃ header n peer aad, SealedForOne config key envelope plaintext header n peer aad)
      ∧ ∀ id, decryptMultiple config id key.octets.bytes envelope = .ok plaintext
        ↔ ∃ header n entry peer messageKey aad,
          SealedForId config id key envelope plaintext header n entry peer messageKey aad := by
  constructor
  · rw [decryptForOne_octets]
    exact openForOne_eq_ok_iff_sealed hlength
  · intro id
    rw [decryptMultiple_octets]
    exact openForId_eq_ok_iff_sealed

/-- A single envelope and one for a single listed recipient, both sealed by hand. -/
theorem decrypt_eq_ok_iff_sealed_two_modes :
    let key : PrivateKey := ⟨2, by decide, by decide⟩
    let id : Bytes := List.replicate 12 7
    (∃ envelope : Bytes, envelope.length < UInt64.size
        ∧ decryptForOne .standard key.octets.bytes envelope = .ok [1, 2, 3])
      ∧ ∃ envelope : Bytes, envelope.length < UInt64.size
        ∧ decryptMultiple .standard id key.octets.bytes envelope = .ok [1, 2, 3] := by
  intro key id
  let ephemeral : PrivateKey := ⟨1, by decide, by decide⟩
  constructor
  · obtain ⟨header, ciphertext, aad, hbody, hvalid, hciphertext, hsealed⟩ :=
      exists_sealedForOne .standard key ephemeral [1, 2, 3] (.single 3) (by decide) (by
        rintro _ ⟨⟩
        rfl)
    have hlength : (header.octets ++ ciphertext).length < UInt64.size := by
      rw [List.length_append, hvalid.length_octets, hciphertext, Header.encodedLength,
        Header.mode, Header.recipients, hbody]
      decide
    exact ⟨_, hlength, (decrypt_eq_ok_iff_sealed .standard key _ _ hlength).1.2
      ⟨header, _, _, aad, hsealed⟩⟩
  · obtain ⟨header, ciphertext, entry, peer, aad, hbody, hvalid, hciphertext, hsealed⟩ :=
      exists_sealedForId .standard key ephemeral (.zero 32) [1, 2, 3] (rfl : id.length = 12)
    have hlength : (header.octets ++ ciphertext).length < UInt64.size := by
      rw [List.length_append, hvalid.length_octets, hciphertext, Header.encodedLength,
        Header.mode, Header.recipients, hbody]
      show Mode.overhead .standard .multiple + 1 * RecipientTable.entrySize .standard + 3 < _
      decide
    exact ⟨_, hlength, ((decrypt_eq_ok_iff_sealed .standard key _ _ hlength).2 id).2
      ⟨header, _, entry, peer, _, aad, hsealed⟩⟩

end SealedEnvelope.Envelope
