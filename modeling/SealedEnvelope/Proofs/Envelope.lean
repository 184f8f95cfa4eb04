import SealedEnvelope.Proofs.Cipher.Aead
import SealedEnvelope.Proofs.Header
import SealedEnvelope.Proofs.KeyWrap

set_option autoImplicit false

/-! # Envelopes open again

Closing an envelope and opening it under the same key undo each other (`exists_close`). What is
left is that both sides arrive at the same key: in the simple and single modes because two key
pairs agree on one secret, in the multiple mode because each recipient finds the message key in the
entry of its identifier (`open_of_encryptForOne`, `open_of_encryptMultiple`). -/

namespace SealedEnvelope.Envelope

variable {config : Config} {key : Octets 32} {header : Header} {plaintext ciphertext : Bytes}

/-! ## The payload -/

theorem openWith_eq_ok_iff :
    openWith config key header ciphertext = .ok plaintext
      ↔ header.Valid config
        ∧ Gcm.encrypt key header.iv header.covered plaintext = (ciphertext, header.tag) := by
  simp only [openWith, bind_eq_ok, Header.aad_eq_ok_iff]
  constructor
  · rintro ⟨_, ⟨hvalid, rfl⟩, h⟩
    split at h
    · next hopen =>
      obtain rfl := pure_eq_ok.1 h
      exact ⟨hvalid, Gcm.decrypt?_eq_some_iff.1 hopen⟩
    · exact (throw_eq_ok.1 h).elim
  · rintro ⟨hvalid, hsealed⟩
    refine ⟨_, ⟨hvalid, rfl⟩, ?_⟩
    rw [Gcm.decrypt?_eq_some_iff.2 hsealed]
    rfl

theorem openWith_eq_ok_iff_encrypt :
    openWith config key header ciphertext = .ok plaintext
      ↔ ∃ aad, header.aad config = .ok aad
        ∧ Aead.encrypt key.bytes header.iv.bytes aad plaintext = .ok (ciphertext, header.tag) := by
  simp [openWith_eq_ok_iff, Header.aad_eq_ok_iff, and_assoc]

/-- Behind a valid header the payload is left to the cipher. -/
theorem openWith_eq_decrypt (hvalid : header.Valid config) (key : Octets 32) :
    openWith config key header ciphertext
      = Aead.decrypt key.bytes header.iv.bytes header.covered ciphertext
          header.tag.bytes := by
  have haad : header.aad config = .ok header.covered := Header.aad_eq_ok_iff.2 ⟨hvalid, rfl⟩
  simp only [openWith, haad, Aead.decrypt, Octets.ofBytes?_bytes]
  rfl

/-- A valid header can be closed over any payload, and what is behind it opens to that. -/
theorem exists_close (key : Octets 32) (plaintext : Bytes) (hvalid : header.Valid config) :
    ∃ tag ciphertext,
      close config key header plaintext = .ok ({ header with tag }.octets ++ ciphertext)
        ∧ ciphertext.length = plaintext.length
        ∧ openWith config key { header with tag } ciphertext = .ok plaintext := by
  let result := Gcm.encrypt key header.iv header.covered plaintext
  have hopen : openWith config key { header with tag := result.2 } result.1 = .ok plaintext :=
    openWith_eq_ok_iff.2 ⟨hvalid, rfl⟩
  refine ⟨result.2, result.1, ?_, Gcm.length_encrypt .., hopen⟩
  simp only [close, bind_eq_ok, pure_eq_ok]
  exact ⟨_, Header.aad_eq_ok_iff.2 ⟨hvalid, rfl⟩, _, Header.encode_eq_ok_iff.2 ⟨hvalid, rfl⟩, rfl⟩

/-! ## The mode -/

/-- What is done with an envelope depends on its first octet. -/
theorem decrypt_cons (id : Option Bytes) (tag : UInt8) (rest : Bytes) (privateKey : PrivateKey) :
    decrypt config privateKey.octets.bytes id (tag :: rest)
      = Mode.ofTag tag >>= fun mode =>
        match mode, id with
        | .simple, _ | .single, _ => openForOne config privateKey (tag :: rest)
        | .multiple, some id => openForId config id privateKey (tag :: rest)
        | .multiple, none =>
          .error (.invalidIdentifier "recipient id required for multi-recipient envelopes") := by
  rw [decrypt, PrivateKey.ofBytes_octets]
  refine congrArg (Mode.ofTag tag >>= ·) (funext fun mode => ?_)
  cases mode <;> cases id <;> rfl

/-- What is done with an envelope depends on the mode of its header. -/
theorem decrypt_octets (privateKey : PrivateKey) (id : Option Bytes) :
    decrypt config privateKey.octets.bytes id (header.octets ++ ciphertext)
      = match header.mode, id with
        | .simple, _ | .single, _ => openForOne config privateKey (header.octets ++ ciphertext)
        | .multiple, some id => openForId config id privateKey (header.octets ++ ciphertext)
        | .multiple, none =>
          .error
            (.invalidIdentifier "recipient id required for multi-recipient envelopes") := by
  rw [Header.octets, List.cons_append, decrypt_cons, Mode.ofTag_eq_ok_iff.2 rfl]
  rfl

/-! ## One recipient -/

/-- The fields of a simple or single header fit a payload of a length. -/
def FitsOne (length : Nat) : HeaderBody → Prop
  | .simple => True
  | .single dataLength => dataLength = UInt64.ofNat length
  | .multiple _ => False

theorem FitsOne.valid {length : Nat} {body : HeaderBody} (h : FitsOne length body) :
    body.Valid config := by
  cases body with
  | multiple entries => exact h.elim
  | _ => trivial

theorem decryptForOne_octets (privateKey : PrivateKey) (envelope : Bytes) :
    decryptForOne config privateKey.octets.bytes envelope
      = openForOne config privateKey envelope := by
  rw [decryptForOne, PrivateKey.ofBytes_octets]
  rfl

/-- An envelope opens for one recipient if its fields fit the payload, its ephemeral key is a point
    and the payload opens under the key that is shared with it. -/
theorem openForOne_eq_ok_iff {privateKey : PrivateKey} {envelope : Bytes} :
    openForOne config privateKey envelope = .ok plaintext
      ↔ ∃ header ciphertext peer, Header.split config envelope = .ok (header, ciphertext)
        ∧ FitsOne ciphertext.length header.body
        ∧ parsePublicKey header.ephemeral.bytes = .ok peer
        ∧ openWith config (privateKey.sharedKey peer) header ciphertext = .ok plaintext := by
  simp only [openForOne, bind_eq_ok, Prod.exists]
  refine exists_congr fun header => exists_congr fun ciphertext => ?_
  rw [exists_and_left]
  refine and_congr_right fun _ => ?_
  cases hbody : header.body with
  | simple =>
    cases parsePublicKey header.ephemeral.bytes <;> simp [FitsOne, throw_eq_ok]
  | single dataLength =>
    by_cases hlength : dataLength = UInt64.ofNat ciphertext.length
    · cases parsePublicKey header.ephemeral.bytes <;> simp [FitsOne, hlength, throw_eq_ok]
    · simp [FitsOne, hlength, bind_eq_ok, throw_eq_ok]
  | multiple entries => simp [FitsOne, bind_eq_ok, throw_eq_ok]

section

variable {tape rest : Tape} {ephemeral : PrivateKey}

/-- Whatever is encrypted for one public key opens for its owner, whether or not the mode is
    known. -/
theorem open_of_encryptForOne {body : HeaderBody} (hfits : FitsOne plaintext.length body)
    {privateKey : PrivateKey} {publicKey envelope : Bytes}
    (hkey : privateKey.publicKey.Form publicKey)
    (hrun : (encryptForOne config body publicKey plaintext).run tape = some (.ok envelope, rest)) :
    openForOne config privateKey envelope = .ok plaintext
      ∧ ∀ id, decrypt config privateKey.octets.bytes id envelope = .ok plaintext := by
  simp only [encryptForOne, forOne, Sealing.bind_eq_ok, Sealing.lift_eq_ok, Sealing.draw_eq_ok,
    parsePublicKey_publicKey hkey, Except.ok.injEq, Config.sharedKey_eq] at hrun
  obtain ⟨_, _, ⟨rfl, -⟩, ephemeral, _, -, iv, _, -, hclosed, -⟩ := hrun
  let header : Header :=
    { ephemeral := ephemeral.publicKey.compressed, iv, tag := .zero 16, body }
  have hvalid : header.Valid config := hfits.valid
  obtain ⟨tag, ciphertext, hclose, hlength, hopen⟩ :=
    exists_close (ephemeral.sharedKey privateKey.publicKey) plaintext hvalid
  obtain rfl := Except.ok.inj (hclosed.symm.trans hclose)
  rw [← hlength] at hfits
  rw [ephemeral.sharedKey_comm privateKey] at hopen
  have hone : openForOne config privateKey (Header.octets { header with tag } ++ ciphertext)
      = .ok plaintext :=
    openForOne_eq_ok_iff.2 ⟨{ header with tag }, ciphertext, ephemeral.publicKey,
      Header.split_eq_ok_iff.2 ⟨hvalid, rfl⟩, hfits, parsePublicKey_publicKey .compressed, hopen⟩
  refine ⟨hone, fun id => ?_⟩
  have hbody : Header.mode { header with tag } ≠ .multiple := by
    cases body with
    | multiple entries => exact hfits.elim
    | _ => exact fun h => by cases h
  rw [decrypt_octets]
  cases hmode : Header.mode { header with tag } with
  | multiple => exact absurd hmode hbody
  | _ => exact hone

/-- An envelope for one public key opens for its owner. -/
theorem exists_encryptForOne {body : HeaderBody} (hfits : FitsOne plaintext.length body)
    {privateKey : PrivateKey} {publicKey : Bytes} (hkey : privateKey.publicKey.Form publicKey)
    (hdraw : Draw.privateKey tape = some (ephemeral, rest)) (hrest : 16 ≤ rest.length) :
    ∃ envelope tape',
      (encryptForOne config body publicKey plaintext).run tape = some (.ok envelope, tape')
        ∧ openForOne config privateKey envelope = .ok plaintext
        ∧ ∀ id, decrypt config privateKey.octets.bytes id envelope = .ok plaintext := by
  obtain ⟨iv, hiv⟩ := Draw.takes_octets 16 rest hrest
  let header : Header :=
    { ephemeral := ephemeral.publicKey.compressed, iv, tag := .zero 16, body }
  have hvalid : header.Valid config := hfits.valid
  obtain ⟨tag, ciphertext, hclose, -⟩ :=
    exists_close (ephemeral.sharedKey privateKey.publicKey) plaintext hvalid
  have hrun : (encryptForOne config body publicKey plaintext).run tape
      = some (.ok (Header.octets { header with tag } ++ ciphertext), rest.drop 16) := by
    simp only [encryptForOne, forOne, Sealing.bind_eq_ok, Sealing.lift_eq_ok, Sealing.draw_eq_ok,
      Config.sharedKey_eq]
    exact ⟨_, _, ⟨parsePublicKey_publicKey hkey, rfl⟩, _, _, hdraw, _, _, hiv, hclose, rfl⟩
  exact ⟨_, _, hrun, open_of_encryptForOne hfits hkey hrun⟩

/-! ## Several recipients -/

theorem openForId_octets (header : Header) (ciphertext : Bytes) {entries : List RecipientEntry}
    (hbody : header.body = .multiple entries) (hvalid : header.Valid config)
    (privateKey : PrivateKey) (id : Bytes) :
    openForId config id privateKey (header.octets ++ ciphertext)
      = match entries.find? (·.id = id) with
        | some entry => do
          let messageKey ← KeyWrap.unwrap config privateKey header.ephemeral entry
          openWith config messageKey header ciphertext
        | none => .error .recipientNotFound := by
  have hsplit : Header.split config (header.octets ++ ciphertext) = .ok (header, ciphertext) :=
    Header.split_eq_ok_iff.2 ⟨hvalid, rfl⟩
  rw [openForId, hsplit]
  simp only [bind, Except.bind, hbody, Header.find?, Header.recipients]
  cases entries.find? (·.id = id) <;> rfl

/-- An envelope opens for an identifier if this is listed, the message key is found in its entry
    and the payload opens under that. -/
theorem openForId_eq_ok_iff {privateKey : PrivateKey} {id envelope : Bytes} :
    openForId config id privateKey envelope = .ok plaintext
      ↔ ∃ header ciphertext entry messageKey,
        Header.split config envelope = .ok (header, ciphertext)
        ∧ header.mode = .multiple
        ∧ header.find? id = some entry
        ∧ KeyWrap.unwrap config privateKey header.ephemeral entry = .ok messageKey
        ∧ openWith config messageKey header ciphertext = .ok plaintext := by
  simp only [openForId, bind_eq_ok, Prod.exists]
  refine exists_congr fun header => exists_congr fun ciphertext => ?_
  simp only [exists_and_left]
  refine and_congr_right fun _ => ?_
  cases hbody : header.body with
  | multiple entries =>
    cases hfind : header.find? id <;>
      simp [Header.mode, hbody, HeaderBody.mode, bind_eq_ok, throw_eq_ok]
  | _ => simp [Header.mode, hbody, HeaderBody.mode, throw_eq_ok]

theorem decryptMultiple_octets (id : Bytes) (privateKey : PrivateKey) (envelope : Bytes) :
    decryptMultiple config id privateKey.octets.bytes envelope
      = openForId config id privateKey envelope := by
  rw [decryptMultiple, PrivateKey.ofBytes_octets]
  rfl

/-- Admitted recipients whose public keys can be read get an envelope: a header with an entry for
    each of them, closed over the plaintext under the key in these entries. -/
theorem exists_sealed_for_many {recipients : List Recipient} (hadmits : config.Admits recipients)
    (hreadable : Readable recipients) (hdraw : Draw.privateKey tape = some (ephemeral, rest))
    (hrest : 48 + recipients.length * 16 ≤ rest.length) :
    ∃ header ciphertext entries messageKey tape',
      (encryptMultiple config recipients plaintext).run tape
          = some (.ok (header.octets ++ ciphertext), tape')
        ∧ header.ephemeral = ephemeral.publicKey.compressed
        ∧ header.body = .multiple entries
        ∧ header.Valid config
        ∧ List.Forall₂ (KeyWrap.WrappedFor config ephemeral messageKey) recipients entries
        ∧ openWith config messageKey header ciphertext = .ok plaintext := by
  obtain ⟨messageKey, t, entries, t', iv, t'', hmessageKey, hentries, hiv, hwrapped⟩ :=
    KeyWrap.exists_wrapped config ephemeral hreadable hrest
  let header : Header :=
    { ephemeral := ephemeral.publicKey.compressed, iv, tag := .zero 16, body := .multiple entries }
  have hvalid : header.Valid config := KeyWrap.valid_of_wrappedFor hadmits hwrapped
  obtain ⟨tag, ciphertext, hclose, -, hopen⟩ := exists_close messageKey plaintext hvalid
  refine ⟨{ header with tag }, ciphertext, entries, messageKey, t'', ?_, rfl, rfl, hvalid,
    hwrapped, hopen⟩
  simp only [encryptMultiple, Sealing.bind_eq_ok, Sealing.lift_eq_ok, Sealing.draw_eq_ok]
  exact ⟨(), _, ⟨Config.checkRecipients_eq_ok_iff.2 hadmits, rfl⟩, _, _, hdraw, _, _, hmessageKey,
    _, _, hentries, _, _, hiv, hclose, rfl⟩

/-- Whatever is encrypted for several recipients opens for each of them. -/
theorem open_of_encryptMultiple {recipients : List Recipient} {envelope : Bytes}
    (hrun : (encryptMultiple config recipients plaintext).run tape = some (.ok envelope, rest))
    {r : Recipient} (hr : r ∈ recipients) {key : PrivateKey}
    (hkey : key.publicKey.Form r.publicKey) :
    decryptMultiple config r.id key.octets.bytes envelope = .ok plaintext
      ∧ decrypt config key.octets.bytes (some r.id) envelope = .ok plaintext := by
  simp only [encryptMultiple, Sealing.bind_eq_ok, Sealing.lift_eq_ok, Sealing.draw_eq_ok] at hrun
  obtain ⟨_, _, ⟨hcheck, -⟩, ephemeral, _, -, messageKey, _, -, entries, _, hentries, iv, _, -,
    hclosed, -⟩ := hrun
  have hadmits := Config.checkRecipients_eq_ok_iff.1 hcheck
  have hwrapped := KeyWrap.wrappedFor_of_wrapAll hentries
  let header : Header :=
    { ephemeral := ephemeral.publicKey.compressed, iv, tag := .zero 16, body := .multiple entries }
  have hvalid : header.Valid config := KeyWrap.valid_of_wrappedFor hadmits hwrapped
  obtain ⟨tag, ciphertext, hclose, -, hopen⟩ := exists_close messageKey plaintext hvalid
  obtain rfl := Except.ok.inj (hclosed.symm.trans hclose)
  obtain ⟨e, hfind, he⟩ := KeyWrap.find?_eq_some_of_wrappedFor hadmits.nodup hwrapped hr
  have hread : openForId config r.id key (Header.octets { header with tag } ++ ciphertext)
      = .ok plaintext := by
    rw [openForId_octets { header with tag } ciphertext rfl hvalid, hfind]
    exact bind_eq_ok.2 ⟨messageKey, he.unwrap_eq hkey, hopen⟩
  rw [decryptMultiple_octets, decrypt_octets]
  exact ⟨hread, hread⟩

/-- An envelope for several recipients opens for each of them, and for no other identifier. -/
theorem exists_encryptMultiple {recipients : List Recipient} (hadmits : config.Admits recipients)
    (hkeys : ∀ r ∈ recipients, ∃ key : PrivateKey, key.publicKey.Form r.publicKey)
    (hdraw : Draw.privateKey tape = some (ephemeral, rest))
    (hrest : 48 + recipients.length * 16 ≤ rest.length) :
    ∃ envelope tape',
      (encryptMultiple config recipients plaintext).run tape = some (.ok envelope, tape')
        ∧ (∀ r ∈ recipients, ∀ key : PrivateKey, key.publicKey.Form r.publicKey →
          decryptMultiple config r.id key.octets.bytes envelope = .ok plaintext
            ∧ decrypt config key.octets.bytes (some r.id) envelope = .ok plaintext)
        ∧ ∀ id, id ∉ recipients.map (·.id) → ∀ key : PrivateKey,
          decryptMultiple config id key.octets.bytes envelope = .error .recipientNotFound
            ∧ decrypt config key.octets.bytes (some id) envelope
              = .error .recipientNotFound := by
  obtain ⟨header, ciphertext, entries, messageKey, tape', hrun, -, hbody, hvalid, hwrapped, -⟩ :=
    exists_sealed_for_many hadmits (readable_of_form hkeys) hdraw hrest
  have hmode : header.mode = .multiple := by rw [Header.mode, hbody]; rfl
  refine ⟨_, tape', hrun, fun r hr key hkey => open_of_encryptMultiple hrun hr hkey,
    fun id hid key => ?_⟩
  have hread : openForId config id key (header.octets ++ ciphertext)
      = .error .recipientNotFound := by
    rw [openForId_octets header ciphertext hbody hvalid,
      KeyWrap.find?_eq_none_of_wrappedFor hwrapped hid]
  rw [decryptMultiple_octets, decrypt_octets, hmode]
  exact ⟨hread, hread⟩

/-! ## Any mode -/

/-- **What is encrypted is decrypted.** In the simple and single modes encryption succeeds for every
    private key and every form of its public key, and the owner reads the plaintext back. In the
    multiple mode it succeeds for all recipients that the configuration admits, whatever forms their
    public keys come in; each of them reads the plaintext back by its own identifier, and no other
    identifier is found. The tape only has to give an ephemeral key and not to run out. -/
theorem decrypt_encrypt (config : Config) (plaintext : Bytes)
    (hdraw : Draw.privateKey tape = some (ephemeral, rest)) :
    (∀ (mode : Mode) (r : Recipient) (key : PrivateKey),
        mode ≠ .multiple → key.publicKey.Form r.publicKey → 16 ≤ rest.length →
        ∃ envelope tape', (encrypt config mode [r] plaintext).run tape = some (.ok envelope, tape')
          ∧ decryptForOne config key.octets.bytes envelope = .ok plaintext
          ∧ ∀ id, decrypt config key.octets.bytes id envelope = .ok plaintext)
      ∧ ∀ recipients : List Recipient, config.Admits recipients →
        (∀ r ∈ recipients, ∃ key : PrivateKey, key.publicKey.Form r.publicKey) →
        48 + recipients.length * 16 ≤ rest.length →
        ∃ envelope tape',
          (encryptMultiple config recipients plaintext).run tape = some (.ok envelope, tape')
            ∧ (encrypt config .multiple recipients plaintext).run tape
              = some (.ok envelope, tape')
            ∧ (∀ r ∈ recipients, ∀ key : PrivateKey, key.publicKey.Form r.publicKey →
              decryptMultiple config r.id key.octets.bytes envelope = .ok plaintext
                ∧ decrypt config key.octets.bytes (some r.id) envelope = .ok plaintext)
            ∧ ∀ id, id ∉ recipients.map (·.id) → ∀ key : PrivateKey,
              decryptMultiple config id key.octets.bytes envelope = .error .recipientNotFound
                ∧ decrypt config key.octets.bytes (some id) envelope
                  = .error .recipientNotFound := by
  refine ⟨fun mode r key hmode hkey hrest => ?_, fun recipients hadmits hkeys hrest => ?_⟩
  · have hone (body : HeaderBody) (hfits : FitsOne plaintext.length body) :
        ∃ envelope tape',
          (encryptForOne config body r.publicKey plaintext).run tape = some (.ok envelope, tape')
            ∧ decryptForOne config key.octets.bytes envelope = .ok plaintext
            ∧ ∀ id, decrypt config key.octets.bytes id envelope = .ok plaintext := by
      obtain ⟨envelope, tape', hrun, hopen, hdecrypt⟩ :=
        exists_encryptForOne hfits hkey hdraw hrest
      refine ⟨envelope, tape', hrun, ?_, hdecrypt⟩
      rw [decryptForOne, PrivateKey.ofBytes_octets]
      exact hopen
    cases mode with
    | simple => exact hone .simple trivial
    | single => exact hone (.single (UInt64.ofNat plaintext.length)) rfl
    | multiple => exact absurd rfl hmode
  · obtain ⟨envelope, tape', hrun, hread, hother⟩ :=
      exists_encryptMultiple hadmits hkeys hdraw hrest
    exact ⟨envelope, tape', hrun, hrun, hread, hother⟩

/-- One recipient, and two with one key between them that is given in different forms. -/
theorem decrypt_encrypt_two_forms :
    let key : PrivateKey := ⟨2, by decide, by decide⟩
    let recipients : List Recipient :=
      [⟨List.replicate 12 1, key.publicKey.compressed.bytes⟩,
       ⟨List.replicate 12 2, key.publicKey.uncompressed.bytes⟩]
    let tape : Tape := List.replicate 31 0 ++ 1 :: List.replicate 80 0
    (∃ envelope tape',
      (encrypt .standard .single [⟨[], key.publicKey.uncompressed.bytes⟩] [1, 2, 3]).run tape
          = some (.ok envelope, tape')
        ∧ decryptForOne .standard key.octets.bytes envelope = .ok [1, 2, 3])
      ∧ ∃ envelope tape',
        (encryptMultiple .standard recipients [1, 2, 3]).run tape = some (.ok envelope, tape')
          ∧ ∀ r ∈ recipients,
            decryptMultiple .standard r.id key.octets.bytes envelope = .ok [1, 2, 3] := by
  intro key recipients tape
  have hdraw : Draw.privateKey tape = some (⟨1, by decide, by decide⟩, List.replicate 80 0) := by
    decide +kernel
  have hforms : ∀ r ∈ recipients, key.publicKey.Form r.publicKey := by
    simp only [recipients, List.forall_mem_cons]
    exact ⟨.compressed, .uncompressed, by simp⟩
  have hadmits : Config.Admits .standard recipients :=
    { pos := by decide, le_max := by decide, idSize := by decide, nodup := by decide }
  obtain ⟨hone, hmany⟩ := decrypt_encrypt .standard [1, 2, 3] hdraw
  obtain ⟨envelope, tape', hrun, hread, -⟩ :=
    hone .single ⟨[], key.publicKey.uncompressed.bytes⟩ key (by decide) .uncompressed (by decide)
  obtain ⟨envelope', tape'', hrun', -, hread', -⟩ :=
    hmany recipients hadmits (fun r hr => ⟨key, hforms r hr⟩) (by decide)
  exact ⟨⟨envelope, tape', hrun, hread⟩, envelope', tape'', hrun',
    fun r hr => (hread' r hr key (hforms r hr)).1⟩

end

end SealedEnvelope.Envelope
