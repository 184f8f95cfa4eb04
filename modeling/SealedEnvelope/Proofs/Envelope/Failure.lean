import SealedEnvelope.Proofs.Envelope

set_option autoImplicit false

/-! # What a failed decryption tells

Some faults of an envelope are there for everybody to see: octets that are no header, a header of
another mode, an identifier that is not listed. They are named, and they are the same whoever tries.
What is wrong behind them depends on a private key or on what only its owner may learn, and there
every check fails as `decryptionFailed` (`openForOne_eq_error_iff`, `openForId_eq_error_iff`). So
two keys that both fail to open an envelope fail alike (`decrypt_error_independent_of_key`). -/

namespace SealedEnvelope

/-! ## Failing alike -/

section FailsAlike

variable {ε α β : Type} {x y : Except ε α} {e : ε}

/-- Two computations that, if both fail, do so with the same error. -/
def FailsAlike (x y : Except ε α) : Prop := ∀ e e', x = .error e → y = .error e' → e = e'

theorem FailsAlike.refl (x : Except ε α) : FailsAlike x x := by
  intro e e' h h'
  exact Except.error.inj (h.symm.trans h')

theorem FailsAlike.of_error (hx : x = .error e) (hy : y = .error e) : FailsAlike x y := by
  rw [hx, hy]
  exact .refl _

/-- So do two that can fail with one error only. -/
theorem failsAlike_of_only (hx : ∀ e', x = .error e' → e' = e) (hy : ∀ e', y = .error e' → e' = e) :
    FailsAlike x y := by
  intro e₁ e₂ h₁ h₂
  rw [hx e₁ h₁, hy e₂ h₂]

/-- What fails with one error, and fails exactly under a condition. -/
theorem eq_error_iff_of_only {fault : Prop} (h : ∀ e', x = .error e' → e' = e ∧ fault)
    (hfault : fault → ∀ a, x ≠ .ok a) {e' : ε} : x = .error e' ↔ e' = e ∧ fault := by
  refine ⟨h e', ?_⟩
  intro ⟨he, hf⟩
  cases hx : x with
  | ok a => exact (hfault hf a hx).elim
  | error e'' => rw [(h e'' hx).1, he]

/-- What goes on alike behind one computation fails alike. -/
theorem FailsAlike.bind {x : Except ε α} {f g : α → Except ε β}
    (h : ∀ a, x = .ok a → FailsAlike (f a) (g a)) : FailsAlike (x >>= f) (x >>= g) := by
  cases x with
  | error e => exact FailsAlike.refl (.error e)
  | ok a => exact h a rfl

end FailsAlike

/-! ## The checks of the cipher and the keys -/

/-- Two keys always share a secret that is long enough to derive a key from. -/
theorem Config.deriveSymmetricKey_agree_eq_ok_iff {config : Config} {key : PrivateKey}
    {peer : Curve.Point} {symmetric : Octets 32} :
    config.deriveSymmetricKey (key.agree peer).bytes = .ok symmetric
      ↔ symmetric = key.sharedKey peer := by
  have hlength := (key.agree peer).length_eq
  have hne : (key.agree peer).bytes.isEmpty = false := by
    cases h : (key.agree peer).bytes with
    | nil => simp [h] at hlength
    | cons b rest => rfl
  simp [deriveSymmetricKey, hne, symmetricKey_eq, PrivateKey.sharedKey, eq_comm]

theorem Aead.decrypt_eq_error_iff {key : Octets 32} {iv tag : Octets 16} {aad ciphertext : Bytes}
    {e : Error} :
    Aead.decrypt key.bytes iv.bytes aad ciphertext tag.bytes = .error e
      ↔ e = .decryptionFailed ∧ Gcm.decrypt? key iv aad ciphertext tag = none := by
  simp only [Aead.decrypt, Octets.ofBytes?_bytes]
  cases Gcm.decrypt? key iv aad ciphertext tag with
  | none => simp [eq_comm]
  | some plaintext => simp

namespace KeyWrap

/-- What may be wrong with an entry for the owner of a private key. -/
inductive Fault (config : Config) (key : PrivateKey) (headerEphemeral : Octets 33)
    (entry : RecipientEntry) : Prop
  /-- The ephemeral key in the entry is none. -/
  | embedded {e : Error} :
    normalizePublicKey entry.wrappedKey.ephemeral.bytes = .error e →
    Fault config key headerEphemeral entry
  /-- It is not the one of the header. -/
  | mismatch {embedded : Octets 33} :
    normalizePublicKey entry.wrappedKey.ephemeral.bytes = .ok embedded →
    embedded ≠ headerEphemeral → Fault config key headerEphemeral entry
  /-- The ephemeral key in the header is none. -/
  | ephemeral {e : Error} :
    parsePublicKey headerEphemeral.bytes = .error e → Fault config key headerEphemeral entry
  /-- The cipher rejects the wrapped key. -/
  | wrapped {peer : Curve.Point} {symmetric : Octets 32} :
    parsePublicKey headerEphemeral.bytes = .ok peer →
    config.deriveSymmetricKey (key.agree peer).bytes = .ok symmetric →
    Aead.decrypt symmetric.bytes entry.wrappedKey.iv.bytes entry.id
      entry.wrappedKey.encryptedKey.bytes entry.wrappedKey.tag.bytes = .error .decryptionFailed →
    Fault config key headerEphemeral entry

variable {config : Config} {key : PrivateKey} {headerEphemeral : Octets 33}
  {entry : RecipientEntry} {e : Error}

/-- A wrapped key that the cipher accepts is as long as a key. -/
theorem length_of_decrypt {symmetric : Octets 32} {plain : Bytes}
    (h : Gcm.decrypt? symmetric entry.wrappedKey.iv entry.id entry.wrappedKey.encryptedKey.bytes
      entry.wrappedKey.tag = some plain) : plain.length = 32 := by
  have hcipher := congrArg (fun sealing => sealing.1.length) (Gcm.decrypt?_eq_some_iff.1 h)
  simpa using hcipher

theorem fault_of_unwrap (h : unwrap config key headerEphemeral entry = .error e) :
    e = .decryptionFailed ∧ Fault config key headerEphemeral entry := by
  simp only [unwrap, Config.sharedKey_eq] at h
  split at h
  · next embedded peer hembedded hpeer =>
    split_ifs at h with hmismatch
    · exact ⟨(Except.error.inj h).symm, .mismatch hembedded hmismatch⟩
    · split at h
      · cases h
      · next hnone =>
        have hopen : Gcm.decrypt? (key.sharedKey peer) entry.wrappedKey.iv entry.id
            entry.wrappedKey.encryptedKey.bytes entry.wrappedKey.tag = none := by
          by_contra hsome
          obtain ⟨plain, hplain⟩ := Option.ne_none_iff_exists'.1 hsome
          simp [hplain, Octets.ofBytes?, length_of_decrypt hplain] at hnone
        exact ⟨(Except.error.inj h).symm,
          .wrapped hpeer (Config.deriveSymmetricKey_agree_eq_ok_iff.2 rfl)
            (Aead.decrypt_eq_error_iff.2 ⟨rfl, hopen⟩)⟩
  · next hparse =>
    refine ⟨(Except.error.inj h).symm, ?_⟩
    cases hembedded : normalizePublicKey entry.wrappedKey.ephemeral.bytes with
    | error e' => exact .embedded hembedded
    | ok embedded =>
      cases hpeer : parsePublicKey headerEphemeral.bytes with
      | error e' => exact .ephemeral hpeer
      | ok peer => exact (hparse embedded peer hembedded hpeer).elim

theorem Fault.unwrap_ne_ok (h : Fault config key headerEphemeral entry) (messageKey : Octets 32) :
    unwrap config key headerEphemeral entry ≠ .ok messageKey := by
  intro hunwrap
  obtain ⟨hembedded, peer, hpeer, hwrapped⟩ := unwrap_eq_ok_iff.1 hunwrap
  cases h with
  | embedded hnot =>
    rw [hembedded] at hnot
    cases hnot
  | mismatch hother hne =>
    rw [hembedded] at hother
    exact hne (Except.ok.inj hother).symm
  | ephemeral hnot =>
    rw [hpeer] at hnot
    cases hnot
  | wrapped hpeer' hsymmetric hrejected =>
    rw [hpeer] at hpeer'
    obtain rfl := Except.ok.inj hpeer'
    obtain rfl := Config.deriveSymmetricKey_agree_eq_ok_iff.1 hsymmetric
    have hnone := (Aead.decrypt_eq_error_iff.1 hrejected).2
    rw [Gcm.decrypt?_eq_some_iff.2 hwrapped] at hnone
    cases hnone

/-- Unwrapping fails with one error, and exactly if there is a fault. -/
theorem unwrap_eq_error_iff :
    unwrap config key headerEphemeral entry = .error e
      ↔ e = .decryptionFailed ∧ Fault config key headerEphemeral entry :=
  eq_error_iff_of_only (fun _ => fault_of_unwrap) Fault.unwrap_ne_ok

end KeyWrap

namespace Envelope

variable {config : Config} {envelope ciphertext : Bytes} {header : Header} {entry : RecipientEntry}
  {key : PrivateKey} {e : Error}

/-! ## The payload -/

/-- The cipher rejects a payload under a symmetric key. -/
def PayloadFault (config : Config) (symmetric : Octets 32) (header : Header)
    (ciphertext : Bytes) : Prop :=
  ∃ aad, header.aad config = .ok aad
    ∧ Aead.decrypt symmetric.bytes header.iv.bytes aad ciphertext header.tag.bytes
      = .error .decryptionFailed

theorem openWith_eq_error_iff (hvalid : header.Valid config) {symmetric : Octets 32} :
    openWith config symmetric header ciphertext = .error e
      ↔ e = .decryptionFailed ∧ PayloadFault config symmetric header ciphertext := by
  have haad : header.aad config = .ok header.covered := Header.aad_eq_ok_iff.2 ⟨hvalid, rfl⟩
  simp only [PayloadFault, haad, Except.ok.injEq, exists_eq_left', openWith_eq_decrypt hvalid,
    Aead.decrypt_eq_error_iff, true_and]

/-- A payload that the cipher rejects does not open. -/
theorem PayloadFault.openWith_ne_ok {symmetric : Octets 32}
    (h : PayloadFault config symmetric header ciphertext) (plaintext : Bytes) :
    openWith config symmetric header ciphertext ≠ .ok plaintext := by
  intro hopen
  obtain ⟨aad, haad, hrejected⟩ := h
  obtain ⟨hvalid, rfl⟩ := Header.aad_eq_ok_iff.1 haad
  rw [openWith_eq_decrypt hvalid, hrejected] at hopen
  cases hopen

/-! ## One recipient -/

/-- What may be wrong, for the owner of a private key, behind a simple or single header. -/
inductive FaultForOne (config : Config) (key : PrivateKey) (header : Header)
    (ciphertext : Bytes) : Prop
  /-- The declared length is not that of the ciphertext. -/
  | length {dataLength : UInt64} :
    header.body = .single dataLength → dataLength ≠ UInt64.ofNat ciphertext.length →
    FaultForOne config key header ciphertext
  /-- The ephemeral key is none. -/
  | ephemeral {e : Error} :
    parsePublicKey header.ephemeral.bytes = .error e → FaultForOne config key header ciphertext
  /-- The cipher rejects the payload. -/
  | payload {peer : Curve.Point} {symmetric : Octets 32} :
    parsePublicKey header.ephemeral.bytes = .ok peer →
    config.deriveSymmetricKey (key.agree peer).bytes = .ok symmetric →
    PayloadFault config symmetric header ciphertext → FaultForOne config key header ciphertext

/-- What is done with a simple or single envelope once its header has been read. -/
theorem openForOne_of_split (key : PrivateKey)
    (hsplit : Header.split config envelope = .ok (header, ciphertext))
    (hmode : header.mode ≠ .multiple) :
    (openForOne config key envelope = .error .decryptionFailed
        ∧ ∃ dataLength, header.body = .single dataLength
          ∧ dataLength ≠ UInt64.ofNat ciphertext.length)
      ∨ openForOne config key envelope
        = match parsePublicKey header.ephemeral.bytes with
          | .ok peer => openWith config (key.sharedKey peer) header ciphertext
          | .error _ => .error .decryptionFailed := by
  simp only [openForOne, hsplit, bind, Except.bind, Config.sharedKey_eq]
  cases hbody : header.body with
  | simple => exact Or.inr rfl
  | single dataLength =>
    by_cases hlength : dataLength = UInt64.ofNat ciphertext.length
    · exact Or.inr (if_neg (not_not.2 hlength))
    · exact Or.inl ⟨if_pos hlength, dataLength, rfl, hlength⟩
  | multiple entries => exact absurd (congrArg HeaderBody.mode hbody) hmode

theorem openForOne_of_multiple (hsplit : Header.split config envelope = .ok (header, ciphertext))
    (hmode : header.mode = .multiple) :
    openForOne config key envelope = .error (.unknownTypeTag Mode.multiple.tag) := by
  simp only [openForOne, hsplit, bind, Except.bind]
  cases hbody : header.body with
  | multiple entries => rfl
  | _ => simp [Header.mode, hbody, HeaderBody.mode] at hmode

theorem fault_of_openForOne (hsplit : Header.split config envelope = .ok (header, ciphertext))
    (hmode : header.mode ≠ .multiple) (h : openForOne config key envelope = .error e) :
    e = .decryptionFailed ∧ FaultForOne config key header ciphertext := by
  obtain ⟨hvalid, -⟩ := Header.split_eq_ok_iff.1 hsplit
  rcases openForOne_of_split key hsplit hmode with ⟨hlength, dataLength, hbody, hne⟩ | hopen
  · rw [hlength] at h
    exact ⟨(Except.error.inj h).symm, .length hbody hne⟩
  · rw [hopen] at h
    cases hpeer : parsePublicKey header.ephemeral.bytes with
    | error e' =>
      simp only [hpeer] at h
      exact ⟨(Except.error.inj h).symm, .ephemeral hpeer⟩
    | ok peer =>
      simp only [hpeer] at h
      obtain ⟨he, hpayload⟩ := (openWith_eq_error_iff hvalid).1 h
      exact ⟨he, .payload hpeer (Config.deriveSymmetricKey_agree_eq_ok_iff.2 rfl) hpayload⟩

theorem FaultForOne.openForOne_ne_ok
    (hsplit : Header.split config envelope = .ok (header, ciphertext))
    (h : FaultForOne config key header ciphertext) (plaintext : Bytes) :
    openForOne config key envelope ≠ .ok plaintext := by
  intro hopen
  obtain ⟨header', ciphertext', peer, hsplit', hfits, hpeer, hpayload⟩ :=
    openForOne_eq_ok_iff.1 hopen
  rw [hsplit] at hsplit'
  obtain ⟨rfl, rfl⟩ := Prod.mk.inj (Except.ok.inj hsplit')
  cases h with
  | length hbody hne =>
    rw [hbody] at hfits
    exact hne hfits
  | ephemeral hnot =>
    rw [hpeer] at hnot
    cases hnot
  | payload hpeer' hsymmetric hrejected =>
    rw [hpeer] at hpeer'
    obtain rfl := Except.ok.inj hpeer'
    obtain rfl := Config.deriveSymmetricKey_agree_eq_ok_iff.1 hsymmetric
    exact hrejected.openWith_ne_ok _ hpayload

/-- Behind a simple or single header there is one error, and it comes exactly if there is a
    fault. -/
theorem openForOne_eq_error_iff (hsplit : Header.split config envelope = .ok (header, ciphertext))
    (hmode : header.mode ≠ .multiple) :
    openForOne config key envelope = .error e
      ↔ e = .decryptionFailed ∧ FaultForOne config key header ciphertext :=
  eq_error_iff_of_only (fun _ => fault_of_openForOne hsplit hmode)
    (fun hfault => hfault.openForOne_ne_ok hsplit)

/-! ## Several recipients -/

/-- What may be wrong, for the owner of a private key, behind a header that lists an entry. -/
inductive FaultForId (config : Config) (key : PrivateKey) (header : Header)
    (entry : RecipientEntry) (ciphertext : Bytes) : Prop
  /-- The entry gives no message key. -/
  | entry : KeyWrap.Fault config key header.ephemeral entry →
    FaultForId config key header entry ciphertext
  /-- The cipher rejects the payload. -/
  | payload {messageKey : Octets 32} :
    KeyWrap.unwrap config key header.ephemeral entry = .ok messageKey →
    PayloadFault config messageKey header ciphertext →
    FaultForId config key header entry ciphertext

/-- What is done with an envelope for several recipients once its header has been read. -/
theorem openForId_of_split (hsplit : Header.split config envelope = .ok (header, ciphertext))
    (hmode : header.mode = .multiple) (id : Bytes) :
    openForId config id key envelope
      = match header.find? id with
        | some entry => do
          let messageKey ← KeyWrap.unwrap config key header.ephemeral entry
          openWith config messageKey header ciphertext
        | none => .error .recipientNotFound := by
  obtain ⟨hvalid, rfl⟩ := Header.split_eq_ok_iff.1 hsplit
  cases hbody : header.body with
  | multiple entries =>
    have hfind : header.find? id = entries.find? (·.id = id) := by
      simp only [Header.find?, Header.recipients, hbody]
    have hopen := openForId_octets header ciphertext hbody hvalid key id
    cases hentry : entries.find? (·.id = id) <;> simp only [hopen, hfind, hentry]
  | _ => simp [Header.mode, hbody, HeaderBody.mode] at hmode

theorem openForId_of_mode_ne (hsplit : Header.split config envelope = .ok (header, ciphertext))
    (hmode : header.mode ≠ .multiple) (id : Bytes) :
    openForId config id key envelope = .error (.unknownTypeTag header.mode.tag) := by
  simp only [openForId, hsplit, bind, Except.bind]
  cases hbody : header.body with
  | multiple entries => exact absurd (congrArg HeaderBody.mode hbody) hmode
  | _ => rfl

/-- Behind a header that lists an identifier there is one error, and it comes exactly if there is
    a fault. -/
theorem openForId_eq_error_iff (hsplit : Header.split config envelope = .ok (header, ciphertext))
    (hmode : header.mode = .multiple) {id : Bytes} (hfind : header.find? id = some entry) :
    openForId config id key envelope = .error e
      ↔ e = .decryptionFailed ∧ FaultForId config key header entry ciphertext := by
  obtain ⟨hvalid, -⟩ := Header.split_eq_ok_iff.1 hsplit
  rw [openForId_of_split hsplit hmode, hfind]
  simp only [bind_eq_error, KeyWrap.unwrap_eq_error_iff, openWith_eq_error_iff hvalid]
  constructor
  · intro h
    rcases h with ⟨he, hfault⟩ | ⟨messageKey, hunwrap, he, hpayload⟩
    · exact ⟨he, .entry hfault⟩
    · exact ⟨he, .payload hunwrap hpayload⟩
  · intro ⟨he, hfault⟩
    cases hfault with
    | entry hfault => exact Or.inl ⟨he, hfault⟩
    | payload hunwrap hpayload => exact Or.inr ⟨_, hunwrap, he, hpayload⟩

/-! ## Two keys -/

theorem failsAlike_openForOne (config : Config) (envelope : Bytes) (key key' : PrivateKey) :
    FailsAlike (openForOne config key envelope) (openForOne config key' envelope) := by
  cases hsplit : Header.split config envelope with
  | error e => exact .of_error (bind_eq_error.2 (Or.inl hsplit)) (bind_eq_error.2 (Or.inl hsplit))
  | ok result =>
    obtain ⟨header, ciphertext⟩ := result
    by_cases hmode : header.mode = .multiple
    · exact .of_error (openForOne_of_multiple hsplit hmode) (openForOne_of_multiple hsplit hmode)
    · exact failsAlike_of_only (fun e h => ((openForOne_eq_error_iff hsplit hmode).1 h).1)
        (fun e h => ((openForOne_eq_error_iff hsplit hmode).1 h).1)

theorem failsAlike_openForId (config : Config) (id envelope : Bytes) (key key' : PrivateKey) :
    FailsAlike (openForId config id key envelope) (openForId config id key' envelope) := by
  cases hsplit : Header.split config envelope with
  | error e => exact .of_error (bind_eq_error.2 (Or.inl hsplit)) (bind_eq_error.2 (Or.inl hsplit))
  | ok result =>
    obtain ⟨header, ciphertext⟩ := result
    by_cases hmode : header.mode = .multiple
    · cases hfind : header.find? id with
      | none =>
        rw [openForId_of_split hsplit hmode, openForId_of_split hsplit hmode, hfind]
        exact .refl _
      | some entry =>
        exact failsAlike_of_only (fun e h => ((openForId_eq_error_iff hsplit hmode hfind).1 h).1)
          (fun e h => ((openForId_eq_error_iff hsplit hmode hfind).1 h).1)
    · exact .of_error (openForId_of_mode_ne hsplit hmode id) (openForId_of_mode_ne hsplit hmode id)

theorem failsAlike_decrypt (config : Config) (id : Option Bytes) (envelope : Bytes)
    (key key' : PrivateKey) :
    FailsAlike (decrypt config key.octets.bytes id envelope)
      (decrypt config key'.octets.bytes id envelope) := by
  cases envelope with
  | nil =>
    rw [decrypt, decrypt]
    exact .refl _
  | cons tag rest =>
    rw [decrypt_cons, decrypt_cons]
    refine FailsAlike.bind fun mode _ => ?_
    cases mode with
    | multiple =>
      cases id with
      | none => exact .refl _
      | some id => exact failsAlike_openForId config id (tag :: rest) key key'
    | _ => exact failsAlike_openForOne config (tag :: rest) key key'

theorem decrypt_of_mode_ne (hsplit : Header.split config envelope = .ok (header, ciphertext))
    (hmode : header.mode ≠ .multiple) (id : Option Bytes) :
    decrypt config key.octets.bytes id envelope = openForOne config key envelope := by
  obtain ⟨-, rfl⟩ := Header.split_eq_ok_iff.1 hsplit
  rw [decrypt_octets]
  cases hm : header.mode with
  | multiple => exact absurd hm hmode
  | _ => rfl

theorem decrypt_of_multiple (hsplit : Header.split config envelope = .ok (header, ciphertext))
    (hmode : header.mode = .multiple) (id : Bytes) :
    decrypt config key.octets.bytes (some id) envelope = openForId config id key envelope := by
  obtain ⟨-, rfl⟩ := Header.split_eq_ok_iff.1 hsplit
  rw [decrypt_octets, hmode]

/-- **A failed decryption tells nothing about the key.** Two private keys that both fail to decrypt
    an envelope fail with the same error. Once the header is read, is of the right mode and lists
    the identifier, there is one error whatever the fault behind it: a declared length that is not
    the ciphertext's, an ephemeral key that is none or is not the header's, a wrapped key or a
    payload that the cipher rejects. -/
theorem decrypt_error_independent_of_key (config : Config) (envelope : Bytes) :
    (∀ key key' : PrivateKey,
        (∀ id, FailsAlike (decrypt config key.octets.bytes id envelope)
            (decrypt config key'.octets.bytes id envelope))
          ∧ FailsAlike (decryptForOne config key.octets.bytes envelope)
            (decryptForOne config key'.octets.bytes envelope)
          ∧ ∀ id, FailsAlike (decryptMultiple config id key.octets.bytes envelope)
            (decryptMultiple config id key'.octets.bytes envelope))
      ∧ ∀ header n, Header.decode config envelope = .ok (header, n) →
        ∀ (key : PrivateKey) (e : Error),
          (header.mode ≠ .multiple →
            (decryptForOne config key.octets.bytes envelope = .error e
                ↔ e = .decryptionFailed ∧ FaultForOne config key header (envelope.drop n))
              ∧ ∀ id, decrypt config key.octets.bytes id envelope = .error e
                ↔ e = .decryptionFailed ∧ FaultForOne config key header (envelope.drop n))
          ∧ (header.mode = .multiple → ∀ id entry, header.find? id = some entry →
            (decryptMultiple config id key.octets.bytes envelope = .error e
                ↔ e = .decryptionFailed ∧ FaultForId config key header entry (envelope.drop n))
              ∧ (decrypt config key.octets.bytes (some id) envelope = .error e
                ↔ e = .decryptionFailed
                  ∧ FaultForId config key header entry (envelope.drop n))) := by
  refine ⟨?_, ?_⟩
  · intro key key'
    simp only [decryptForOne_octets, decryptMultiple_octets]
    exact ⟨fun id => failsAlike_decrypt config id envelope key key',
      failsAlike_openForOne config envelope key key',
      fun id => failsAlike_openForId config id envelope key key'⟩
  · intro header n hdecode key e
    have hsplit : Header.split config envelope = .ok (header, envelope.drop n) :=
      Header.split_eq_ok_iff_decode.2 ⟨n, hdecode, rfl⟩
    refine ⟨?_, ?_⟩
    · intro hmode
      rw [decryptForOne_octets]
      refine ⟨openForOne_eq_error_iff hsplit hmode, fun id => ?_⟩
      rw [decrypt_of_mode_ne hsplit hmode]
      exact openForOne_eq_error_iff hsplit hmode
    · intro hmode id entry hfind
      rw [decryptMultiple_octets, decrypt_of_multiple hsplit hmode]
      exact ⟨openForId_eq_error_iff hsplit hmode hfind, openForId_eq_error_iff hsplit hmode hfind⟩

/-- An envelope that declares another length than it has, and one that lists a recipient with an
    ephemeral key of zeros. -/
theorem decrypt_error_independent_of_key_two_modes :
    let key : PrivateKey := ⟨1, by decide, by decide⟩
    let key' : PrivateKey := ⟨2, by decide, by decide⟩
    ∃ one many id : Bytes,
      decryptForOne .standard key.octets.bytes one = .error .decryptionFailed
        ∧ FailsAlike (decryptForOne .standard key.octets.bytes one)
          (decryptForOne .standard key'.octets.bytes one)
        ∧ decryptMultiple .standard id key.octets.bytes many = .error .decryptionFailed
        ∧ decrypt .standard key'.octets.bytes (some id) many = .error .decryptionFailed := by
  intro key key'
  let entry : RecipientEntry :=
    { id := List.replicate 12 7
      wrappedKey :=
        { ephemeral := .zero 65, iv := .zero 16, tag := .zero 16, encryptedKey := .zero 32 } }
  let headerOf (body : HeaderBody) : Header :=
    { ephemeral := .zero 33, iv := .zero 16, tag := .zero 16, body }
  let envelopeOf (body : HeaderBody) : Bytes := (headerOf body).octets ++ [1, 2]
  have hdecode (body : HeaderBody) (hvalid : body.Valid .standard) :
      Header.decode .standard (envelopeOf body)
        = .ok (headerOf body, (headerOf body).octets.length) :=
    Header.decode_eq_ok_iff.2 ⟨hvalid, rfl, List.prefix_append _ _⟩
  have hmany : HeaderBody.Valid .standard (.multiple [entry]) :=
    { pos := by decide, le_max := by decide, nodup := by decide, idSize := by decide }
  have hlength : FaultForOne .standard key (headerOf (.single 3))
      ((envelopeOf (.single 3)).drop (headerOf (.single 3)).octets.length) := by
    refine .length (rfl : (headerOf (.single 3)).body = .single 3) ?_
    rw [List.drop_left]
    decide
  have hentry (key : PrivateKey) (ciphertext : Bytes) :
      FaultForId .standard key (headerOf (.multiple [entry])) entry ciphertext :=
    .entry (.embedded (e := .invalidKey "public" "uncompressed key must start with 0x04, got 0x00")
      (by decide +kernel))
  obtain ⟨hkeys, hone⟩ := decrypt_error_independent_of_key .standard (envelopeOf (.single 3))
  obtain ⟨-, hlisted⟩ :=
    decrypt_error_independent_of_key .standard (envelopeOf (.multiple [entry]))
  have hforId (key : PrivateKey) :=
    (hlisted _ _ (hdecode (.multiple [entry]) hmany) key .decryptionFailed).2 rfl entry.id entry
      (by decide +kernel)
  refine ⟨_, envelopeOf (.multiple [entry]), entry.id, ?_, (hkeys key key').2.1, ?_, ?_⟩
  · exact ((hone _ _ (hdecode (.single 3) trivial) key .decryptionFailed).1 (by decide)).1.2
      ⟨rfl, hlength⟩
  · exact (hforId key).1.2 ⟨rfl, hentry key _⟩
  · exact (hforId key').2.2 ⟨rfl, hentry key' _⟩

end Envelope

end SealedEnvelope
