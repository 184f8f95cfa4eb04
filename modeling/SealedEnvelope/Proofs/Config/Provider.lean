import SealedEnvelope.Proofs.Config.Document
import SealedEnvelope.Proofs.Config.WireConstants
import SealedEnvelope.Proofs.Envelope
import SealedEnvelope.Proofs.Identifier
import SealedEnvelope.Proofs.Stream.Header

set_option autoImplicit false

/-! # Configurations fitted to a provider

A configuration can be fitted to every provider but a custom one whose length is out of bounds
(`Config.exists_forProvider_iff`): the overrides change the provider and both widths together, and
no other rule looks at these. Identifiers that the provider issues then have the width of the
recipient table, so that recipients under such identifiers are admitted and listed
(`Config.forProvider_fits`). -/

namespace SealedEnvelope

/-! ## The fitted settings -/

/-- The length of a provider's identifiers is a machine number. -/
theorem IdProvider.toNat_byteLength (p : IdProvider) :
    (UInt64.ofNat p.byteLength).toNat = p.byteLength := by
  cases p with
  | custom length => exact congrArg UInt64.toNat UInt64.ofNat_toNat
  | _ => rfl

namespace Settings

/-- The standard settings with all sizes of identifiers fitted to a provider. -/
def fittedTo (p : IdProvider) : Settings :=
  { standard with
    idProvider := p
    memberIdLength := UInt64.ofNat p.byteLength
    multiple := { standard.multiple with idSize := UInt64.ofNat p.byteLength } }

theorem merge_providerOverrides (p : IdProvider) :
    Config.standard.document.merge (Config.providerOverrides p) = codec.encode (fittedTo p) := by
  cases p <;> rfl

/-- Only the rule for custom lengths can be broken by fitted settings. -/
theorem violations_fittedTo_eq_nil_iff (p : IdProvider) :
    (fittedTo p).violations = [] ↔ p.check = .ok () := by
  obtain ⟨-, halgorithm, hprofiles, hframe, hchunks⟩ :=
    (violations_eq_nil_iff standard).1 Config.standard.violations_eq_nil
  rw [violations_eq_nil_iff, IdProvider.check_eq_ok_iff]
  constructor
  · rintro ⟨hids, -⟩
    exact hids.custom
  · intro hcustom
    refine ⟨⟨hcustom, p.toNat_byteLength, p.toNat_byteLength⟩, ?_, hprofiles, ?_, ?_⟩
    · exact { halgorithm with }
    · exact { hframe with }
    · exact { hchunks with }

end Settings

namespace Config

variable {p : IdProvider} {config : Config}

theorem forProvider_eq_ok_iff :
    forProvider p = .ok config ↔ p.check = .ok () ∧ config.settings = .fittedTo p := by
  have hobject : ∃ members, providerOverrides p = .object members := ⟨_, rfl⟩
  rw [forProvider, build, buildFrom_eq_ok_iff, and_iff_right hobject,
    Settings.merge_providerOverrides, Settings.lawful_codec,
    ← Settings.violations_fittedTo_eq_nil_iff, ← ofSettings_eq_ok_iff]
  constructor
  · rintro ⟨s, hs, h⟩
    obtain rfl := Except.ok.inj hs
    exact h
  · intro h
    exact ⟨_, rfl, h⟩

/-- A configuration can be fitted to every provider that passes its own check. -/
theorem exists_forProvider_iff (p : IdProvider) :
    (∃ config, forProvider p = .ok config) ↔ p.check = .ok () := by
  constructor
  · rintro ⟨config, h⟩
    exact (forProvider_eq_ok_iff.1 h).1
  · intro h
    have haccepted := Settings.battery_eq_ok_nil_iff.2
      ((Settings.violations_fittedTo_eq_nil_iff p).2 h)
    exact ⟨⟨.fittedTo p, haccepted⟩, forProvider_eq_ok_iff.2 ⟨h, rfl⟩⟩

theorem idSize_of_forProvider (h : forProvider p = .ok config) : config.idSize = p.byteLength := by
  rw [idSize, (forProvider_eq_ok_iff.1 h).2]
  exact p.toNat_byteLength

/-! ## Recipients under issued identifiers -/

/-- Of recipients under different identifiers that the provider issues only the number matters. -/
theorem admits_iff_of_issued (h : forProvider p = .ok config) {recipients : List Recipient}
    (hissued : ∀ r ∈ recipients, p.Issued r.id) (hnodup : (recipients.map (·.id)).Nodup) :
    config.Admits recipients
      ↔ 1 ≤ recipients.length ∧ recipients.length ≤ config.maxRecipients := by
  constructor
  · intro hadmits
    exact ⟨hadmits.pos, hadmits.le_max⟩
  · rintro ⟨hpos, hle⟩
    refine ⟨hpos, hle, fun r hr => ?_, hnodup⟩
    rw [idSize_of_forProvider h]
    exact IdProvider.length_of_isValid ((hissued r hr).isValid (forProvider_eq_ok_iff.1 h).1)

/-- **Identifiers have the width of the recipient table.** A configuration can be fitted to every
    provider but a custom one whose length is out of bounds. Under such a configuration whatever the
    provider draws or reads from a text is valid, has the table's width, and has a text that reads
    back. Recipients under different ones pass the checks exactly if there are from one to as many
    as the configuration allows, and then they can be written into the headers of envelopes and
    streams and encrypted for. -/
theorem forProvider_fits (p : IdProvider) :
    ((∃ config, forProvider p = .ok config)
        ↔ ∀ length, p = .custom length → 1 ≤ length.toNat ∧ length.toNat ≤ 255)
      ∧ ∀ config, forProvider p = .ok config →
        (∀ clock tape, p.drawSize ≤ tape.length → ∃ id rest, p.draw clock tape = some (id, rest))
          ∧ (∀ id, p.Issued id → p.isValid id ∧ id.length = config.idSize
            ∧ ∃ text, p.toText id = .ok text ∧ p.ofText text = .ok id)
          ∧ ∀ recipients : List Recipient, (∀ r ∈ recipients, p.Issued r.id) →
            (recipients.map (·.id)).Nodup →
            (config.checkRecipients recipients = .ok ()
                ↔ 1 ≤ recipients.length ∧ recipients.length ≤ config.maxRecipients)
              ∧ (1 ≤ recipients.length → recipients.length ≤ config.maxRecipients →
                (∀ entries : List RecipientEntry, entries.map (·.id) = recipients.map (·.id) →
                  (∀ header : Header, header.body = .multiple entries →
                    ∃ bytes, header.encode config = .ok bytes)
                  ∧ ∀ header : Stream.Header, header.recipients = some entries →
                    ∃ bytes, header.encode config = .ok bytes)
                ∧ (Readable recipients → ∀ plaintext tape ephemeral rest,
                  Draw.privateKey tape = some (ephemeral, rest) →
                  48 + recipients.length * 16 ≤ rest.length →
                  ∃ envelope tape',
                    (Envelope.encryptMultiple config recipients plaintext).run tape
                      = some (.ok envelope, tape'))) := by
  refine ⟨(exists_forProvider_iff p).trans IdProvider.check_eq_ok_iff, fun config h => ?_⟩
  have hcheck := (forProvider_eq_ok_iff.1 h).1
  refine ⟨fun clock tape htape => ?_, fun id hissued => ?_, fun recipients hissued hnodup => ?_⟩
  · obtain ⟨id, hid⟩ := p.takes_draw clock tape htape
    exact ⟨id, _, hid⟩
  · have hvalid := hissued.isValid hcheck
    refine ⟨hvalid, ?_, IdProvider.exists_toText hvalid⟩
    rw [idSize_of_forProvider h]
    exact IdProvider.length_of_isValid hvalid
  · have hiff := admits_iff_of_issued h hissued hnodup
    refine ⟨checkRecipients_eq_ok_iff.trans hiff, fun hpos hle => ?_⟩
    have hadmits := hiff.2 ⟨hpos, hle⟩
    refine ⟨fun entries hids => ⟨?_, ?_⟩, ?_⟩
    · intro header hbody
      have hvalid : header.body.Valid config := by
        rw [hbody]
        exact hadmits.valid_table hids
      exact ⟨_, Header.encode_eq_ok_iff.2 ⟨hvalid, rfl⟩⟩
    · intro header hrecipients
      have hvalid : Stream.Header.ValidTable config header.recipients := by
        rw [hrecipients]
        exact hadmits.valid_table hids
      exact ⟨_, Stream.Header.encode_eq_ok_iff.2 ⟨hvalid, rfl⟩⟩
    · intro hreadable plaintext tape ephemeral rest hdraw hrest
      obtain ⟨header, ciphertext, _, _, tape', hrun, -⟩ :=
        Envelope.exists_sealed_for_many hadmits hreadable hdraw hrest
      exact ⟨_, tape', hrun⟩

/-- An identifier of two octets that is drawn, and one that is read from a text. -/
theorem forProvider_fits_two_octets :
    let p : IdProvider := .custom 2
    let key : PrivateKey := ⟨2, by decide, by decide⟩
    let recipients : List Recipient :=
      [⟨[1, 2], key.publicKey.compressed.bytes⟩, ⟨[0xab, 0xcd], key.publicKey.uncompressed.bytes⟩]
    let tape : Tape := List.replicate 31 0 ++ 1 :: List.replicate 80 0
    ∃ config, forProvider p = .ok config
      ∧ (∀ r ∈ recipients, r.id.length = config.idSize)
      ∧ config.checkRecipients recipients = .ok ()
      ∧ ∃ envelope tape',
        (Envelope.encryptMultiple config recipients [1, 2, 3]).run tape
          = some (.ok envelope, tape') := by
  intro p key recipients tape
  have hdraw : Draw.privateKey tape = some (⟨1, by decide, by decide⟩, List.replicate 80 0) := by
    decide +kernel
  have hreadable : Readable recipients := by
    simp only [recipients, Readable, List.forall_mem_cons]
    exact ⟨⟨_, parsePublicKey_publicKey .compressed⟩, ⟨_, parsePublicKey_publicKey .uncompressed⟩,
      by simp⟩
  have hissued : ∀ r ∈ recipients, p.Issued r.id := by
    have hdrawn : p.draw 0 [1, 2] = some ([1, 2], []) := rfl
    have hread : p.ofText "abCD" = .ok [0xab, 0xcd] := by decide +kernel
    simp only [recipients, List.forall_mem_cons]
    exact ⟨.drawn hdrawn, .read hread, by simp⟩
  obtain ⟨hexists, hfits⟩ := forProvider_fits p
  have hbounds : ∀ length, p = .custom length → 1 ≤ length.toNat ∧ length.toNat ≤ 255 := by
    intro length hlength
    obtain rfl := IdProvider.custom.inj hlength
    decide
  obtain ⟨config, h⟩ := hexists.2 hbounds
  have hmax : config.maxRecipients = 65535 := by
    rw [maxRecipients, (forProvider_eq_ok_iff.1 h).2]
    rfl
  obtain ⟨-, hids, hmany⟩ := hfits config h
  obtain ⟨hcheck, hwritten⟩ := hmany recipients hissued (by decide)
  have hle : recipients.length ≤ config.maxRecipients := by
    rw [hmax]
    decide
  obtain ⟨-, hencrypt⟩ := hwritten (by decide) hle
  obtain ⟨envelope, tape', hrun⟩ := hencrypt hreadable [1, 2, 3] tape _ _ hdraw (by decide)
  exact ⟨config, h, fun r hr => (hids r.id (hissued r hr)).2.1, hcheck.2 ⟨by decide, hle⟩,
    envelope, tape', hrun⟩

end Config

end SealedEnvelope
