import SealedEnvelope.Config
import SealedEnvelope.Proofs.Json.Codec

set_option autoImplicit false

/-! # Configurations as documents

The fields of every part of a settings document are independent of each other, so each part reads
back as what was written, and so does the whole document (`Settings.lawful_codec`). The document of
a configuration therefore describes that configuration (`Config.ofDocument_document`). -/

namespace SealedEnvelope

open Json.Codec

/-! ## The parts -/

theorem IdProvider.lawful_codec : IdProvider.codec.Lawful := by
  intro provider
  cases provider with
  | custom length => exact congrArg (Except.map IdProvider.custom) (lawful_size length)
  | _ => rfl

theorem CipherSettings.lawful_codec : CipherSettings.codec.Lawful :=
  lawful_record
    { find := by simp
      read := by simp [lawful_string.read_of, lawful_size.read_of]
      ext := by
        rintro ⟨⟩ ⟨⟩
        simp [lawful_string.encode_inj, lawful_size.encode_inj] }

theorem PublicKeySettings.lawful_codec : PublicKeySettings.codec.Lawful :=
  lawful_record
    { find := by simp
      read := by simp [lawful_size.read_of, lawful_octet.read_of]
      ext := by
        rintro ⟨⟩ ⟨⟩
        simp [lawful_size.encode_inj, lawful_octet.encode_inj] }

theorem SimpleSettings.lawful_codec : SimpleSettings.codec.Lawful :=
  lawful_record
    { find := by simp
      read := by simp [lawful_size.read_of]
      ext := by
        rintro ⟨⟩ ⟨⟩
        simp [lawful_size.encode_inj] }

theorem SingleSettings.lawful_codec : SingleSettings.codec.Lawful :=
  lawful_record
    { find := by simp
      read := by simp [lawful_size.read_of]
      ext := by
        rintro ⟨⟩ ⟨⟩
        simp [lawful_size.encode_inj] }

theorem MultipleSettings.lawful_codec : MultipleSettings.codec.Lawful :=
  lawful_record
    { find := by simp
      read := by simp [lawful_size.read_of]
      ext := by
        rintro ⟨⟩ ⟨⟩
        simp [lawful_size.encode_inj] }

theorem StreamSettings.lawful_codec : StreamSettings.codec.Lawful :=
  lawful_record
    { find := by simp
      read := by simp [lawful_size.read_of]
      ext := by
        rintro ⟨⟩ ⟨⟩
        simp [lawful_size.encode_inj] }

theorem PasswordProfile.lawful_codec : PasswordProfile.codec.Lawful :=
  lawful_record
    { find := by simp
      read := by simp [lawful_string.read_of, lawful_size.read_of, lawful_count.read_of]
      ext := by
        rintro ⟨⟩ ⟨⟩
        simp [lawful_string.encode_inj, lawful_size.encode_inj, lawful_count.encode_inj] }

/-! ## The whole -/

theorem lawful_derivationPath : (optional string).Lawful :=
  lawful_string.optional fun _ h => by cases h

theorem lawful_profiles : (nameMap PasswordProfile.codec).Lawful :=
  PasswordProfile.lawful_codec.nameMap

/-- The parts of a settings document are independent of each other. -/
theorem Settings.laws_codec : Settings.codec.Lawful ∧ Settings.codec.Listed :=
  laws_record
    { find := by simp
      read := by
        simp [lawful_string.read_of, lawful_size.read_of, lawful_derivationPath.read_of,
          CipherSettings.lawful_codec.read_of, PublicKeySettings.lawful_codec.read_of,
          SimpleSettings.lawful_codec.read_of, SingleSettings.lawful_codec.read_of,
          MultipleSettings.lawful_codec.read_of, IdProvider.lawful_codec.read_of,
          lawful_profiles.read_of, StreamSettings.lawful_codec.read_of]
      ext := by
        rintro ⟨⟩ ⟨⟩
        simp [lawful_string.encode_inj, lawful_size.encode_inj, lawful_derivationPath.encode_inj,
          CipherSettings.lawful_codec.encode_inj, PublicKeySettings.lawful_codec.encode_inj,
          SimpleSettings.lawful_codec.encode_inj, SingleSettings.lawful_codec.encode_inj,
          MultipleSettings.lawful_codec.encode_inj, IdProvider.lawful_codec.encode_inj,
          lawful_profiles.encode_inj, StreamSettings.lawful_codec.encode_inj] }

/-- A settings document reads back as what was written. -/
theorem Settings.lawful_codec : Settings.codec.Lawful := laws_codec.1

/-- A configuration is read from the settings that a document describes, if they are accepted. -/
theorem Config.ofDocument_of_decode {document : Json} {config : Config}
    (h : Settings.codec.decode document = .ok config.settings) :
    Config.ofDocument document = .ok config := by
  rw [ofDocument, h]
  exact accept_eq_ok_iff.2 ⟨config.accepted, rfl⟩

/-- The document of a configuration describes it. -/
theorem Config.ofDocument_document (config : Config) :
    Config.ofDocument config.document = .ok config :=
  ofDocument_of_decode (Settings.lawful_codec config.settings)

end SealedEnvelope
