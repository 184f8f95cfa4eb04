import SealedEnvelope.Proofs.Config.Document
import SealedEnvelope.Proofs.Json.Schema

set_option autoImplicit false

/-! # Unknown names in overrides

The names that a settings document may use are those of its parts (`Settings.schema`), with any
names for the password profiles. Every part refuses other names but one: beside the parameters of a
custom provider anything may stand, and nothing of it is read (`Settings.decode_withoutStray`).
Overrides keep their names when they are laid over a document, so a name that may not be used is
refused wherever in the overrides it stands (`Config.unknown_names_in_overrides`). -/

namespace SealedEnvelope

open Json (Schema)
open Json.Codec

/-! ## The schema of a settings document -/

/-- Providers: a name alone, or a name with what stands under it. -/
def IdProvider.schema (custom : Schema) : Schema :=
  .object [("object_id", .plain), ("guid_v4", .plain), ("uuid", .plain), ("custom", custom)] none

/-- The parameters of a custom provider. -/
def IdProvider.parameters : Schema := .object [("byte_length", .plain)] none

/-- The parameters of a custom provider among any other members. -/
def IdProvider.looseParameters : Schema := .object [("byte_length", .plain)] (some .anything)

/-- The names of a settings document, given those of a custom provider's parameters. Password
    profiles may have any names. -/
def Settings.schema (custom : Schema) : Schema :=
  .record
    [("curve_name", .plain),
     ("primary_key_derivation_path", .plain),
     ("symmetric", .flat ["algorithm", "mode", "key_bits", "key_size"]),
     ("iv_size", .plain),
     ("auth_tag_size", .plain),
     ("public_key", .flat
       ["raw_public_key_length", "public_key_length", "compressed_public_key_length",
        "public_key_magic"]),
     ("simple", .flat ["fixed_overhead_size"]),
     ("single", .flat ["fixed_overhead_size", "data_length_size"]),
     ("multiple", .flat
       ["fixed_overhead_size", "encrypted_key_size", "recipient_id_size", "recipient_count_size",
        "max_recipients"]),
     ("member_id_length", .plain),
     ("id_provider", IdProvider.schema custom),
     ("pbkdf2_profiles", .map (.flat ["hash_bytes", "salt_bytes", "iterations", "algorithm"])),
     ("stream", .flat ["chunk_size", "max_chunk_size"])]

/-! ## The parts respect it -/

namespace IdProvider

theorem member?_of_ofName? {name : String} {provider : IdProvider} (custom : Schema)
    (h : ofName? name = some provider) : (schema custom).member? name = some .plain := by
  have hname : provider.name = name := by simpa using List.find?_some h
  have hmem : provider ∈ [objectId, guid, uuid] := List.mem_of_find?_eq_some h
  subst hname
  simp only [List.mem_cons, List.not_mem_nil, or_false] at hmem
  rcases hmem with rfl | rfl | rfl <;> rfl

theorem member?_looseParameters (name : String) :
    looseParameters.member? name = some (if name = "byte_length" then .plain else .anything) := by
  by_cases h : name = "byte_length"
  · simp [looseParameters, Schema.member?, Schema.findIn, h]
  · simp [looseParameters, Schema.member?, Schema.findIn, h, Ne.symm h]

/-- The parameters of a custom provider are read from the one member. -/
theorem not_hasUnknown_of_decodeCustom {members : Json.Members} {provider : IdProvider}
    (h : decodeCustom members = .ok provider) : ¬looseParameters.HasUnknown (.object members) := by
  intro hunknown
  cases hunknown with
  | here _ hnone =>
    rw [member?_looseParameters] at hnone
    cases hnone
  | under hmember hnext hunknown =>
    rw [member?_looseParameters, Option.some.injEq] at hnext
    split at hnext
    · next hname =>
      rw [hname, Json.member?_object] at hmember
      rw [decodeCustom, hmember] at h
      obtain ⟨n, hn, -⟩ := map_eq_ok.1 h
      exact respects_size _ n hn hunknown
    · subst hnext
      exact Schema.not_hasUnknown_anything hunknown

/-- A provider's name is known, and with it what stands under it. -/
theorem exists_member?_of_decodeVariant {name : String} {value : Json} {provider : IdProvider}
    (h : decodeVariant name (some value) = .ok provider) :
    ∃ next, (schema looseParameters).member? name = some next ∧ ¬next.HasUnknown value := by
  unfold decodeVariant at h
  split at h
  · next known hknown =>
    refine ⟨.plain, member?_of_ofName? _ hknown, ?_⟩
    cases value with
    | null => exact Schema.not_hasUnknown_null
    | _ => cases h
  · split at h
    · next hname =>
      refine ⟨looseParameters, by rw [hname]; rfl, ?_⟩
      cases value with
      | object members => exact not_hasUnknown_of_decodeCustom h
      | _ => cases h
    · cases h

theorem respects_codec : IdProvider.codec.Respects (schema looseParameters) := by
  intro document provider h hunknown
  cases document with
  | string s => exact Schema.not_hasUnknown_string hunknown
  | object members =>
    match members, h with
    | [(name, value)], h =>
      obtain ⟨next, hnext, hknown⟩ := exists_member?_of_decodeVariant h
      -- the object has this member only
      have honly : ∀ {other found}, (Json.object [(name, value)]).member? other = some found →
          other = name ∧ found = value := by
        intro other found hfound
        rw [Json.member?_object, Json.Members.find?] at hfound
        split at hfound
        · next heq => exact ⟨heq.symm, (Option.some.inj hfound).symm⟩
        · cases hfound
      cases hunknown with
      | here hmember hnone =>
        obtain ⟨rfl, rfl⟩ := honly hmember
        rw [hnone] at hnext
        cases hnext
      | under hmember hnext' hunknown =>
        obtain ⟨rfl, rfl⟩ := honly hmember
        obtain rfl := Option.some.inj (hnext.symm.trans hnext')
        exact hknown hunknown
    | [], h => cases h
    | _ :: _ :: _, h => cases h
  | _ => cases h

end IdProvider

theorem CipherSettings.respects_codec :
    CipherSettings.codec.Respects (.flat ["algorithm", "mode", "key_bits", "key_size"]) :=
  respects_record <| respects_string.field <| respects_string.field <| respects_size.field <|
    respects_size.field .nil

theorem PublicKeySettings.respects_codec :
    PublicKeySettings.codec.Respects (.flat
      ["raw_public_key_length", "public_key_length", "compressed_public_key_length",
        "public_key_magic"]) :=
  respects_record <| respects_size.field <| respects_size.field <| respects_size.field <|
    respects_octet.field .nil

theorem SimpleSettings.respects_codec :
    SimpleSettings.codec.Respects (.flat ["fixed_overhead_size"]) :=
  respects_record <| respects_size.field .nil

theorem SingleSettings.respects_codec :
    SingleSettings.codec.Respects (.flat ["fixed_overhead_size", "data_length_size"]) :=
  respects_record <| respects_size.field <| respects_size.field .nil

theorem MultipleSettings.respects_codec :
    MultipleSettings.codec.Respects (.flat
      ["fixed_overhead_size", "encrypted_key_size", "recipient_id_size", "recipient_count_size",
        "max_recipients"]) :=
  respects_record <| respects_size.field <| respects_size.field <| respects_size.field <|
    respects_size.field <| respects_size.field .nil

theorem StreamSettings.respects_codec :
    StreamSettings.codec.Respects (.flat ["chunk_size", "max_chunk_size"]) :=
  respects_record <| respects_size.field <| respects_size.field .nil

theorem PasswordProfile.respects_codec :
    PasswordProfile.codec.Respects (.flat
      ["hash_bytes", "salt_bytes", "iterations", "algorithm"]) :=
  respects_record <| respects_size.field <| respects_size.field <| respects_count.field <|
    respects_string.field .nil

theorem Settings.respects_codec :
    Settings.codec.Respects (Settings.schema IdProvider.looseParameters) :=
  respects_record <| respects_string.field <| respects_string.optional.fieldMayMiss <|
    CipherSettings.respects_codec.field <| respects_size.field <| respects_size.field <|
    PublicKeySettings.respects_codec.field <| SimpleSettings.respects_codec.field <|
    SingleSettings.respects_codec.field <| MultipleSettings.respects_codec.field <|
    respects_size.field <| IdProvider.respects_codec.field <|
    PasswordProfile.respects_codec.nameMap.field <| StreamSettings.respects_codec.field .nil

/-! ## Beside the parameters -/

namespace IdProvider

/-- A provider without what stands beside the parameters of a custom one. -/
def withoutStray : Json → Json
  | .object [(name, .object members)] =>
    if name = "custom" then .object [(name, .object (members.filter (·.1 = "byte_length")))]
    else .object [(name, .object members)]
  | value => value

theorem find?_filter_self (name : String) (members : Json.Members) :
    Json.Members.find? name (members.filter (·.1 = name)) = Json.Members.find? name members := by
  induction members with
  | nil => rfl
  | cons m rest ih => by_cases h : m.1 = name <;> simp [Json.Members.find?, h, ih]

/-- What stands beside the parameters is not looked at. -/
theorem decode_withoutStray (value : Json) :
    IdProvider.codec.decode (withoutStray value) = IdProvider.codec.decode value := by
  unfold withoutStray
  split
  · next name members =>
    split
    · next hname =>
      subst hname
      have hdecode : ∀ ms, IdProvider.codec.decode (.object [("custom", .object ms)])
          = decodeCustom ms := fun _ => rfl
      rw [hdecode, hdecode, decodeCustom, decodeCustom, find?_filter_self]
    · rfl
  · rfl

end IdProvider

namespace Settings

/-- A settings document without what stands beside the parameters of a custom provider. -/
def withoutStray : Json → Json
  | .object members =>
    .object (Json.Members.mapValues
      (fun name value => if name = "id_provider" then IdProvider.withoutStray value else value)
      members)
  | value => value

/-- The settings that are read are those without it. -/
theorem decode_withoutStray (document : Json) :
    codec.decode (withoutStray document) = codec.decode document := by
  cases document with
  | object members =>
    refine decode_record_mapValues ?_ members
    intro name field hfield value s
    split
    · next hname =>
      subst hname
      obtain rfl := Option.some.inj hfield
      exact congrArg (Except.map _) (IdProvider.decode_withoutStray value)
    · rfl
  | _ => rfl

/-- A custom provider has something beside its parameters. -/
def HasStray (document : Json) : Prop :=
  ∃ name value, name ≠ "byte_length" ∧ document.at? ["id_provider", "custom", name] = some value

end Settings

/-! ## Unknown names in overrides -/

namespace IdProvider

theorem exists_of_hasUnknown_parameters {value : Json} (h : parameters.HasUnknown value) :
    looseParameters.HasUnknown value
      ∨ ∃ name found, name ≠ "byte_length" ∧ value.member? name = some found := by
  cases h with
  | @here _ _ found name hmember hnone =>
    refine Or.inr ⟨name, found, ?_, hmember⟩
    rintro rfl
    cases hnone
  | @under _ next _ found name hmember hnext hunknown =>
    by_cases hname : name = "byte_length"
    · refine Or.inl (.under hmember ?_ hunknown)
      rw [member?_looseParameters, if_pos hname]
      subst hname
      exact hnext
    · exact Or.inr ⟨name, found, hname, hmember⟩
  | item hitem hunknown => exact Or.inl (.item hitem hunknown)

theorem exists_of_hasUnknown {value : Json} (h : (schema parameters).HasUnknown value) :
    (schema looseParameters).HasUnknown value
      ∨ ∃ name found, name ≠ "byte_length" ∧ value.at? ["custom", name] = some found := by
  cases hobject : value.isObject with
  | false =>
    cases h with
    | here hmember _ => rw [Json.isObject_of_member? hmember] at hobject; cases hobject
    | under hmember _ _ => rw [Json.isObject_of_member? hmember] at hobject; cases hobject
    | item hitem hunknown => exact Or.inl (.item hitem hunknown)
  | true =>
    have heq : ∀ n, n ≠ "custom" →
        (schema parameters).member? n = (schema looseParameters).member? n := by
      intro n hn
      simp [schema, Schema.member?, Schema.findIn, List.find?_cons, Ne.symm hn]
    rcases h.of_eq_but hobject rfl heq with h | ⟨custom, hcustom, h⟩
    · exact Or.inl h
    · rcases exists_of_hasUnknown_parameters h with h | ⟨name, found, hname, hfound⟩
      · exact Or.inl (.under hcustom rfl h)
      · refine Or.inr ⟨name, found, hname, ?_⟩
        rw [Json.at?_cons, hcustom, Option.bind_some, Json.at?_cons, hfound]
        rfl

end IdProvider

namespace Settings

/-- An unknown name stands beside the parameters of a custom provider, or it is unknown whatever
    may stand there. -/
theorem hasStray_or_of_hasUnknown {document : Json} (hobject : document.isObject = true)
    (h : (schema IdProvider.parameters).HasUnknown document) :
    (schema IdProvider.looseParameters).HasUnknown document ∨ HasStray document := by
  have heq : ∀ n, n ≠ "id_provider" → (schema IdProvider.parameters).member? n
      = (schema IdProvider.looseParameters).member? n := by
    intro n hn
    simp [schema, Schema.member?, Schema.findIn, List.find?_cons, Ne.symm hn]
  rcases h.of_eq_but hobject rfl heq with h | ⟨provider, hprovider, h⟩
  · exact Or.inl h
  · rcases IdProvider.exists_of_hasUnknown h with h | ⟨name, found, hname, hfound⟩
    · exact Or.inl (.under hprovider rfl h)
    · refine Or.inr ⟨name, found, hname, ?_⟩
      rw [Json.at?_cons, hprovider, Option.bind_some, hfound]

end Settings

namespace Config

/-- Overrides with a name that may not be used are refused, whatever they are laid over. -/
theorem buildFrom_eq_error_of_hasUnknown (base : Config) {overrides : Json}
    (hdistinct : overrides.Distinct)
    (h : (Settings.schema IdProvider.looseParameters).HasUnknown overrides) :
    ∃ reason, base.buildFrom overrides = .error (.returned (.invalidOverride reason)) := by
  unfold buildFrom
  split
  · next members =>
    split
    · next settings hdecode =>
      exact absurd (h.merge hdistinct base.document) (Settings.respects_codec _ settings hdecode)
    · exact ⟨_, rfl⟩
  · exact ⟨_, rfl⟩

/-- **Unknown names in overrides.** Overrides that use, in whatever depth, a name that a settings
    document does not have at that place are refused, unless the name stands beside the parameters
    of a custom provider. What stands there is dropped: with it the same is read as without it. -/
theorem unknown_names_in_overrides (base : Config) {overrides : Json}
    (hdistinct : overrides.Distinct)
    (h : (Settings.schema IdProvider.parameters).HasUnknown overrides) :
    (∃ reason, base.buildFrom overrides = .error (.returned (.invalidOverride reason)))
      ∨ ¬(Settings.schema IdProvider.looseParameters).HasUnknown overrides
        ∧ Settings.HasStray overrides
        ∧ Settings.codec.decode (Settings.withoutStray (base.document.merge overrides))
            = Settings.codec.decode (base.document.merge overrides) := by
  by_cases hloose : (Settings.schema IdProvider.looseParameters).HasUnknown overrides
  · exact Or.inl (buildFrom_eq_error_of_hasUnknown base hdistinct hloose)
  · cases hobject : overrides.isObject with
    | false =>
      refine Or.inl ⟨"overrides must be a JSON object", ?_⟩
      cases overrides with
      | object members => cases hobject
      | _ => rfl
    | true =>
      refine Or.inr ⟨hloose, ?_, Settings.decode_withoutStray _⟩
      exact (Settings.hasStray_or_of_hasUnknown hobject h).resolve_left hloose

/-- A parameter that password profiles do not have, in a profile that the base does not have. -/
theorem unknown_names_in_overrides_profile :
    let overrides := Json.object
      [("pbkdf2_profiles", .object
        [("mobile", .object [("hash_bytes", Json.ofNat 32), ("cost", Json.ofNat 3)])])]
    overrides.Distinct
      ∧ (Settings.schema IdProvider.parameters).HasUnknown overrides
      ∧ ∃ reason, standard.buildFrom overrides = .error (.returned (.invalidOverride reason)) := by
  intro overrides
  have hdistinct : overrides.Distinct := by simp [overrides, Json.ofNat]
  have hunknown : (Settings.schema IdProvider.parameters).HasUnknown overrides :=
    @Schema.HasUnknown.under _ _ _ _ "pbkdf2_profiles" rfl rfl <|
      @Schema.HasUnknown.under _ _ _ _ "mobile" rfl rfl <|
        @Schema.HasUnknown.here _ _ _ "cost" rfl rfl
  refine ⟨hdistinct, hunknown, ?_⟩
  rcases unknown_names_in_overrides standard hdistinct hunknown with h | ⟨-, hstray, -⟩
  · exact h
  · obtain ⟨name, value, -, hvalue⟩ := hstray
    cases hvalue

/-- A custom provider with a member that no settings document has: the name is unknown, and the
    configuration is built as if it were not there. -/
theorem build_stray_parameter :
    let overrides := Json.object
      [("id_provider", .object
        [("custom", .object [("byte_length", Json.ofNat 12), ("checksum", .bool true)])])]
    overrides.Distinct
      ∧ (Settings.schema IdProvider.parameters).HasUnknown overrides
      ∧ ∃ config, build overrides = .ok config
        ∧ config.settings = { Settings.standard with idProvider := .custom 12 } := by
  intro overrides
  have haccepted : { Settings.standard with idProvider := .custom 12 }.battery = .ok [] := rfl
  have hdecode : Settings.codec.decode (standard.document.merge overrides)
      = .ok { Settings.standard with idProvider := .custom 12 } := by
    rw [← Settings.decode_withoutStray, ← Settings.lawful_codec]
    rfl
  refine ⟨by simp [overrides, Json.ofNat], ?_, ⟨_, haccepted⟩, ?_, rfl⟩
  · exact @Schema.HasUnknown.under _ _ _ _ "id_provider" rfl rfl <|
      @Schema.HasUnknown.under _ _ _ _ "custom" rfl rfl <|
        @Schema.HasUnknown.here _ _ _ "checksum" rfl rfl
  · exact (buildFrom_of_decode hdecode).trans (accept_eq_ok_iff.2 ⟨haccepted, rfl⟩)

end Config

end SealedEnvelope
