import SealedEnvelope.Proofs.Config.Document
import SealedEnvelope.Proofs.Config.Registry
import SealedEnvelope.Proofs.Config.WireConstants
import SealedEnvelope.Proofs.Json.Layers

set_option autoImplicit false

/-! # Configurations built in layers

Overrides laid over a configuration that was itself built with overrides lead to the same as both
overrides merged and laid over the first base (`Config.layers_merge`). Each part of a settings
document is layered, and so is the document, as long as the overrides spell its parts as it does:
parts as objects, providers as a name or with nothing but their parameters (`Settings.Shaped`). -/

namespace SealedEnvelope

open Json (Members)
open Json.Codec

/-! ## The parts -/

/-- Providers in overrides: a name, or a custom provider with its one parameter. -/
def IdProvider.Spelling (value : Json) : Prop :=
  (∃ name, value = .string name)
    ∨ ∃ n, value = .object [("custom", .object [("byte_length", n)])]

namespace IdProvider

/-- A custom provider of a length takes the place of any other. -/
theorem merge_custom (p : IdProvider) (n : Json) :
    (codec.encode p).merge (.object [("custom", .object [("byte_length", n)])])
      = .object [("custom", .object [("byte_length", n)])] := by
  cases p with
  | custom length =>
    have hlength : (Json.number (.natural length)).merge n = n :=
      Json.merge_of_base_not_object rfl n
    simp [codec, name, Json.merge_object_object, Members.alter, Json.mergeMembers, hlength]
  | _ => rfl

theorem laid_custom (base : Option IdProvider) (n : Json) :
    Json.laid (base.map codec.encode) (.object [("custom", .object [("byte_length", n)])])
      = .object [("custom", .object [("byte_length", n)])] := by
  cases base with
  | none => rfl
  | some p => exact merge_custom p n

theorem layered_codec : codec.Layered Spelling where
  lawful := lawful_codec
  distinct p := by cases p <;> simp [codec]
  layered := by
    rintro base first second hfirst (⟨name, rfl⟩ | ⟨n, rfl⟩) - - p hp q
    · rw [Json.merge_of_not_object rfl, Json.merge_of_not_object rfl, Json.laid_of_not_object rfl]
    · rw [merge_custom]
      rcases hfirst with ⟨name, rfl⟩ | ⟨m, rfl⟩
      · rw [Json.merge_of_base_not_object rfl, laid_custom]
      · -- the length that was read is no object, so nothing of it is kept
        rw [laid_custom] at hp
        obtain ⟨length, hlength, -⟩ := map_eq_ok.1 hp
        obtain ⟨value, hvalue, -⟩ := map_eq_ok.1 hlength
        have hmerge := Json.merge_of_base_not_object (isObject_of_decodeNat hvalue) n
        have hboth : (Json.object [("custom", .object [("byte_length", m)])]).merge
            (.object [("custom", .object [("byte_length", n)])])
              = .object [("custom", .object [("byte_length", n)])] := by
          simp [Json.merge_object_object, Members.alter, Json.mergeMembers, hmerge]
        rw [hboth, laid_custom]

end IdProvider

theorem CipherSettings.layered_codec : CipherSettings.codec.Layered (·.isObject = true) :=
  LayeredFields.plainRecord
    { nodup := by simp
      ext := by
        rintro ⟨⟩ ⟨⟩
        simp [lawful_string.encode_inj, lawful_size.encode_inj]
      field := by
        simp only [List.forall_mem_cons]
        exact ⟨layered_string.field (fun _ _ => rfl) (by simp),
          layered_string.field (fun _ _ => rfl) (by simp),
          layered_size.field (fun _ _ => rfl) (by simp),
          layered_size.field (fun _ _ => rfl) (by simp), by simp⟩ }
    lawful_codec

theorem PublicKeySettings.layered_codec : PublicKeySettings.codec.Layered (·.isObject = true) :=
  LayeredFields.plainRecord
    { nodup := by simp
      ext := by
        rintro ⟨⟩ ⟨⟩
        simp [lawful_size.encode_inj, lawful_octet.encode_inj]
      field := by
        simp only [List.forall_mem_cons]
        exact ⟨layered_size.field (fun _ _ => rfl) (by simp),
          layered_size.field (fun _ _ => rfl) (by simp),
          layered_size.field (fun _ _ => rfl) (by simp),
          layered_octet.field (fun _ _ => rfl) (by simp), by simp⟩ }
    lawful_codec

theorem SimpleSettings.layered_codec : SimpleSettings.codec.Layered (·.isObject = true) :=
  LayeredFields.plainRecord
    { nodup := by simp
      ext := by
        rintro ⟨⟩ ⟨⟩
        simp [lawful_size.encode_inj]
      field := by
        simp only [List.forall_mem_cons]
        exact ⟨layered_size.field (fun _ _ => rfl) (by simp), by simp⟩ }
    lawful_codec

theorem SingleSettings.layered_codec : SingleSettings.codec.Layered (·.isObject = true) :=
  LayeredFields.plainRecord
    { nodup := by simp
      ext := by
        rintro ⟨⟩ ⟨⟩
        simp [lawful_size.encode_inj]
      field := by
        simp only [List.forall_mem_cons]
        exact ⟨layered_size.field (fun _ _ => rfl) (by simp),
          layered_size.field (fun _ _ => rfl) (by simp), by simp⟩ }
    lawful_codec

theorem MultipleSettings.layered_codec : MultipleSettings.codec.Layered (·.isObject = true) :=
  LayeredFields.plainRecord
    { nodup := by simp
      ext := by
        rintro ⟨⟩ ⟨⟩
        simp [lawful_size.encode_inj]
      field := by
        simp only [List.forall_mem_cons]
        exact ⟨layered_size.field (fun _ _ => rfl) (by simp),
          layered_size.field (fun _ _ => rfl) (by simp),
          layered_size.field (fun _ _ => rfl) (by simp),
          layered_size.field (fun _ _ => rfl) (by simp),
          layered_size.field (fun _ _ => rfl) (by simp), by simp⟩ }
    lawful_codec

theorem StreamSettings.layered_codec : StreamSettings.codec.Layered (·.isObject = true) :=
  LayeredFields.plainRecord
    { nodup := by simp
      ext := by
        rintro ⟨⟩ ⟨⟩
        simp [lawful_size.encode_inj]
      field := by
        simp only [List.forall_mem_cons]
        exact ⟨layered_size.field (fun _ _ => rfl) (by simp),
          layered_size.field (fun _ _ => rfl) (by simp), by simp⟩ }
    lawful_codec

theorem PasswordProfile.layered_codec : PasswordProfile.codec.Layered (·.isObject = true) :=
  LayeredFields.plainRecord
    { nodup := by simp
      ext := by
        rintro ⟨⟩ ⟨⟩
        simp [lawful_string.encode_inj, lawful_size.encode_inj, lawful_count.encode_inj]
      field := by
        simp only [List.forall_mem_cons]
        exact ⟨layered_size.field (fun _ _ => rfl) (by simp),
          layered_size.field (fun _ _ => rfl) (by simp),
          layered_count.field (fun _ _ => rfl) (by simp),
          layered_string.field (fun _ _ => rfl) (by simp), by simp⟩ }
    lawful_codec

theorem layered_derivationPath {shape : Json → Prop} : (optional string).Layered shape :=
  layered_of_scalar lawful_derivationPath
    (fun path => by
      cases path with
      | none => exact Json.distinct_null
      | some s => exact Json.distinct_string s)
    (fun value path h => by
      cases value with
      | object members => cases h
      | _ => rfl)

/-! ## The whole -/

namespace Settings

/-- How overrides spell what stands under a name of a settings document. -/
def Spelling (name : String) (value : Json) : Prop :=
  if name ∈ ["symmetric", "public_key", "simple", "single", "multiple", "stream"] then
    value.isObject = true
  else if name = "pbkdf2_profiles" then ObjectOf (fun _ profile => profile.isObject = true) value
  else if name = "id_provider" then IdProvider.Spelling value
  else True

/-- Overrides that spell their parts as a settings document does: the parts, the password profiles
    and each of these as objects, the provider in one of its two ways. -/
def Shaped (overrides : Json) : Prop := ObjectOf Spelling overrides

theorem layered_codec : codec.Layered Shaped :=
  LayeredFields.record
    { nodup := by simp
      ext := by
        rintro ⟨⟩ ⟨⟩
        simp [lawful_string.encode_inj, lawful_size.encode_inj, lawful_derivationPath.encode_inj,
          CipherSettings.lawful_codec.encode_inj, PublicKeySettings.lawful_codec.encode_inj,
          SimpleSettings.lawful_codec.encode_inj, SingleSettings.lawful_codec.encode_inj,
          MultipleSettings.lawful_codec.encode_inj, IdProvider.lawful_codec.encode_inj,
          lawful_profiles.encode_inj, StreamSettings.lawful_codec.encode_inj]
      field := by
        simp only [List.forall_mem_cons]
        exact ⟨layered_string.field (fun _ _ => rfl) (by simp),
          (layered_derivationPath.field (fun _ _ => rfl) (by simp)).mayMiss rfl,
          CipherSettings.layered_codec.field (fun _ _ => rfl) (by simp),
          layered_size.field (fun _ _ => rfl) (by simp),
          layered_size.field (fun _ _ => rfl) (by simp),
          PublicKeySettings.layered_codec.field (fun _ _ => rfl) (by simp),
          SimpleSettings.layered_codec.field (fun _ _ => rfl) (by simp),
          SingleSettings.layered_codec.field (fun _ _ => rfl) (by simp),
          MultipleSettings.layered_codec.field (fun _ _ => rfl) (by simp),
          layered_size.field (fun _ _ => rfl) (by simp),
          IdProvider.layered_codec.field (fun _ _ => rfl) (by simp),
          PasswordProfile.layered_codec.nameMap.field (fun _ _ => rfl) (by simp),
          StreamSettings.layered_codec.field (fun _ _ => rfl) (by simp), by simp⟩ }
    lawful_codec

end Settings

/-! ## Builds and registrations -/

namespace Config

variable {base mid config : Config} {first second : Json}

/-- The settings that are built are those of the document with the overrides laid over it. -/
theorem buildFrom_eq_ok_iff_decode {overrides : Json} (h : overrides.isObject = true) :
    base.buildFrom overrides = .ok config
      ↔ Settings.codec.decode (base.document.merge overrides) = .ok config.settings := by
  obtain ⟨members, rfl⟩ := Json.exists_of_isObject h
  rw [buildFrom_eq_ok_iff, and_iff_right ⟨members, rfl⟩]
  simp only [ofSettings_eq_ok_iff]
  constructor
  · rintro ⟨s, hdecode, -, rfl⟩
    exact hdecode
  · intro hdecode
    exact ⟨config.settings, hdecode, config.violations_eq_nil, rfl⟩

/-- A second layer of overrides may as well be merged with the first. -/
theorem buildFrom_iff_merge (hfirst : Settings.Shaped first) (hsecond : Settings.Shaped second)
    (hfirstDistinct : first.Distinct) (hsecondDistinct : second.Distinct)
    (hmid : base.buildFrom first = .ok mid) :
    mid.buildFrom second = .ok config ↔ base.buildFrom (first.merge second) = .ok config := by
  rw [buildFrom_eq_ok_iff_decode hfirst.1] at hmid
  rw [buildFrom_eq_ok_iff_decode hsecond.1,
    buildFrom_eq_ok_iff_decode (Json.isObject_merge hsecond.1 first)]
  exact Settings.layered_codec.layered (some base.settings) first second hfirst hsecond
    hfirstDistinct hsecondDistinct mid.settings hmid config.settings

end Config

namespace Registry

variable {r r' : Registry} {key baseKey : String} {overrides : Json}

/-- A registration that succeeds puts what was built under its name. -/
theorem registerDerived_eq_ok_iff :
    r.registerDerived key baseKey overrides = .ok r'
      ↔ key ≠ defaultKey ∧ ∃ config, (r.get baseKey).buildFrom overrides = .ok config
        ∧ r.put key config = r' := by
  rw [registerDerived, liftM_checkKey_bind]
  by_cases hkey : key = defaultKey
  · simp [hkey]
  · simp [hkey, bind_eq_ok, registerConfig_eq]

/-- What is laid over the default is derived from the reserved name. -/
theorem register_eq_registerDerived (r : Registry) (key : String) (overrides : Json) :
    r.register key overrides = r.registerDerived key defaultKey overrides := by
  rw [register, registerDerived, get, if_pos rfl]

theorem get_put_of_ne {other : String} (h : other ≠ key) (config : Config) :
    (r.put key config).get other = r.get other := by
  simp [get, put, NameMap.get?_insert, Ne.symm h]

/-- What is derived from an entry may as well be laid over what the entry was derived from. -/
theorem registerDerived_iff_merge {r'' : Registry} {name : String} {first second : Json}
    (hfirst : Settings.Shaped first) (hsecond : Settings.Shaped second)
    (hfirstDistinct : first.Distinct) (hsecondDistinct : second.Distinct) (hbase : baseKey ≠ key)
    (h : r.registerDerived key baseKey first = .ok r') :
    r'.registerDerived name key second = .ok r''
      ↔ r'.registerDerived name baseKey (first.merge second) = .ok r'' := by
  obtain ⟨hkey, mid, hmid, rfl⟩ := registerDerived_eq_ok_iff.1 h
  rw [registerDerived_eq_ok_iff, registerDerived_eq_ok_iff, get_put_self r hkey,
    get_put_of_ne hbase]
  simp only [Config.buildFrom_iff_merge hfirst hsecond hfirstDistinct hsecondDistinct hmid]

end Registry

/-- **Overrides in layers.** Let two layers of overrides spell their parts as a settings document
    does. A configuration that is built with the second on one that was built with the first is the
    one that is built with both merged, and there is one exactly if there is the other. So a
    registered entry that is derived from another is the one that is registered with both merged,
    over the default or over what the other entry was derived from. -/
theorem Config.layers_merge {first second : Json} (hfirst : Settings.Shaped first)
    (hsecond : Settings.Shaped second) (hfirstDistinct : first.Distinct)
    (hsecondDistinct : second.Distinct) :
    (∀ base mid : Config, base.buildFrom first = .ok mid → ∀ config,
        mid.buildFrom second = .ok config ↔ base.buildFrom (first.merge second) = .ok config)
      ∧ (∀ (r r' : Registry) (key : String), r.register key first = .ok r' → ∀ name r'',
        r'.registerDerived name key second = .ok r''
          ↔ r'.register name (first.merge second) = .ok r'')
      ∧ ∀ (r r' : Registry) (key baseKey : String), baseKey ≠ key →
        r.registerDerived key baseKey first = .ok r' → ∀ name r'',
        r'.registerDerived name key second = .ok r''
          ↔ r'.registerDerived name baseKey (first.merge second) = .ok r'' := by
  refine ⟨?_, ?_, ?_⟩
  · intro base mid hmid config
    exact buildFrom_iff_merge hfirst hsecond hfirstDistinct hsecondDistinct hmid
  · intro r r' key h name r''
    rw [Registry.register_eq_registerDerived] at h ⊢
    have hkey := (Registry.registerDerived_eq_ok_iff.1 h).1
    exact Registry.registerDerived_iff_merge hfirst hsecond hfirstDistinct hsecondDistinct
      hkey.symm h
  · intro r r' key baseKey hbase h name r''
    exact Registry.registerDerived_iff_merge hfirst hsecond hfirstDistinct hsecondDistinct hbase h

/-- A password profile that the first layer adds and the second one changes, beside a custom
    provider that takes the place of another. -/
theorem Config.layers_merge_profile :
    let first := Json.object
      [("pbkdf2_profiles", .object
        [("mobile", .object
          [("hash_bytes", Json.ofNat 32), ("salt_bytes", Json.ofNat 16),
           ("iterations", Json.ofNat 1000), ("algorithm", .string "sha512")])]),
       ("id_provider", .object [("custom", .object [("byte_length", Json.ofNat 12)])])]
    let second := Json.object
      [("pbkdf2_profiles", .object [("mobile", .object [("iterations", Json.ofNat 5000)])]),
       ("id_provider", .string "object_id")]
    ∃ mid config, standard.buildFrom first = .ok mid ∧ mid.buildFrom second = .ok config
      ∧ standard.buildFrom (first.merge second) = .ok config
      ∧ config.profile? "mobile" = some ⟨32, 16, 5000, "sha512"⟩ := by
  intro first second
  have hprofiles : ∀ profile : Members, Settings.Spelling "pbkdf2_profiles"
      (.object [("mobile", .object profile)]) := fun profile =>
    objectOf_of_forall_mem (List.forall_mem_singleton.2 rfl)
  have hfirst : Settings.Shaped first :=
    objectOf_of_forall_mem <| List.forall_mem_cons.2
      ⟨hprofiles _, List.forall_mem_singleton.2 (Or.inr ⟨_, rfl⟩)⟩
  have hsecond : Settings.Shaped second :=
    objectOf_of_forall_mem <| List.forall_mem_cons.2
      ⟨hprofiles _, List.forall_mem_singleton.2 (Or.inl ⟨_, rfl⟩)⟩
  have hbuild : (standard.buildFrom first >>= fun mid => mid.buildFrom second).map
      (·.profile? "mobile") = .ok (some ⟨32, 16, 5000, "sha512"⟩) := by
    decide +kernel
  obtain ⟨config, hconfig, hprofile⟩ := map_eq_ok.1 hbuild
  obtain ⟨mid, hmid, hconfig⟩ := bind_eq_ok.1 hconfig
  obtain ⟨hlayers, -⟩ := layers_merge hfirst hsecond (by simp [first, Json.ofNat])
    (by simp [second, Json.ofNat])
  exact ⟨mid, config, hmid, hconfig, (hlayers standard mid hmid config).1 hconfig, hprofile⟩

end SealedEnvelope
