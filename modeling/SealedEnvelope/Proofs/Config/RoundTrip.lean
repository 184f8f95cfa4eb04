import SealedEnvelope.Proofs.Config.Layers
import SealedEnvelope.Proofs.Json.Documents

set_option autoImplicit false

/-! # Configurations written and read back

The document of a configuration nests three levels deep and holds no numbers but integers, so both
its texts are read back as it (`Config.parse_document`). The document is the same however the
configuration was spelled where it came from, and reading it back leads to the configuration again
(`Config.documents_round_trip`). -/

namespace SealedEnvelope

open Text (utf8)

/-! ## Documents that can be written -/

namespace Json.Codec

variable {α : Type} {codec : Codec α} {k : Nat}

/-- Whatever the codec writes nests at most `k` levels deep and holds integers only. -/
def Writes (codec : Codec α) (k : Nat) : Prop := ∀ depth a, Writable (depth + k) (codec.encode a)

theorem writes_size : size.Writes k := fun _ _ => .number trivial

theorem writes_count : count.Writes k := fun _ _ => .number trivial

theorem writes_octet : octet.Writes k := fun _ _ => .number trivial

theorem writes_string : string.Writes k := fun _ _ => .string _

theorem Writes.optional (h : codec.Writes k) : (Codec.optional codec).Writes k := by
  intro depth a
  cases a with
  | none => exact .null
  | some a => exact h depth a

theorem Writes.nameMap (h : codec.Writes k) : (Codec.nameMap codec).Writes (k + 1) := by
  intro depth m
  refine .object fun member hmember => ?_
  obtain ⟨e, -, rfl⟩ := List.mem_map.1 hmember
  exact h depth e.2

theorem writes_record {σ : Type} {title : String} {blank : σ} {fields : List (Field σ)}
    (h : ∀ f ∈ fields, ∀ depth s, Writable (depth + k) (f.write s)) :
    (record title blank fields).Writes (k + 1) := by
  intro depth s
  refine .object fun member hmember => ?_
  obtain ⟨f, hf, rfl⟩ := List.mem_map.1 hmember
  exact h f hf depth s

theorem Writes.field {σ : Type} {name : String} {get : σ → α} {set : α → σ → σ}
    (h : codec.Writes k) (depth : Nat) (s : σ) :
    Writable (depth + k) ((Field.of name codec get set).write s) := h depth (get s)

end Json.Codec

open Json.Codec

variable {k : Nat}

theorem IdProvider.writes_codec : IdProvider.codec.Writes (k + 2) := by
  intro depth provider
  cases provider with
  | custom length =>
    exact .object <| List.forall_mem_singleton.2 <| .object <| List.forall_mem_singleton.2 <|
      .number trivial
  | _ => exact .string _

theorem CipherSettings.writes_codec : CipherSettings.codec.Writes (k + 1) :=
  writes_record <| by
    simp only [List.forall_mem_cons]
    exact ⟨writes_string.field, writes_string.field, writes_size.field, writes_size.field, by simp⟩

theorem PublicKeySettings.writes_codec : PublicKeySettings.codec.Writes (k + 1) :=
  writes_record <| by
    simp only [List.forall_mem_cons]
    exact ⟨writes_size.field, writes_size.field, writes_size.field, writes_octet.field, by simp⟩

theorem SimpleSettings.writes_codec : SimpleSettings.codec.Writes (k + 1) :=
  writes_record <| by
    simp only [List.forall_mem_cons]
    exact ⟨writes_size.field, by simp⟩

theorem SingleSettings.writes_codec : SingleSettings.codec.Writes (k + 1) :=
  writes_record <| by
    simp only [List.forall_mem_cons]
    exact ⟨writes_size.field, writes_size.field, by simp⟩

theorem MultipleSettings.writes_codec : MultipleSettings.codec.Writes (k + 1) :=
  writes_record <| by
    simp only [List.forall_mem_cons]
    exact ⟨writes_size.field, writes_size.field, writes_size.field, writes_size.field,
      writes_size.field, by simp⟩

theorem StreamSettings.writes_codec : StreamSettings.codec.Writes (k + 1) :=
  writes_record <| by
    simp only [List.forall_mem_cons]
    exact ⟨writes_size.field, writes_size.field, by simp⟩

theorem PasswordProfile.writes_codec : PasswordProfile.codec.Writes (k + 1) :=
  writes_record <| by
    simp only [List.forall_mem_cons]
    exact ⟨writes_size.field, writes_size.field, writes_count.field, writes_string.field, by simp⟩

theorem Settings.writes_codec : Settings.codec.Writes 3 :=
  writes_record <| by
    simp only [List.forall_mem_cons, Field.write_mayMiss]
    exact ⟨writes_string.field, writes_string.optional.field, CipherSettings.writes_codec.field,
      writes_size.field, writes_size.field, PublicKeySettings.writes_codec.field,
      SimpleSettings.writes_codec.field, SingleSettings.writes_codec.field,
      MultipleSettings.writes_codec.field, writes_size.field, IdProvider.writes_codec.field,
      PasswordProfile.writes_codec.nameMap.field, StreamSettings.writes_codec.field, by simp⟩

/-! ## Reading back -/

namespace Config

theorem distinct_document (config : Config) : config.document.Distinct :=
  Settings.layered_codec.distinct config.settings

/-- The settings of a configuration may be listed without their names. -/
theorem ofDocument_values (config : Config) :
    ofDocument (.array config.document.values) = .ok config :=
  ofDocument_of_decode (Settings.laws_codec.2 config.settings)

/-- Either text of a configuration's document holds that document. -/
theorem parse_document (config : Config) :
    Json.parse (utf8 config.document.compact) = .ok config.document
      ∧ Json.parse (utf8 config.document.pretty) = .ok config.document := by
  have hwritable := Settings.writes_codec 124 config.settings
  exact ⟨Json.parse_compact config.distinct_document hwritable,
    Json.parse_pretty config.distinct_document hwritable⟩

/-- A configuration that is built with its own document is itself. -/
theorem buildFrom_document (config : Config) : config.buildFrom config.document = .ok config := by
  rw [buildFrom_eq_ok_iff_decode rfl, config.distinct_document.merge_self]
  exact Settings.lawful_codec config.settings

/-- A configuration that is built without overrides is itself. -/
theorem buildFrom_empty (config : Config) : config.buildFrom (.object []) = .ok config := by
  rw [buildFrom_eq_ok_iff_decode rfl, Json.merge_empty rfl]
  exact Settings.lawful_codec config.settings

end Config

/-- **Configuration documents.** The document of a configuration describes it, written on one line,
    over several, or listed without names; building a configuration with nothing or with its own
    document changes nothing. A document that describes a configuration, however it is spelled, and
    the document of that configuration describe the same. -/
theorem Config.documents_round_trip :
    (∀ config : Config,
      ofDocument config.document = .ok config
        ∧ ofDocument (.array config.document.values) = .ok config
        ∧ Json.parse (utf8 config.document.compact) = .ok config.document
        ∧ Json.parse (utf8 config.document.pretty) = .ok config.document
        ∧ config.buildFrom (.object []) = .ok config
        ∧ config.buildFrom config.document = .ok config)
      ∧ ∀ (document : Json) (config : Config), ofDocument document = .ok config →
        ofDocument config.document = ofDocument document := by
  refine ⟨fun config => ?_, fun document config h => ?_⟩
  · obtain ⟨hcompact, hpretty⟩ := config.parse_document
    exact ⟨config.ofDocument_document, config.ofDocument_values, hcompact, hpretty,
      config.buildFrom_empty, config.buildFrom_document⟩
  · rw [h, config.ofDocument_document]

/-- Settings listed without names, with a provider as an object of one member. -/
theorem Config.documents_round_trip_listed :
    let n := Json.ofNat
    let document := Json.array
      [.string "secp256k1", .null, .array [.string "aes", .string "gcm", n 256, n 32], n 16, n 16,
       .array [n 64, n 65, n 33, n 4], .array [n 66], .array [n 74, n 8],
       .array [n 68, n 129, n 16, n 2, n 65535], n 16, .object [("uuid", .null)],
       .object [("mobile", .array [n 32, n 64, n 1000, .string "sha512"])],
       .object [("max_chunk_size", n 4096), ("chunk_size", n 1024)]]
    ∃ config, ofDocument document = .ok config ∧ config.idProvider = .uuid
      ∧ ofDocument config.document = .ok config := by
  intro n document
  have hread : (ofDocument document).map (·.idProvider) = .ok .uuid := by decide +kernel
  obtain ⟨config, hconfig, hprovider⟩ := map_eq_ok.1 hread
  have hagain := documents_round_trip.2 document config hconfig
  exact ⟨config, hconfig, hprovider, hagain.trans hconfig⟩

end SealedEnvelope
