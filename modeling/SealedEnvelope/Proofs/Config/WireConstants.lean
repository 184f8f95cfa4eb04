import SealedEnvelope.Proofs.Config.Registry
import SealedEnvelope.Proofs.Header

set_option autoImplicit false

/-! # The sizes that every configuration declares

No rule names the sizes of public keys, headers and wrapped keys outright: each declared size is
compared with others, down to the few that the engine fixes. Together the rules leave one layout,
the one that headers are written in (`Settings.wireConstants`). The settings of a configuration have
gone through the rules however it was come by, be it built on another, read from a document or found
in a registry (`obtainable_wireConstants`). -/

namespace SealedEnvelope

/-! ## One layout -/

namespace Settings

/-- The sizes that headers are written in, and bounds on what is left to choose. -/
structure WireConstants (s : Settings) : Prop where
  key : s.cipher.keySize = 32 ∧ s.cipher.keyBits = 256
  fields : s.ivSize = 16 ∧ s.tagSize = 16
  publicKey : s.publicKey.rawLength = 64 ∧ s.publicKey.length = 65
    ∧ s.publicKey.compressedLength = 33
  overheads : s.simple.overhead = 66 ∧ s.single.overhead = 74 ∧ s.multiple.overhead = 68
  wrappedKey : s.multiple.encryptedKeySize.toNat = WrappedKey.size ∧ WrappedKey.size = 129
  counts : s.multiple.countSize = 2 ∧ s.single.dataLengthSize = 8
  identifiers : s.memberIdLength.toNat = s.idProvider.byteLength
    ∧ s.multiple.idSize.toNat = s.idProvider.byteLength
    ∧ 1 ≤ s.idProvider.byteLength ∧ s.idProvider.byteLength ≤ 255
  recipients : 1 ≤ s.multiple.maxRecipients.toNat ∧ s.multiple.maxRecipients.toNat ≤ 65535
  chunks : 1 ≤ s.stream.chunkSize.toNat ∧ s.stream.chunkSize.toNat ≤ s.stream.maxChunkSize.toNat
    ∧ s.stream.maxChunkSize.toNat ≤ 4 * 1024 * 1024

variable {s : Settings}

/-- Settings that break no rule have the one layout. -/
theorem wireConstants (h : s.violations = []) : s.WireConstants := by
  let config : Config := ⟨s, battery_eq_ok_nil_iff.2 h⟩
  have halgorithm : s.SupportedAlgorithm := config.supportedAlgorithm
  have hframe : s.FrameSizes := config.frameSizes
  have hids : s.IdWidths := config.idWidths
  have hlength : s.publicKey.length = 65 := by
    rw [← UInt64.toNat_inj, hframe.keyLength, exact, halgorithm.rawLength]
    rfl
  have hcompressed : s.publicKey.compressedLength = 33 := by
    rw [hframe.compressedLength, halgorithm.rawLength]
    rfl
  have hbits : s.cipher.keyBits = 256 := by
    rw [← UInt64.toNat_inj, halgorithm.keyBits, exact, halgorithm.keySize]
    rfl
  have hwrapped : s.multiple.encryptedKeySize.toNat = 129 := by
    rw [hframe.wrappedKeySize]
    simp only [exact]
    rw [hlength, halgorithm.ivSize, halgorithm.tagSize, halgorithm.keySize]
    rfl
  have hwidth : 1 ≤ s.idProvider.byteLength ∧ s.idProvider.byteLength ≤ 255 := by
    rw [← hids.recipient]
    exact config.idSize_bounds
  exact {
    key := ⟨halgorithm.keySize, hbits⟩
    fields := ⟨halgorithm.ivSize, halgorithm.tagSize⟩
    publicKey := ⟨halgorithm.rawLength, hlength, hcompressed⟩
    overheads := ⟨
      UInt64.toNat_inj.1 (hframe.simpleOverhead.trans config.simpleOverhead_eq),
      UInt64.toNat_inj.1 (hframe.singleOverhead.trans config.singleOverhead_eq),
      UInt64.toNat_inj.1 (hframe.multipleOverhead.trans config.multipleOverhead_eq)⟩
    wrappedKey := ⟨hwrapped, rfl⟩
    counts := ⟨hframe.countSize, hframe.dataLengthSize⟩
    identifiers := ⟨hids.member, hids.recipient, hwidth⟩
    recipients := ⟨config.maxRecipients_pos, config.maxRecipients_le⟩
    chunks := ⟨config.chunkSize_pos, config.chunkSize_le_max, config.maxChunkSize_le⟩ }

end Settings

/-! ## Constructions -/

namespace Config

variable {base config : Config} {overrides document : Json}

/-- Settings make a configuration if they break no rule. -/
theorem ofSettings_eq_ok_iff {s : Settings} :
    ofSettings s = .ok config ↔ s.violations = [] ∧ config.settings = s := by
  rw [ofSettings, accept_eq_ok_iff, Settings.battery_eq_ok_nil_iff]

/-- Overrides are laid over the document of the base, and what that describes is checked. -/
theorem buildFrom_eq_ok_iff :
    base.buildFrom overrides = .ok config
      ↔ (∃ members, overrides = .object members)
        ∧ ∃ s, Settings.codec.decode (base.document.merge overrides) = .ok s
          ∧ ofSettings s = .ok config := by
  unfold buildFrom
  cases overrides with
  | object members =>
    cases Settings.codec.decode (base.document.merge (.object members)) with
    | ok s => simp
    | error mismatch => simp
  | _ => simp

/-- What a document describes is checked. -/
theorem ofDocument_eq_ok_iff :
    ofDocument document = .ok config
      ↔ ∃ s, Settings.codec.decode document = .ok s ∧ ofSettings s = .ok config := by
  unfold ofDocument
  cases Settings.codec.decode document with
  | error mismatch => simp
  | ok s => simp [ofSettings, accept_eq_ok_iff]

theorem checked_of_ofSettings {s : Settings} (h : ofSettings s = .ok config) :
    config.settings.violations = [] := by
  obtain ⟨hs, rfl⟩ := ofSettings_eq_ok_iff.1 h
  exact hs

theorem checked_of_buildFrom (h : base.buildFrom overrides = .ok config) :
    config.settings.violations = [] := by
  obtain ⟨-, s, -, hsettings⟩ := buildFrom_eq_ok_iff.1 h
  exact checked_of_ofSettings hsettings

theorem checked_of_ofDocument (h : ofDocument document = .ok config) :
    config.settings.violations = [] := by
  obtain ⟨s, -, hsettings⟩ := ofDocument_eq_ok_iff.1 h
  exact checked_of_ofSettings hsettings

end Config

/-! ## Registries -/

namespace Registry

/-- All configurations that a registry holds have been checked. -/
structure Checked (r : Registry) : Prop where
  default : r.default.settings.violations = []
  entries : ∀ key config, r.entries.get? key = some config → config.settings.violations = []

/-- If a call brings a configuration of its own, that has been checked. -/
def Call.Checked : Call → Prop
  | .registerConfig _ config => config.settings.violations = []
  | _ => True

theorem checked_withDefault {config : Config} (h : config.settings.violations = []) :
    (withDefault config).Checked := by
  refine ⟨h, ?_⟩
  intro key found hfound
  cases hfound

namespace Checked

variable {r : Registry} {key : String} {config : Config} {call : Call}

/-- So whatever is found has been checked. -/
theorem get (h : r.Checked) (key : String) : (r.get key).settings.violations = [] := by
  unfold Registry.get
  split
  · exact h.default
  · cases hfound : r.entries.get? key with
    | none => exact h.default
    | some config => exact h.entries key config hfound

theorem put (h : r.Checked) (key : String) (hconfig : config.settings.violations = []) :
    (r.put key config).Checked := by
  refine ⟨h.default, ?_⟩
  intro other found hfound
  rw [Registry.put, NameMap.get?_insert] at hfound
  split at hfound
  · cases hfound
    exact hconfig
  · exact h.entries other found hfound

theorem drop (h : r.Checked) (key : String) : (r.drop key).Checked := by
  refine ⟨h.default, ?_⟩
  intro other found hfound
  rw [Registry.drop, NameMap.get?_erase] at hfound
  split at hfound
  · cases hfound
  · exact h.entries other found hfound

theorem store (h : r.Checked) {built : Except (Config.Failure Error) Config}
    (hbuilt : ∀ config, built = .ok config → config.settings.violations = []) :
    (r.store key built).2.Checked := by
  rcases r.store_cases key built with ⟨config, -, hok, hstore⟩ | ⟨e, hstore⟩
  · rw [hstore]
    exact h.put key (hbuilt config hok)
  · rw [hstore]
    exact h

/-- No call brings in what has not been checked. -/
theorem step (h : r.Checked) (hcall : call.Checked) : (r.step call).2.Checked := by
  cases call with
  | register key overrides =>
    rw [step_register]
    exact h.store fun _ => Config.checked_of_buildFrom
  | registerDerived key baseKey overrides =>
    rw [step_registerDerived]
    exact h.store fun _ => Config.checked_of_buildFrom
  | registerConfig key config =>
    rw [step_registerConfig]
    refine h.store ?_
    intro config' heq
    cases heq
    exact hcall
  | unregister key =>
    rw [step_unregister]
    split
    · exact h
    · exact h.drop key
  | _ => exact h

theorem behind (h : r.Checked) {calls : List Call} (hcalls : ∀ call ∈ calls, call.Checked) :
    (r.behind calls).Checked := by
  induction calls generalizing r with
  | nil => exact h
  | cons call rest ih =>
    rw [List.forall_mem_cons] at hcalls
    exact ih (h.step hcalls.1) hcalls.2

end Checked

end Registry

/-! ## What can be obtained -/

/-- Settings of the configurations that the constructions lead to, one after the other: from the
    standard configuration, overrides, settings, documents, and registries after any calls. -/
inductive Obtainable : Settings → Prop
  | standard : Obtainable Config.standard.settings
  | build {overrides : Json} {config : Config} :
    Config.build overrides = .ok config → Obtainable config.settings
  | buildFrom {base config : Config} {overrides : Json} :
    Obtainable base.settings → base.buildFrom overrides = .ok config → Obtainable config.settings
  | forProvider {provider : IdProvider} {config : Config} :
    Config.forProvider provider = .ok config → Obtainable config.settings
  | ofSettings {s : Settings} {config : Config} :
    Config.ofSettings s = .ok config → Obtainable config.settings
  | ofDocument {document : Json} {config : Config} :
    Config.ofDocument document = .ok config → Obtainable config.settings
  | get {fallback : Config} {calls : List Registry.Call} (key : String) :
    Obtainable fallback.settings →
    (∀ name config, .registerConfig name config ∈ calls → Obtainable config.settings) →
    Obtainable (((Registry.withDefault fallback).behind calls).get key).settings

theorem Obtainable.checked {s : Settings} (h : Obtainable s) : s.violations = [] := by
  induction h with
  | standard => exact Config.standard.violations_eq_nil
  | build h =>
    rw [Config.build] at h
    exact Config.checked_of_buildFrom h
  | buildFrom _ h _ => exact Config.checked_of_buildFrom h
  | forProvider h =>
    rw [Config.forProvider, Config.build] at h
    exact Config.checked_of_buildFrom h
  | ofSettings h => exact Config.checked_of_ofSettings h
  | ofDocument h => exact Config.checked_of_ofDocument h
  | get key _ _ hfallback hcalls =>
    refine ((Registry.checked_withDefault hfallback).behind ?_).get key
    intro call hcall
    cases call with
    | registerConfig name config => exact hcalls name config hcall
    | _ => trivial

/-! ## Written headers -/

/-- A header is written as its declared overhead of octets and, behind them, the recipients. -/
theorem Header.exists_front_of_encode {config : Config} {header : Header} {bytes : Bytes}
    (h : header.encode config = .ok bytes) :
    ∃ front, bytes = front ++ header.recipients.flatMap RecipientEntry.octets
      ∧ front.length = header.mode.overhead config := by
  obtain ⟨-, rfl⟩ := encode_eq_ok_iff.1 h
  obtain ⟨ephemeral, iv, tag, body⟩ := header
  rw [config.overhead_eq]
  cases body with
  | simple =>
    refine ⟨_, (List.append_nil _).symm, ?_⟩
    simp [octets, HeaderBody.octets, mode, HeaderBody.mode]
  | single dataLength =>
    refine ⟨_, (List.append_nil _).symm, ?_⟩
    simp [octets, HeaderBody.octets, mode, HeaderBody.mode]
  | multiple entries =>
    refine ⟨Mode.multiple.tag :: (ephemeral.bytes ++ iv.bytes ++ tag.bytes
      ++ bigEndian 2 entries.length), ?_, ?_⟩
    · simp [octets, HeaderBody.octets, RecipientTable.octets, recipients, mode, HeaderBody.mode]
    · simp [mode, HeaderBody.mode]

/-- **Every configuration declares the engine's sizes.** Whatever constructions lead to a
    configuration, with whatever overrides and documents, the battery finds nothing in its settings,
    which break no rule. So they declare the sizes of the one layout, leave identifiers, recipients
    and chunks within their bounds, and declare as overhead of a mode just the octets that a header
    of this mode is written with in front of its recipients. -/
theorem obtainable_wireConstants {s : Settings} (h : Obtainable s) :
    s.battery = .ok [] ∧ s.violations = [] ∧ s.WireConstants
      ∧ ∀ config : Config, config.settings = s →
        ∀ (header : Header) (bytes : Bytes), header.encode config = .ok bytes →
          ∃ front, bytes = front ++ header.recipients.flatMap RecipientEntry.octets
            ∧ front.length = header.mode.overhead config := by
  refine ⟨Settings.battery_eq_ok_nil_iff.2 h.checked, h.checked, Settings.wireConstants h.checked,
    ?_⟩
  intro config _ header bytes hencode
  exact Header.exists_front_of_encode hencode

/-- A registered configuration, and one that is built upon it. -/
theorem obtainable_wireConstants_derived :
    let narrow := Json.object [("stream", .object [("chunk_size", Json.ofNat 10)])]
    let few := Json.object [("multiple", .object [("max_recipients", Json.ofNat 2)])]
    let config := ((Registry.withDefault .standard).behind
      [.register "narrow" narrow, .registerDerived "few" "narrow" few]).get "few"
    config.settings.stream.chunkSize = 10 ∧ config.settings.multiple.maxRecipients = 2
      ∧ config.settings.battery = .ok [] ∧ config.settings.violations = []
      ∧ config.settings.WireConstants := by
  intro narrow few config
  have hobtainable : Obtainable config.settings := by
    refine .get "few" .standard ?_
    intro name config hmem
    simp at hmem
  obtain ⟨hbattery, hchecked, hconstants, -⟩ := obtainable_wireConstants hobtainable
  have hchosen : config.settings.stream.chunkSize = 10
      ∧ config.settings.multiple.maxRecipients = 2 := by decide +kernel
  exact ⟨hchosen.1, hchosen.2, hbattery, hchecked, hconstants⟩

end SealedEnvelope
