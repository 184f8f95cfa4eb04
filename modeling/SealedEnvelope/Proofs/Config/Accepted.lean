import SealedEnvelope.Header
import SealedEnvelope.Proofs.Config.Reckoning

set_option autoImplicit false

/-! # What every configuration has in common

The battery finds nothing in the settings of a `Config`, so these break no rule, and all that is
reckoned of them fits in 64 bits (`Settings.battery_eq_ok_nil_iff`). The groups of rules are spelled
out here as conditions on the settings (`SupportedAlgorithm`, `FrameSizes` and so on), and the
statements about `Config` read off what the rest of the library relies on: the octets in front of a
mode's own fields, the width of identifiers, the bounds on recipients and on chunks. -/

namespace SealedEnvelope

namespace Settings

/-! ## The rules as conditions -/

theorem demand_eq_nil_iff {holds : Prop} [Decidable holds] {rule detail : String} :
    demand holds rule detail = [] ↔ holds := by
  unfold demand
  split <;> simp_all

theorem overheadViolations_eq_nil_iff {rule : String} {declared : UInt64} {expected : Nat} :
    overheadViolations rule declared expected = [] ↔ declared.toNat = expected :=
  demand_eq_nil_iff

/-- Identifiers have the provider's width, and a custom width lies within its bounds. -/
structure IdWidths (s : Settings) : Prop where
  custom : ∀ length, s.idProvider = .custom length → IdProvider.CustomLength length.toNat
  member : s.memberIdLength.toNat = s.idProvider.byteLength
  recipient : s.multiple.idSize.toNat = s.idProvider.byteLength

theorem idViolations_eq_nil_iff (s : Settings) : s.idViolations = [] ↔ s.IdWidths := by
  rw [idViolations, List.append_eq_nil_iff, demand_eq_nil_iff]
  constructor
  · rintro ⟨hcustom, hmember, hrecipient⟩
    refine ⟨fun length hlength => ?_, hmember, hrecipient⟩
    rw [hlength] at hcustom
    exact demand_eq_nil_iff.1 hcustom
  · rintro ⟨hcustom, hmember, hrecipient⟩
    refine ⟨?_, hmember, hrecipient⟩
    cases hprovider : s.idProvider with
    | custom length => exact demand_eq_nil_iff.2 (hcustom length hprovider)
    | _ => rfl

/-- The curve, the cipher and the fields are the ones that the engine has. -/
structure SupportedAlgorithm (s : Settings) : Prop where
  curve : s.curve = "secp256k1"
  rawLength : s.publicKey.rawLength = 64
  keySize : s.cipher.keySize = requiredKeySize
  keyBits : s.cipher.keyBits.toNat = s.exact.keyBits
  cipher : s.cipher.algorithm = "aes" ∧ s.cipher.mode = "gcm"
  ivSize : s.ivSize = requiredIvSize
  tagSize : s.tagSize = requiredTagSize
  path : ∀ path, s.derivationPath = some path → isDerivationPath path = true

theorem coordinateViolations_eq_nil_iff {s : Settings} (h : s.curve = "secp256k1") :
    s.coordinateViolations = [] ↔ s.publicKey.rawLength = 64 := by
  simp [coordinateViolations, h, curves, demand_eq_nil_iff, rawKeySize]

theorem pathViolations_eq_nil_iff (s : Settings) :
    s.pathViolations = []
      ↔ ∀ path, s.derivationPath = some path → isDerivationPath path = true := by
  rw [pathViolations]
  cases s.derivationPath with
  | none => simp
  | some path => simp [demand_eq_nil_iff]

theorem algorithmViolations_eq_nil_iff (s : Settings) :
    s.algorithmViolations s.exact = [] ↔ s.SupportedAlgorithm := by
  simp only [algorithmViolations, List.append_eq_nil_iff, demand_eq_nil_iff, and_assoc,
    pathViolations_eq_nil_iff]
  have hcurve : s.curve ∈ curves.map Prod.fst ↔ s.curve = "secp256k1" := by simp [curves]
  rw [hcurve]
  constructor
  · rintro ⟨h, hraw, hsize, hbits, ha, hm, hiv, htag, hpath⟩
    exact ⟨h, (coordinateViolations_eq_nil_iff h).1 hraw, hsize, hbits, ⟨ha, hm⟩, hiv, htag, hpath⟩
  · rintro ⟨h, hraw, hsize, hbits, ⟨ha, hm⟩, hiv, htag, hpath⟩
    exact ⟨h, (coordinateViolations_eq_nil_iff h).2 hraw, hsize, hbits, ha, hm, hiv, htag, hpath⟩

/-- The sizes of keys, fields and headers fit together. -/
structure FrameSizes (s : Settings) : Prop where
  keyLength : s.publicKey.length.toNat = s.exact.publicKeyLength
  compressedLength : s.publicKey.compressedLength = s.publicKey.rawLength / 2 + 1
  wrappedKeySize : s.multiple.encryptedKeySize.toNat = s.exact.wrappedKeySize
  countSize : s.multiple.countSize = requiredCountSize
  maxRecipients : 0 < s.multiple.maxRecipients ∧ s.multiple.maxRecipients ≤ recipientLimit
  dataLengthSize : s.single.dataLengthSize = requiredDataLengthSize
  simpleOverhead : s.simple.overhead.toNat = s.exact.simpleOverhead
  singleOverhead : s.single.overhead.toNat = s.exact.singleOverhead
  multipleOverhead : s.multiple.overhead.toNat = s.exact.multipleOverhead

theorem frameViolations_eq_nil_iff (s : Settings) :
    s.frameViolations s.exact = [] ↔ s.FrameSizes := by
  simp only [frameViolations, List.append_eq_nil_iff, demand_eq_nil_iff,
    overheadViolations_eq_nil_iff, and_assoc]
  constructor
  · rintro ⟨hkey, hcompressed, hwrapped, hcount, hpos, hmax, hdata, hsimple, hsingle, hmultiple⟩
    exact ⟨hkey, hcompressed, hwrapped, hcount, ⟨hpos, hmax⟩, hdata, hsimple, hsingle, hmultiple⟩
  · rintro ⟨hkey, hcompressed, hwrapped, hcount, ⟨hpos, hmax⟩, hdata, hsimple, hsingle, hmultiple⟩
    exact ⟨hkey, hcompressed, hwrapped, hcount, hpos, hmax, hdata, hsimple, hsingle, hmultiple⟩

/-- Chunks have a size, and none is larger than a stream may use. -/
structure ChunkSizes (s : Settings) : Prop where
  pos : 0 < s.stream.chunkSize
  le_max : s.stream.chunkSize ≤ s.stream.maxChunkSize
  max_le : s.stream.maxChunkSize ≤ maxChunkSize

theorem streamViolations_eq_nil_iff (s : Settings) : s.streamViolations = [] ↔ s.ChunkSizes := by
  rw [streamViolations, demand_eq_nil_iff]
  exact ⟨fun ⟨hpos, hle, hmax⟩ => ⟨hpos, hle, hmax⟩, fun ⟨hpos, hle, hmax⟩ => ⟨hpos, hle, hmax⟩⟩

/-- No rule is broken if no group of rules reports anything. -/
theorem violations_eq_nil_iff (s : Settings) :
    s.violations = [] ↔
      s.IdWidths ∧ s.SupportedAlgorithm
        ∧ s.profiles.entries.flatMap (fun e => profileViolations e.1 e.2) = []
        ∧ s.FrameSizes ∧ s.ChunkSizes := by
  simp only [violations, violationsBy, List.append_eq_nil_iff, and_assoc, idViolations_eq_nil_iff,
    algorithmViolations_eq_nil_iff, frameViolations_eq_nil_iff, streamViolations_eq_nil_iff]

/-- What is reckoned equals a declared size where no rule is broken, and so fits where sizes do. -/
theorem fits_of_violations_eq_nil {s : Settings} (h : s.violations = []) : s.exact.Fits := by
  obtain ⟨-, halgorithm, -, hframe, -⟩ := s.violations_eq_nil_iff.1 h
  exact {
    keyBits := halgorithm.keyBits ▸ UInt64.toNat_lt _
    publicKeyLength := hframe.keyLength ▸ UInt64.toNat_lt _
    wrappedKeySize := hframe.wrappedKeySize ▸ UInt64.toNat_lt _
    simpleOverhead := hframe.simpleOverhead ▸ UInt64.toNat_lt _
    singleOverhead := hframe.singleOverhead ▸ UInt64.toNat_lt _
    multipleOverhead := hframe.multipleOverhead ▸ UInt64.toNat_lt _ }

/-- The battery finds nothing exactly in settings that break no rule. -/
theorem battery_eq_ok_nil_iff {s : Settings} : s.battery = .ok [] ↔ s.violations = [] := by
  rw [battery_eq_ok_iff, and_iff_right_iff_imp]
  exact fits_of_violations_eq_nil

end Settings

/-! ## Configurations -/

namespace Config

variable (config : Config)

theorem violations_eq_nil : config.settings.violations = [] :=
  Settings.battery_eq_ok_nil_iff.1 config.accepted

theorem idWidths : config.settings.IdWidths :=
  ((Settings.violations_eq_nil_iff _).1 config.violations_eq_nil).1

theorem supportedAlgorithm : config.settings.SupportedAlgorithm :=
  ((Settings.violations_eq_nil_iff _).1 config.violations_eq_nil).2.1

theorem frameSizes : config.settings.FrameSizes :=
  ((Settings.violations_eq_nil_iff _).1 config.violations_eq_nil).2.2.2.1

theorem chunkSizes : config.settings.ChunkSizes :=
  ((Settings.violations_eq_nil_iff _).1 config.violations_eq_nil).2.2.2.2

theorem simpleOverhead_eq : config.settings.exact.simpleOverhead = 66 := by
  simp only [Settings.exact]
  rw [config.frameSizes.compressedLength, config.supportedAlgorithm.rawLength,
    config.supportedAlgorithm.ivSize, config.supportedAlgorithm.tagSize]
  rfl

theorem singleOverhead_eq : config.settings.exact.singleOverhead = 74 := by
  show config.settings.exact.simpleOverhead + _ = 74
  rw [config.simpleOverhead_eq, config.frameSizes.dataLengthSize]
  rfl

theorem multipleOverhead_eq : config.settings.exact.multipleOverhead = 68 := by
  show config.settings.exact.simpleOverhead + _ = 68
  rw [config.simpleOverhead_eq, config.frameSizes.countSize]
  rfl

/-- The octets of a mode's header, without the lines of a recipient table. -/
theorem overhead_eq (mode : Mode) :
    mode.overhead config
      = match mode with
        | .simple => 66
        | .single => 74
        | .multiple => 68 := by
  cases mode with
  | simple => exact config.frameSizes.simpleOverhead.trans config.simpleOverhead_eq
  | single => exact config.frameSizes.singleOverhead.trans config.singleOverhead_eq
  | multiple => exact config.frameSizes.multipleOverhead.trans config.multipleOverhead_eq

theorem countSize_eq : config.settings.multiple.countSize.toNat = 2 := by
  rw [config.frameSizes.countSize]
  rfl

theorem maxRecipients_pos : 0 < config.maxRecipients :=
  UInt64.lt_iff_toNat_lt.1 config.frameSizes.maxRecipients.1

/-- The table's count can express every number of recipients that is allowed. -/
theorem maxRecipients_le : config.maxRecipients ≤ 65535 :=
  UInt64.le_iff_toNat_le.1 config.frameSizes.maxRecipients.2

theorem idSize_bounds : 1 ≤ config.idSize ∧ config.idSize ≤ 255 := by
  rw [idSize, config.idWidths.recipient]
  cases hprovider : config.settings.idProvider with
  | objectId => decide
  | guid => decide
  | uuid => decide
  | custom length => exact config.idWidths.custom length hprovider

theorem chunkSize_pos : 0 < config.chunkSize :=
  UInt64.lt_iff_toNat_lt.1 config.chunkSizes.pos

theorem chunkSize_le_max : config.chunkSize ≤ config.maxChunkSize :=
  UInt64.le_iff_toNat_le.1 config.chunkSizes.le_max

theorem maxChunkSize_le : config.maxChunkSize ≤ 4 * 1024 * 1024 :=
  UInt64.le_iff_toNat_le.1 config.chunkSizes.max_le

end Config

end SealedEnvelope
