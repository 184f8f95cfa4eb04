import SealedEnvelope.Proofs.Config.Battery
import SealedEnvelope.Proofs.Config.Document
import SealedEnvelope.Proofs.Config.WireConstants

set_option autoImplicit false

/-! # Numbers that leave 64 bits

The sizes in a settings document are any 64-bit numbers, and the battery adds and multiplies them
before anything is known about them. A number that leaves 64 bits breaks its rule for certain, as no
declared size equals it. So it makes no settings unacceptable that exact arithmetic would accept;
but the battery ends in an overflow, and the rules that are broken are not reported
(`Config.buildFrom_ends`). Where all numbers fit, what is reported is that of exact arithmetic. -/

namespace SealedEnvelope

namespace Settings

variable {s : Settings}

/-- A rule that reckons a number compares it with a declared size. -/
theorem Rule.reckoned_lt_of_holds {r : Rule} (h : r.Holds s) : r.reckoned s < 2 ^ 64 := by
  cases r with
  | keyBits | publicKeyLength | compressedLength | wrappedKeySize | simpleOverhead
  | singleOverhead | multipleOverhead =>
    rw [← show UInt64.toNat _ = _ from h]
    exact UInt64.toNat_lt _
  | _ => exact Nat.two_pow_pos 64

theorem Rule.not_holds_of_le {r : Rule} (h : 2 ^ 64 ≤ r.reckoned s) : ¬r.Holds s := fun hholds =>
  absurd (reckoned_lt_of_holds hholds) (Nat.not_lt.2 h)

theorem reckonable_of_report_eq_nil (h : s.report = []) : s.Reckonable := fun r =>
  Rule.reckoned_lt_of_holds ((report_eq_nil_iff.1 h).1 r)

/-- What the battery comes to is told by the numbers that the rules reckon: the broken rules if all
    fit, an overflow of the product if that one does not, and else an overflow of a sum. -/
structure BatteryEnds (s : Settings) : Prop where
  list : ∀ violations, s.battery = .ok violations ↔ s.Reckonable ∧ violations = s.report
  product : s.battery = .error .product ↔ 2 ^ 64 ≤ Rule.keyBits.reckoned s
  sum : s.battery = .error .sum ↔ ¬s.Reckonable ∧ Rule.keyBits.reckoned s < 2 ^ 64
  broken : ∀ r : Rule, 2 ^ 64 ≤ r.reckoned s → ¬r.Holds s
  accepted : s.battery = .ok [] ↔ s.report = []

theorem batteryEnds (s : Settings) : s.BatteryEnds where
  list violations := by
    rw [battery_eq_ok_iff, ← reckonable_iff, ← violations_eq_report, eq_comm]
  product := by
    rw [battery_eq_error_iff, Reckoned.overflow_eq_product_iff]
    exact and_iff_right_of_imp fun hle hfits => absurd hfits.keyBits (Nat.not_lt.2 hle)
  sum := by
    rw [battery_eq_error_iff, Reckoned.overflow_eq_sum_iff, reckonable_iff]
    exact Iff.rfl
  broken _ := Rule.not_holds_of_le
  accepted := by rw [battery_eq_ok_nil_iff, violations_eq_report]

end Settings

namespace Config

open Settings

/-- How a build ends whose overrides can be read, by the settings that come of them. -/
inductive BuildEnds (s : Settings) : Except (Failure Error) Config → Prop
  | accepted (config : Config) :
    s.Reckonable → s.report = [] → config.settings = s → BuildEnds s (.ok config)
  | rejected :
    s.Reckonable → s.report ≠ [] → BuildEnds s (.error (.returned (.invalidConfiguration s.report)))
  | overflow (o : Overflow) :
    ¬s.Reckonable → s.battery = .error o → BuildEnds s (.error (.overflow o))

theorem ofSettings_ends (s : Settings) : BuildEnds s (ofSettings s) := by
  obtain ⟨hnil, config, hok, hsettings⟩ | ⟨violations, hlist, hne, herror⟩ | ⟨o, ho, herror⟩ :=
    s.ofSettings_eq
  · have hreport := s.batteryEnds.accepted.1 hnil
    rw [hok]
    exact .accepted config (reckonable_of_report_eq_nil hreport) hreport hsettings
  · obtain ⟨hreckonable, rfl⟩ := (s.batteryEnds.list violations).1 hlist
    rw [herror]
    exact .rejected hreckonable hne
  · rw [herror]
    exact .overflow o (reckonable_iff.not.2 (battery_eq_error_iff.1 ho).1) ho

/-- **Numbers that leave 64 bits.** The battery lists the rules that are broken in exact arithmetic
    if all numbers that it reckons fit, and ends in an overflow exactly if one of them does not;
    settings are accepted as in exact arithmetic. So a build whose overrides can be read ends in a
    configuration or in an error with the list of exact arithmetic, unless a number leaves 64 bits.
    Then it returns nothing. -/
theorem buildFrom_ends (s : Settings) (base : Config) (overrides : Json) :
    s.BatteryEnds
      ∧ ((∃ reason, base.buildFrom overrides = .error (.returned (.invalidOverride reason)))
        ∨ ∃ settings, Settings.codec.decode (base.document.merge overrides) = .ok settings
          ∧ BuildEnds settings (base.buildFrom overrides)) := by
  refine ⟨s.batteryEnds, ?_⟩
  cases overrides with
  | object members =>
    cases hdecode : Settings.codec.decode (base.document.merge (.object members)) with
    | error mismatch => exact .inl ⟨mismatch.message, by simp only [buildFrom, hdecode]⟩
    | ok settings =>
      rw [buildFrom_of_decode hdecode]
      exact .inr ⟨settings, rfl, ofSettings_ends settings⟩
  | _ => exact .inl ⟨_, rfl⟩

/-- A key of 2^61 octets has 2^64 bits. The settings break three rules, but the battery ends where
    the bits are reckoned, and the build returns neither a configuration nor an error. -/
theorem build_key_of_no_bits :
    let overrides := Json.object
      [("symmetric",
        .object [("key_size", Json.ofNat 2305843009213693952), ("key_bits", Json.ofNat 0)])]
    let s : Settings := { Settings.standard with cipher := ⟨"aes", "gcm", 0, 2305843009213693952⟩ }
    Settings.codec.decode (standard.document.merge overrides) = .ok s
      ∧ Rule.keyBits.reckoned s = 2 ^ 64
      ∧ s.report.map (·.rule)
        = ["algorithm.key_size", "algorithm.key_bits", "frame.encrypted_key_size"]
      ∧ s.battery = .error .product
      ∧ build overrides = .error (.overflow .product)
      ∧ (¬∃ config, build overrides = .ok config)
      ∧ ¬∃ e, build overrides = .error (.returned e) := by
  intro overrides s
  have hdecode : Settings.codec.decode (standard.document.merge overrides) = .ok s := by
    rw [← Settings.lawful_codec]
    rfl
  have hreckoned : Rule.keyBits.reckoned s = 2 ^ 64 := by decide +kernel
  have hrules : s.report.map (·.rule)
      = ["algorithm.key_size", "algorithm.key_bits", "frame.encrypted_key_size"] := by
    decide +kernel
  have hbattery : s.battery = .error .product := s.batteryEnds.product.2 hreckoned.ge
  have hbuild : build overrides = .error (.overflow .product) :=
    (buildFrom_of_decode hdecode).trans (accept_of_overflow hbattery)
  exact ⟨hdecode, hreckoned, hrules, hbattery, hbuild, by simp [hbuild], by simp [hbuild]⟩

end Config

end SealedEnvelope
