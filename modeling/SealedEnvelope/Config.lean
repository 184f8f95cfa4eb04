import SealedEnvelope.Config.Rules

set_option autoImplicit false

/-! # Configurations

A `Config` is a settings document in which the battery finds nothing; there is no other way to
obtain one. It is built by laying an override document over the document of a configuration that is
already there, and reading the result back. Where there is no configuration an error is returned, or
the battery has ended in an overflow. -/

namespace SealedEnvelope

/-- Settings in which the battery finds nothing. -/
structure Config where
  settings : Settings
  accepted : settings.battery = .ok []
deriving DecidableEq, Repr

namespace Config

/-- The configuration to start from. -/
def standard : Config := ⟨.standard, rfl⟩

instance : Inhabited Config := ⟨standard⟩

/-- Why there is no configuration. -/
inductive Failure (ε : Type) where
  /-- An error is returned. -/
  | returned (e : ε)
  /-- The battery has ended, and nothing is returned. -/
  | overflow (o : Overflow)
deriving DecidableEq, Repr

instance {ε : Type} : MonadLift (Except ε) (Except (Failure ε)) := ⟨Except.mapError .returned⟩

@[simp] theorem liftM_ok {ε α : Type} (a : α) :
    (liftM (.ok a : Except ε α) : Except (Failure ε) α) = .ok a := rfl

/-- The settings as a configuration, or what is made of all the rules they break. -/
def accept {ε : Type} (rejection : List Violation → ε) (settings : Settings) :
    Except (Failure ε) Config :=
  match h : settings.battery with
  | .ok [] => .ok ⟨settings, h⟩
  | .ok violations => .error (.returned (rejection violations))
  | .error o => .error (.overflow o)

section Accept

variable {ε : Type} {rejection : List Violation → ε} {settings : Settings} {config : Config}

/-- Settings are accepted if the battery finds nothing, and kept as they are. -/
theorem accept_eq_ok_iff :
    accept rejection settings = .ok config
      ↔ settings.battery = .ok [] ∧ config.settings = settings := by
  unfold accept
  split
  · next h =>
    rw [Except.ok.injEq]
    constructor
    · intro heq
      subst heq
      exact ⟨h, rfl⟩
    · rintro ⟨-, rfl⟩
      rfl
  · next violations hne h =>
    simp only [h, Except.ok.injEq, reduceCtorEq, false_iff]
    exact fun hnil => hne hnil.1
  · next h => simp [h]

/-- What the battery finds is what is returned. -/
theorem accept_of_ne_nil {violations : List Violation} (h : settings.battery = .ok violations)
    (hne : violations ≠ []) :
    accept rejection settings = .error (.returned (rejection violations)) := by
  unfold accept
  split
  · next hnil => exact absurd (Except.ok.inj (h.symm.trans hnil)) hne
  · next hfound => rw [Except.ok.inj (h.symm.trans hfound)]
  · next ho => cases h.symm.trans ho

theorem accept_of_overflow {o : Overflow} (h : settings.battery = .error o) :
    accept rejection settings = .error (.overflow o) := by
  unfold accept
  split
  · next hnil => cases h.symm.trans hnil
  · next hfound => cases h.symm.trans hfound
  · next ho => rw [Except.error.inj (h.symm.trans ho)]

end Accept

/-- The settings as a configuration, or all the rules they break. -/
def ofSettings (settings : Settings) : Except (Failure Error) Config :=
  accept .invalidConfiguration settings

/-- The configuration as a document. -/
def document (config : Config) : Json := Settings.codec.encode config.settings

/-- A configuration with overrides laid over it. -/
def buildFrom (base : Config) (overrides : Json) : Except (Failure Error) Config :=
  match overrides with
  | .object _ =>
    match Settings.codec.decode (base.document.merge overrides) with
    | .ok settings => ofSettings settings
    | .error mismatch => .error (.returned (.invalidOverride mismatch.message))
  | _ => .error (.returned (.invalidOverride "overrides must be a JSON object"))

/-- Overrides that can be read come to what the settings do. -/
theorem buildFrom_of_decode {base : Config} {members : List (String × Json)} {settings : Settings}
    (h : Settings.codec.decode (base.document.merge (.object members)) = .ok settings) :
    base.buildFrom (.object members) = ofSettings settings := by
  simp only [buildFrom, h]

/-- The standard configuration with overrides laid over it. -/
def build (overrides : Json) : Except (Failure Error) Config := standard.buildFrom overrides

/-- The overrides that fit all sizes of identifiers to a provider. -/
def providerOverrides (provider : IdProvider) : Json :=
  let size := Json.ofNat provider.byteLength
  .object
    [("id_provider", IdProvider.codec.encode provider),
     ("member_id_length", size),
     ("multiple", .object [("recipient_id_size", size)])]

/-- The standard configuration with all sizes of identifiers fitted to a provider. -/
def forProvider (provider : IdProvider) : Except (Failure Error) Config :=
  build (providerOverrides provider)

/-- Why a document is no configuration. -/
inductive DocumentError where
  | mismatch (mismatch : Json.Mismatch)
  | rejected (violations : List Violation)
deriving DecidableEq, Repr

/-- The error in words. -/
def DocumentError.message : DocumentError → String
  | mismatch m => m.message
  | rejected violations => (Error.invalidConfiguration violations).message

/-- The configuration that a complete document describes. -/
def ofDocument (document : Json) : Except (Failure DocumentError) Config :=
  match Settings.codec.decode document with
  | .ok settings => accept .rejected settings
  | .error mismatch => .error (.returned (.mismatch mismatch))

/-! ## Sizes that the format uses -/

/-- Octets of a symmetric key. -/
def keySize (config : Config) : Nat := config.settings.cipher.keySize.toNat

/-- A key of any other size is reported. -/
theorem keySize_eq (config : Config) : config.keySize = 32 := by
  have h := config.accepted
  rw [Settings.battery] at h
  cases hreckon : config.settings.reckon with
  | error o => simp [hreckon, bind, Except.bind] at h
  | ok n =>
    simp only [hreckon, bind, Except.bind, pure, Except.pure, Except.ok.injEq,
      Settings.violationsBy, Settings.algorithmViolations, List.append_eq_nil_iff] at h
    have hsize := h.1.1.1.2.1.1.1.1.1.2
    unfold Settings.demand at hsize
    split at hsize
    · next heq => rw [keySize, heq]; rfl
    · cases hsize

/-- Octets of a recipient's identifier. -/
def idSize (config : Config) : Nat := config.settings.multiple.idSize.toNat

/-- The most recipients of one envelope. -/
def maxRecipients (config : Config) : Nat := config.settings.multiple.maxRecipients.toNat

/-- Octets of a stream's chunks where the caller does not say. -/
def chunkSize (config : Config) : Nat := config.settings.stream.chunkSize.toNat

/-- The most octets of a stream's chunks. -/
def maxChunkSize (config : Config) : Nat := config.settings.stream.maxChunkSize.toNat

/-- Where identifiers come from. -/
def idProvider (config : Config) : IdProvider := config.settings.idProvider

/-- The password profile of a name. -/
def profile? (config : Config) (name : String) : Option PasswordProfile :=
  config.settings.profiles.get? name

end Config

end SealedEnvelope
