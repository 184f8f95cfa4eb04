import SealedEnvelope.Proofs.Config.Document
import SealedEnvelope.Proofs.Config.WireConstants
import SealedEnvelope.Proofs.KeyWrap

set_option autoImplicit false

/-! # The forms of public keys that a configuration declares

A configuration declares the sizes of the three forms of a public key and the mark in front of the
uncompressed one. Keys are written and read in forms of the engine's own, and the rules hold the
declared sizes to these (`Settings.keyForms`). The mark is read by no rule
(`Settings.battery_withMark`), while keys are written and read with `0x04` and nothing else
(`Curve.marks_iff`). So a configuration is right about the mark only if it happens to declare that
one, and there are configurations that declare another (`Config.build_other_mark`). -/

namespace SealedEnvelope

open Curve (Point uncompressedMark generator)

namespace KeyWrap

/-- Every wrapped key that is written carries the uncompressed form of the ephemeral key. -/
theorem ephemeral_of_mem_wrapAll {config : Config} {ephemeral : PrivateKey}
    {messageKey : Octets 32} {recipients : List Recipient} {tape rest : Tape}
    {entries : List RecipientEntry}
    (h : (wrapAll config ephemeral messageKey recipients).run tape = some (.ok entries, rest))
    {e : RecipientEntry} (he : e ∈ entries) :
    e.wrappedKey.ephemeral = ephemeral.publicKey.uncompressed := by
  have hentries := wrappedFor_of_wrapAll h
  clear h
  induction hentries with
  | nil => cases he
  | cons hfirst _ ih =>
    obtain ⟨_, _, -, rfl⟩ := hfirst
    rcases List.mem_cons.1 he with rfl | he
    · rfl
    · exact ih he

/-- Every wrapped key that is opened carries the uncompressed form of the header's key. -/
theorem ephemeral_of_unwrap {config : Config} {key : PrivateKey} {headerEphemeral : Octets 33}
    {entry : RecipientEntry} {messageKey : Octets 32}
    (h : unwrap config key headerEphemeral entry = .ok messageKey) :
    ∃ P : Point, headerEphemeral = P.compressed
      ∧ entry.wrappedKey.ephemeral = P.uncompressed := by
  obtain ⟨hembedded, -⟩ := unwrap_eq_ok_iff.1 h
  obtain ⟨P, -, hform, hheader⟩ := normalizePublicKey_eq_ok_iff.1 hembedded
  refine ⟨P, hheader, Octets.ext ?_⟩
  have hlength : entry.wrappedKey.ephemeral.bytes.length = 65 :=
    entry.wrappedKey.ephemeral.length_eq
  generalize entry.wrappedKey.ephemeral.bytes = bytes at hform hlength
  cases hform with
  | uncompressed => rfl
  | compressed => simp at hlength
  | compact => simp at hlength
  | raw => simp at hlength

end KeyWrap

/-! ## The mark -/

namespace Curve

/-- Whether an octet is the mark of the uncompressed form: points are written behind it, those in
    wrapped keys among them, and both coordinates of a point are read behind it and behind no
    other. -/
structure Marks (mark : UInt8) : Prop where
  written : ∀ P : Point, P.uncompressed.bytes.head? = some mark
  wrapped : ∀ (config : Config) (ephemeral : PrivateKey) (messageKey : Octets 32)
    (recipients : List Recipient) (tape rest : Tape) (entries : List RecipientEntry),
    (KeyWrap.wrapAll config ephemeral messageKey recipients).run tape = some (.ok entries, rest) →
    ∀ e ∈ entries, e.wrappedKey.ephemeral.bytes.head? = some mark
  opened : ∀ (config : Config) (key : PrivateKey) (header : Octets 33) (entry : RecipientEntry)
    (messageKey : Octets 32), KeyWrap.unwrap config key header entry = .ok messageKey →
    entry.wrappedKey.ephemeral.bytes.head? = some mark
  read : ∀ P : Point, P.OnCurve → ∀ front : UInt8,
    (∃ Q, parsePublicKey (front :: P.uncompressed.bytes.tail) = .ok Q) ↔ front = mark

/-- Both coordinates of a point are read behind `0x04` only. -/
theorem parsePublicKey_marked_iff {P : Point} (hP : P.OnCurve) (front : UInt8) :
    (∃ Q, parsePublicKey (front :: P.uncompressed.bytes.tail) = .ok Q)
      ↔ front = uncompressedMark := by
  constructor
  · intro h
    obtain ⟨Q, hQ⟩ := h
    have hlength : P.uncompressed.bytes.tail.length = 64 := by simp
    rcases parsePublicKey_cons_eq_ok_iff.1 hQ with ⟨h, -⟩ | ⟨-, hmark, -⟩ | ⟨h, -⟩
    · omega
    · exact hmark
    · omega
  · rintro rfl
    exact ⟨P, parsePublicKey_eq_ok_iff.2 ⟨hP, .uncompressed⟩⟩

theorem marks_uncompressedMark : Marks uncompressedMark where
  written := fun _ => rfl
  wrapped := by
    intro config ephemeral messageKey recipients tape rest entries h e he
    rw [KeyWrap.ephemeral_of_mem_wrapAll h he]
    rfl
  opened := by
    intro config key header entry messageKey h
    obtain ⟨P, -, hentry⟩ := KeyWrap.ephemeral_of_unwrap h
    rw [hentry]
    rfl
  read := fun _ hP => parsePublicKey_marked_iff hP

/-- No octet but `0x04` is the mark. -/
theorem marks_iff {mark : UInt8} : Marks mark ↔ mark = uncompressedMark := by
  constructor
  · intro h
    have hboth : some uncompressedMark = some mark := h.written generator
    exact (Option.some.inj hboth).symm
  · rintro rfl
    exact marks_uncompressedMark

end Curve

namespace Settings

variable {s : Settings}

/-- The same settings but for the declared mark. -/
def withMark (s : Settings) (mark : UInt8) : Settings :=
  { s with publicKey := { s.publicKey with mark := mark } }

/-- No rule reads the mark. -/
theorem battery_withMark (s : Settings) (mark : UInt8) :
    (s.withMark mark).battery = s.battery := rfl

/-! ## The sizes -/

/-- The declared sizes are those of the forms that keys are written in and read from. -/
structure KeyForms (s : Settings) : Prop where
  compressed : ∀ P : Point, P.compressed.bytes.length = s.publicKey.compressedLength.toNat
  uncompressed : ∀ P : Point, P.uncompressed.bytes.length = s.publicKey.length.toNat
  wrapped : ∀ entry : RecipientEntry,
    entry.wrappedKey.ephemeral.bytes.length = s.publicKey.length.toNat
  raw : ∀ (bytes : Bytes) (P : Point), bytes.length = s.publicKey.rawLength.toNat →
    (parsePublicKey bytes = .ok P
      ↔ P.OnCurve ∧ bytes = bigEndian 32 P.x.val ++ bigEndian 32 P.y.val)
  accepted : ∀ (bytes : Bytes) (P : Point), parsePublicKey bytes = .ok P →
    bytes.length = s.publicKey.compressedLength.toNat
    ∨ bytes.length = s.publicKey.length.toNat
    ∨ bytes.length = s.publicKey.rawLength.toNat

/-- Settings that break no rule declare these sizes. -/
theorem keyForms (h : s.violations = []) : s.KeyForms := by
  obtain ⟨hraw, hlength, hcompressed⟩ := (wireConstants h).publicKey
  have hraw : s.publicKey.rawLength.toNat = 64 := by rw [hraw]; rfl
  have hlength : s.publicKey.length.toNat = 65 := by rw [hlength]; rfl
  have hcompressed : s.publicKey.compressedLength.toNat = 33 := by rw [hcompressed]; rfl
  refine ⟨?_, ?_, ?_, ?_, ?_⟩
  · intro P
    rw [hcompressed, P.compressed.length_eq]
  · intro P
    rw [hlength, P.uncompressed.length_eq]
  · intro entry
    rw [hlength, entry.wrappedKey.ephemeral.length_eq]
  · intro bytes P hbytes
    rw [hraw] at hbytes
    rw [parsePublicKey_eq_ok_iff]
    refine and_congr_right fun _ => ⟨fun hform => ?_, fun heq => heq ▸ .raw⟩
    cases hform with
    | raw => rfl
    | compressed => simp at hbytes
    | compact => simp at hbytes
    | uncompressed => simp at hbytes
  · intro bytes P hP
    obtain ⟨-, hform⟩ := parsePublicKey_eq_ok_iff.1 hP
    rw [hcompressed, hlength, hraw]
    cases hform with
    | compressed => exact Or.inl (by simp)
    | compact => exact Or.inl (by simp)
    | uncompressed => exact Or.inr (Or.inl (by simp))
    | raw => exact Or.inr (Or.inr (by simp))

end Settings

/-! ## What configurations declare -/

/-- **The declared forms of public keys.** However a configuration is obtained, the sizes that it
    declares are those that keys are written and read in. The mark that it declares is the one in
    front of the uncompressed form only if it declares `0x04`, and with any mark in its place the
    configuration can be obtained as well. -/
theorem obtainable_keyForms {s : Settings} (h : Obtainable s) :
    s.KeyForms ∧ (Curve.Marks s.publicKey.mark ↔ s.publicKey.mark = uncompressedMark)
      ∧ ∀ mark, Obtainable (s.withMark mark) := by
  refine ⟨Settings.keyForms h.checked, Curve.marks_iff, fun mark => ?_⟩
  have hbattery : (s.withMark mark).battery = .ok [] :=
    (s.battery_withMark mark).trans (Settings.battery_eq_ok_nil_iff.2 h.checked)
  exact @Obtainable.ofSettings _ ⟨s.withMark mark, hbattery⟩
    (Config.accept_eq_ok_iff.2 ⟨hbattery, rfl⟩)

namespace Config

/-- One member of an override document makes a configuration that is wrong about the mark: it
    declares `0x05`, and still keys begin with `0x04` and are refused behind `0x05`. -/
theorem build_other_mark :
    let overrides := Json.object [("public_key", .object [("public_key_magic", Json.ofNat 5)])]
    ∃ config, build overrides = .ok config
      ∧ config.settings = Settings.standard.withMark 5
      ∧ config.settings.publicKey.mark = 5
      ∧ generator.uncompressed.bytes.head? = some 4
      ∧ parsePublicKey (5 :: generator.uncompressed.bytes.tail)
          = .error (.invalidKey "public" "uncompressed key must start with 0x04, got 0x05")
      ∧ parsePublicKey (4 :: generator.uncompressed.bytes.tail) = .ok generator
      ∧ ¬Curve.Marks config.settings.publicKey.mark := by
  intro overrides
  have haccepted : (Settings.standard.withMark 5).battery = .ok [] := standard.accepted
  have hdecode : Settings.codec.decode (standard.document.merge overrides)
      = .ok (Settings.standard.withMark 5) := by
    rw [← Settings.lawful_codec]
    rfl
  refine ⟨⟨_, haccepted⟩, ?_, rfl, rfl, rfl, by decide +kernel, ?_, ?_⟩
  · exact (buildFrom_of_decode hdecode).trans (accept_eq_ok_iff.2 ⟨haccepted, rfl⟩)
  · exact parsePublicKey_eq_ok_iff.2 ⟨Curve.onCurve_generator, .uncompressed⟩
  · have hother : (5 : UInt8) ≠ uncompressedMark := by decide
    exact fun hmarks => hother (Curve.marks_iff.1 hmarks)

end Config

/-- The configuration with `0x05` declares the right sizes and the wrong mark. -/
theorem obtainable_keyForms_other_mark :
    let s := Settings.standard.withMark 5
    Obtainable s ∧ s.KeyForms ∧ ¬Curve.Marks s.publicKey.mark := by
  intro s
  have hobtainable : Obtainable s := (obtainable_keyForms Obtainable.standard).2.2 5
  obtain ⟨hforms, hmarks, -⟩ := obtainable_keyForms hobtainable
  exact ⟨hobtainable, hforms, fun h => absurd (hmarks.1 h) (by decide)⟩

end SealedEnvelope
