import SealedEnvelope.Proofs.KeyWrap

set_option autoImplicit false

/-! # Which octets are public keys

Public keys are described in three forms, told apart by their length (`Point.Described`). In 64 and
65 octets nothing else is taken. In 33 octets the mark is left to the reader of points, and that
reader also takes the mark `0x05`, which stands for the point with even second coordinate
(`Point.compact`). These are all the octets that are taken (`normalizePublicKey_exact`), and a key
with that mark is the only one of 33 octets that is not its own normal form. A header that carries
such a key is therefore of no use to anyone (`KeyWrap.unwrap_ne_ok_of_compact`). -/

namespace SealedEnvelope

open Curve (Point compactMark compressedMark generator)

namespace Curve

/-- The forms that public keys are described in: `0x02` or `0x03` by the parity of `y` and `x`,
    `0x04` and both coordinates, both coordinates without a mark. -/
inductive Point.Described (P : Point) : Bytes → Prop
  | compressed : Described P P.compressed.bytes
  | uncompressed : Described P P.uncompressed.bytes
  | raw : Described P (bigEndian 32 P.x.val ++ bigEndian 32 P.y.val)

/-- The mark `0x05`, then `x`. -/
def Point.compact (P : Point) : Bytes := compactMark :: bigEndian 32 P.x.val

/-- The compressed form with even second coordinate. -/
theorem Point.compressed_of_even {P : Point} (h : P.y.val % 2 = 0) :
    P.compressed.bytes = compressedMark :: bigEndian 32 P.x.val := by
  rw [Point.compressed, if_pos h]

/-- No compressed form has the mark `0x05`. -/
theorem Point.head?_compressed_ne (P : Point) : P.compressed.bytes.head? ≠ some compactMark := by
  rw [Point.compressed, List.head?_cons, ne_eq, Option.some.injEq]
  split <;> decide

/-- Besides the forms that are described there is the one with the mark `0x05`. -/
theorem Point.form_iff {P : Point} {bytes : Bytes} :
    P.Form bytes ↔ P.Described bytes ∨ P.y.val % 2 = 0 ∧ bytes = P.compact := by
  constructor
  · intro h
    cases h with
    | compressed => exact Or.inl .compressed
    | compact heven => exact Or.inr ⟨heven, rfl⟩
    | uncompressed => exact Or.inl .uncompressed
    | raw => exact Or.inl .raw
  · intro h
    rcases h with h | ⟨heven, rfl⟩
    · cases h with
      | compressed => exact .compressed
      | uncompressed => exact .uncompressed
      | raw => exact .raw
    · exact .compact heven

/-- That form is none of those that are described, of whatever point. -/
theorem Point.not_described_compact (P Q : Point) : ¬P.Described Q.compact := by
  intro h
  have hlength : Q.compact.length = 33 := by simp [Point.compact]
  generalize hbytes : Q.compact = bytes at h hlength
  cases h with
  | compressed => exact P.head?_compressed_ne (by rw [← hbytes, Point.compact, List.head?_cons])
  | uncompressed => simp at hlength
  | raw => simp at hlength

/-- In 33 octets a form is the compressed one or the one with the mark `0x05`. -/
theorem Point.Form.eq_of_length {P : Point} {bytes : Bytes} (h : P.Form bytes)
    (hlength : bytes.length = 33) :
    bytes = P.compressed.bytes ∨ P.y.val % 2 = 0 ∧ bytes = P.compact := by
  cases h with
  | compressed => exact Or.inl rfl
  | compact heven => exact Or.inr ⟨heven, rfl⟩
  | uncompressed => simp at hlength
  | raw => simp at hlength

end Curve

/-- **The public keys that are accepted.** Normalising succeeds exactly for the three described
    forms of the points of the curve and for the mark `0x05` with the first coordinate of a point
    whose second is even; whatever else is given is refused as a public key. Of 33 octets the normal
    form is these octets themselves, but for the mark `0x05`, which turns into `0x02`. -/
theorem normalizePublicKey_exact (bytes : Bytes) :
    ((∃ normal, normalizePublicKey bytes = .ok normal)
        ↔ (∃ P : Point, P.OnCurve ∧ P.Described bytes)
          ∨ ∃ P : Point, P.OnCurve ∧ P.y.val % 2 = 0 ∧ bytes = P.compact)
      ∧ (∀ e, normalizePublicKey bytes = .error e → ∃ reason, e = .invalidKey "public" reason)
      ∧ ∀ normal, normalizePublicKey bytes = .ok normal → bytes.length = 33 →
          normal.bytes
            = if bytes.head? = some compactMark then compressedMark :: bytes.tail else bytes := by
  refine ⟨?_, fun e h => ?_, fun normal h hlength => ?_⟩
  · simp only [normalizePublicKey_eq_ok_iff, Point.form_iff]
    constructor
    · intro h
      rcases h with ⟨_, P, hP, hdescribed | hcompact, -⟩
      · exact Or.inl ⟨P, hP, hdescribed⟩
      · exact Or.inr ⟨P, hP, hcompact⟩
    · intro h
      rcases h with ⟨P, hP, hdescribed⟩ | ⟨P, hP, hcompact⟩
      · exact ⟨P.compressed, P, hP, Or.inl hdescribed, rfl⟩
      · exact ⟨P.compressed, P, hP, Or.inr hcompact, rfl⟩
  · simp only [normalizePublicKey, bind_eq_error, pure_eq_error, and_false, exists_false,
      or_false] at h
    exact parsePublicKey_eq_error h
  · obtain ⟨P, -, hform, rfl⟩ := normalizePublicKey_eq_ok_iff.1 h
    rcases hform.eq_of_length hlength with rfl | ⟨heven, rfl⟩
    · rw [if_neg P.head?_compressed_ne]
    · rw [Point.compact, List.head?_cons, if_pos rfl, List.tail_cons,
        Point.compressed_of_even heven]

/-- Behind the mark `0x05` the generator is accepted, in octets that are none of the described forms
    of any point and not what they are normalised to. -/
theorem normalizePublicKey_compact_generator :
    normalizePublicKey generator.compact = .ok generator.compressed
      ∧ (¬∃ P : Point, P.OnCurve ∧ P.Described generator.compact)
      ∧ generator.compact.length = 33
      ∧ generator.compressed.bytes ≠ generator.compact := by
  have heven : generator.y.val % 2 = 0 := by decide
  refine ⟨?_, ?_, by simp [Point.compact], ?_⟩
  · exact normalizePublicKey_eq_ok_iff.2 ⟨_, Curve.onCurve_generator, .compact heven, rfl⟩
  · intro h
    obtain ⟨P, -, h⟩ := h
    exact P.not_described_compact generator h
  · rw [Point.compressed_of_even heven, Point.compact, ne_eq, List.cons.injEq, not_and]
    intro h
    cases h

/-- Behind a header with that mark nobody finds the message key: what the entries carry is
    normalised before it is compared, and so it never has the mark. -/
theorem KeyWrap.unwrap_ne_ok_of_compact {config : Config} {key : PrivateKey}
    {ephemeral : Octets 33} {entry : RecipientEntry}
    (h : ephemeral.bytes.head? = some compactMark) (messageKey : Octets 32) :
    unwrap config key ephemeral entry ≠ .ok messageKey := by
  intro hunwrap
  obtain ⟨hembedded, -⟩ := unwrap_eq_ok_iff.1 hunwrap
  obtain ⟨P, -, -, rfl⟩ := normalizePublicKey_eq_ok_iff.1 hembedded
  exact P.head?_compressed_ne h

end SealedEnvelope
