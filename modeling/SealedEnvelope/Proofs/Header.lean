import SealedEnvelope.Proofs.RecipientTable

set_option autoImplicit false

/-! # The message header's written form

`Header.octets` is what a header looks like, and `Header.Valid` says which headers a configuration
admits: all of the simple and single modes, and those of the multiple mode whose table is valid.
Writing succeeds exactly for the valid headers (`Header.encode_eq_ok_iff`) and reading accepts
exactly what writing produces, whatever follows (`Header.decode_eq_ok_iff`). So the codec is a
bijection between valid headers and the octet strings it accepts. -/

namespace SealedEnvelope

variable {config : Config}

theorem Mode.ofTag_eq_ok_iff {tag : UInt8} {mode : Mode} :
    Mode.ofTag tag = .ok mode ↔ tag = mode.tag := by
  constructor
  · intro h
    unfold Mode.ofTag at h
    split_ifs at h <;> cases h <;> assumption
  · rintro rfl
    cases mode <;> rfl

theorem Mode.ofTag_eq_error_iff {tag : UInt8} {e : Error} :
    Mode.ofTag tag = .error e ↔ (tag ≠ 33 ∧ tag ≠ 66 ∧ tag ≠ 99) ∧ e = .unknownTypeTag tag := by
  unfold Mode.ofTag
  split_ifs <;> simp_all [eq_comm]

/-- The body of a header has what its mode asks for. -/
def HeaderBody.Valid (config : Config) : HeaderBody → Prop
  | .simple | .single _ => True
  | .multiple entries => RecipientTable.Valid config entries

/-- The octets that a mode adds. -/
def HeaderBody.octets : HeaderBody → Bytes
  | .simple => []
  | .single dataLength => bigEndian 8 dataLength.toNat
  | .multiple entries => RecipientTable.octets entries

namespace Header

/-- A header that a configuration admits. -/
def Valid (config : Config) (h : Header) : Prop := h.body.Valid config

/-- The octets of a header. -/
def octets (h : Header) : Bytes :=
  h.mode.tag :: (h.ephemeral.bytes ++ h.iv.bytes ++ h.tag.bytes ++ h.body.octets)

/-- The octets of a header that the payload's tag covers. -/
def covered (h : Header) : Bytes :=
  h.mode.tag :: (h.ephemeral.bytes ++ h.iv.bytes ++ h.body.octets)

/-! ## Writing -/

theorem encodeBody_eq_ok_iff {body : HeaderBody} {bytes : Bytes} :
    encodeBody config body = .ok bytes ↔ body.Valid config ∧ bytes = body.octets := by
  cases body with
  | simple => simp [encodeBody, HeaderBody.Valid, HeaderBody.octets, eq_comm]
  | single dataLength => simp [encodeBody, HeaderBody.Valid, HeaderBody.octets, eq_comm]
  | multiple entries => exact RecipientTable.encode_eq_ok_iff

theorem encode_eq_ok_iff {h : Header} {bytes : Bytes} :
    h.encode config = .ok bytes ↔ h.Valid config ∧ bytes = h.octets := by
  simp only [encode, bind_eq_ok, pure_eq_ok, encodeBody_eq_ok_iff]
  constructor
  · rintro ⟨_, ⟨hvalid, rfl⟩, rfl⟩
    exact ⟨hvalid, rfl⟩
  · rintro ⟨hvalid, rfl⟩
    exact ⟨_, ⟨hvalid, rfl⟩, rfl⟩

theorem aad_eq_ok_iff {h : Header} {bytes : Bytes} :
    h.aad config = .ok bytes ↔ h.Valid config ∧ bytes = h.covered := by
  simp only [aad, bind_eq_ok, pure_eq_ok, encodeBody_eq_ok_iff]
  constructor
  · rintro ⟨_, ⟨hvalid, rfl⟩, rfl⟩
    exact ⟨hvalid, rfl⟩
  · rintro ⟨hvalid, rfl⟩
    exact ⟨_, ⟨hvalid, rfl⟩, rfl⟩

/-- The sizes that the configuration declares are those of the written form. -/
theorem Valid.length_octets {h : Header} (hvalid : h.Valid config) :
    h.octets.length = h.encodedLength config := by
  rcases h with ⟨ephemeral, iv, tag, body⟩
  cases body with
  | simple =>
    simp [octets, encodedLength, recipients, mode, HeaderBody.mode, HeaderBody.octets,
      config.overhead_eq]
  | single dataLength =>
    simp [octets, encodedLength, recipients, mode, HeaderBody.mode, HeaderBody.octets,
      config.overhead_eq]
  | multiple entries =>
    have htable : (RecipientTable.octets entries).length
        = 2 + entries.length * RecipientTable.entrySize config :=
      RecipientTable.Valid.length_octets hvalid
    simp only [octets, encodedLength, recipients, mode, HeaderBody.mode, HeaderBody.octets,
      config.overhead_eq, List.length_cons, List.length_append, Octets.length_bytes, htable]
    omega

/-! ## Reading -/

theorem readBody_eq_ok_iff {mode : Mode} {body : HeaderBody} {input rest : Bytes} :
    readBody config mode input = .ok (body, rest)
      ↔ body.mode = mode ∧ body.Valid config ∧ input = body.octets ++ rest := by
  cases mode with
  | simple =>
    rw [readBody, state_pure_eq_ok]
    cases body <;> simp [HeaderBody.mode, HeaderBody.Valid, HeaderBody.octets]
  | single =>
    simp only [readBody, state_bind_eq_ok, state_pure_eq_ok, Reader.nat_eq_ok_iff]
    constructor
    · rintro ⟨n, _, ⟨hlt, rfl⟩, rfl, rfl⟩
      refine ⟨rfl, trivial, ?_⟩
      rw [HeaderBody.octets, UInt64.toNat_ofNat_of_lt' hlt]
    · cases body with
      | single dataLength =>
        rintro ⟨-, -, rfl⟩
        exact ⟨dataLength.toNat, rest, ⟨dataLength.toNat_lt, rfl⟩, by simp, rfl⟩
      | _ => rintro ⟨h, -⟩; cases h
  | multiple =>
    simp only [readBody, state_bind_eq_ok, state_pure_eq_ok, RecipientTable.read_eq_ok_iff]
    constructor
    · rintro ⟨entries, _, ⟨hvalid, rfl⟩, rfl, rfl⟩
      exact ⟨rfl, hvalid, rfl⟩
    · cases body with
      | multiple entries =>
        rintro ⟨-, hvalid, rfl⟩
        exact ⟨entries, rest, ⟨hvalid, rfl⟩, rfl, rfl⟩
      | _ => rintro ⟨h, -⟩; cases h

theorem read_eq_ok_iff {input rest : Bytes} {h : Header} :
    read config input = .ok (h, rest) ↔ h.Valid config ∧ input = h.octets ++ rest := by
  simp only [read, state_bind_eq_ok, state_pure_eq_ok, state_lift_eq_ok, Reader.octet_eq_ok_iff,
    Reader.octets_eq_ok_iff, Mode.ofTag_eq_ok_iff, readBody_eq_ok_iff]
  constructor
  · rintro ⟨_, _, rfl, mode, _, ⟨rfl, rfl⟩, ephemeral, _, rfl, iv, _, rfl, tag, _, rfl, body, _,
      ⟨rfl, hvalid, rfl⟩, rfl, rfl⟩
    exact ⟨hvalid, by simp [octets, Header.mode]⟩
  · rintro ⟨hvalid, rfl⟩
    refine ⟨h.mode.tag, _, rfl, h.mode, _, ⟨rfl, rfl⟩, h.ephemeral, _, ?_, h.iv, _, rfl, h.tag, _,
      rfl, h.body, rest, ⟨rfl, hvalid, rfl⟩, rfl, rfl⟩
    simp

theorem split_eq_ok_iff {envelope ciphertext : Bytes} {h : Header} :
    split config envelope = .ok (h, ciphertext)
      ↔ h.Valid config ∧ envelope = h.octets ++ ciphertext :=
  read_eq_ok_iff

theorem decode_eq_ok_iff {envelope : Bytes} {h : Header} {n : Nat} :
    decode config envelope = .ok (h, n)
      ↔ h.Valid config ∧ n = h.octets.length ∧ h.octets <+: envelope := by
  simp only [decode, bind_eq_ok, pure_eq_ok, Prod.exists, split_eq_ok_iff, Prod.mk.injEq]
  constructor
  · rintro ⟨_, rest, ⟨hvalid, rfl⟩, rfl, rfl⟩
    refine ⟨hvalid, by simp, List.prefix_append _ _⟩
  · rintro ⟨hvalid, rfl, rest, rfl⟩
    exact ⟨h, rest, ⟨hvalid, rfl⟩, rfl, by simp⟩

theorem split_eq_ok_iff_decode {envelope ciphertext : Bytes} {h : Header} :
    split config envelope = .ok (h, ciphertext)
      ↔ ∃ n, decode config envelope = .ok (h, n) ∧ ciphertext = envelope.drop n := by
  simp only [split_eq_ok_iff, decode_eq_ok_iff]
  constructor
  · rintro ⟨hvalid, rfl⟩
    exact ⟨_, ⟨hvalid, rfl, List.prefix_append _ _⟩, (List.drop_left ..).symm⟩
  · rintro ⟨_, ⟨hvalid, rfl, rest, rfl⟩, rfl⟩
    rw [List.drop_left]
    exact ⟨hvalid, rfl⟩

/-! ## Failures -/

theorem malformed_readBody (mode : Mode) (input : Bytes) :
    Reader.Malformed (readBody config mode input) := by
  cases mode with
  | simple => exact Reader.malformed_pure
  | single => exact Reader.malformed_bind Reader.malformed_nat fun _ _ => Reader.malformed_pure
  | multiple =>
    exact Reader.malformed_bind (RecipientTable.malformed_read input) fun _ _ =>
      Reader.malformed_pure

/-- The octets behind the type octet fail as malformed only. -/
theorem malformed_readFields (mode : Mode) (input : Bytes) :
    Reader.Malformed
      ((do
        let ephemeral ← Reader.octets 33 "ephemeral public key"
        let iv ← Reader.octets 16 "iv"
        let tag ← Reader.octets 16 "auth tag"
        let body ← readBody config mode
        return { ephemeral, iv, tag, body } : Reader Header) input) :=
  Reader.malformed_bind Reader.malformed_octets fun _ _ =>
    Reader.malformed_bind Reader.malformed_octets fun _ _ =>
      Reader.malformed_bind Reader.malformed_octets fun _ rest =>
        Reader.malformed_bind (malformed_readBody mode rest) fun _ _ => Reader.malformed_pure

/-- A header is refused for its first octet, if that announces no mode, and as malformed
    otherwise. -/
theorem decode_eq_error {envelope : Bytes} {e : Error} (h : decode config envelope = .error e) :
    (∃ tag rest, envelope = tag :: rest ∧ tag ≠ 33 ∧ tag ≠ 66 ∧ tag ≠ 99
        ∧ e = .unknownTypeTag tag)
      ∨ (∀ tag, envelope.head? = some tag → tag = 33 ∨ tag = 66 ∨ tag = 99)
        ∧ ∃ reason, e = .malformedHeader reason := by
  simp only [decode, bind_eq_error, pure_eq_error, and_false, exists_false, or_false] at h
  cases envelope with
  | nil =>
    refine Or.inr ⟨fun tag htag => ?_, ?_⟩
    · simp at htag
    · exact ⟨_, (Except.error.inj h).symm⟩
  | cons tag rest =>
    -- The type octet is there, so whatever fails is behind it.
    have htag : Reader.octet "type tag" (tag :: rest) = .ok (tag, rest) := rfl
    rw [split, Reader.run, read, state_bind_eq_error] at h
    rcases h with h | ⟨tag', rest', htag', h⟩
    · rw [htag] at h
      cases h
    obtain ⟨rfl, rfl⟩ : tag = tag' ∧ rest = rest' := by simpa [htag] using htag'
    rcases state_bind_eq_error.1 h with h | ⟨mode, rest', hmode, h⟩
    · obtain ⟨⟨h33, h66, h99⟩, rfl⟩ := Mode.ofTag_eq_error_iff.1 (state_lift_eq_error.1 h)
      exact Or.inl ⟨tag, rest, rfl, h33, h66, h99, rfl⟩
    · refine Or.inr ⟨fun tag' htag' => ?_, malformed_readFields mode rest' e h⟩
      obtain rfl : tag = tag' := by simpa using htag'
      have hmode' := Mode.ofTag_eq_ok_iff.1 (state_lift_eq_ok.1 hmode).1
      cases mode with
      | simple => exact Or.inl hmode'
      | single => exact Or.inr (Or.inl hmode')
      | multiple => exact Or.inr (Or.inr hmode')

/-- No two valid headers are written so that one's octets start the other's. -/
theorem Valid.eq_of_prefix {h h' : Header} (hvalid : h.Valid config) (hvalid' : h'.Valid config)
    {envelope : Bytes} (hinitial : h.octets <+: envelope) (hinitial' : h'.octets <+: envelope) :
    h = h' := by
  have hdecode := decode_eq_ok_iff.2 ⟨hvalid, rfl, hinitial⟩
  have hdecode' := decode_eq_ok_iff.2 ⟨hvalid', rfl, hinitial'⟩
  rw [hdecode] at hdecode'
  exact (Prod.mk.inj (Except.ok.inj hdecode')).1

/-! ## The codec -/

/-- **The codec is a bijection onto the octets it accepts.** What is written reads back whatever
    follows, and has the declared length; what is accepted is the written form of the header that
    is read, whose recipients are as the configuration asks; no shorter prefix of it is accepted;
    and what is refused is refused for its type octet or as malformed. -/
theorem codec_bijective (config : Config) :
    (∀ (h : Header) (bytes rest : Bytes), h.encode config = .ok bytes →
        decode config (bytes ++ rest) = .ok (h, bytes.length)
          ∧ bytes.length = h.encodedLength config)
      ∧ (∀ (envelope : Bytes) (h : Header) (n : Nat), decode config envelope = .ok (h, n) →
        n ≤ envelope.length
          ∧ h.encode config = .ok (envelope.take n)
          ∧ (∀ entries, h.body = .multiple entries →
            (entries.map (·.id)).Nodup
              ∧ (∀ e ∈ entries, e.id.length = config.idSize)
              ∧ 1 ≤ entries.length ∧ entries.length ≤ config.maxRecipients)
          ∧ (∀ shorter, shorter <+: envelope.take n → shorter ≠ envelope.take n →
            ∃ e, decode config shorter = .error e))
      ∧ ∀ (envelope : Bytes) (e : Error), decode config envelope = .error e →
        (∃ tag rest, envelope = tag :: rest ∧ tag ≠ 33 ∧ tag ≠ 66 ∧ tag ≠ 99
            ∧ e = .unknownTypeTag tag)
          ∨ (∀ tag, envelope.head? = some tag → tag = 33 ∨ tag = 66 ∨ tag = 99)
            ∧ ∃ reason, e = .malformedHeader reason := by
  refine ⟨fun h bytes rest hencode => ?_, fun envelope h n hdecode => ?_,
    fun envelope e => decode_eq_error⟩
  · obtain ⟨hvalid, rfl⟩ := encode_eq_ok_iff.1 hencode
    exact ⟨decode_eq_ok_iff.2 ⟨hvalid, rfl, List.prefix_append _ _⟩, hvalid.length_octets⟩
  · obtain ⟨hvalid, rfl, rest, rfl⟩ := decode_eq_ok_iff.1 hdecode
    rw [List.take_left]
    refine ⟨by simp, encode_eq_ok_iff.2 ⟨hvalid, rfl⟩, ?_, ?_⟩
    · rintro entries hbody
      rw [Valid, hbody] at hvalid
      exact ⟨hvalid.nodup, hvalid.idSize, hvalid.pos, hvalid.le_max⟩
    · intro shorter hinitial hne
      cases hshorter : decode config shorter with
      | error e => exact ⟨e, rfl⟩
      | ok result =>
        obtain ⟨h', n'⟩ := result
        obtain ⟨hvalid', -, hinitial'⟩ := decode_eq_ok_iff.1 hshorter
        -- A header that starts `shorter` also starts `envelope`, so it is `h`, which does not fit.
        have heq : h' = h :=
          hvalid'.eq_of_prefix hvalid (hinitial'.trans hinitial) (List.prefix_refl _)
        rw [heq] at hinitial'
        exact absurd (hinitial.eq_of_length_le hinitial'.length_le) hne

/-- A header for one recipient, and what its octets stand for with more behind them. -/
theorem codec_bijective_one_recipient :
    ∃ (h : Header) (bytes : Bytes), h.mode = .multiple ∧ h.encode .standard = .ok bytes
      ∧ decode .standard (bytes ++ [1, 2, 3]) = .ok (h, bytes.length)
      ∧ ∀ shorter, shorter <+: bytes → shorter ≠ bytes →
        ∃ e, decode .standard shorter = .error e := by
  let entry : RecipientEntry :=
    { id := List.replicate 12 7
      wrappedKey :=
        { ephemeral := .zero 65, iv := .zero 16, tag := .zero 16, encryptedKey := .zero 32 } }
  let h : Header :=
    { ephemeral := .zero 33, iv := .zero 16, tag := .zero 16, body := .multiple [entry] }
  have hencode : h.encode .standard = .ok h.octets := by decide +kernel
  obtain ⟨hround, hexact, -⟩ := codec_bijective .standard
  have hdecode := (hround h h.octets [1, 2, 3] hencode).1
  obtain ⟨-, -, -, hshorter⟩ := hexact _ _ _ hdecode
  rw [List.take_left] at hshorter
  exact ⟨h, h.octets, rfl, hencode, hdecode, hshorter⟩

end Header

end SealedEnvelope
