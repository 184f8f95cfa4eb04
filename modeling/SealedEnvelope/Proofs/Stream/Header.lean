import SealedEnvelope.Proofs.RecipientTable
import SealedEnvelope.Stream.Header

set_option autoImplicit false

/-! # The stream header's written form

`Header.octets` is what a stream header looks like. Writing asks for a valid recipient table only,
reading for a chunk size within bounds too (`Header.Valid`), and reading accepts exactly the written
forms of the valid headers (`Header.decode_eq_ok_iff`). No valid header is longer than the
configuration allows for (`Header.Valid.length_le`). -/

namespace SealedEnvelope.Stream

variable {config : Config}

theorem Kind.ofTag_eq_ok_iff {tag : UInt8} {kind : Kind} :
    Kind.ofTag tag = .ok kind ↔ tag = kind.tag := by
  constructor
  · intro h
    unfold Kind.ofTag at h
    split_ifs at h <;> cases h <;> assumption
  · rintro rfl
    cases kind <;> rfl

namespace Header

/-- The recipients, where a header lists them, make up a valid table. -/
def ValidTable (config : Config) : Option (List RecipientEntry) → Prop
  | none => True
  | some entries => RecipientTable.Valid config entries

/-- The octets of the recipient table, if there is one. -/
def tableOctets : Option (List RecipientEntry) → Bytes
  | none => []
  | some entries => RecipientTable.octets entries

/-- A header that a configuration admits. -/
structure Valid (config : Config) (h : Header) : Prop where
  pos : 1 ≤ h.chunkSize.toNat
  le_max : h.chunkSize.toNat ≤ config.maxChunkSize
  table : ValidTable config h.recipients

/-- The octets of a header. -/
def octets (h : Header) : Bytes :=
  h.kind.tag
    :: (h.ephemeral.bytes ++ h.baseIv.bytes ++ bigEndian 4 h.chunkSize.toNat
      ++ tableOctets h.recipients)

/-! ## Writing -/

theorem encodeRecipients_eq_ok_iff {recipients : Option (List RecipientEntry)} {bytes : Bytes} :
    encodeRecipients config recipients = .ok bytes
      ↔ ValidTable config recipients ∧ bytes = tableOctets recipients := by
  cases recipients with
  | none => simp [encodeRecipients, ValidTable, tableOctets, eq_comm]
  | some entries => exact RecipientTable.encode_eq_ok_iff

theorem encode_eq_ok_iff {h : Header} {bytes : Bytes} :
    h.encode config = .ok bytes ↔ ValidTable config h.recipients ∧ bytes = h.octets := by
  simp only [encode, bind_eq_ok, pure_eq_ok, encodeRecipients_eq_ok_iff]
  constructor
  · rintro ⟨_, ⟨hvalid, rfl⟩, rfl⟩
    exact ⟨hvalid, rfl⟩
  · rintro ⟨hvalid, rfl⟩
    exact ⟨_, ⟨hvalid, rfl⟩, rfl⟩

/-- No header is longer than the configuration allows for. -/
theorem length_octets_le {h : Header} (hvalid : ValidTable config h.recipients) :
    h.octets.length ≤ maxEncodedLength config := by
  have hcount := config.countSize_eq
  rcases h with ⟨ephemeral, baseIv, chunkSize, recipients⟩
  cases recipients with
  | none =>
    simp only [octets, tableOctets, maxEncodedLength, fixedSize, List.length_cons,
      List.length_append, Octets.length_bytes, length_bigEndian, List.length_nil]
    omega
  | some entries =>
    have htable : (RecipientTable.octets entries).length
        = 2 + entries.length * RecipientTable.entrySize config :=
      RecipientTable.Valid.length_octets hvalid
    have hentries : entries.length * RecipientTable.entrySize config
        ≤ config.maxRecipients * RecipientTable.entrySize config :=
      Nat.mul_le_mul_right _ hvalid.le_max
    simp only [octets, tableOctets, maxEncodedLength, fixedSize, hcount, List.length_cons,
      List.length_append, Octets.length_bytes, length_bigEndian, htable]
    omega

/-! ## Reading -/

theorem checkChunkSize_eq_ok_iff {chunkSize : Nat} :
    checkChunkSize config chunkSize = .ok ()
      ↔ 1 ≤ chunkSize ∧ chunkSize ≤ config.maxChunkSize := by
  rw [checkChunkSize]
  split_ifs <;> simp <;> omega

theorem readRecipients_eq_ok_iff {kind : Kind} {recipients : Option (List RecipientEntry)}
    {input rest : Bytes} :
    readRecipients config kind input = .ok (recipients, rest)
      ↔ (if recipients.isSome then Kind.multiple else .single) = kind
        ∧ ValidTable config recipients ∧ input = tableOctets recipients ++ rest := by
  cases kind with
  | single =>
    rw [readRecipients, state_pure_eq_ok]
    cases recipients <;> simp [ValidTable, tableOctets]
  | multiple =>
    simp only [readRecipients, state_bind_eq_ok, state_pure_eq_ok, RecipientTable.read_eq_ok_iff]
    constructor
    · rintro ⟨entries, _, ⟨hvalid, rfl⟩, rfl, rfl⟩
      exact ⟨rfl, hvalid, rfl⟩
    · cases recipients with
      | none => rintro ⟨h, -⟩; cases h
      | some entries =>
        rintro ⟨-, hvalid, rfl⟩
        exact ⟨entries, rest, ⟨hvalid, rfl⟩, rfl, rfl⟩

theorem read_eq_ok_iff {input rest : Bytes} {h : Header} :
    read config input = .ok (h, rest) ↔ h.Valid config ∧ input = h.octets ++ rest := by
  simp only [read, state_bind_eq_ok, state_pure_eq_ok, state_lift_eq_ok, Reader.octet_eq_ok_iff,
    Reader.octets_eq_ok_iff, Reader.nat_eq_ok_iff, Kind.ofTag_eq_ok_iff, readRecipients_eq_ok_iff]
  constructor
  · rintro ⟨_, _, rfl, kind, _, ⟨rfl, rfl⟩, ephemeral, _, rfl, baseIv, _, rfl, chunkSize, _,
      ⟨hlt, rfl⟩, _, _, ⟨hbounds, rfl⟩, recipients, _, ⟨rfl, htable, rfl⟩, rfl, rfl⟩
    have hsize : (UInt32.ofNat chunkSize).toNat = chunkSize := UInt32.toNat_ofNat_of_lt' hlt
    obtain ⟨hpos, hle⟩ := checkChunkSize_eq_ok_iff.1 hbounds
    refine ⟨⟨?_, ?_, htable⟩, ?_⟩
    · rwa [hsize]
    · rwa [hsize]
    · simp [octets, Header.kind, hsize]
  · rintro ⟨⟨hpos, hle, htable⟩, rfl⟩
    refine ⟨h.kind.tag, _, rfl, h.kind, _, ⟨rfl, rfl⟩, h.ephemeral, _, ?_, h.baseIv, _, rfl,
      h.chunkSize.toNat, _, ⟨h.chunkSize.toNat_lt, rfl⟩, (), _,
      ⟨checkChunkSize_eq_ok_iff.2 ⟨hpos, hle⟩, rfl⟩, h.recipients, rest, ⟨rfl, htable, rfl⟩,
      by simp, rfl⟩
    simp

theorem decode_eq_ok_iff {bytes : Bytes} {h : Header} :
    decode config bytes = .ok h ↔ h.Valid config ∧ bytes = h.octets := by
  simp only [decode, bind_eq_ok, Prod.exists, Reader.run, read_eq_ok_iff]
  constructor
  · rintro ⟨h', rest, ⟨hvalid, rfl⟩, hrest⟩
    split_ifs at hrest with hne
    · exact (throw_eq_ok.1 hrest).elim
    · obtain rfl := pure_eq_ok.1 hrest
      exact ⟨hvalid, by simp [not_not.1 hne]⟩
  · rintro ⟨hvalid, rfl⟩
    exact ⟨h, [], ⟨hvalid, by simp⟩, rfl⟩

end Header

end SealedEnvelope.Stream
