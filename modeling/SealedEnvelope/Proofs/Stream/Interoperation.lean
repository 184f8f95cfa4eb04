import SealedEnvelope.Proofs.Envelope.Acceptance
import SealedEnvelope.Proofs.Envelope.Interoperation
import SealedEnvelope.Proofs.Stream.RoundTrip

set_option autoImplicit false

/-! # Streams between configurations

A stream's header comes with three bounds of the configuration that reads it: on its own length, on
the chunk size and on the number of recipients. A stream that keeps all of them for two
configurations with one width of identifiers is decrypted alike under both, whatever becomes of it
(`decryptFor_congr`). Together with what holds of envelopes this says that configurations
interoperate (`configurations_interoperate`). -/

namespace SealedEnvelope

variable {config config' : Config}

namespace Stream

namespace Header

/-! ## Headers -/

/-- The chunk size that a header announces. -/
def announcedSize? (header : Bytes) : Option Nat := numberAt? header 50 4

/-- The number of recipients that a header for several announces. -/
def announcedCount? (header : Bytes) : Option Nat :=
  if header.head? = some Kind.multiple.tag then numberAt? header 54 2 else none

/-- A header announces nothing beyond what the configuration allows. -/
structure Within (config : Config) (header : Bytes) : Prop where
  chunkSize : ∀ size, announcedSize? header = some size → size ≤ config.maxChunkSize
  recipients : ∀ count, announcedCount? header = some count → count ≤ config.maxRecipients

theorem announcedSize?_eq_some_iff {tag : UInt8} {ephemeral : Octets 33} {baseIv : Octets 16}
    {input : Bytes} {size : Nat} :
    announcedSize? (tag :: (ephemeral.bytes ++ (baseIv.bytes ++ input))) = some size
      ↔ ∃ rest, Reader.nat 4 "chunk size" input = .ok (size, rest) := by
  let front : Bytes := tag :: (ephemeral.bytes ++ baseIv.bytes)
  have hfront : front.length = 50 := by simp [front]
  have hfields : tag :: (ephemeral.bytes ++ (baseIv.bytes ++ input)) = front ++ input := by
    simp [front]
  rw [announcedSize?, hfields]
  exact numberAt?_append_eq_some_iff hfront "chunk size"

theorem announcedCount?_eq_some_iff {ephemeral : Octets 33} {baseIv : Octets 16} {size : Nat}
    {input : Bytes} {count : Nat} :
    announcedCount?
        (Kind.multiple.tag :: (ephemeral.bytes ++ (baseIv.bytes ++ (bigEndian 4 size ++ input))))
        = some count
      ↔ ∃ rest, Reader.nat 2 "recipient count" input = .ok (count, rest) := by
  let front : Bytes :=
    Kind.multiple.tag :: (ephemeral.bytes ++ baseIv.bytes ++ bigEndian 4 size)
  have hfront : front.length = 54 := by simp [front]
  have hfields :
      Kind.multiple.tag :: (ephemeral.bytes ++ (baseIv.bytes ++ (bigEndian 4 size ++ input)))
        = front ++ input := by
    simp [front]
  rw [announcedCount?, List.head?_cons, if_pos rfl, hfields]
  exact numberAt?_append_eq_some_iff hfront "recipient count"

theorem checkChunkSize_of_le {size : Nat} (hle : size ≤ config.maxChunkSize) :
    checkChunkSize config size
      = if size = 0 then .error (.malformedHeader "chunk size is zero") else .ok () := by
  unfold checkChunkSize
  split_ifs <;> first | rfl | omega

theorem readRecipients_congr (hid : config.idSize = config'.idSize) {kind : Kind} {input : Bytes}
    (hcount : kind = .multiple → ∀ count rest,
      Reader.nat 2 "recipient count" input = .ok (count, rest) →
        count ≤ config.maxRecipients ∧ count ≤ config'.maxRecipients) :
    readRecipients config kind input = readRecipients config' kind input := by
  cases kind with
  | single => rfl
  | multiple =>
    rw [readRecipients, readRecipients, state_bind_apply, state_bind_apply,
      RecipientTable.read_congr hid (hcount rfl)]

theorem read_congr (hid : config.idSize = config'.idSize) {header : Bytes}
    (h : Within config header) (h' : Within config' header) :
    read config header = read config' header := by
  unfold read
  refine state_bind_congr_ok fun tag input htag => ?_
  refine state_bind_congr_ok fun kind input₁ hkind => ?_
  refine state_bind_congr_ok fun ephemeral input₂ hephemeral => ?_
  refine state_bind_congr_ok fun baseIv input₃ hbaseIv => ?_
  refine state_bind_congr_ok fun size input₄ hsize => ?_
  obtain rfl := Reader.octet_eq_ok_iff.1 htag
  obtain ⟨hannounces, rfl⟩ := state_lift_eq_ok.1 hkind
  obtain rfl := Kind.ofTag_eq_ok_iff.1 hannounces
  obtain rfl := Reader.octets_eq_ok_iff.1 hephemeral
  obtain rfl := Reader.octets_eq_ok_iff.1 hbaseIv
  rw [checkChunkSize_of_le (h.chunkSize size (announcedSize?_eq_some_iff.2 ⟨_, hsize⟩)),
    checkChunkSize_of_le (h'.chunkSize size (announcedSize?_eq_some_iff.2 ⟨_, hsize⟩))]
  refine state_bind_congr_ok fun _ input₅ hcheck => ?_
  obtain ⟨-, rfl⟩ := state_lift_eq_ok.1 hcheck
  obtain ⟨-, rfl⟩ := Reader.nat_eq_ok_iff.1 hsize
  rw [state_bind_apply, state_bind_apply, readRecipients_congr hid]
  rintro rfl count rest hread
  exact ⟨h.recipients count (announcedCount?_eq_some_iff.2 ⟨rest, hread⟩),
    h'.recipients count (announcedCount?_eq_some_iff.2 ⟨rest, hread⟩)⟩

theorem decode_congr (hid : config.idSize = config'.idSize) {header : Bytes}
    (h : Within config header) (h' : Within config' header) :
    decode config header = decode config' header := by
  unfold decode Reader.run
  rw [read_congr hid h h']

/-- A valid header announces nothing beyond what the configuration allows. -/
theorem Valid.within {h : Header} (hvalid : h.Valid config) : Within config h.octets := by
  obtain ⟨ephemeral, baseIv, chunkSize, recipients⟩ := h
  obtain ⟨hpos, hle, htable⟩ := hvalid
  have hfields (tag : UInt8) (table : Bytes) :
      tag :: (ephemeral.bytes ++ baseIv.bytes ++ bigEndian 4 chunkSize.toNat ++ table)
        = tag :: (ephemeral.bytes
          ++ (baseIv.bytes ++ (bigEndian 4 chunkSize.toNat ++ table))) := by
    simp
  refine ⟨?_, ?_⟩
  · intro size hsize
    rw [octets, hfields, announcedSize?_eq_some_iff] at hsize
    obtain ⟨rest, hread⟩ := hsize
    obtain ⟨hlt, hbytes⟩ := Reader.nat_eq_ok_iff.1 hread
    obtain ⟨hfield, -⟩ := List.append_inj hbytes (by simp)
    rwa [← bigEndian_inj chunkSize.toNat_lt hlt hfield]
  · intro count hcount
    cases recipients with
    | none =>
      have hkind : Kind.single.tag ≠ Kind.multiple.tag := by decide
      simp [announcedCount?, octets, Header.kind, hkind] at hcount
    | some entries =>
      have hentries : RecipientTable.Valid config entries := htable
      rw [octets, hfields] at hcount
      obtain ⟨rest, hread⟩ := announcedCount?_eq_some_iff.1 hcount
      obtain ⟨hlt, hbytes⟩ := Reader.nat_eq_ok_iff.1 hread
      rw [tableOctets, RecipientTable.octets] at hbytes
      obtain ⟨hfield, -⟩ := List.append_inj hbytes (by simp)
      rw [← bigEndian_inj hentries.length_lt hlt hfield]
      exact hentries.le_max

end Header

/-! ## Streams -/

/-- A stream declares a header that is no longer and announces no more than the configuration
    allows. -/
def Within (config : Config) (stream : Bytes) : Prop :=
  ∀ length taken, LengthPrefix.decode stream = .ok (length, taken) →
    length ≤ Header.maxEncodedLength config
      ∧ Header.Within config ((stream.drop taken).take length)

/-- So does a stream with a valid header. -/
theorem Header.Valid.within_opening {h : Header} (hvalid : h.Valid config) (rest : Bytes) :
    Stream.Within config (h.opening ++ rest) := by
  have hlong : h.octets.length ≤ LengthPrefix.maxLength :=
    (length_octets_le hvalid.table).trans (maxEncodedLength_le config)
  have hread : LengthPrefix.decode (h.opening ++ rest)
      = .ok (h.octets.length, LengthPrefix.size h.octets.length) := by
    rw [opening, List.append_assoc]
    exact LengthPrefix.decode_octets hlong _
  intro length taken hdecode
  rw [hread] at hdecode
  obtain ⟨rfl, rfl⟩ := Prod.mk.inj (Except.ok.inj hdecode)
  refine ⟨length_octets_le hvalid.table, ?_⟩
  rw [opening, List.append_assoc, List.drop_left' (LengthPrefix.length_octets _),
    List.take_left' rfl]
  exact hvalid.within

theorem readHeader_congr (hid : config.idSize = config'.idSize) {source : Source}
    (h : Within config source.bytes) (h' : Within config' source.bytes) :
    readHeader config source = readHeader config' source := by
  unfold readHeader
  refine state_bind_congr_ok fun length s hlength => ?_
  obtain ⟨_, ⟨width, hholds, rfl⟩, hleaves⟩ := (Intake.reads_length _).sound hlength
  have hdecode : LengthPrefix.decode source.bytes = .ok (length, 1 + width.size) :=
    LengthPrefix.decode_eq_ok_iff.2
      ⟨width, hholds, rfl, by rw [hleaves.bytes]; exact List.prefix_append _ _⟩
  have hdrop : source.bytes.drop (1 + width.size) = s.bytes := by
    rw [hleaves.bytes, List.drop_left' (LengthPrefix.length_octetsIn width length)]
  obtain ⟨hle, hwithin⟩ := h _ _ hdecode
  obtain ⟨hle', hwithin'⟩ := h' _ _ hdecode
  rw [hdrop] at hwithin hwithin'
  simp only [Nat.not_lt.2 hle, Nat.not_lt.2 hle', if_false]
  refine state_bind_congr_ok fun bytes s' hbytes => ?_
  obtain ⟨_, ⟨hlen, rfl⟩, hleaves'⟩ := (Intake.reads_exactly length _).sound hbytes
  rw [hleaves'.bytes, List.take_left' hlen] at hwithin hwithin'
  rw [Header.decode_congr hid hwithin hwithin']

theorem recoverKey_congr (config config' : Config) (key : PrivateKey) (id : Option Bytes)
    (header : Header) : recoverKey config key id header = recoverKey config' key id header := by
  simp only [recoverKey, Config.sharedKey_eq, KeyWrap.unwrap_congr config config']

theorem decryptFor_congr (hid : config.idSize = config'.idSize) {source : Source}
    (h : Within config source.bytes) (h' : Within config' source.bytes) (key : PrivateKey)
    (id : Option Bytes) (sink : Sink) (options : Options) :
    decryptFor config key id source sink options
      = decryptFor config' key id source sink options := by
  simp only [decryptFor, openHeader, readHeader_congr hid h h', recoverKey_congr config config']

theorem decrypt_congr (hid : config.idSize = config'.idSize) {source : Source}
    (h : Within config source.bytes) (h' : Within config' source.bytes) (privateKey : Bytes)
    (id : Option Bytes) (sink : Sink) (options : Options) :
    decrypt config privateKey id source sink options
      = decrypt config' privateKey id source sink options := by
  unfold decrypt
  cases PrivateKey.ofBytes privateKey with
  | error e => rfl
  | ok key => exact decryptFor_congr hid h h' key id sink options

end Stream

/-! ## Configurations -/

/-- **Configurations interoperate.** Two configurations with one width of identifiers, whatever else
    they say, read the same from every envelope that announces no more recipients than both allow,
    and decrypt it alike, with every private key and identifier; they decrypt every stream alike
    that declares nothing beyond the bounds of both; and the keys that they derive, each in the size
    that it declares, are the same. An envelope that announces more recipients than a configuration
    allows is malformed to it. -/
theorem configurations_interoperate (config config' : Config)
    (hid : config.idSize = config'.idSize) :
    (∀ envelope, Header.Within config envelope → Header.Within config' envelope →
        Header.decode config envelope = Header.decode config' envelope
          ∧ ∀ privateKey : Bytes,
            Envelope.decryptForOne config privateKey envelope
                = Envelope.decryptForOne config' privateKey envelope
              ∧ (∀ id, Envelope.decryptMultiple config id privateKey envelope
                = Envelope.decryptMultiple config' id privateKey envelope)
              ∧ ∀ id, Envelope.decrypt config privateKey id envelope
                = Envelope.decrypt config' privateKey id envelope)
      ∧ (∀ source : Stream.Source, Stream.Within config source.bytes →
        Stream.Within config' source.bytes →
        ∀ (privateKey : Bytes) (id : Option Bytes) (sink : Stream.Sink) (options : Stream.Options),
          Stream.decrypt config privateKey id source sink options
            = Stream.decrypt config' privateKey id source sink options)
      ∧ (∀ (key : PrivateKey) (peer : Curve.Point),
        config.symmetricKey (key.agree peer).bytes = key.sharedKey peer
          ∧ config'.symmetricKey (key.agree peer).bytes = key.sharedKey peer)
      ∧ ∀ envelope count, Header.announced? envelope = some count →
        config.maxRecipients < count →
        Header.decode config envelope = .error (RecipientTable.tooMany config count)
          ∧ ∀ (key : PrivateKey) (id : Bytes),
            Envelope.decryptForOne config key.octets.bytes envelope
                = .error (RecipientTable.tooMany config count)
              ∧ Envelope.decryptMultiple config id key.octets.bytes envelope
                = .error (RecipientTable.tooMany config count)
              ∧ Envelope.decrypt config key.octets.bytes (some id) envelope
                = .error (RecipientTable.tooMany config count) := by
  refine ⟨?_, ?_, ?_, ?_⟩
  · intro envelope h h'
    refine ⟨Header.decode_congr hid h h', fun privateKey => ⟨?_, fun id => ?_, fun id => ?_⟩⟩
    · exact bind_congr_ok fun key _ => Envelope.openForOne_congr hid h h' key
    · exact bind_congr_ok fun key _ => Envelope.openForId_congr hid h h' id key
    · exact Envelope.decrypt_congr hid h h' privateKey id
  · intro source h h' privateKey id sink options
    exact Stream.decrypt_congr hid h h' privateKey id sink options
  · intro key peer
    exact ⟨config.symmetricKey_eq _, config'.symmetricKey_eq _⟩
  · intro envelope count hannounced hlt
    exact ⟨Header.decode_of_announced hannounced hlt,
      fun key id => Envelope.decrypt_of_announced hannounced hlt key id⟩

/-- Two configurations, one of them with shorter chunks and room for two recipients only. -/
theorem configurations_interoperate_fewer_recipients :
    let key : PrivateKey := ⟨2, by decide, by decide⟩
    let id : Bytes := List.replicate 12 7
    ∃ (config : Config) (one three stream : Bytes),
      config.idSize = Config.standard.idSize ∧ config.maxRecipients = 2
        ∧ config.maxChunkSize = 1024
        ∧ Envelope.decryptMultiple .standard id key.octets.bytes one = .ok [1, 2, 3]
        ∧ Envelope.decryptMultiple config id key.octets.bytes one = .ok [1, 2, 3]
        ∧ (Stream.decrypt config key.octets.bytes none (.ofBytes stream) .unlimited .none).written
          = [1, 2, 3]
        ∧ Header.decode config three = .error (RecipientTable.tooMany config 3) := by
  intro key id
  let config : Config :=
    ⟨{ Settings.standard with
        multiple := { Settings.standard.multiple with maxRecipients := 2 }
        stream := ⟨16, 1024⟩ }, by decide +kernel⟩
  let ephemeral : PrivateKey := ⟨1, by decide, by decide⟩
  obtain ⟨hread, hstream, -, hrefused⟩ := configurations_interoperate config .standard rfl
  -- An envelope for one, which both take.
  obtain ⟨header, ciphertext, entry, peer, aad, hbody, hvalid, -, hsealed⟩ :=
    Envelope.exists_sealedForId .standard key ephemeral (.zero 32) [1, 2, 3] (rfl : id.length = 12)
  have hopen : Envelope.decryptMultiple .standard id key.octets.bytes (header.octets ++ ciphertext)
      = .ok [1, 2, 3] := by
    rw [Envelope.decryptMultiple_octets]
    exact Envelope.openForId_eq_ok_iff_sealed.2 ⟨header, _, entry, peer, _, aad, hsealed⟩
  have hone : Header.announced? (header.octets ++ ciphertext) = some 1 :=
    Header.announced?_of_split (Header.split_eq_ok_iff.2 ⟨hvalid, rfl⟩) hbody
  have hwithin (c : Config) (hmax : 1 ≤ c.maxRecipients) :
      Header.Within c (header.octets ++ ciphertext) := by
    intro count hcount
    rw [hone] at hcount
    rwa [← Option.some.inj hcount]
  obtain ⟨-, hdecrypt⟩ := hread _ (hwithin _ (by decide)) (hwithin _ (by decide))
  obtain ⟨-, hsame, -⟩ := hdecrypt key.octets.bytes
  -- A stream with chunks of two octets, which both take too.
  let established : Stream.Established := .forOne key ephemeral (.zero 16) 2
  let layout := Stream.Layout.narrow established.header (established.chunks [1, 2, 3])
  have hopens : layout.Opens .standard key none Stream.Options.none.cancelled 0 established.key
      (Stream.cut 2 [1, 2, 3]) :=
    Stream.Established.opens_forOne _ _ _ _ none _ (fun _ => rfl) (by decide) (by decide)
      (by decide) 0
  have hwritten : (Stream.decrypt .standard key.octets.bytes none (.ofBytes layout.octets)
      .unlimited .none).written = [1, 2, 3] := by
    rw [Stream.decrypt_of_ofBytes (PrivateKey.ofBytes_octets key)]
    exact (hopens.decryptFor_unlimited (Stream.Source.bytes_ofBytes _) rfl).1
  have hbounds (c : Config) (hmax : 2 ≤ c.maxChunkSize) :
      Stream.Within c (Stream.Source.ofBytes layout.octets).bytes := by
    have hheader : established.header.Valid c :=
      Stream.Established.valid_forOne key ephemeral (.zero 16) (by decide) hmax
    rw [Stream.Source.bytes_ofBytes]
    exact hheader.within_opening _
  -- An envelope that announces three.
  have hthree : Header.announced? (Mode.multiple.tag :: (List.replicate 65 0 ++ [0, 3]))
      = some 3 := by
    decide
  refine ⟨config, header.octets ++ ciphertext, _, layout.octets, rfl, rfl, rfl, hopen,
    (hsame id).trans hopen, ?_, (hrefused _ _ hthree (by decide)).1⟩
  rw [hstream _ (hbounds _ (by decide)) (hbounds _ (by decide))]
  exact hwritten

end SealedEnvelope
