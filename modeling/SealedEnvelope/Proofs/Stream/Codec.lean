import SealedEnvelope.Proofs.Stream.Establish

set_option autoImplicit false

/-! # The stream header's codec is exact

Reading and writing a stream header undo each other (`Header.codec_exact`). No header that is
accepted starts another (`Header.eq_of_initial`), so nothing can be cut off one and nothing put
behind it. Decryption hashes the octets it has received and encryption those it has written: for one
header these are the same. -/

namespace SealedEnvelope.Stream.Header

variable {config : Config} {h h' : Header} {bytes bytes' : Bytes}

/-! ## Cutting off and putting behind -/

/-- No two accepted strings are such that one starts the other. -/
theorem eq_of_initial (hdecode : decode config bytes = .ok h)
    (hdecode' : decode config bytes' = .ok h') (hinitial : bytes <+: bytes') : bytes = bytes' := by
  obtain ⟨hvalid, rfl⟩ := decode_eq_ok_iff.1 hdecode
  obtain ⟨hvalid', rfl⟩ := decode_eq_ok_iff.1 hdecode'
  obtain ⟨rest, hrest⟩ := hinitial
  have hread : read config h'.octets = .ok (h, rest) := read_eq_ok_iff.2 ⟨hvalid, hrest.symm⟩
  have hread' : read config h'.octets = .ok (h', []) :=
    read_eq_ok_iff.2 ⟨hvalid', (List.append_nil _).symm⟩
  rw [hread] at hread'
  rw [(Prod.mk.inj (Except.ok.inj hread')).1]

/-- What starts an accepted string or starts with one is refused, if it is another. -/
theorem exists_error_of_initial (hdecode : decode config bytes = .ok h)
    (hinitial : bytes' <+: bytes ∨ bytes <+: bytes') (hne : bytes' ≠ bytes) :
    ∃ e, decode config bytes' = .error e := by
  cases hother : decode config bytes' with
  | error e => exact ⟨e, rfl⟩
  | ok h' =>
    rcases hinitial with hinitial | hinitial
    · exact absurd (eq_of_initial hother hdecode hinitial) hne
    · exact absurd (eq_of_initial hdecode hother hinitial).symm hne

/-! ## The hash -/

/-- The hash that decryption goes by is of the octets it has read behind their length, and these
    are what the header is written as. -/
theorem headerHash_of_openHeader {key : PrivateKey} {id : Option Bytes} {source : Source}
    {opened : Opened} (hopen : openHeader config key id source = .ok opened)
    (hencode : opened.header.encode config = .ok bytes) :
    opened.context.headerHash = hash bytes
      ∧ ∃ width, source.Leaves (LengthPrefix.octetsIn width bytes.length ++ bytes)
        opened.source := by
  obtain ⟨established, width, -, hheader, hcontext, hleaves⟩ := exists_opening_of_openHeader hopen
  obtain ⟨-, rfl⟩ := encode_eq_ok_iff.1 hencode
  rw [hcontext, hheader]
  exact ⟨rfl, width, hleaves⟩

/-- The hash that encryption goes by is of the octets it puts in front of the chunks. -/
theorem report_of_encryptUnder {key : Octets 32} {source : Source} {sink : Sink}
    {options : Options} {report : Report} (hencode : h.encode config = .ok bytes)
    (hencrypt : encryptUnder config ⟨h, key⟩ source sink options = .ok report) :
    report = ((closeAll ⟨key, h.baseIv, hash bytes⟩ h.chunkSize.toNat options.cancelled
      source).deliver sink (LengthPrefix.octets bytes.length ++ bytes)).report options.total
        h.kind := by
  obtain ⟨-, rfl⟩ := encode_eq_ok_iff.1 hencode
  exact (encryptUnder_eq_ok_iff.1 hencrypt).2

/-! ## The codec -/

/-- **The codec of stream headers is exact.** A header with a chunk size within bounds that can be
    written reads back, and is no longer than the configuration allows for. What is accepted is the
    written form of what is read, which keeps all bounds; no other string that starts it or starts
    with it is accepted. And the two sides of a stream take the header's hash from one string, the
    one as it was written and the other as it was received. -/
theorem codec_exact (config : Config) :
    (∀ (h : Header) (bytes : Bytes), 1 ≤ h.chunkSize.toNat →
        h.chunkSize.toNat ≤ config.maxChunkSize → h.encode config = .ok bytes →
        decode config bytes = .ok h ∧ bytes.length ≤ maxEncodedLength config)
      ∧ (∀ (bytes : Bytes) (h : Header), decode config bytes = .ok h →
        h.encode config = .ok bytes
          ∧ 1 ≤ h.chunkSize.toNat ∧ h.chunkSize.toNat ≤ config.maxChunkSize
          ∧ (∀ entries, h.recipients = some entries →
            (entries.map (·.id)).Nodup
              ∧ (∀ e ∈ entries, e.id.length = config.idSize)
              ∧ 1 ≤ entries.length ∧ entries.length ≤ config.maxRecipients)
          ∧ ∀ bytes', bytes' <+: bytes ∨ bytes <+: bytes' → bytes' ≠ bytes →
            ∃ e, decode config bytes' = .error e)
      ∧ ∀ (h : Header) (bytes : Bytes), h.encode config = .ok bytes →
        (∀ key id source opened, openHeader config key id source = .ok opened →
          opened.header = h →
          opened.context.headerHash = hash bytes
            ∧ ∃ width, source.Leaves (LengthPrefix.octetsIn width bytes.length ++ bytes)
              opened.source)
        ∧ ∀ key source sink options report,
          encryptUnder config ⟨h, key⟩ source sink options = .ok report →
          report = ((closeAll ⟨key, h.baseIv, hash bytes⟩ h.chunkSize.toNat options.cancelled
            source).deliver sink (LengthPrefix.octets bytes.length ++ bytes)).report options.total
              h.kind := by
  refine ⟨?_, ?_, ?_⟩
  · intro h bytes hpos hle hencode
    obtain ⟨htable, rfl⟩ := encode_eq_ok_iff.1 hencode
    exact ⟨decode_eq_ok_iff.2 ⟨⟨hpos, hle, htable⟩, rfl⟩, length_octets_le htable⟩
  · intro bytes h hdecode
    obtain ⟨hvalid, hbytes⟩ := decode_eq_ok_iff.1 hdecode
    refine ⟨encode_eq_ok_iff.2 ⟨hvalid.table, hbytes⟩, hvalid.pos, hvalid.le_max, ?_,
      fun bytes' => exists_error_of_initial hdecode⟩
    intro entries hentries
    have htable := hvalid.table
    rw [hentries] at htable
    exact ⟨htable.nodup, htable.idSize, htable.pos, htable.le_max⟩
  · intro h bytes hencode
    refine ⟨?_, fun key source sink options report => report_of_encryptUnder hencode⟩
    intro key id source opened hopen hheader
    rw [← hheader] at hencode
    exact headerHash_of_openHeader hopen hencode

/-- The header of a stream for one recipient, and both ends of that stream. -/
theorem codec_exact_one_recipient :
    let key : PrivateKey := ⟨2, by decide, by decide⟩
    ∃ (h : Header) (bytes : Bytes) (streamKey : Octets 32) (report : Report) (opened : Opened),
      h.encode .standard = .ok bytes
        ∧ decode .standard bytes = .ok h
        ∧ (∃ e, decode .standard (bytes.take 53) = .error e)
        ∧ (∃ e, decode .standard (bytes ++ [0]) = .error e)
        ∧ encryptUnder .standard ⟨h, streamKey⟩ (.ofBytes [1, 2, 3]) .unlimited .none = .ok report
        ∧ report = ((closeAll ⟨streamKey, h.baseIv, hash bytes⟩ h.chunkSize.toNat (fun _ => false)
          (.ofBytes [1, 2, 3])).deliver .unlimited (LengthPrefix.octets 54 ++ bytes)).report none
            h.kind
        ∧ openHeader .standard key none (.ofBytes (LengthPrefix.octets 54 ++ bytes)) = .ok opened
        ∧ opened.context.headerHash = hash bytes := by
  intro key
  let established : Established :=
    .forOne key ⟨1, by decide, by decide⟩ (.zero 16) (UInt32.ofNat 4096)
  have hencode : established.header.encode .standard = .ok established.header.octets :=
    encode_eq_ok_iff.2 ⟨trivial, rfl⟩
  have hlength : established.header.octets.length = 54 := Established.length_octets_forOne ..
  obtain ⟨hround, hexact, hhash⟩ := codec_exact .standard
  obtain ⟨hdecode, -⟩ := hround established.header _ (by decide) (by decide) hencode
  obtain ⟨-, -, -, -, hother⟩ := hexact _ _ hdecode
  have hbytes : (Source.ofBytes (LengthPrefix.octets 54 ++ established.header.octets)).bytes
      = established.header.opening ++ [] := by
    simp [opening, hlength]
  obtain ⟨s', hopen, -, -⟩ :=
    exists_openHeader (decode_eq_ok_iff.1 hdecode).1
      (Established.recoverKey_forOne .standard key _ _ _ none) hbytes
  obtain ⟨report, hencrypt⟩ : ∃ report,
      encryptUnder .standard established (.ofBytes [1, 2, 3]) .unlimited .none = .ok report :=
    ⟨_, encryptUnder_eq_ok_iff.2 ⟨trivial, rfl⟩⟩
  obtain ⟨hreceived, hwritten⟩ := hhash _ _ hencode
  have hreport := hwritten _ _ _ _ _ hencrypt
  rw [hlength] at hreport
  refine ⟨established.header, _, _, _, _, hencode, hdecode, ?_, ?_, hencrypt, hreport, hopen,
    (hreceived _ _ _ _ hopen rfl).1⟩
  · refine hother _ (Or.inl (List.take_prefix _ _)) ?_
    intro heq
    have hcut := congrArg List.length heq
    rw [List.length_take, hlength] at hcut
    omega
  · refine hother _ (Or.inr (List.prefix_append _ _)) ?_
    intro heq
    have hput := congrArg List.length heq
    rw [List.length_append, List.length_singleton] at hput
    omega

end SealedEnvelope.Stream.Header
