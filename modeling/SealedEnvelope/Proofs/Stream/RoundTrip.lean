import SealedEnvelope.Proofs.Stream.Layout

set_option autoImplicit false

/-! # Streams open again

An established header and the chunks of a payload behind it decrypt to the payload, for everyone who
finds the key in the header (`decryptFor_chunks`). An encryption that ends well has written just
these (`written_of_encrypt`), and it ends well unless it is cancelled or what it reads from or
writes to fails (`exists_encrypt`). -/

namespace SealedEnvelope.Stream

variable {config : Config}

/-! ## Portions -/

theorem plainOf_closeChunks (ctx : Context) (index : Nat) (pieces : List Bytes) :
    plainOf ((ctx.closeChunks index pieces).map Chunk.portion) = pieces.flatten.length := by
  induction pieces generalizing index with
  | nil => rfl
  | cons piece rest ih =>
    rw [Context.closeChunks, List.map_cons, plainOf, ih, List.flatten_cons, List.length_append,
      Chunk.portion, Context.length_close]

theorem flatten_portion (chunks : List Chunk) :
    ((chunks.map Chunk.portion).map (·.octets)).flatten = chunks.flatMap Chunk.octets := by
  rw [List.map_map, List.flatMap_def]
  rfl

/-! ## Decryption -/

/-- The chunks that an established stream has for a payload. -/
def Established.chunks (e : Established) (payload : Bytes) : List Chunk :=
  e.context.closeChunks 0 (cut e.header.chunkSize.toNat payload)

theorem Established.length_chunks (e : Established) (payload : Bytes) :
    (e.chunks payload).length = (cut e.header.chunkSize.toNat payload).length :=
  Context.length_closeChunks ..

/-- An established header and the chunks of a payload are a layout that opens to its pieces. -/
theorem Established.opens_chunks {established : Established} {key : PrivateKey}
    {id : Option Bytes} {cancelled : Checkpoint → Bool} {payload : Bytes}
    (hvalid : established.header.Valid config)
    (hkey : recoverKey config key id established.header = .ok established.key)
    (hcancelled : ∀ c, cancelled c = false)
    (hcount : (established.chunks payload).length ≤ lastIndex + 1) (taken : Nat) :
    (Layout.narrow established.header (established.chunks payload)).Opens config key id cancelled
      taken established.key (cut established.header.chunkSize.toNat payload) where
  opening := ⟨hvalid, hvalid.holds_ofLength, hkey⟩
  frames := by
    have hceiling : established.header.chunkSize.toNat + 16 ≤ LengthPrefix.maxLength :=
      (Nat.add_le_add_right (hvalid.le_max.trans config.maxChunkSize_le) 16).trans (by decide)
    rw [established.length_chunks] at hcount
    exact opensFrom_closeChunks hcancelled (cut_ne_nil _ _)
      (fun p => length_le_of_mem_cut hvalid.pos) hceiling (by rwa [Nat.zero_add]) _

/-- So is what an ephemeral key establishes for one recipient. -/
theorem Established.opens_forOne (config : Config) (key ephemeral : PrivateKey)
    (baseIv : Octets 16) {chunkSize : UInt32} (id : Option Bytes) (payload : Bytes)
    {cancelled : Checkpoint → Bool} (hcancelled : ∀ c, cancelled c = false)
    (hpos : 1 ≤ chunkSize.toNat) (hle : chunkSize.toNat ≤ config.maxChunkSize)
    (hcount : (cut chunkSize.toNat payload).length ≤ lastIndex + 1) (taken : Nat) :
    (Layout.narrow (forOne key ephemeral baseIv chunkSize).header
      ((forOne key ephemeral baseIv chunkSize).chunks payload)).Opens config key id cancelled taken
        (forOne key ephemeral baseIv chunkSize).key (cut chunkSize.toNat payload) :=
  opens_chunks (valid_forOne key ephemeral baseIv hpos hle)
    (recoverKey_forOne config key ephemeral baseIv chunkSize id) hcancelled
    ((length_chunks _ payload).trans_le hcount) taken

/-- An established header and the chunks of a payload behind it decrypt to the payload, withheld or
    not. -/
theorem decryptFor_chunks {established : Established} {key : PrivateKey} {id : Option Bytes}
    {payload : Bytes} {input : Source} {options : Options}
    (hvalid : established.header.Valid config)
    (hkey : recoverKey config key id established.header = .ok established.key)
    (hcount : (established.chunks payload).length ≤ lastIndex + 1)
    (hbytes : input.bytes = established.header.opening
      ++ (established.chunks payload).flatMap Chunk.octets)
    (hending : input.ending = .finished) (hcancelled : ∀ c, options.cancelled c = false) :
    (decryptFor config key id input .unlimited options).written = payload
      ∧ (decryptFor config key id input .unlimited options).outcome
        = .ok ⟨established.header.kind, (established.chunks payload).length, payload.length⟩ := by
  have hopens := Established.opens_chunks hvalid hkey hcancelled hcount input.taken
  rw [← Layout.octets_narrow] at hbytes
  obtain ⟨hwritten, houtcome⟩ := hopens.decryptFor_unlimited hbytes hending
  rw [flatten_cut hvalid.pos] at hwritten houtcome
  rw [established.length_chunks]
  exact ⟨hwritten, houtcome⟩

/-! ## Encryption -/

section Encryption

variable {mode : Mode} {recipients : List Recipient} {source : Source} {sink : Sink}
  {options : Options} {tape rest : Tape} {report : Report} {established : Established}

/-- Once a stream is established, encryption goes on under that and draws nothing more. -/
theorem encrypt_of_encryptUnder
    (hestablish : (establish config mode recipients options.chunkSize).run tape
      = some (.ok established, rest))
    (hunder : encryptUnder config established source sink options = .ok report) :
    encrypt config mode recipients source sink options tape = some (report, rest) := by
  rw [encrypt, Draw.bind_eq_some]
  refine ⟨.ok report, rest, ?_, rfl⟩
  exact Sealing.bind_eq_ok.2 ⟨established, _, hestablish, Sealing.lift_eq_ok.2 ⟨hunder, rfl⟩⟩

/-- Encryption fails with nothing written, or goes on under what has been established. -/
theorem encrypt_cases {tape' : Tape}
    (hrun : encrypt config mode recipients source sink options tape = some (report, tape')) :
    (∃ e, report = .failed e)
      ∨ ∃ established, (establish config mode recipients options.chunkSize).run tape
          = some (.ok established, tape')
        ∧ encryptUnder config established source sink options = .ok report := by
  rw [encrypt, Draw.bind_eq_some] at hrun
  obtain ⟨result, t, hrun, hreport⟩ := hrun
  cases result with
  | ok report' =>
    obtain ⟨rfl, rfl⟩ := Draw.pure_eq_some.1 hreport
    obtain ⟨established, t', hestablish, hlift⟩ := Sealing.bind_eq_ok.1 hrun
    obtain ⟨hunder, rfl⟩ := Sealing.lift_eq_ok.1 hlift
    exact Or.inr ⟨established, hestablish, hunder⟩
  | error e =>
    obtain ⟨rfl, -⟩ := Draw.pure_eq_some.1 hreport
    exact Or.inl ⟨e, rfl⟩

/-- Encryption ends well exactly if it does so under what has been established. -/
theorem encrypt_eq_some_iff {summary : Summary} {tape' : Tape}
    (hestablish : (establish config mode recipients options.chunkSize).run tape
      = some (.ok established, rest)) (hok : report.outcome = .ok summary) :
    encrypt config mode recipients source sink options tape = some (report, tape')
      ↔ encryptUnder config established source sink options = .ok report ∧ tape' = rest := by
  constructor
  · intro hrun
    rcases encrypt_cases hrun with ⟨e, rfl⟩ | ⟨established', hestablish', hunder⟩
    · cases hok
    · obtain ⟨rfl, rfl⟩ : established' = established ∧ tape' = rest := by
        rw [hestablish] at hestablish'
        simpa [eq_comm] using hestablish'
      exact ⟨hunder, rfl⟩
  · rintro ⟨hunder, rfl⟩
    exact encrypt_of_encryptUnder hestablish hunder

/-- Under what has been established, an encryption that ends well has written the header and the
    chunks of the whole payload. -/
theorem written_of_encryptUnder {summary : Summary} (hsize : 0 < established.header.chunkSize.toNat)
    (hunder : encryptUnder config established source sink options = .ok report)
    (hok : report.outcome = .ok summary) :
    (established.chunks source.bytes).length ≤ lastIndex + 1
      ∧ report.written
        = established.header.opening ++ (established.chunks source.bytes).flatMap Chunk.octets
      ∧ summary = ⟨established.header.kind, (established.chunks source.bytes).length,
        source.bytes.length⟩ := by
  obtain ⟨-, rfl⟩ := encryptUnder_eq_ok_iff.1 hunder
  obtain ⟨hdelivered, hsummary⟩ := Result.outcome_report_eq_ok_iff.1 hok
  obtain ⟨hclosed, hresult⟩ := Run.deliver_of_outcome_ok hdelivered
  obtain ⟨hcount, hrun⟩ := closeAll_of_outcome_ok hsize hclosed
  refine ⟨(established.length_chunks _).trans_le hcount, ?_, ?_⟩
  · rw [Result.written_report, hresult, hrun, flatten_portion]
    rfl
  · rw [← hsummary, hresult, hrun]
    simp only [List.length_map, Established.chunks, plainOf_closeChunks, flatten_cut hsize]

/-- An encryption that ends well has written the header and the chunks of the whole payload. -/
theorem written_of_encrypt {summary : Summary} {tape' : Tape}
    (hestablish : (establish config mode recipients options.chunkSize).run tape
      = some (.ok established, rest))
    (hsize : 0 < established.header.chunkSize.toNat)
    (hrun : encrypt config mode recipients source sink options tape = some (report, tape'))
    (hok : report.outcome = .ok summary) :
    (established.chunks source.bytes).length ≤ lastIndex + 1
      ∧ report.written
        = established.header.opening ++ (established.chunks source.bytes).flatMap Chunk.octets
      ∧ summary = ⟨established.header.kind, (established.chunks source.bytes).length,
        source.bytes.length⟩ :=
  written_of_encryptUnder hsize ((encrypt_eq_some_iff hestablish hok).1 hrun).1 hok

/-- Under what has been established, encryption ends well if nobody cancels, the source ends, the
    chunk numbers suffice and the sink takes everything. -/
theorem exists_encryptUnder (hvalid : established.header.Valid config)
    (hcancelled : ∀ c, options.cancelled c = false) (hending : source.ending = .finished)
    (hcount : (established.chunks source.bytes).length ≤ lastIndex + 1) :
    ∃ report summary,
      encryptUnder config established source .unlimited options = .ok report
        ∧ report.outcome = .ok summary := by
  let run := closeAll established.context established.header.chunkSize.toNat
    options.cancelled source
  rw [established.length_chunks] at hcount
  have hclosed : run = ⟨_, .ok ()⟩ := closeAll_eq hvalid.pos hcancelled hending hcount
  let result := run.deliver .unlimited established.header.opening
  have hdelivered : result.outcome = .ok () := by
    simp only [result, Run.deliver_unlimited, hclosed]
  exact ⟨_, _, encryptUnder_eq_ok_iff.2 ⟨hvalid.table, rfl⟩,
    Result.outcome_report_eq_ok_iff.2 ⟨hdelivered, rfl⟩⟩

/-- So does an encryption that establishes a valid header. -/
theorem exists_encrypt
    (hestablish : (establish config mode recipients options.chunkSize).run tape
      = some (.ok established, rest))
    (hvalid : established.header.Valid config) (hcancelled : ∀ c, options.cancelled c = false)
    (hending : source.ending = .finished)
    (hcount : (established.chunks source.bytes).length ≤ lastIndex + 1) :
    ∃ report summary,
      encrypt config mode recipients source .unlimited options tape = some (report, rest)
        ∧ report.outcome = .ok summary := by
  obtain ⟨report, summary, hunder, hok⟩ := exists_encryptUnder hvalid hcancelled hending hcount
  exact ⟨report, summary, encrypt_of_encryptUnder hestablish hunder, hok⟩

end Encryption

/-! ## Both -/

/-- **What is encrypted is decrypted.** For all recipients that a mode takes, whatever forms their
    public keys come in, every chunk size that the configuration admits and every payload of at most
    `2³²` chunks, encryption ends well. Each recipient then decrypts what is written, however it is
    cut and withheld or not, to the payload and to the same summary. What is written are a header,
    no longer than the configuration allows for, and the chunks of the payload, none longer than a
    full one with its tag. -/
theorem decrypt_encrypt_stream (config : Config) (mode : Mode) (recipients : List Recipient)
    (source : Source) (options : Options) {tape rest : Tape} {ephemeral : PrivateKey}
    (haddressable : Addressable config recipients mode)
    (hkeys : ∀ r ∈ recipients, ∃ key : PrivateKey, key.publicKey.Form r.publicKey)
    (hsize : ∀ size, options.chunkSize = some size → 1 ≤ size ∧ size ≤ config.maxChunkSize)
    (hlength : source.bytes.length ≤ 2 ^ 32 * options.chunkSize.getD config.chunkSize)
    (hending : source.ending = .finished) (hcancelled : ∀ c, options.cancelled c = false)
    (hdraw : Draw.privateKey tape = some (ephemeral, rest))
    (hrest : drawn recipients.length mode ≤ rest.length) :
    ∃ established report tape' summary,
      (establish config mode recipients options.chunkSize).run tape
          = some (.ok established, tape')
        ∧ encrypt config mode recipients source .unlimited options tape = some (report, tape')
        ∧ report.outcome = .ok summary
        ∧ (∀ r ∈ recipients, ∀ key : PrivateKey, key.publicKey.Form r.publicKey →
          ∀ id, Identifies r id mode → ∀ (input : Source) (options' : Options),
            input.bytes = report.written → input.ending = .finished →
            (∀ c, options'.cancelled c = false) →
            (decrypt config key.octets.bytes id input .unlimited options').written = source.bytes
              ∧ (decrypt config key.octets.bytes id input .unlimited options').outcome
                = .ok summary)
        ∧ report.written
          = established.header.opening ++ (established.chunks source.bytes).flatMap Chunk.octets
        ∧ established.header.octets.length ≤ Header.maxEncodedLength config
        ∧ ∀ c ∈ established.chunks source.bytes,
          c.sealed.length ≤ options.chunkSize.getD config.chunkSize + 16 := by
  obtain ⟨established, tape', hestablish, hchunkSize, hopens⟩ :=
    exists_establish haddressable hkeys hsize hdraw hrest
  have hpos := hopens.valid.pos
  have hcount : (established.chunks source.bytes).length ≤ lastIndex + 1 := by
    rw [established.length_chunks]
    refine length_cut_le hpos (by decide) ?_
    rw [hchunkSize]
    exact hlength
  obtain ⟨report, summary, hrun, hok⟩ :=
    exists_encrypt hestablish hopens.valid hcancelled hending hcount
  obtain ⟨-, hwritten, hsummary⟩ := written_of_encrypt hestablish hpos hrun hok
  refine ⟨established, report, tape', summary, hestablish, hrun, hok, ?_, hwritten,
    Header.length_octets_le hopens.valid.table, ?_⟩
  · intro r hr key hkey id hid input options' hinput hending' hcancelled'
    have hdecrypt : decrypt config key.octets.bytes id input .unlimited options'
        = decryptFor config key id input .unlimited options' := by
      rw [decrypt, PrivateKey.ofBytes_octets]
    rw [hwritten] at hinput
    rw [hdecrypt, hsummary]
    exact decryptFor_chunks hopens.valid (hopens.recoverKey r hr key hkey id hid) hcount hinput
      hending' hcancelled'
  · intro c hc
    rw [← hchunkSize]
    exact established.context.length_sealed_le_of_mem_closeChunks
      (fun p => length_le_of_mem_cut hpos) hc

/-- Two recipients, and a payload with a short last chunk. -/
theorem decrypt_encrypt_stream_two_recipients :
    let key : PrivateKey := ⟨2, by decide, by decide⟩
    let recipients : List Recipient :=
      [⟨List.replicate 12 1, key.publicKey.compressed.bytes⟩,
       ⟨List.replicate 12 2, key.publicKey.uncompressed.bytes⟩]
    let options : Options := { Options.none with chunkSize := some 2 }
    let tape : Tape := List.replicate 31 0 ++ 1 :: List.replicate 80 0
    ∃ report tape' summary,
      encrypt .standard .multiple recipients (.ofBytes [1, 2, 3]) .unlimited options tape
          = some (report, tape')
        ∧ report.outcome = .ok summary
        ∧ ∀ r ∈ recipients,
          (decrypt .standard key.octets.bytes (some r.id) (.ofBytes report.written) .unlimited
            .none).written = [1, 2, 3] := by
  intro key recipients options tape
  have hdraw : Draw.privateKey tape = some (⟨1, by decide, by decide⟩, List.replicate 80 0) := by
    decide +kernel
  have hforms : ∀ r ∈ recipients, key.publicKey.Form r.publicKey := by
    simp only [recipients, List.forall_mem_cons]
    exact ⟨.compressed, .uncompressed, by simp⟩
  have hadmits : Config.Admits .standard recipients :=
    { pos := by decide, le_max := by decide, idSize := by decide, nodup := by decide }
  have hsize : ∀ size, options.chunkSize = some size →
      1 ≤ size ∧ size ≤ Config.standard.maxChunkSize := by
    rintro size ⟨⟩
    decide
  obtain ⟨-, report, tape', summary, -, hrun, hok, hread, -⟩ :=
    decrypt_encrypt_stream .standard .multiple recipients (.ofBytes [1, 2, 3]) options hadmits
      (fun r hr => ⟨key, hforms r hr⟩) hsize (by decide) rfl (fun _ => rfl) hdraw (by decide)
  refine ⟨report, tape', summary, hrun, hok, fun r hr => ?_⟩
  exact (hread r hr key (hforms r hr) (some r.id) rfl (.ofBytes report.written) .none (by simp)
    rfl (fun _ => rfl)).1

end SealedEnvelope.Stream
