import SealedEnvelope.Proofs.Admission
import SealedEnvelope.Proofs.Stream.Arguments

set_option autoImplicit false

/-! # Streams refuse what envelopes refuse

Establishing a stream for several recipients makes the same checks as encrypting an envelope for
them, once the chunk size is settled, and fails for the same faults (`failsWith_establish`). Behind
that the header is always written as far as the sink
takes it (`Begun`), whatever becomes of the payload. Both operations together are
`encryption_fails_up_front`. -/

namespace SealedEnvelope

namespace Stream

variable {config : Config} {recipients : List Recipient} {source : Source} {sink : Sink}
  {options : Options} {tape rest : Tape} {e : Error}

/-! ## The first write -/

namespace Sink

variable {w : Bytes} {writes : List Bytes}

/-- A sink that takes a write has it in front of all that follows. -/
theorem prefix_written_of_taken (h : (sink.write [w]).failure = none) :
    w <+: (sink.write (w :: writes)).written := by
  rw [write] at h ⊢
  split
  · next room reason hlimit =>
    simp only [hlimit, writeWithin] at h ⊢
    split_ifs at h ⊢ with hroom
    exact List.prefix_append ..
  · exact List.prefix_append ..

/-- A sink that fails at a write is not asked for more. -/
theorem failure_of_refused {reason : String} (h : (sink.write [w]).failure = some reason) :
    (sink.write (w :: writes)).failure = some reason := by
  rw [write] at h ⊢
  split
  · next room reason' hlimit =>
    simp only [hlimit, writeWithin] at h ⊢
    split_ifs at h ⊢ with hroom
    exact h
  · next hlimit =>
    rw [hlimit] at h
    cases h

end Sink

/-- A sink has been given a header first: it has the header in front of whatever else it has, or it
    has failed there and the stream with it. -/
structure Begun (sink : Sink) (header : Header) (report : Report) : Prop where
  taken : (sink.write [header.opening]).failure = none → header.opening <+: report.written
  refused : ∀ reason, (sink.write [header.opening]).failure = some reason →
    report.outcome = .error (.io reason)

/-- A stream that fails before its header is written has not begun. -/
theorem not_begun_failed {header : Header} (he : ∀ reason, e ≠ .io reason) :
    ¬Begun sink header (.failed e) := by
  intro h
  cases htaken : (sink.write [header.opening]).failure with
  | none =>
    have hlength := (h.taken htaken).length_le
    simp [Report.failed, Header.opening, Header.octets] at hlength
  | some reason => exact he reason (Except.error.inj (h.refused reason htaken))

/-- A valid header is written first, and behind it whatever the source gives. -/
theorem exists_begun_under {established : Established} (hvalid : established.header.Valid config)
    (source : Source) (sink : Sink) (options : Options) :
    ∃ report, encryptUnder config established source sink options = .ok report
      ∧ Begun sink established.header report := by
  refine ⟨_, encryptUnder_eq_ok_iff.2 ⟨hvalid.table, rfl⟩, fun htaken => ?_,
    fun reason hrefused => ?_⟩
  · exact Sink.prefix_written_of_taken htaken
  · simp only [Result.report, Run.deliver, conclude, Sink.failure_of_refused hrefused]
    rfl

/-! ## Several recipients -/

/-- With a chunk size within bounds, establishing a stream fails for what is wrong with the
    recipients. -/
theorem failsWith_establish {requested : Option Nat} (hpos : 1 ≤ requested.getD config.chunkSize)
    (hle : requested.getD config.chunkSize ≤ config.maxChunkSize) (h : config.Fault recipients e) :
    Sealing.FailsWith (establish config .multiple recipients requested) e :=
  Sealing.failsWith_lift_bind_of_ok (resolveChunkSize_eq_ok_iff.2 ⟨rfl, hpos, hle⟩)
    (failsWith_establishForMany _ h)

/-- For all others the stream begins with a header that lists them. -/
theorem exists_begun {ephemeral : PrivateKey}
    (hpos : 1 ≤ options.chunkSize.getD config.chunkSize)
    (hle : options.chunkSize.getD config.chunkSize ≤ config.maxChunkSize)
    (hadmits : config.Admits recipients) (hreadable : Readable recipients)
    (hdraw : Draw.privateKey tape = some (ephemeral, rest))
    (hrest : 48 + recipients.length * 16 ≤ rest.length) (source : Source) (sink : Sink) :
    ∃ header entries report tape',
      encrypt config .multiple recipients source sink options tape = some (report, tape')
        ∧ header.recipients = some entries
        ∧ entries.map (·.id) = recipients.map (·.id)
        ∧ Begun sink header report := by
  obtain ⟨⟨header, key⟩, baseIv, entries, tape', hrun, rfl, hwrapped⟩ :=
    exists_established_for_many (options.chunkSize.getD config.chunkSize) hadmits hreadable hdraw
      hrest
  have hresolve : resolveChunkSize config options.chunkSize
      = .ok (options.chunkSize.getD config.chunkSize) :=
    resolveChunkSize_eq_ok_iff.2 ⟨rfl, hpos, hle⟩
  have hvalid := valid_of_establishForMany hrun hpos hle
  obtain ⟨report, hunder, hbegun⟩ := exists_begun_under hvalid source sink options
  rw [← Sealing.lift_bind_of_ok hresolve
    (f := fun size => establishForMany config size recipients)] at hrun
  exact ⟨_, entries, report, tape', encrypt_of_encryptUnder hrun hunder, rfl,
    KeyWrap.map_id_eq_of_wrappedFor hwrapped, hbegun⟩

end Stream

/-! ## Envelopes and streams -/

section

variable {tape rest : Tape} {ephemeral : PrivateKey}

/-- **Encryption for several recipients fails up front and for a stated reason.** Where the tape has
    what is drawn, it succeeds exactly if the recipients are admitted and their keys can be read. If
    they are not, they have a fault, and there encryption fails with that fault; on no tape does it
    end in anything else, and on none does it fail but with a fault. The recipient table repeats the
    checks and fails exactly where they do. A stream, if its chunk size is within bounds, begins
    with a header for the same recipients, and otherwise fails with the same fault and nothing
    written. -/
theorem encryption_fails_up_front (config : Config) (recipients : List Recipient)
    (plaintext : Bytes) (hdraw : Draw.privateKey tape = some (ephemeral, rest))
    (hrest : 48 + recipients.length * 16 ≤ rest.length) :
    ((∃ envelope tape',
        (Envelope.encryptMultiple config recipients plaintext).run tape
          = some (.ok envelope, tape'))
        ↔ config.Admits recipients ∧ Readable recipients)
      ∧ ((∃ e, config.Fault recipients e) ↔ ¬(config.Admits recipients ∧ Readable recipients))
      ∧ (∀ e,
        ((∃ t', (Envelope.encryptMultiple config recipients plaintext).run tape
            = some (.error e, t'))
          ↔ config.Fault recipients e)
        ∧ ∀ t result t',
          (Envelope.encryptMultiple config recipients plaintext).run t = some (result, t') →
          (config.Fault recipients e → result = .error e)
            ∧ (result = .error e → config.Fault recipients e))
      ∧ (∀ entries : List RecipientEntry, entries.map (·.id) = recipients.map (·.id) →
        ((∃ bytes, RecipientTable.encode config entries = .ok bytes)
          ↔ config.checkRecipients recipients = .ok ()))
      ∧ ∀ (source : Stream.Source) (sink : Stream.Sink) (options : Stream.Options),
        1 ≤ options.chunkSize.getD config.chunkSize →
        options.chunkSize.getD config.chunkSize ≤ config.maxChunkSize →
        ((∃ header entries report tape',
            Stream.encrypt config .multiple recipients source sink options tape
                = some (report, tape')
              ∧ header.recipients = some entries
              ∧ entries.map (·.id) = recipients.map (·.id)
              ∧ Stream.Begun sink header report)
            ↔ config.Admits recipients ∧ Readable recipients)
          ∧ ∀ e, config.Fault recipients e →
            (∃ t', Stream.encrypt config .multiple recipients source sink options tape
              = some (.failed e, t'))
            ∧ ∀ t report t',
              Stream.encrypt config .multiple recipients source sink options t
                = some (report, t') →
              report = .failed e := by
  refine ⟨Envelope.exists_encryptMultiple_iff hdraw hrest, Config.exists_fault_iff,
    fun e => ⟨⟨?_, fun h => ?_⟩, fun t result t' hrun => ⟨fun h => ?_, ?_⟩⟩, fun entries hids => ?_,
    fun source sink options hpos hle => ⟨?_, fun e h => ⟨?_, fun t report t' hrun => ?_⟩⟩⟩
  · intro h
    obtain ⟨t', hrun⟩ := h
    exact Envelope.fault_of_encryptMultiple hrun
  · exact Envelope.exists_encryptMultiple_failed plaintext h hdraw hrest
  · exact Envelope.failsWith_encryptMultiple plaintext h t result t' hrun
  · rintro rfl
    exact Envelope.fault_of_encryptMultiple hrun
  · rw [RecipientTable.exists_encode_iff_admits hids, Config.checkRecipients_eq_ok_iff]
  · constructor
    · intro h
      obtain ⟨header, entries, report, tape', hrun, -, -, hbegun⟩ := h
      -- What is refused has a fault, and its report is not that of a stream that has begun.
      by_contra hrefused
      obtain ⟨e, he⟩ := Config.exists_fault_iff.2 hrefused
      obtain rfl := Stream.eq_failed_of_encrypt (Stream.failsWith_establish hpos hle he) hrun
      exact Stream.not_begun_failed he.ne_io hbegun
    · intro h
      obtain ⟨hadmits, hreadable⟩ := h
      exact Stream.exists_begun hpos hle hadmits hreadable hdraw hrest source sink
  · exact Stream.exists_encrypt_failed (Stream.failsWith_establish hpos hle h) hdraw hrest source
      sink
  · exact Stream.eq_failed_of_encrypt (Stream.failsWith_establish hpos hle h) hrun

/-- One recipient, and the same one twice. -/
theorem encryption_fails_up_front_twice :
    let key : PrivateKey := ⟨2, by decide, by decide⟩
    let r : Recipient := ⟨List.replicate 12 1, key.publicKey.compressed.bytes⟩
    let tape : Tape := List.replicate 31 0 ++ 1 :: List.replicate 80 0
    (∃ envelope tape',
      (Envelope.encryptMultiple .standard [r] [1, 2, 3]).run tape = some (.ok envelope, tape'))
      ∧ ∃ tape', (Envelope.encryptMultiple .standard [r, r] [1, 2, 3]).run tape
        = some (.error (.duplicateRecipient (Text.Hex.encode r.id)), tape') := by
  intro key r tape
  have hdraw : Draw.privateKey tape = some (⟨1, by decide, by decide⟩, List.replicate 80 0) := by
    decide +kernel
  have hadmits : Config.Admits .standard [r] :=
    { pos := by decide, le_max := by decide, idSize := by decide, nodup := by decide }
  have hreadable : Readable [r] := readable_of_form fun r' hr' => by
    obtain rfl := List.mem_singleton.1 hr'
    exact ⟨key, .compressed⟩
  have hfault : Config.Fault .standard [r, r] (.duplicateRecipient (Text.Hex.encode r.id)) :=
    .duplicate (by decide) (by decide) (show [r, r].map (·.id) = [r.id] ++ r.id :: [] from rfl)
      (by simp) (by simp)
  obtain ⟨hone, -⟩ := encryption_fails_up_front .standard [r] [1, 2, 3] hdraw (by decide)
  obtain ⟨-, -, htwo, -⟩ := encryption_fails_up_front .standard [r, r] [1, 2, 3] hdraw (by decide)
  exact ⟨hone.2 ⟨hadmits, hreadable⟩, (htwo _).1.2 hfault⟩

end

end SealedEnvelope
