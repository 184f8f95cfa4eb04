import SealedEnvelope.Proofs.CommandLine.Files
import SealedEnvelope.Proofs.Recovery
import SealedEnvelope.Proofs.SecretBuffer

set_option autoImplicit false

/-! # Files through encryption and decryption

What `encrypt` has written is decrypted by `decrypt`, for whoever answers to one of the recipients
(`Answers`). A buffered command has read its input before it writes, and may write where it reads. A
stream is written as it is read: its output is emptied before the first octet of its input is taken.
If the two are one file, decryption loses the stream (`decryptFile_onto_input`). So files come back
whichever paths are chosen unless a stream is written over its own input (`restored_of_run`). -/

namespace SealedEnvelope.CommandLine

section Commands

variable {config : Config} {files : Files} {cancelled : Stream.Checkpoint → Bool}
  {input output : String} {tape rest : Tape} {o : Outcome}

/-! ## What an operation makes of its input -/

/-- What comes of a buffered operation. -/
def Outcome.ofResult (files : Files) (target : Path) (line : Nat → String) :
    Except Error Bytes → Outcome
  | .ok result => done (files.write target result) [line result.length]
  | .error e => failed files (.engine e)

/-- What comes of a stream. -/
def Outcome.ofReport (files : Files) (target : Path) (line : Stream.Summary → String)
    (report : Stream.Report) : Outcome :=
  match report.outcome with
  | .ok summary => done (files.write target report.written) [line summary]
  | .error e => failed (files.remove target) (.engine e)

section Operations

variable {origin target : Path} {contents : Bytes}

/-- A buffered operation is done on what the input holds. -/
theorem overFile_eq_some_iff {operation : Bytes → Sealing Bytes} {line : Nat → Nat → String}
    (hread : files.read input = .ok contents) (hplace : files.place output = .ok target) :
    overFile files input output operation line tape = some (o, rest)
      ↔ ∃ result, (operation contents).run tape = some (result, rest)
        ∧ o = .ofResult files target (line contents.length) result := by
  simp only [overFile, hread, hplace, Draw.bind_eq_some]
  constructor
  · rintro ⟨result, t, hrun, h⟩
    cases result <;> obtain ⟨rfl, rfl⟩ := Draw.pure_eq_some.1 h <;> exact ⟨_, hrun, rfl⟩
  · rintro ⟨result, hrun, rfl⟩
    cases result <;> exact ⟨_, _, hrun, rfl⟩

/-- A stream is run on what the input holds once the output is emptied. -/
theorem overStream_eq_some_iff {operation : Stream.Source → Sealing Stream.Report}
    {line : Stream.Summary → String} (hbegins : ∀ source, Sealing.Unfailing (operation source))
    (hfind : files.find input = .ok origin) (hplace : files.place output = .ok target) :
    overStream files input output operation line tape = some (o, rest)
      ↔ ∃ report,
        (operation ((files.write target []).source origin)).run tape = some (.ok report, rest)
          ∧ o = .ofReport files target line report := by
  simp only [overStream, hfind, hplace, Draw.bind_eq_some, Outcome.ofReport]
  constructor
  · rintro ⟨result, t, hrun, h⟩
    cases result with
    | error e => exact (hbegins _ _ _ _ hrun).elim
    | ok report =>
      refine ⟨report, ?_⟩
      cases houtcome : report.outcome <;> simp only [houtcome] at h <;>
        obtain ⟨rfl, rfl⟩ := Draw.pure_eq_some.1 h <;> exact ⟨hrun, rfl⟩
  · rintro ⟨report, hrun, rfl⟩
    refine ⟨.ok report, _, hrun, ?_⟩
    cases houtcome : report.outcome <;> simp only [houtcome] <;> rfl

end Operations

/-! ## Requests that belong together -/

/-- The request to decrypt answers to the recipient of number `i`: it works on a stream if that one
    does, and it types a private key for the recipient's public key. Identifiers are readable where
    they are typed. Where there are several recipients, both type the same one, though not
    necessarily in the same letters. -/
structure Answers (config : Config) (enc : EncryptRequest) (dec : DecryptRequest) (i : Nat)
    (key : PrivateKey) : Prop where
  stream : dec.stream = enc.stream
  privateKey : privateKeyOctets dec.privateKey = .ok key.octets.bytes
  publicKey : ∃ text bytes, enc.recipients[i]? = some text ∧ readPublicKey text = .ok bytes
    ∧ parsePublicKey bytes = .ok key.publicKey
  readable : ∀ text, dec.recipientId = some text → ∃ id, config.idProvider.ofText text = .ok id
  identifier : enc.mode = .multiple → ∃ text typed, dec.recipientId = some text
    ∧ enc.recipientIds[i]? = some typed
    ∧ config.idProvider.ofText text = config.idProvider.ofText typed

/-- The first recipient is that of the first typed key and, if there is one, of the first typed
    identifier. -/
theorem exists_of_readRecipients_cons {provider : IdProvider} {key : String}
    {keys ids : List String} {recipients : List Recipient}
    (h : readRecipients provider (key :: keys) ids = .ok recipients) :
    ∃ r others, recipients = r :: others ∧ readPublicKey key = .ok r.publicKey
      ∧ (∀ typed, ids.head? = some typed → provider.ofText typed = .ok r.id)
      ∧ readRecipients provider keys ids.tail = .ok others := by
  rw [readRecipients, bind_eq_ok] at h
  obtain ⟨publicKey, hkey, h⟩ := h
  cases hhead : ids.head? with
  | none =>
    simp only [hhead, bind_eq_ok, pure_eq_ok] at h
    obtain ⟨id, -, others, hothers, rfl⟩ := h
    exact ⟨⟨id, publicKey⟩, others, rfl, hkey, fun _ htyped => (by cases htyped), hothers⟩
  | some typed =>
    simp only [hhead, bind_eq_ok, pure_eq_ok, mapError_eq_ok] at h
    obtain ⟨id, hid, others, hothers, rfl⟩ := h
    refine ⟨⟨id, publicKey⟩, others, rfl, hkey, fun typed' htyped => ?_, hothers⟩
    obtain rfl := Option.some.inj htyped
    exact hid

/-- The recipients are those of the typed keys, under the typed identifiers, in order. -/
theorem getElem?_of_readRecipients {provider : IdProvider} {keys ids : List String}
    {recipients : List Recipient} (h : readRecipients provider keys ids = .ok recipients) {i : Nat}
    {text : String} (hi : keys[i]? = some text) :
    ∃ r, recipients[i]? = some r ∧ readPublicKey text = .ok r.publicKey
      ∧ ∀ typed, ids[i]? = some typed → provider.ofText typed = .ok r.id := by
  induction keys generalizing ids recipients i with
  | nil => cases hi
  | cons key keys ih =>
    obtain ⟨first, others, rfl, hkey, hid, hothers⟩ := exists_of_readRecipients_cons h
    cases i with
    | zero =>
      obtain rfl := Option.some.inj hi
      refine ⟨first, rfl, hkey, fun typed htyped => hid typed ?_⟩
      rwa [List.head?_eq_getElem?]
    | succ i =>
      obtain ⟨r, hr, hpublic, hids⟩ := ih hothers hi
      refine ⟨r, hr, hpublic, fun typed htyped => hids typed ?_⟩
      rwa [List.getElem?_tail]

/-- The recipients of a request are read in whatever mode. -/
theorem readRecipients_of_request {enc : EncryptRequest} {recipients : List Recipient}
    (h : enc.readRecipients config = .ok recipients) :
    readRecipients config.idProvider enc.recipients enc.recipientIds = .ok recipients := by
  unfold EncryptRequest.readRecipients at h
  split at h
  · cases h
  · exact h

section Identity

variable {dec : DecryptRequest} {octets id : Bytes} {text : String}

/-- The request is read as the octets of a private key, which are there when they are needed, and
    maybe an identifier. A mask is drawn for the key. -/
def DecryptRequest.IsReadAs (config : Config) (dec : DecryptRequest) (octets : Bytes)
    (id : Option Bytes) : Prop :=
  ∀ tape : Tape, privateKeySize ≤ tape.length → ∃ key : SecretBuffer, key.expose = .ok octets
    ∧ (dec.readIdentity config).run tape = some (.ok (key, id), tape.drop privateKeySize)

theorem length_privateKeyOctets (h : privateKeyOctets text = .ok octets) :
    octets.length = privateKeySize := by
  simp only [privateKeyOctets, bind_eq_ok] at h
  obtain ⟨bytes, -, h⟩ := h
  split at h
  · cases h
  · next hsize =>
    obtain rfl := pure_eq_ok.1 h
    exact not_not.1 hsize

/-- A typed private key is masked, and can be brought into the clear again. -/
theorem exists_readPrivateKey (h : privateKeyOctets text = .ok octets)
    (htape : privateKeySize ≤ tape.length) :
    ∃ key : SecretBuffer, key.expose = .ok octets
      ∧ (readPrivateKey text).run tape = some (.ok key, tape.drop privateKeySize) := by
  rw [← length_privateKeyOctets h] at htape ⊢
  obtain ⟨mask, hmask, hdraw⟩ := SecretBuffer.ofBytes_eq octets htape
  refine ⟨_, SecretBuffer.expose_withMask hmask, ?_⟩
  exact Sealing.bind_eq_ok.2 ⟨octets, tape, Sealing.lift_eq_ok.2 ⟨h, rfl⟩,
    Sealing.draw_eq_ok.2 hdraw⟩

theorem isReadAs_of_none (hkey : privateKeyOctets dec.privateKey = .ok octets)
    (hnone : dec.recipientId = none) : dec.IsReadAs config octets none := by
  intro tape htape
  obtain ⟨key, hexpose, hread⟩ := exists_readPrivateKey hkey htape
  refine ⟨key, hexpose, Sealing.bind_eq_ok.2 ⟨key, _, hread, ?_⟩⟩
  rw [hnone]
  rfl

theorem isReadAs_of_some (hkey : privateKeyOctets dec.privateKey = .ok octets)
    (hsome : dec.recipientId = some text) (hid : config.idProvider.ofText text = .ok id) :
    dec.IsReadAs config octets (some id) := by
  intro tape htape
  obtain ⟨key, hexpose, hread⟩ := exists_readPrivateKey hkey htape
  refine ⟨key, hexpose, Sealing.bind_eq_ok.2 ⟨key, _, hread, ?_⟩⟩
  simp only [hsome, hid]
  rfl

end Identity

/-- Who answers to a recipient decrypts with its key and, where it counts, as its identifier. -/
theorem Answers.exists_recipient {enc : EncryptRequest} {dec : DecryptRequest} {i : Nat}
    {key : PrivateKey} (h : Answers config enc dec i key) {recipients : List Recipient}
    (hrecipients : enc.readRecipients config = .ok recipients) :
    ∃ r ∈ recipients, ∃ id, key.publicKey.Form r.publicKey ∧ Stream.Identifies r id enc.mode
      ∧ dec.IsReadAs config key.octets.bytes id := by
  obtain ⟨text, bytes, htext, hbytes, hparse⟩ := h.publicKey
  obtain ⟨r, hr, hpublic, hids⟩ :=
    getElem?_of_readRecipients (readRecipients_of_request hrecipients) htext
  have hform : key.publicKey.Form r.publicKey := by
    rw [hbytes] at hpublic
    obtain rfl := Except.ok.inj hpublic
    exact (parsePublicKey_eq_ok_iff.1 hparse).2
  refine ⟨r, List.mem_of_getElem? hr, ?_⟩
  cases hid : dec.recipientId with
  | none =>
    refine ⟨none, hform, ?_, isReadAs_of_none h.privateKey hid⟩
    cases hmode : enc.mode with
    | multiple =>
      obtain ⟨text, _, htext, -⟩ := h.identifier hmode
      rw [hid] at htext
      cases htext
    | _ => trivial
  | some given =>
    obtain ⟨octets, hoctets⟩ := h.readable given hid
    refine ⟨some octets, hform, ?_, isReadAs_of_some h.privateKey hid hoctets⟩
    cases hmode : enc.mode with
    | multiple =>
      obtain ⟨text, typed, htext, htyped, hsame⟩ := h.identifier hmode
      rw [hid] at htext
      obtain rfl := Option.some.inj htext
      rw [hoctets, hids typed htyped] at hsame
      exact congrArg some (Except.ok.inj hsame)
    | _ => trivial

/-! ## Encrypting a file -/

section Encrypt

variable {enc : EncryptRequest} {recipients : List Recipient} {origin target : Path}
  {contents : Bytes}

theorem exists_recipients_of_encryptFile
    (hrun : encryptFile config files cancelled enc tape = some (o, rest)) (hok : o.failure = none) :
    ∃ recipients, enc.readRecipients config = .ok recipients := by
  cases hrecipients : enc.readRecipients config with
  | ok recipients => exact ⟨recipients, rfl⟩
  | error failure =>
    rw [encryptFile, hrecipients] at hrun
    obtain ⟨rfl, -⟩ := Draw.pure_eq_some.1 hrun
    cases hok

/-- A buffered encryption that succeeds has written the envelope of what its input held. -/
theorem written_of_encryptFile_buffered
    (hrun : encryptFile config files cancelled enc tape = some (o, rest)) (hok : o.failure = none)
    (hrecipients : enc.readRecipients config = .ok recipients) (hbuffered : enc.stream = false)
    (hread : files.read enc.input = .ok contents) (hplace : files.place enc.output = .ok target) :
    ∃ envelope,
      (Envelope.encrypt config enc.mode recipients contents).run tape = some (.ok envelope, rest)
        ∧ o.files = files.write target envelope := by
  simp only [encryptFile, hrecipients, hbuffered, Bool.false_eq_true, if_false] at hrun
  obtain ⟨result, hencrypt, rfl⟩ := (overFile_eq_some_iff hread hplace).1 hrun
  cases result with
  | ok envelope => exact ⟨envelope, hencrypt, rfl⟩
  | error e => cases hok

/-- An encryption to a stream that succeeds has written the stream of what its input held once the
    output was emptied. -/
theorem written_of_encryptFile_streamed
    (hrun : encryptFile config files cancelled enc tape = some (o, rest)) (hok : o.failure = none)
    (hrecipients : enc.readRecipients config = .ok recipients) (hstream : enc.stream = true)
    (hfind : files.find enc.input = .ok origin) (hplace : files.place enc.output = .ok target) :
    ∃ options report summary,
      Stream.encrypt config enc.mode recipients ((files.write target []).source origin) .unlimited
          options tape = some (report, rest)
        ∧ report.outcome = .ok summary ∧ o.files = files.write target report.written := by
  simp only [encryptFile, hrecipients, hstream, if_true] at hrun
  obtain ⟨report, hencrypt, rfl⟩ :=
    (overStream_eq_some_iff (fun _ => Sealing.unfailing_draw _) hfind hplace).1 hrun
  cases houtcome : report.outcome with
  | ok summary =>
    refine ⟨_, report, summary, Sealing.draw_eq_ok.1 hencrypt, houtcome, ?_⟩
    rw [Outcome.ofReport, houtcome]
    rfl
  | error e =>
    rw [Outcome.ofReport, houtcome] at hok
    cases hok

/-- Recipients that are taken get a stream of what the input holds, if the tape has what is drawn
    and nobody cancels. -/
theorem exists_encryptFile_streamed {ephemeral : PrivateKey} (hnever : ∀ c, cancelled c = false)
    (hrecipients : enc.readRecipients config = .ok recipients) (hstream : enc.stream = true)
    (haccepts : Stream.Accepts config enc.mode recipients enc.chunkSize)
    (hfind : files.find enc.input = .ok origin) (hplace : files.place enc.output = .ok target)
    (hsource : (files.write target []).source origin = .ofBytes contents)
    (hlength : contents.length ≤ 2 ^ 32 * enc.chunkSize.getD config.chunkSize)
    (hdraw : Draw.privateKey tape = some (ephemeral, rest))
    (hrest : Stream.drawn recipients.length enc.mode ≤ rest.length) :
    ∃ o tape' written, encryptFile config files cancelled enc tape = some (o, tape')
      ∧ o.failure = none ∧ o.files = files.write target written := by
  let options : Stream.Options :=
    { Stream.Options.none with cancelled, chunkSize := enc.chunkSize }
  rw [← Stream.Source.bytes_ofBytes contents] at hlength
  obtain ⟨report, summary, tape', hencrypt, houtcome⟩ :=
    haccepts.exists_encrypt (show ∀ c, options.cancelled c = false from hnever) rfl hlength hdraw
      hrest
  rw [← hsource] at hencrypt
  simp only [encryptFile, hrecipients, hstream, if_true]
  refine ⟨_, tape', report.written,
    (overStream_eq_some_iff (fun _ => Sealing.unfailing_draw _) hfind hplace).2
      ⟨report, Sealing.draw_eq_ok.2 hencrypt, rfl⟩, ?_, ?_⟩
  · rw [Outcome.ofReport, houtcome]
    rfl
  · rw [Outcome.ofReport, houtcome]
    rfl

end Encrypt

/-! ## Decrypting a file -/

section Decrypt

variable {dec : DecryptRequest} {octets : Bytes} {id : Option Bytes} {origin target : Path}
  {envelope plaintext : Bytes}

/-- Once the private key is read, all is done with that. -/
theorem decryptFile_eq {key : SecretBuffer}
    (hread : (dec.readIdentity config).run tape = some (.ok (key, id), rest)) :
    decryptFile config files cancelled dec tape
      = decryptWith config files cancelled dec key id rest :=
  Draw.bind_of_some hread

/-- A buffered decryption writes the payload of the envelope that its input holds. -/
theorem decryptFile_buffered (cancelled : Stream.Checkpoint → Bool)
    (hidentity : dec.IsReadAs config octets id) (hbuffered : dec.stream = false)
    (hread : files.read dec.input = .ok envelope) (hplace : files.place dec.output = .ok target)
    (hopen : Envelope.decrypt config octets id envelope = .ok plaintext)
    (htape : privateKeySize ≤ tape.length) :
    ∃ lines, decryptFile config files cancelled dec tape
      = some (.done (files.write target plaintext) lines, tape.drop privateKeySize) := by
  obtain ⟨key, hexpose, hkey⟩ := hidentity tape htape
  rw [decryptFile_eq hkey]
  simp only [decryptWith, hbuffered, Bool.false_eq_true, if_false]
  exact ⟨_, (overFile_eq_some_iff hread hplace).2
    ⟨.ok plaintext, Sealing.bind_eq_ok.2 ⟨octets, _, Sealing.lift_eq_ok.2 ⟨hexpose, rfl⟩,
      Sealing.lift_eq_ok.2 ⟨hopen, rfl⟩⟩, rfl⟩⟩

/-- A decryption of a stream goes by what its input holds once the output is emptied. -/
theorem decryptFile_streamed (cancelled : Stream.Checkpoint → Bool)
    (hidentity : dec.IsReadAs config octets id) (hstream : dec.stream = true)
    (hfind : files.find dec.input = .ok origin) (hplace : files.place dec.output = .ok target)
    (htape : privateKeySize ≤ tape.length) :
    ∃ line, decryptFile config files cancelled dec tape
      = some (.ofReport files target line
          (Stream.decrypt config octets id ((files.write target []).source origin) .unlimited
            { Stream.Options.none with cancelled }),
        tape.drop privateKeySize) := by
  obtain ⟨key, hexpose, hkey⟩ := hidentity tape htape
  rw [decryptFile_eq hkey]
  simp only [decryptWith, hstream, if_true]
  have hbegins : ∀ source : Stream.Source, Sealing.Unfailing (do
      return Stream.decrypt config (← key.expose) id source .unlimited
        { Stream.Options.none with cancelled }) :=
    fun _ => Sealing.unfailing_lift_bind hexpose (Sealing.unfailing_pure _)
  exact ⟨_, (overStream_eq_some_iff hbegins hfind hplace).2
    ⟨_, Sealing.bind_eq_ok.2 ⟨octets, _, Sealing.lift_eq_ok.2 ⟨hexpose, rfl⟩,
      Sealing.pure_eq_ok.2 ⟨rfl, rfl⟩⟩, rfl⟩⟩

/-- Where there are no octets, there is no stream. -/
theorem decrypt_nothing (config : Config) (key : PrivateKey) (id : Option Bytes)
    (options : Stream.Options) :
    Stream.decrypt config key.octets.bytes id (.ofBytes []) .unlimited options
      = .failed (.streamTruncated "missing stream header length") := by
  have hfill : Stream.Intake.fill 1 (.ofBytes [])
      = .ok ([], (Stream.Source.ofBytes []).advance 1) :=
    Stream.Intake.fill_eq (Or.inr rfl)
  have hlength : Stream.Intake.length "stream header" (.ofBytes [])
      = .error (.streamTruncated "missing stream header length") :=
    state_bind_eq_error.2 (Or.inr ⟨_, _, hfill, rfl⟩)
  have hheader : Stream.readHeader config (.ofBytes [])
      = .error (.streamTruncated "missing stream header length") :=
    state_bind_eq_error.2 (Or.inl hlength)
  rw [Stream.decrypt, PrivateKey.ofBytes_octets]
  simp only [Stream.decryptFor, Stream.openHeader, hheader]
  rfl

/-- A stream that is decrypted onto itself is lost. -/
theorem decryptFile_onto_input (cancelled : Stream.Checkpoint → Bool) {key : PrivateKey}
    (hidentity : dec.IsReadAs config key.octets.bytes id) (hstream : dec.stream = true)
    (hfind : files.find dec.input = .ok target) (hplace : files.place dec.output = .ok target)
    (htape : privateKeySize ≤ tape.length) :
    decryptFile config files cancelled dec tape
      = some (.failed (files.remove target)
          (.engine (.streamTruncated "missing stream header length")),
        tape.drop privateKeySize) := by
  obtain ⟨line, hrun⟩ := decryptFile_streamed cancelled hidentity hstream hfind hplace htape
  rw [hrun, Files.source_write_self, decrypt_nothing]
  rfl

end Decrypt

/-! ## There and back -/

section ThereAndBack

variable {enc : EncryptRequest} {dec : DecryptRequest} {i : Nat} {key : PrivateKey}
  {origin target place : Path} {contents : Bytes} {a b : Option String} {clock : Int}
  {cancelled' : Stream.Checkpoint → Bool} {tape' : Tape}

theorem run_of_loadConfig {invocation : Invocation}
    (hconfig : loadConfig files invocation.config = .ok config) :
    run files clock cancelled invocation
      = invocation.command.run config files clock cancelled := by
  rw [run, hconfig]

/-- Buffered commands bring a file back, whatever the paths. -/
theorem restored_of_buffered (hanswers : Answers config enc dec i key)
    (hseal : encryptFile config files cancelled enc tape = some (o, rest)) (hok : o.failure = none)
    (hbuffered : enc.stream = false) (hread : files.read enc.input = .ok contents)
    (houtput : files.place enc.output = .ok target)
    (hinput' : o.files.find dec.input = .ok target)
    (houtput' : o.files.place dec.output = .ok place) (htape : privateKeySize ≤ tape'.length) :
    ∃ opened, decryptFile config o.files cancelled' dec tape'
        = some (opened, tape'.drop privateKeySize)
      ∧ opened.failure = none ∧ opened.files.contents? place = some contents := by
  obtain ⟨recipients, hrecipients⟩ := exists_recipients_of_encryptFile hseal hok
  obtain ⟨r, hr, id, hform, hid, hidentity⟩ := hanswers.exists_recipient hrecipients
  obtain ⟨envelope, hencrypt, hfiles⟩ :=
    written_of_encryptFile_buffered hseal hok hrecipients hbuffered hread houtput
  have hsealed : o.files.read dec.input = .ok envelope := by
    refine Files.read_eq_ok_iff.2 ⟨target, hinput', ?_⟩
    rw [hfiles, Files.contents?_write, if_pos rfl]
  obtain ⟨lines, hopen⟩ := decryptFile_buffered cancelled' hidentity
    (hanswers.stream.trans hbuffered) hsealed houtput'
    (Envelope.decrypt_of_encrypt hencrypt hr hform hid) htape
  refine ⟨_, hopen, rfl, ?_⟩
  rw [Outcome.done, Files.contents?_write, if_pos rfl]

/-- Streams bring back what their input held when it was read, if the stream is not decrypted onto
    itself. -/
theorem restored_of_streamed (hanswers : Answers config enc dec i key)
    (hseal : encryptFile config files cancelled enc tape = some (o, rest)) (hok : o.failure = none)
    (hstream : enc.stream = true) (hinput : files.find enc.input = .ok origin)
    (houtput : files.place enc.output = .ok target)
    (hsource : (files.write target []).source origin = .ofBytes contents)
    (hinput' : o.files.find dec.input = .ok target)
    (houtput' : o.files.place dec.output = .ok place) (hne : target ≠ place)
    (hnever : ∀ c, cancelled' c = false) (htape : privateKeySize ≤ tape'.length) :
    ∃ opened, decryptFile config o.files cancelled' dec tape'
        = some (opened, tape'.drop privateKeySize)
      ∧ opened.failure = none ∧ opened.files.contents? place = some contents := by
  obtain ⟨recipients, hrecipients⟩ := exists_recipients_of_encryptFile hseal hok
  obtain ⟨r, hr, id, hform, hid, hidentity⟩ := hanswers.exists_recipient hrecipients
  obtain ⟨options, report, summary, hencrypt, houtcome, hfiles⟩ :=
    written_of_encryptFile_streamed hseal hok hrecipients hstream hinput houtput
  have hheld : o.files.contents? target = some report.written := by
    rw [hfiles, Files.contents?_write, if_pos rfl]
  obtain ⟨line, hopen⟩ :=
    decryptFile_streamed cancelled' hidentity (hanswers.stream.trans hstream) hinput' houtput' htape
  rw [Files.source_write_of_ne hheld hne] at hopen
  rw [hsource] at hencrypt
  have hnever' : ∀ c, { Stream.Options.none with cancelled := cancelled' }.cancelled c = false :=
    hnever
  obtain ⟨hwritten, houtcome'⟩ := Stream.decrypt_of_encrypt hencrypt houtcome hr hform hid
    (Stream.Source.bytes_ofBytes report.written) rfl hnever'
  refine ⟨_, hopen, ?_, ?_⟩
  · rw [Outcome.ofReport, houtcome']
    rfl
  · rw [Outcome.ofReport, houtcome', hwritten, Stream.Source.bytes_ofBytes]
    exact (Files.contents?_write ..).trans (if_pos rfl)

/-- **A file there and back.** An encryption has succeeded, and with the same configuration someone
    who answers to one of its recipients decrypts what it has written, which nobody cancels. If no
    stream is written over its own input, the decryption succeeds, and its output holds what the
    plaintext file held before the encryption; which of the paths are one does not matter otherwise.
    A stream that is decrypted onto itself is refused as cut off, and removed. A file that is
    encrypted onto itself as a stream for one recipient, which has a short opening, comes back
    empty. -/
theorem restored_of_run {sealed : Outcome} {clock' : Int} (hanswers : Answers config enc dec i key)
    (hconfig : loadConfig files a = .ok config)
    (hrun : run files clock cancelled ⟨a, .encrypt enc⟩ tape = some (sealed, rest))
    (hok : sealed.failure = none) (hinput : files.find enc.input = .ok origin)
    (hcontents : files.contents? origin = some contents)
    (houtput : files.place enc.output = .ok target)
    (hconfig' : loadConfig sealed.files b = .ok config)
    (hinput' : sealed.files.find dec.input = .ok target)
    (houtput' : sealed.files.place dec.output = .ok place) (hnever : ∀ c, cancelled' c = false)
    (htape : privateKeySize ≤ tape'.length) :
    ∃ opened, run sealed.files clock' cancelled' ⟨b, .decrypt dec⟩ tape'
        = some (opened, tape'.drop privateKeySize)
      ∧ ((enc.stream = true → origin ≠ target ∧ target ≠ place) →
          opened.failure = none ∧ opened.files.contents? place = some contents)
      ∧ (enc.stream = true → target = place →
          opened.failure = some (.engine (.streamTruncated "missing stream header length"))
            ∧ opened.files.contents? place = none)
      ∧ (enc.stream = true → enc.mode ≠ .multiple → origin = target → target ≠ place →
          opened.failure = none ∧ opened.files.contents? place = some []) := by
  rw [run_of_loadConfig hconfig] at hrun
  rw [run_of_loadConfig hconfig']
  simp only [Command.run] at hrun ⊢
  cases hstream : enc.stream with
  | false =>
    have hread : files.read enc.input = .ok contents :=
      Files.read_eq_ok_iff.2 ⟨origin, hinput, hcontents⟩
    obtain ⟨opened, hopen, hopened⟩ := restored_of_buffered hanswers hrun hok hstream hread houtput
      hinput' houtput' htape
    exact ⟨opened, hopen, fun _ => hopened, fun h => absurd h Bool.false_ne_true,
      fun h => absurd h Bool.false_ne_true⟩
  | true =>
    by_cases hplace : target = place
    · obtain rfl := hplace
      obtain ⟨recipients, hrecipients⟩ := exists_recipients_of_encryptFile hrun hok
      obtain ⟨-, -, id, -, -, hidentity⟩ := hanswers.exists_recipient hrecipients
      refine ⟨_, decryptFile_onto_input cancelled' hidentity (hanswers.stream.trans hstream)
        hinput' houtput' htape, fun h => absurd rfl (h rfl).2, fun _ _ => ⟨rfl, ?_⟩,
        fun _ _ _ h => absurd rfl h⟩
      rw [Outcome.failed, Files.contents?_remove, if_pos rfl]
    · by_cases horigin : origin = target
      · obtain rfl := horigin
        obtain ⟨opened, hopen, hopened⟩ := restored_of_streamed hanswers hrun hok hstream hinput
          houtput (Files.source_write_self files origin) hinput' houtput' hplace hnever htape
        exact ⟨opened, hopen, fun h => absurd rfl (h rfl).1, fun _ h => absurd h hplace,
          fun _ _ _ _ => hopened⟩
      · obtain ⟨opened, hopen, hopened⟩ := restored_of_streamed hanswers hrun hok hstream hinput
          houtput (Files.source_write_of_ne hcontents horigin) hinput' houtput' hplace hnever htape
        exact ⟨opened, hopen, fun _ => hopened, fun _ h => absurd h hplace,
          fun _ _ h => absurd h horigin⟩

end ThereAndBack

end Commands

/-! ### A file of three octets -/

namespace Sample

/-- The private key with the generator as its public key. -/
def key : PrivateKey := ⟨1, by decide, by decide⟩

/-- The file, and nothing else. -/
def files : Files := ⟨[(⟨.above 0, ["plain"]⟩, [1, 2, 3])], []⟩

/-- A stream of chunks of two octets. The key is typed with spaces behind. -/
def enc : EncryptRequest where
  recipients := ["0279be667ef9dcbbac55a06295ce870b07029bfcdb2dce28d959f2815b16f81798  "]
  recipientIds := []
  mode := .simple
  stream := true
  chunkSize := some 2
  input := "plain"
  output := "sealed"

/-- The stream decrypted to some output. The key is typed behind `0x`. -/
def dec (output : String) : DecryptRequest where
  privateKey := "0x0000000000000000000000000000000000000000000000000000000000000001"
  recipientId := none
  stream := true
  input := "sealed"
  output := output

/-- The ephemeral key and the initialisation vector. -/
def tape : Tape := List.replicate 31 0 ++ 1 :: List.replicate 16 0

/-- The mask for the private key. -/
def mask : Tape := List.replicate 32 0xa5

/-- Nobody interrupts. -/
def never : Stream.Checkpoint → Bool := fun _ => false

theorem parsePublicKey_generator :
    parsePublicKey Curve.generator.compressed.bytes = .ok key.publicKey := by
  rw [show key.publicKey = Curve.generator by decide +kernel]
  exact parsePublicKey_eq_ok_iff.2 ⟨Curve.onCurve_generator, .compressed⟩

theorem answers (output : String) : Answers .standard enc (dec output) 0 key where
  stream := rfl
  privateKey := show privateKeyOctets
    "0x0000000000000000000000000000000000000000000000000000000000000001" = .ok key.octets.bytes by
      decide +kernel
  publicKey := ⟨_, Curve.generator.compressed.bytes, rfl, by decide +kernel,
    parsePublicKey_generator⟩
  readable := fun _ h => by cases h
  identifier := fun h => by cases h

/-- The file is encrypted. -/
theorem exists_sealed :
    ∃ sealed rest written, run files 0 never ⟨none, .encrypt enc⟩ tape = some (sealed, rest)
      ∧ sealed.failure = none ∧ sealed.files = files.write ⟨.above 0, ["sealed"]⟩ written := by
  have hrecipients : enc.readRecipients .standard
      = .ok [⟨List.replicate 12 0, Curve.generator.compressed.bytes⟩] := by
    decide +kernel
  have haccepts : Stream.Accepts .standard .simple
      [⟨List.replicate 12 0, Curve.generator.compressed.bytes⟩] (some 2) :=
    { addressable := rfl
      readable := by
        intro r hr
        obtain rfl := List.mem_singleton.1 hr
        exact ⟨_, parsePublicKey_generator⟩
      pos := by decide
      le_max := by decide }
  have hdraw : Draw.privateKey tape = some (key, List.replicate 16 0) := by decide +kernel
  have hinput : files.find enc.input = .ok ⟨.above 0, ["plain"]⟩ := by decide +kernel
  have houtput : files.place enc.output = .ok ⟨.above 0, ["sealed"]⟩ := by decide +kernel
  have hsource : (files.write ⟨.above 0, ["sealed"]⟩ []).source ⟨.above 0, ["plain"]⟩
      = .ofBytes [1, 2, 3] := Files.source_write_of_ne rfl (by decide)
  obtain ⟨sealed, rest, written, hseal, hok, hfiles⟩ := exists_encryptFile_streamed (fun _ => rfl)
    hrecipients rfl haccepts hinput houtput hsource (by decide +kernel) hdraw (by decide)
  exact ⟨sealed, rest, written, hseal, hok, hfiles⟩

end Sample

/-- The stream of a file decrypted over that file. -/
theorem restored_of_run_over_original :
    ∃ sealed rest opened,
      run Sample.files 0 Sample.never ⟨none, .encrypt Sample.enc⟩ Sample.tape
          = some (sealed, rest)
        ∧ sealed.failure = none
        ∧ run sealed.files 0 Sample.never ⟨none, .decrypt (Sample.dec "plain")⟩ Sample.mask
          = some (opened, [])
        ∧ opened.failure = none
        ∧ opened.files.contents? ⟨.above 0, ["plain"]⟩ = some [1, 2, 3] := by
  obtain ⟨sealed, rest, written, hseal, hok, hfiles⟩ := Sample.exists_sealed
  have hinput : Sample.files.find Sample.enc.input = .ok ⟨.above 0, ["plain"]⟩ := by
    decide +kernel
  have houtput : Sample.files.place Sample.enc.output = .ok ⟨.above 0, ["sealed"]⟩ := by
    decide +kernel
  have houtput' : Sample.files.place (Sample.dec "plain").output = .ok ⟨.above 0, ["plain"]⟩ := by
    decide +kernel
  have hne : (⟨.above 0, ["plain"]⟩ : Path) ≠ ⟨.above 0, ["sealed"]⟩ := by decide
  have hmask : privateKeySize ≤ Sample.mask.length := by decide
  have hstandard (files : Files) : loadConfig files none = .ok .standard := rfl
  obtain ⟨opened, hopen, hrestored, -⟩ := restored_of_run (Sample.answers "plain")
    (hstandard Sample.files) hseal hok hinput rfl houtput (hstandard sealed.files)
    (hfiles ▸ Files.find_write_of_place houtput) (hfiles ▸ Files.place_write houtput')
    (fun _ => rfl) hmask
  exact ⟨sealed, rest, opened, hseal, hok, hopen, hrestored fun _ => ⟨hne, hne.symm⟩⟩

/-- The stream of a file decrypted onto itself: nothing is decrypted, and the stream is gone. -/
theorem stream_lost_in_place :
    ∃ sealed rest opened,
      run Sample.files 0 Sample.never ⟨none, .encrypt Sample.enc⟩ Sample.tape
          = some (sealed, rest)
        ∧ sealed.failure = none
        ∧ run sealed.files 0 Sample.never ⟨none, .decrypt (Sample.dec "sealed")⟩ Sample.mask
          = some (opened, [])
        ∧ opened.failure = some (.engine (.streamTruncated "missing stream header length"))
        ∧ opened.files.contents? ⟨.above 0, ["sealed"]⟩ = none := by
  obtain ⟨sealed, rest, written, hseal, hok, hfiles⟩ := Sample.exists_sealed
  have houtput : Sample.files.place "sealed" = .ok ⟨.above 0, ["sealed"]⟩ := by decide +kernel
  have hidentity : (Sample.dec "sealed").IsReadAs .standard Sample.key.octets.bytes none :=
    isReadAs_of_none (Sample.answers "sealed").privateKey rfl
  have hmask : privateKeySize ≤ Sample.mask.length := by decide
  have hopen := decryptFile_onto_input Sample.never hidentity rfl
    (hfiles ▸ Files.find_write_of_place houtput) (hfiles ▸ Files.place_write houtput) hmask
  refine ⟨sealed, rest, _, hseal, hok, hopen, rfl, ?_⟩
  rw [Outcome.failed, Files.contents?_remove, if_pos rfl]

end SealedEnvelope.CommandLine
