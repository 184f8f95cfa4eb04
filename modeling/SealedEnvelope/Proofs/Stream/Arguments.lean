import SealedEnvelope.Proofs.Admission
import SealedEnvelope.Proofs.Stream.RoundTrip

set_option autoImplicit false

/-! # The arguments of an encryption

`Accepts` says which arguments encryption takes. With these a stream is established, whoever owns
the public keys, and its header is valid (`Accepts.exists_establish`); with any others encryption
fails with one error whatever is drawn, and nothing is written (`failed_of_not_accepts`). -/

namespace SealedEnvelope.Stream

variable {config : Config} {mode : Mode} {recipients : List Recipient} {requested : Option Nat}
  {tape rest : Tape} {size : Nat}

/-- Arguments that encryption takes: as many recipients as the mode asks for, under identifiers that
    the configuration admits, with public keys that can be read, and a chunk size within bounds. -/
structure Accepts (config : Config) (mode : Mode) (recipients : List Recipient)
    (requested : Option Nat) : Prop where
  addressable : Addressable config recipients mode
  readable : Readable recipients
  pos : 1 ≤ requested.getD config.chunkSize
  le_max : requested.getD config.chunkSize ≤ config.maxChunkSize

theorem Accepts.resolve_eq (h : Accepts config mode recipients requested) :
    resolveChunkSize config requested = .ok (requested.getD config.chunkSize) :=
  resolveChunkSize_eq_ok_iff.2 ⟨rfl, h.pos, h.le_max⟩

/-! ## What is established -/

theorem valid_of_establishForOne {publicKey : Bytes} {established : Established}
    (h : (establishForOne config size publicKey).run tape = some (.ok established, rest))
    (hpos : 1 ≤ size) (hle : size ≤ config.maxChunkSize) : established.header.Valid config := by
  simp only [establishForOne, Sealing.bind_eq_ok, Sealing.pure_eq_ok] at h
  obtain ⟨_, _, -, _, _, -, _, _, -, rfl, -⟩ := h
  have hsize := toNat_ofNat_chunkSize hle
  exact ⟨hpos.trans_eq hsize.symm, hsize.trans_le hle, trivial⟩

theorem valid_of_establishForMany {established : Established}
    (h : (establishForMany config size recipients).run tape = some (.ok established, rest))
    (hpos : 1 ≤ size) (hle : size ≤ config.maxChunkSize) : established.header.Valid config := by
  simp only [establishForMany, Sealing.bind_eq_ok, Sealing.pure_eq_ok, Sealing.lift_eq_ok,
    Sealing.draw_eq_ok] at h
  obtain ⟨_, _, -, _, _, ⟨hcheck, -⟩, _, _, -, _, _, hentries, _, _, -, rfl, -⟩ := h
  have hsize := toNat_ofNat_chunkSize hle
  exact ⟨hpos.trans_eq hsize.symm, hsize.trans_le hle,
    KeyWrap.valid_of_wrappedFor (Config.checkRecipients_eq_ok_iff.1 hcheck)
      (KeyWrap.wrappedFor_of_wrapAll hentries)⟩

/-- The header of every established stream is valid. -/
theorem valid_of_establish {established : Established}
    (h : (establish config mode recipients requested).run tape = some (.ok established, rest)) :
    established.header.Valid config := by
  cases mode with
  | multiple =>
    simp only [establish, Sealing.bind_eq_ok, Sealing.lift_eq_ok] at h
    obtain ⟨size, _, ⟨hresolve, rfl⟩, h⟩ := h
    obtain ⟨rfl, hpos, hle⟩ := resolveChunkSize_eq_ok_iff.1 hresolve
    exact valid_of_establishForMany h hpos hle
  | _ =>
    simp only [establish, Sealing.bind_eq_ok, Sealing.lift_eq_ok] at h
    obtain ⟨_, _, -, size, _, ⟨hresolve, rfl⟩, h⟩ := h
    obtain ⟨rfl, hpos, hle⟩ := resolveChunkSize_eq_ok_iff.1 hresolve
    exact valid_of_establishForOne h hpos hle

theorem eq_singleton_of_soleRecipient {r : Recipient}
    (h : Envelope.soleRecipient recipients = .ok r) : recipients = [r] := by
  unfold Envelope.soleRecipient at h
  split at h
  · cases h
  · cases h
    rfl
  · cases h

/-- In whatever is established each recipient finds the key. -/
theorem opensFor_of_establish {established : Established}
    (h : (establish config mode recipients requested).run tape = some (.ok established, rest)) :
    established.OpensFor config recipients mode := by
  refine ⟨valid_of_establish h, ?_⟩
  intro r hr key hkey id hid
  cases mode with
  | multiple =>
    simp only [establish, Sealing.bind_eq_ok] at h
    obtain ⟨_, _, -, h⟩ := h
    obtain rfl := hid
    exact recoverKey_of_establishForMany h hr hkey
  | _ =>
    simp only [establish, Sealing.bind_eq_ok, Sealing.lift_eq_ok] at h
    obtain ⟨sole, _, ⟨hsole, -⟩, _, _, -, h⟩ := h
    obtain rfl := eq_singleton_of_soleRecipient hsole
    obtain rfl := List.mem_singleton.1 hr
    exact recoverKey_of_establishForOne h hkey id

/-! ## Arguments that are taken -/

section Taken

variable {ephemeral : PrivateKey}

/-- With arguments that encryption takes a stream is established, if the tape has what is drawn. -/
theorem Accepts.exists_establish (h : Accepts config mode recipients requested)
    (hdraw : Draw.privateKey tape = some (ephemeral, rest))
    (hrest : drawn recipients.length mode ≤ rest.length) :
    ∃ established tape',
      (establish config mode recipients requested).run tape = some (.ok established, tape') := by
  cases mode with
  | multiple =>
    simp only [establish, Sealing.lift_bind_of_ok h.resolve_eq]
    obtain ⟨established, _, _, tape', hrun, -⟩ :=
      exists_established_for_many _ h.addressable h.readable hdraw hrest
    exact ⟨established, tape', hrun⟩
  | _ =>
    obtain ⟨r, rfl⟩ := List.length_eq_one_iff.1 h.addressable
    obtain ⟨peer, hpeer⟩ := h.readable r (List.mem_singleton_self r)
    have hsole : Envelope.soleRecipient [r] = .ok r := rfl
    simp only [establish, Sealing.lift_bind_of_ok hsole, Sealing.lift_bind_of_ok h.resolve_eq]
    obtain ⟨established, _, tape', hrun, -⟩ := exists_established_for_one config _ hpeer hdraw hrest
    exact ⟨established, tape', hrun⟩

/-- So encryption ends well if nobody cancels, the source ends and the chunk numbers suffice. -/
theorem Accepts.exists_encrypt {source : Source} {options : Options}
    (h : Accepts config mode recipients options.chunkSize)
    (hcancelled : ∀ c, options.cancelled c = false) (hending : source.ending = .finished)
    (hlength : source.bytes.length ≤ 2 ^ 32 * options.chunkSize.getD config.chunkSize)
    (hdraw : Draw.privateKey tape = some (ephemeral, rest))
    (hrest : drawn recipients.length mode ≤ rest.length) :
    ∃ report summary tape',
      encrypt config mode recipients source .unlimited options tape = some (report, tape')
        ∧ report.outcome = .ok summary := by
  obtain ⟨established, tape', hestablish⟩ := h.exists_establish hdraw hrest
  have hvalid := valid_of_establish hestablish
  have hcount : (established.chunks source.bytes).length ≤ lastIndex + 1 := by
    rw [established.length_chunks]
    refine length_cut_le hvalid.pos (by decide) ?_
    rw [(chunkSize_of_establish hestablish).2]
    exact hlength
  obtain ⟨report, summary, hrun, hok⟩ :=
    Stream.exists_encrypt hestablish hvalid hcancelled hending hcount
  exact ⟨report, summary, tape', hrun, hok⟩

end Taken

/-! ## Arguments that are refused -/

/-- Recipients with a fault are refused for that. -/
theorem failsWith_establishForMany {e : Error} (size : Nat) (h : config.Fault recipients e) :
    Sealing.FailsWith (establishForMany config size recipients) e := by
  refine Sealing.failsWith_draw_bind fun ephemeral => ?_
  rcases Config.fault_iff.1 h with hcheck | ⟨hcheck, hkey⟩
  · exact Sealing.failsWith_lift_bind hcheck _
  · refine Sealing.failsWith_lift_bind_of_ok hcheck ?_
    exact Sealing.failsWith_draw_bind fun key =>
      (KeyWrap.failsWith_wrapAll ephemeral key hkey).bind _

/-- With arguments that encryption does not take, establishing a stream fails with one error. -/
theorem exists_failsWith_establish (h : ¬Accepts config mode recipients requested) :
    ∃ e, Sealing.FailsWith (establish config mode recipients requested) e := by
  cases mode with
  | multiple =>
    cases hresolve : resolveChunkSize config requested with
    | error e => exact ⟨e, Sealing.failsWith_lift_bind hresolve _⟩
    | ok size =>
      obtain ⟨rfl, hpos, hle⟩ := resolveChunkSize_eq_ok_iff.1 hresolve
      obtain ⟨e, he⟩ := Config.exists_fault_iff.2 fun hboth => h ⟨hboth.1, hboth.2, hpos, hle⟩
      exact ⟨e, Sealing.failsWith_lift_bind_of_ok hresolve (failsWith_establishForMany _ he)⟩
  | _ =>
    cases hsole : Envelope.soleRecipient recipients with
    | error e => exact ⟨e, Sealing.failsWith_lift_bind hsole _⟩
    | ok r =>
      obtain rfl := eq_singleton_of_soleRecipient hsole
      cases hresolve : resolveChunkSize config requested with
      | error e =>
        exact ⟨e, Sealing.failsWith_lift_bind_of_ok hsole (Sealing.failsWith_lift_bind hresolve _)⟩
      | ok size =>
        obtain ⟨rfl, hpos, hle⟩ := resolveChunkSize_eq_ok_iff.1 hresolve
        cases hkey : parsePublicKey r.publicKey with
        | ok peer =>
          have hreadable : Readable [r] := List.forall_mem_singleton.2 ⟨peer, hkey⟩
          exact absurd ⟨rfl, hreadable, hpos, hle⟩ h
        | error e =>
          refine ⟨e, Sealing.failsWith_lift_bind_of_ok hsole ?_⟩
          refine Sealing.failsWith_lift_bind_of_ok hresolve ?_
          exact Sealing.failsWith_draw_bind fun ephemeral => Sealing.failsWith_lift_bind hkey _

/-- Where the tape has what is drawn, establishing a stream ends one way or the other. -/
theorem exists_establish_result (config : Config) (mode : Mode) (recipients : List Recipient)
    (requested : Option Nat) {ephemeral : PrivateKey}
    (hdraw : Draw.privateKey tape = some (ephemeral, rest))
    (hrest : drawn recipients.length mode ≤ rest.length) :
    ∃ result tape', (establish config mode recipients requested).run tape
      = some (result, tape') := by
  cases mode with
  | multiple =>
    refine Sealing.exists_lift_bind fun size _ => ?_
    refine Sealing.exists_draw_bind (n := 0 + (32 + (recipients.length * 16 + (16 + 0)))) hdraw ?_
      (by rw [drawn] at hrest; omega)
    refine (Sealing.within_lift _).bind fun _ => ?_
    refine (Sealing.within_draw (Draw.takes_octets 32)).bind fun key => ?_
    refine (KeyWrap.within_wrapAll config ephemeral key recipients).bind fun entries => ?_
    exact (Sealing.within_draw (Draw.takes_octets 16)).bind fun baseIv => Sealing.within_pure _
  | _ =>
    refine Sealing.exists_lift_bind fun r _ => ?_
    refine Sealing.exists_lift_bind fun size _ => ?_
    refine Sealing.exists_draw_bind (n := 0 + (16 + 0)) hdraw ?_ hrest
    refine (Sealing.within_lift _).bind fun peer => ?_
    exact (Sealing.within_draw (Draw.takes_octets 16)).bind fun baseIv => Sealing.within_pure _

section Failed

variable {options : Options} {source : Source} {sink : Sink} {e : Error}

/-- A stream that cannot be established leaves the sink untouched. -/
theorem eq_failed_of_encrypt {report : Report}
    (h : Sealing.FailsWith (establish config mode recipients options.chunkSize) e)
    (hrun : encrypt config mode recipients source sink options tape = some (report, rest)) :
    report = .failed e := by
  rw [encrypt, Draw.bind_eq_some] at hrun
  obtain ⟨result, t, hrun, hreport⟩ := hrun
  obtain rfl := h.bind _ tape result t hrun
  exact (Draw.pure_eq_some.1 hreport).1.symm

/-- And this is how it ends where the tape has what is drawn. -/
theorem exists_encrypt_failed {ephemeral : PrivateKey}
    (h : Sealing.FailsWith (establish config mode recipients options.chunkSize) e)
    (hdraw : Draw.privateKey tape = some (ephemeral, rest))
    (hrest : drawn recipients.length mode ≤ rest.length) (source : Source) (sink : Sink) :
    ∃ tape', encrypt config mode recipients source sink options tape
      = some (.failed e, tape') := by
  obtain ⟨result, tape', hrun⟩ :=
    exists_establish_result config mode recipients options.chunkSize hdraw hrest
  obtain rfl := h tape result tape' hrun
  refine ⟨tape', ?_⟩
  rw [encrypt, Draw.bind_eq_some]
  exact ⟨.error e, tape', Sealing.bind_of_error hrun, rfl⟩

end Failed

/-- Arguments that are refused are refused with one error, wherever there is a result, and there is
    one if the tape has what is drawn. Nothing is written. -/
theorem failed_of_not_accepts {options : Options}
    (h : ¬Accepts config mode recipients options.chunkSize) (source : Source) (sink : Sink) :
    ∃ e, (∀ tape report rest,
        encrypt config mode recipients source sink options tape = some (report, rest) →
        report = .failed e)
      ∧ ∀ tape ephemeral rest, Draw.privateKey tape = some (ephemeral, rest) →
        drawn recipients.length mode ≤ rest.length →
        ∃ tape', encrypt config mode recipients source sink options tape
          = some (.failed e, tape') := by
  obtain ⟨e, he⟩ := exists_failsWith_establish h
  exact ⟨e, fun _ _ _ => eq_failed_of_encrypt he,
    fun _ _ _ hdraw hrest => exists_encrypt_failed he hdraw hrest source sink⟩

end SealedEnvelope.Stream
