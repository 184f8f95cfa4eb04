import SealedEnvelope.Proofs.Envelope
import SealedEnvelope.Proofs.Stream.Arguments

set_option autoImplicit false

/-! # What has been encrypted is decrypted

Round trips told from the end of an encryption: if it has ended well, then every recipient decrypts
what it gave, in every mode. Nothing is asked of the tape or of the other recipients, since an
encryption that ends well has checked and drawn all it needs. -/

namespace SealedEnvelope

variable {config : Config} {mode : Mode} {recipients : List Recipient} {tape rest : Tape}
  {r : Recipient} {key : PrivateKey} {id : Option Bytes}

/-- The sole recipient of an envelope decrypts it. -/
theorem Envelope.decrypt_of_encryptForSole {body : HeaderBody} {plaintext envelope : Bytes}
    (hfits : FitsOne plaintext.length body)
    (hrun : (do encryptForOne config body (← soleRecipient recipients).publicKey plaintext
      : Sealing Bytes).run tape = some (.ok envelope, rest))
    (hr : r ∈ recipients) (hkey : key.publicKey.Form r.publicKey) (id : Option Bytes) :
    decrypt config key.octets.bytes id envelope = .ok plaintext := by
  simp only [Sealing.bind_eq_ok, Sealing.lift_eq_ok] at hrun
  obtain ⟨sole, _, ⟨hsole, -⟩, hrun⟩ := hrun
  obtain rfl := Stream.eq_singleton_of_soleRecipient hsole
  obtain rfl := List.mem_singleton.1 hr
  exact (open_of_encryptForOne hfits hkey hrun).2 id

/-- Every recipient of an envelope decrypts it. -/
theorem Envelope.decrypt_of_encrypt {plaintext envelope : Bytes}
    (hrun : (encrypt config mode recipients plaintext).run tape = some (.ok envelope, rest))
    (hr : r ∈ recipients) (hkey : key.publicKey.Form r.publicKey)
    (hid : Stream.Identifies r id mode) :
    decrypt config key.octets.bytes id envelope = .ok plaintext := by
  cases mode with
  | simple =>
    have hfits : FitsOne plaintext.length .simple := trivial
    exact decrypt_of_encryptForSole hfits hrun hr hkey id
  | single =>
    have hfits : FitsOne plaintext.length (.single (UInt64.ofNat plaintext.length)) := rfl
    exact decrypt_of_encryptForSole hfits hrun hr hkey id
  | multiple =>
    obtain rfl := hid
    exact (open_of_encryptMultiple hrun hr hkey).2

/-- Every recipient of a stream decrypts it, to the same summary. -/
theorem Stream.decrypt_of_encrypt {source input : Source} {sink : Sink}
    {options options' : Options} {report : Report} {summary : Summary}
    (hrun : encrypt config mode recipients source sink options tape = some (report, rest))
    (hok : report.outcome = .ok summary) (hr : r ∈ recipients)
    (hkey : key.publicKey.Form r.publicKey) (hid : Identifies r id mode)
    (hbytes : input.bytes = report.written) (hending : input.ending = .finished)
    (hcancelled : ∀ c, options'.cancelled c = false) :
    (decrypt config key.octets.bytes id input .unlimited options').written = source.bytes
      ∧ (decrypt config key.octets.bytes id input .unlimited options').outcome = .ok summary := by
  rcases encrypt_cases hrun with ⟨e, rfl⟩ | ⟨established, hestablish, hunder⟩
  · cases hok
  · have hopens := opensFor_of_establish hestablish
    obtain ⟨hcount, hwritten, rfl⟩ := written_of_encryptUnder hopens.valid.pos hunder hok
    rw [decrypt, PrivateKey.ofBytes_octets]
    rw [hwritten] at hbytes
    exact decryptFor_chunks hopens.valid (hopens.recoverKey r hr key hkey id hid) hcount hbytes
      hending hcancelled

end SealedEnvelope
