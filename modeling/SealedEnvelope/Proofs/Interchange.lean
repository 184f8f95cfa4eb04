import SealedEnvelope.Proofs.Envelope
import SealedEnvelope.Proofs.Key
import SealedEnvelope.Signature
import SealedEnvelope.Stream
import Mathlib.Data.List.Forall2

set_option autoImplicit false

/-! # The form of a public key does not matter

All forms of a point are read as that point (`parsePublicKey_of_form`), and whoever takes a public
key goes on with what is read of it. So nothing that is done with a key shows the form it was given
in. Lists of recipients are compared one by one (`Recipient.Alike`), each with forms of its own. -/

namespace SealedEnvelope

open Curve (Point generator)

variable {config : Config} {recipients recipients' : List Recipient} {a b : Bytes}

/-! ## One key -/

theorem parsePublicKey_of_form {P : Point} (hP : P.OnCurve) (h : P.Form a) :
    parsePublicKey a = .ok P :=
  parsePublicKey_eq_ok_iff.2 ⟨hP, h⟩

theorem normalizePublicKey_of_form {P : Point} (hP : P.OnCurve) (h : P.Form a) :
    normalizePublicKey a = .ok P.compressed := by
  rw [normalizePublicKey, parsePublicKey_of_form hP h]
  rfl

theorem decompressPublicKey_of_form {P : Point} (hP : P.OnCurve) (h : P.Form a) :
    decompressPublicKey a = .ok P.uncompressed := by
  rw [decompressPublicKey, parsePublicKey_of_form hP h]
  rfl

theorem deriveSharedSecret_congr (h : parsePublicKey a = parsePublicKey b) (privateKey : Bytes) :
    deriveSharedSecret privateKey a = deriveSharedSecret privateKey b := by
  rw [deriveSharedSecret, deriveSharedSecret, h]

theorem Signature.verify_congr (h : parsePublicKey a = parsePublicKey b)
    (message signature : Bytes) : verify a message signature = verify b message signature := by
  rw [verify, verify, h]

theorem Envelope.encryptForOne_congr (h : parsePublicKey a = parsePublicKey b)
    (body : HeaderBody) (plaintext : Bytes) :
    encryptForOne config body a plaintext = encryptForOne config body b plaintext := by
  rw [encryptForOne, encryptForOne, h]

theorem Stream.establishForOne_congr (h : parsePublicKey a = parsePublicKey b) (chunkSize : Nat) :
    establishForOne config chunkSize a = establishForOne config chunkSize b := by
  rw [establishForOne, establishForOne, h]

/-! ## Lists of recipients -/

/-- The same recipient, with one public key in forms that may differ. -/
structure Recipient.Alike (r r' : Recipient) : Prop where
  id_eq : r.id = r'.id
  key : ∃ P : Point, P.OnCurve ∧ P.Form r.publicKey ∧ P.Form r'.publicKey

theorem Recipient.Alike.parse_eq {r r' : Recipient} (h : r.Alike r') :
    parsePublicKey r.publicKey = parsePublicKey r'.publicKey := by
  obtain ⟨P, hP, hform, hform'⟩ := h.key
  rw [parsePublicKey_of_form hP hform, parsePublicKey_of_form hP hform']

theorem map_id_eq_of_alike (h : List.Forall₂ Recipient.Alike recipients recipients') :
    recipients.map (·.id) = recipients'.map (·.id) := by
  induction h with
  | nil => rfl
  | cons hr _ ih => rw [List.map_cons, List.map_cons, hr.id_eq, ih]

theorem Config.checkRecipients_congr
    (h : List.Forall₂ Recipient.Alike recipients recipients') :
    config.checkRecipients recipients = config.checkRecipients recipients' := by
  rw [checkRecipients, checkRecipients, h.length_eq, map_id_eq_of_alike h]

theorem KeyWrap.wrapFor_congr {r r' : Recipient} (h : r.Alike r') (ephemeral : PrivateKey)
    (messageKey : Octets 32) :
    wrapFor config ephemeral messageKey r = wrapFor config ephemeral messageKey r' := by
  rw [wrapFor, wrapFor, h.parse_eq, h.id_eq]

theorem KeyWrap.wrapAll_congr (h : List.Forall₂ Recipient.Alike recipients recipients')
    (ephemeral : PrivateKey) (messageKey : Octets 32) :
    wrapAll config ephemeral messageKey recipients
      = wrapAll config ephemeral messageKey recipients' := by
  induction h with
  | nil => rfl
  | cons hr _ ih => rw [wrapAll, wrapAll, wrapFor_congr hr, ih]

/-- Where one recipient is asked for, its form matters no more than that of its key. -/
theorem Envelope.soleRecipient_bind_congr {α : Type}
    (h : List.Forall₂ Recipient.Alike recipients recipients') {f : Recipient → Sealing α}
    (hf : ∀ r r' : Recipient, r.Alike r' → f r = f r') :
    (liftM (soleRecipient recipients) >>= f : Sealing α)
      = liftM (soleRecipient recipients') >>= f := by
  cases h with
  | nil => rfl
  | cons hr hrest =>
    cases hrest with
    | nil => exact hf _ _ hr
    -- Several are refused for their number, which is the same.
    | cons hr' hrest => simp only [soleRecipient, List.length_cons, hrest.length_eq]

theorem Envelope.encryptMultiple_congr
    (h : List.Forall₂ Recipient.Alike recipients recipients') (plaintext : Bytes) :
    encryptMultiple config recipients plaintext = encryptMultiple config recipients' plaintext := by
  simp only [encryptMultiple, Config.checkRecipients_congr h, KeyWrap.wrapAll_congr h]

theorem Envelope.encrypt_congr (h : List.Forall₂ Recipient.Alike recipients recipients')
    (mode : Mode) (plaintext : Bytes) :
    encrypt config mode recipients plaintext = encrypt config mode recipients' plaintext := by
  cases mode with
  | multiple => exact encryptMultiple_congr h plaintext
  | _ =>
    exact soleRecipient_bind_congr h fun _ _ hr =>
      encryptForOne_congr hr.parse_eq _ plaintext

theorem Stream.establish_congr (h : List.Forall₂ Recipient.Alike recipients recipients')
    (mode : Mode) (requested : Option Nat) :
    establish config mode recipients requested = establish config mode recipients' requested := by
  cases mode with
  | multiple =>
    simp only [establish, establishForMany, Config.checkRecipients_congr h,
      KeyWrap.wrapAll_congr h]
  | _ =>
    refine Envelope.soleRecipient_bind_congr h fun r r' hr => ?_
    simp only [establishForOne_congr hr.parse_eq]

/-! ## All uses of public keys -/

/-- **The forms of a public key are interchangeable.** Whatever form a point comes in, its normal
    form is the compressed and its expanded form the uncompressed one, so either operation undoes
    the other. Agreeing on a secret and verifying a signature give the same result for all forms,
    and so does encrypting to the point, octet by octet if the same tape is drawn from. The same is
    true of any lists of recipients that differ in the forms of their keys only, for envelopes and
    for streams, whatever becomes of these. -/
theorem forms_interchangeable (config : Config) {P : Point} (hP : P.OnCurve) :
    (∀ a, P.Form a →
      normalizePublicKey a = .ok P.compressed ∧ decompressPublicKey a = .ok P.uncompressed)
      ∧ (normalizePublicKey P.uncompressed.bytes = .ok P.compressed
        ∧ decompressPublicKey P.compressed.bytes = .ok P.uncompressed)
      ∧ (∀ a b, P.Form a → P.Form b →
        (∀ privateKey, deriveSharedSecret privateKey a = deriveSharedSecret privateKey b)
          ∧ (∀ message signature,
            Signature.verify a message signature = Signature.verify b message signature)
          ∧ ∀ plaintext tape,
            (Envelope.encryptSimple config a plaintext).run tape
                = (Envelope.encryptSimple config b plaintext).run tape
              ∧ (Envelope.encryptSingle config a plaintext).run tape
                = (Envelope.encryptSingle config b plaintext).run tape)
      ∧ ∀ recipients recipients', List.Forall₂ Recipient.Alike recipients recipients' →
        (∀ plaintext tape,
          (Envelope.encryptMultiple config recipients plaintext).run tape
            = (Envelope.encryptMultiple config recipients' plaintext).run tape)
          ∧ (∀ mode plaintext tape,
            (Envelope.encrypt config mode recipients plaintext).run tape
              = (Envelope.encrypt config mode recipients' plaintext).run tape)
          ∧ ∀ mode source sink options tape,
            Stream.encrypt config mode recipients source sink options tape
              = Stream.encrypt config mode recipients' source sink options tape := by
  refine ⟨fun a ha => ?_, ?_, fun a b ha hb => ?_, fun recipients recipients' h => ?_⟩
  · exact ⟨normalizePublicKey_of_form hP ha, decompressPublicKey_of_form hP ha⟩
  · exact ⟨normalizePublicKey_of_form hP .uncompressed, decompressPublicKey_of_form hP .compressed⟩
  · have hparse : parsePublicKey a = parsePublicKey b := by
      rw [parsePublicKey_of_form hP ha, parsePublicKey_of_form hP hb]
    refine ⟨deriveSharedSecret_congr hparse, Signature.verify_congr hparse,
      fun plaintext tape => ?_⟩
    simp only [Envelope.encryptSimple, Envelope.encryptSingle, Envelope.encryptForOne_congr hparse,
      and_self]
  · refine ⟨fun plaintext tape => ?_, fun mode plaintext tape => ?_,
      fun mode source sink options tape => ?_⟩
    · rw [Envelope.encryptMultiple_congr h]
    · rw [Envelope.encrypt_congr h]
    · rw [Stream.encrypt, Stream.encrypt, Stream.establish_congr h]

/-- Two recipients with the generator as their key, in three forms between them, get one and the
    same envelope. -/
theorem forms_interchangeable_generator :
    let full := generator.uncompressed.bytes
    let first : Bytes := List.replicate 12 1
    let second : Bytes := List.replicate 12 2
    let tape : Tape := List.replicate 31 0 ++ 1 :: List.replicate 80 0
    generator.OnCurve
      ∧ normalizePublicKey full.tail = .ok generator.compressed
      ∧ ∃ envelope tape',
        (Envelope.encryptMultiple .standard
            [⟨first, generator.compressed.bytes⟩, ⟨second, full⟩] [1, 2, 3]).run tape
            = some (.ok envelope, tape')
          ∧ (Envelope.encryptMultiple .standard
            [⟨first, full⟩, ⟨second, full.tail⟩] [1, 2, 3]).run tape
            = some (.ok envelope, tape') := by
  intro full first second tape
  have hP : generator.OnCurve := Curve.onCurve_generator
  obtain ⟨hforms, -, -, hlists⟩ := forms_interchangeable .standard hP
  have hsame := (hlists [⟨first, generator.compressed.bytes⟩, ⟨second, full⟩]
    [⟨first, full⟩, ⟨second, full.tail⟩] (.cons ⟨rfl, _, hP, .compressed, .uncompressed⟩
      (.cons ⟨rfl, _, hP, .uncompressed, .raw⟩ .nil))).1 [1, 2, 3] tape
  let key : PrivateKey := ⟨1, by decide, by decide⟩
  have hkey : key.publicKey = generator := by decide +kernel
  have hadmits : Config.Admits .standard
      [⟨first, generator.compressed.bytes⟩, ⟨second, full⟩] :=
    { pos := by decide, le_max := by decide, idSize := by decide +kernel
      nodup := by decide +kernel }
  have hreadable : ∀ r ∈ [⟨first, generator.compressed.bytes⟩, (⟨second, full⟩ : Recipient)],
      ∃ key : PrivateKey, key.publicKey.Form r.publicKey := by
    simp only [List.forall_mem_cons]
    exact ⟨⟨key, hkey ▸ .compressed⟩, ⟨key, hkey ▸ .uncompressed⟩, by simp⟩
  have hdraw : Draw.privateKey tape = some (key, List.replicate 80 0) := by decide +kernel
  obtain ⟨envelope, tape', hrun, -⟩ :=
    Envelope.exists_encryptMultiple hadmits hreadable hdraw (by decide)
  exact ⟨hP, (hforms _ .raw).1, envelope, tape', hrun, hsame ▸ hrun⟩

end SealedEnvelope
