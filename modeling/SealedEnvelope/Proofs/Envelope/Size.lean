import SealedEnvelope.Proofs.Admission

set_option autoImplicit false

/-! # The predicted size is the real one

The size of an envelope can be asked for before anything is encrypted. It is worked out from the
sizes that the configuration declares, while the envelope is what three serialisers write one behind
the other; both come to `frontSize` and the length of the plaintext (`Sealed.encodedLength_eq`,
`encryptedLength_eq`). Numbers of recipients are refused on both sides alike
(`encryptMultiple_eq_countError_iff`), and only a sum that is no machine number is too long
(`encryptedLength_exact`). -/

namespace SealedEnvelope.Envelope

variable {config : Config} {mode : Mode} {recipients : List Recipient} {plaintext envelope : Bytes}
  {header : Header} {tape rest : Tape} {count length : Nat} {e : Error}

/-! ## Sizes -/

/-- Octets of an envelope in front of its ciphertext. -/
def frontSize (config : Config) (count : Nat) : Mode → Nat
  | .simple => 66
  | .single => 74
  | .multiple => 68 + count * (config.idSize + 129)

/-- The numbers of recipients that a mode takes. Where there is one recipient, the number that is
    given does not matter. -/
def Countable (config : Config) (count : Nat) : Mode → Prop
  | .simple | .single => True
  | .multiple => 1 ≤ count ∧ count ≤ config.maxRecipients

theorem overhead_eq_ok_iff {n : Nat} :
    overhead config mode count = .ok n
      ↔ Countable config count mode ∧ n = frontSize config count mode := by
  cases mode with
  | multiple =>
    simp only [overhead, check_bind_eq_ok, pure_eq_ok, Config.checkCount_eq_ok_iff,
      config.overhead_eq, Countable, frontSize, RecipientTable.entrySize, WrappedKey.size]
    rw [eq_comm (a := n)]
  | _ => simp [overhead, config.overhead_eq, Countable, frontSize, eq_comm]

/-- Whatever is in front of a ciphertext fits a machine number with room to spare. -/
theorem frontSize_le (h : Countable config count mode) :
    frontSize config count mode ≤ 2 ^ 25 := by
  have hid := config.idSize_bounds.2
  have hmax := config.maxRecipients_le
  cases mode with
  | multiple =>
    have htable : count * (config.idSize + 129) ≤ 65535 * (255 + 129) :=
      Nat.mul_le_mul (h.2.trans hmax) (by omega)
    rw [frontSize]
    omega
  | _ => simp [frontSize]

/-- A sum that is no machine number is too long, and every other is the size. -/
theorem encryptedLength_eq (h : Countable config count mode) (length : Nat) :
    encryptedLength config mode length count
      = if frontSize config count mode + length ≤ lengthLimit
        then .ok (frontSize config count mode + length)
        else .error (.lengthTooLong length (lengthLimit - frontSize config count mode)) := by
  have hfront : overhead config mode count = .ok (frontSize config count mode) :=
    overhead_eq_ok_iff.2 ⟨h, rfl⟩
  simp only [encryptedLength, hfront, bind, Except.bind]
  split_ifs with hlong hfits
  · omega
  · rfl
  · rfl
  · omega

/-! ## Real sizes -/

theorem encodedLength_eq_frontSize (header : Header) :
    header.encodedLength config = frontSize config header.recipients.length header.mode := by
  rcases header with ⟨ephemeral, iv, tag, body⟩
  cases body <;>
    simp [Header.encodedLength, Header.mode, Header.recipients, HeaderBody.mode,
      config.overhead_eq, frontSize, RecipientTable.entrySize, WrappedKey.size]

/-- An envelope of a mode for a number of recipients and a plaintext of a length, taken apart. -/
structure Sealed (config : Config) (mode : Mode) (count length : Nat) (envelope : Bytes)
    (header : Header) (ciphertext : Bytes) : Prop where
  valid : header.Valid config
  mode_eq : header.mode = mode
  count_eq : mode = .multiple → header.recipients.length = count
  length_eq : ciphertext.length = length
  envelope_eq : envelope = header.octets ++ ciphertext

theorem exists_sealed_of_close {key : Octets 32}
    (h : close config key header plaintext = .ok envelope) :
    ∃ header' ciphertext,
      Sealed config header.mode header.recipients.length plaintext.length envelope header'
        ciphertext := by
  simp only [close, bind_eq_ok, pure_eq_ok, Header.aad_eq_ok_iff, Header.encode_eq_ok_iff] at h
  obtain ⟨_, ⟨hvalid, rfl⟩, _, ⟨-, rfl⟩, rfl⟩ := h
  let sealing := Gcm.encrypt key header.iv header.covered plaintext
  exact ⟨{ header with tag := sealing.2 }, sealing.1, hvalid, rfl, fun _ => rfl,
    Gcm.length_encrypt .., rfl⟩

theorem exists_sealed_of_encryptForOne {body : HeaderBody} {publicKey : Bytes}
    (h : (encryptForOne config body publicKey plaintext).run tape = some (.ok envelope, rest)) :
    ∃ header ciphertext count,
      Sealed config body.mode count plaintext.length envelope header ciphertext := by
  simp only [encryptForOne, Sealing.bind_eq_ok, Sealing.lift_eq_ok] at h
  obtain ⟨_, _, -, _, _, -, _, _, -, hclose, -⟩ := h
  obtain ⟨header, ciphertext, hsealed⟩ := exists_sealed_of_close hclose
  exact ⟨header, ciphertext, _, hsealed⟩

/-- What is encrypted for several recipients lists every one of them. -/
theorem exists_sealed_of_encryptMultiple
    (h : (encryptMultiple config recipients plaintext).run tape = some (.ok envelope, rest)) :
    ∃ header ciphertext,
      Sealed config .multiple recipients.length plaintext.length envelope header ciphertext := by
  simp only [encryptMultiple, Sealing.bind_eq_ok, Sealing.lift_eq_ok, Sealing.draw_eq_ok] at h
  obtain ⟨_, _, -, _, _, -, _, _, -, entries, _, hentries, _, _, -, hclose, -⟩ := h
  have hcount : recipients.length = entries.length :=
    (KeyWrap.wrappedFor_of_wrapAll hentries).length_eq
  obtain ⟨header, ciphertext, hsealed⟩ := exists_sealed_of_close hclose
  rw [hcount]
  exact ⟨header, ciphertext, hsealed⟩

/-- Whatever is encrypted is a header of the mode with the ciphertext behind it. -/
theorem exists_sealed_of_encrypt
    (h : (encrypt config mode recipients plaintext).run tape = some (.ok envelope, rest)) :
    ∃ header ciphertext,
      Sealed config mode recipients.length plaintext.length envelope header ciphertext := by
  have hone (body : HeaderBody) (hmode : body.mode ≠ .multiple)
      (h : ∃ r t, soleRecipient recipients = .ok r
        ∧ (encryptForOne config body r.publicKey plaintext).run t = some (.ok envelope, rest)) :
      ∃ header ciphertext,
        Sealed config body.mode recipients.length plaintext.length envelope header ciphertext := by
    obtain ⟨r, t, -, hrun⟩ := h
    obtain ⟨header, ciphertext, count, hsealed⟩ := exists_sealed_of_encryptForOne hrun
    exact ⟨header, ciphertext, { hsealed with count_eq := fun hmode' => absurd hmode' hmode }⟩
  cases mode with
  | multiple => exact exists_sealed_of_encryptMultiple h
  | simple =>
    simp only [encrypt, Sealing.bind_eq_ok, Sealing.lift_eq_ok] at h
    obtain ⟨r, t, ⟨hsole, -⟩, hrun⟩ := h
    exact hone .simple (by decide) ⟨r, t, hsole, hrun⟩
  | single =>
    simp only [encrypt, Sealing.bind_eq_ok, Sealing.lift_eq_ok] at h
    obtain ⟨r, t, ⟨hsole, -⟩, hrun⟩ := h
    exact hone (.single _) (by simp [HeaderBody.mode]) ⟨r, t, hsole, hrun⟩

namespace Sealed

variable {ciphertext : Bytes}

/-- The header of an envelope is read back, with the size it declares. -/
theorem decode_eq (h : Sealed config mode count length envelope header ciphertext) :
    Header.decode config envelope = .ok (header, header.encodedLength config) := by
  rw [h.envelope_eq]
  exact Header.decode_eq_ok_iff.2 ⟨h.valid, h.valid.length_octets.symm, List.prefix_append _ _⟩

theorem length_envelope (h : Sealed config mode count length envelope header ciphertext) :
    envelope.length = header.encodedLength config + length := by
  rw [h.envelope_eq, List.length_append, h.valid.length_octets, h.length_eq]

theorem countable (h : Sealed config mode count length envelope header ciphertext) :
    Countable config count mode := by
  cases mode with
  | multiple =>
    have hvalid := h.valid
    have hmode := h.mode_eq
    have hcount := h.count_eq rfl
    rcases header with ⟨ephemeral, iv, tag, body⟩
    cases body with
    | multiple entries =>
      rw [← hcount]
      exact ⟨RecipientTable.Valid.pos hvalid, RecipientTable.Valid.le_max hvalid⟩
    | _ => cases hmode
  | _ => trivial

theorem encodedLength_eq (h : Sealed config mode count length envelope header ciphertext) :
    header.encodedLength config = frontSize config count mode := by
  rw [encodedLength_eq_frontSize, h.mode_eq]
  cases mode with
  | multiple => rw [h.count_eq rfl]
  | _ => rfl

end Sealed

/-! ## Refused numbers of recipients -/

/-- The errors that a number of recipients is refused with. -/
def CountError : Error → Prop
  | .noRecipients | .tooManyRecipients _ _ => True
  | _ => False

/-- A fault that is such an error is one that the number is refused for. -/
theorem checkCount_eq_error_of_fault (he : CountError e) (h : config.Fault recipients e) :
    config.checkCount recipients.length = .error e := by
  rw [Config.checkCount_eq_error_iff]
  cases h with
  | none h => exact Or.inl ⟨List.length_eq_zero_iff.2 h, rfl⟩
  | tooMany h => exact Or.inr ⟨h, rfl⟩
  | _ => exact he.elim

/-- Encryption for several recipients refuses their number exactly where its check does, whatever is
    on the tape. -/
theorem encryptMultiple_eq_countError_iff (he : CountError e) :
    (∃ rest, (encryptMultiple config recipients plaintext).run tape = some (.error e, rest))
      ↔ config.checkCount recipients.length = .error e := by
  constructor
  · intro h
    obtain ⟨rest, hrun⟩ := h
    exact checkCount_eq_error_of_fault he (fault_of_encryptMultiple hrun)
  · intro h
    have hcheck : config.checkRecipients recipients = .error e := bind_eq_error.2 (Or.inl h)
    exact ⟨tape, Sealing.bind_of_error (Sealing.lift_eq_error.2 ⟨hcheck, rfl⟩)⟩

/-- So does the prediction. -/
theorem encryptedLength_eq_countError_iff (he : CountError e) :
    encryptedLength config .multiple length count = .error e
      ↔ config.checkCount count = .error e := by
  cases hcheck : config.checkCount count with
  | error e' => simp [encryptedLength, overhead, hcheck, bind, Except.bind]
  | ok _ =>
    have hcount : Countable config count .multiple := Config.checkCount_eq_ok_iff.1 hcheck
    rw [encryptedLength_eq hcount]
    split_ifs with hfits
    · simp
    · simp only [Except.error.injEq, iff_false]
      rintro rfl
      exact he

/-! ## Machine numbers -/

/-- Octets in front of a ciphertext as machine numbers, from the declared sizes: those of a line,
    of all lines, and of everything. -/
theorem toNat_frontSize {count : UInt64} (h : count.toNat ≤ config.maxRecipients) :
    let width := config.settings.multiple.idSize + 129
    width.toNat = config.idSize + 129
      ∧ (count * width).toNat = count.toNat * (config.idSize + 129)
      ∧ (config.settings.multiple.overhead + count * width).toNat
        = frontSize config count.toNat .multiple := by
  intro width
  have hid := config.idSize_bounds.2
  have hmax := config.maxRecipients_le
  have htable : count.toNat * (config.idSize + 129) ≤ 65535 * (255 + 129) :=
    Nat.mul_le_mul (h.trans hmax) (by omega)
  have hwidth : width.toNat = config.idSize + 129 := by
    rw [UInt64.toNat_add]
    exact Nat.mod_eq_of_lt (lt_of_le_of_lt (Nat.add_le_add_right hid _) (by decide))
  have hlines : (count * width).toNat = count.toNat * (config.idSize + 129) := by
    rw [UInt64.toNat_mul, hwidth]
    omega
  have hoverhead : config.settings.multiple.overhead.toNat = 68 := config.overhead_eq .multiple
  refine ⟨hwidth, hlines, ?_⟩
  rw [UInt64.toNat_add, hoverhead, hlines, frontSize]
  omega

/-- **The predicted size is the real one.** Whatever encryption in a mode gives, its length is what
    the header that is read back declares with the plaintext's length added, and what is predicted
    for the mode, the plaintext's length and the number of recipients; a string in memory is never
    longer than a machine number can say, which is all that this takes. Numbers of recipients are
    refused with the same errors on both sides. For every other number the prediction fails exactly
    if the true sum exceeds the greatest machine number, and on the way to it nothing does. -/
theorem encryptedLength_exact (config : Config) :
    (∀ (mode : Mode) (recipients : List Recipient) (plaintext envelope : Bytes) (tape rest : Tape),
        (encrypt config mode recipients plaintext).run tape = some (.ok envelope, rest) →
        (envelope.length ≤ lengthLimit →
            encryptedLength config mode plaintext.length recipients.length = .ok envelope.length)
          ∧ ∃ header n, Header.decode config envelope = .ok (header, n) ∧ header.mode = mode
            ∧ envelope.length = header.encodedLength config + plaintext.length)
      ∧ (∀ (recipients : List Recipient) (plaintext : Bytes) (tape : Tape) (length : Nat)
          (e : Error), CountError e →
        ((∃ rest, (encryptMultiple config recipients plaintext).run tape = some (.error e, rest))
          ↔ encryptedLength config .multiple length recipients.length = .error e))
      ∧ (∀ (mode : Mode) (count length : Nat),
        (mode = .multiple → 1 ≤ count ∧ count ≤ config.maxRecipients) →
        frontSize config count mode ≤ lengthLimit
          ∧ encryptedLength config mode length count
            = if frontSize config count mode + length ≤ lengthLimit
              then .ok (frontSize config count mode + length)
              else .error (.lengthTooLong length (lengthLimit - frontSize config count mode)))
      ∧ ∀ count : UInt64, count.toNat ≤ config.maxRecipients →
        let width := config.settings.multiple.idSize + 129
        width.toNat = config.idSize + 129
          ∧ (count * width).toNat = count.toNat * (config.idSize + 129)
          ∧ (config.settings.multiple.overhead + count * width).toNat
            = frontSize config count.toNat .multiple := by
  refine ⟨?_, ?_, ?_, fun count => toNat_frontSize⟩
  · intro mode recipients plaintext envelope tape rest h
    obtain ⟨header, ciphertext, hsealed⟩ := exists_sealed_of_encrypt h
    have hlength := hsealed.length_envelope
    refine ⟨fun hfits => ?_, header, _, hsealed.decode_eq, hsealed.mode_eq, hlength⟩
    rw [hsealed.encodedLength_eq] at hlength
    rw [encryptedLength_eq hsealed.countable, ← hlength, if_pos hfits]
  · intro recipients plaintext tape length e he
    rw [encryptMultiple_eq_countError_iff he, encryptedLength_eq_countError_iff he]
  · intro mode count length hcount
    have hcountable : Countable config count mode := by
      cases mode with
      | multiple => exact hcount rfl
      | _ => trivial
    exact ⟨(frontSize_le hcountable).trans (by decide), encryptedLength_eq hcountable length⟩

/-- An envelope for two, a message for nobody, and one for two that would be too long. -/
theorem encryptedLength_exact_three_cases :
    let key : PrivateKey := ⟨2, by decide, by decide⟩
    let recipients : List Recipient :=
      [⟨List.replicate 12 1, key.publicKey.compressed.bytes⟩,
       ⟨List.replicate 12 2, key.publicKey.uncompressed.bytes⟩]
    let tape : Tape := List.replicate 31 0 ++ 1 :: List.replicate 80 0
    (∃ envelope tape',
      (encrypt .standard .multiple recipients [1, 2, 3]).run tape = some (.ok envelope, tape')
        ∧ envelope.length ≤ lengthLimit
        ∧ encryptedLength .standard .multiple 3 2 = .ok envelope.length
        ∧ ∃ header n, Header.decode .standard envelope = .ok (header, n)
          ∧ header.mode = .multiple ∧ envelope.length = header.encodedLength .standard + 3)
      ∧ (∃ rest,
        (encryptMultiple .standard [] [1, 2, 3]).run tape = some (.error .noRecipients, rest))
      ∧ encryptedLength .standard .multiple lengthLimit 2
        = .error (.lengthTooLong lengthLimit (lengthLimit - 350))
      ∧ (2 * (Config.standard.settings.multiple.idSize + 129)).toNat = 282 := by
  intro key recipients tape
  have hdraw : Draw.privateKey tape = some (⟨1, by decide, by decide⟩, List.replicate 80 0) := by
    decide +kernel
  have hforms : ∀ r ∈ recipients, key.publicKey.Form r.publicKey := by
    simp only [recipients, List.forall_mem_cons]
    exact ⟨.compressed, .uncompressed, by simp⟩
  have hadmits : Config.Admits .standard recipients :=
    { pos := by decide, le_max := by decide, idSize := by decide, nodup := by decide }
  obtain ⟨envelope, tape', hrun, -⟩ :=
    exists_encryptMultiple hadmits (fun r hr => ⟨key, hforms r hr⟩) hdraw (by decide)
  have hencrypt : (encrypt .standard .multiple recipients [1, 2, 3]).run tape
      = some (.ok envelope, tape') := hrun
  obtain ⟨header, ciphertext, hsealed⟩ := exists_sealed_of_encrypt hencrypt
  have hlength : envelope.length ≤ lengthLimit := by
    rw [hsealed.length_envelope, hsealed.encodedLength_eq]
    decide
  have hfront : frontSize .standard 2 .multiple = 350 := by decide
  obtain ⟨hsize, hcounts, hsums, hwords⟩ := encryptedLength_exact .standard
  obtain ⟨hpredicted, hread⟩ := hsize _ _ _ _ _ _ hencrypt
  replace hpredicted := hpredicted hlength
  rw [show ([1, 2, 3] : Bytes).length = 3 from rfl, show recipients.length = 2 from rfl]
    at hpredicted
  refine ⟨⟨envelope, tape', hencrypt, hlength, hpredicted, hread⟩, ?_, ?_, ?_⟩
  · exact (hcounts [] [1, 2, 3] tape 3 .noRecipients trivial).2 rfl
  · have hlong := (hsums .multiple 2 lengthLimit (fun _ => by decide)).2
    rwa [hfront, if_neg (by omega)] at hlong
  · exact (hwords 2 (by decide)).2.1

end SealedEnvelope.Envelope
