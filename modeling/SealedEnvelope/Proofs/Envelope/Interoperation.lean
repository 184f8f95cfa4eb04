import SealedEnvelope.Proofs.Envelope

set_option autoImplicit false

/-! # Envelopes between configurations

What a configuration says beyond the width of identifiers is no matter to those who read: the sizes
of all other fields are the same for every configuration, and the bound on recipients only decides
whether a table is read at all. So two configurations with one width read the same from every
envelope that announces no more recipients than both allow (`Envelope.openForOne_congr`,
`Envelope.openForId_congr`, `Envelope.decrypt_congr`), and an envelope that announces more than one
of them allows is malformed to that one (`Header.decode_of_announced`). -/

namespace SealedEnvelope

variable {config config' : Config}

/-! ## Numbers in their places -/

/-- The number in `width` octets behind the first `offset`, if the string has them. -/
def numberAt? (bytes : Bytes) (offset width : Nat) : Option Nat :=
  if offset + width ≤ bytes.length then some (ofBigEndian ((bytes.drop offset).take width))
  else none

/-- It is the number that is read there. -/
theorem numberAt?_append_eq_some_iff {front input : Bytes} {offset width n : Nat}
    (hfront : front.length = offset) (field : String) :
    numberAt? (front ++ input) offset width = some n
      ↔ ∃ rest, Reader.nat width field input = .ok (n, rest) := by
  subst hfront
  simp only [numberAt?, List.length_append, Nat.add_le_add_iff_left, List.drop_left,
    Reader.nat_eq_ok_iff, Option.ite_none_right_eq_some, Option.some.injEq]
  constructor
  · intro h
    obtain ⟨hlong, rfl⟩ := h
    have hfield : (input.take width).length = width := List.length_take_of_le hlong
    have hlt := ofBigEndian_lt (input.take width)
    have hback := bigEndian_ofBigEndian (input.take width)
    rw [hfield] at hlt hback
    refine ⟨input.drop width, hlt, ?_⟩
    rw [hback, List.take_append_drop]
  · intro h
    obtain ⟨rest, hlt, rfl⟩ := h
    rw [List.take_left' (length_bigEndian ..), ofBigEndian_bigEndian hlt]
    exact ⟨by simp, rfl⟩

/-! ## Recipient tables -/

namespace RecipientTable

theorem checkReadCount_of_le {count : Nat} (hle : count ≤ config.maxRecipients) :
    checkReadCount config count
      = if count = 0 then .error (.malformedHeader "recipient count is zero") else .ok () := by
  unfold checkReadCount
  split_ifs <;> first | rfl | omega

/-- How a table with too many lines is refused. -/
def tooMany (config : Config) (count : Nat) : Error :=
  .malformedHeader s!"recipient count {count} exceeds maximum {config.maxRecipients}"

theorem checkReadCount_of_lt {count : Nat} (hlt : config.maxRecipients < count) :
    checkReadCount config count = .error (tooMany config count) := by
  unfold checkReadCount
  rw [if_neg (by omega), if_pos hlt]
  rfl

/-- A table with too many lines is refused for their number, before anything else is read. -/
theorem read_of_lt {input rest : Bytes} {count : Nat}
    (hread : Reader.nat 2 "recipient count" input = .ok (count, rest))
    (hlt : config.maxRecipients < count) :
    read config input = .error (tooMany config count) := by
  refine state_bind_eq_error.2 (Or.inr ⟨count, rest, hread, ?_⟩)
  exact state_bind_eq_error.2 (Or.inl (state_lift_eq_error.2 (checkReadCount_of_lt hlt)))

/-- A table within the bounds of two configurations is the same for both. -/
theorem read_congr (hid : config.idSize = config'.idSize) {input : Bytes}
    (hcount : ∀ count rest, Reader.nat 2 "recipient count" input = .ok (count, rest) →
      count ≤ config.maxRecipients ∧ count ≤ config'.maxRecipients) :
    read config input = read config' input := by
  unfold read
  refine state_bind_congr_ok fun count rest hread => ?_
  obtain ⟨hle, hle'⟩ := hcount count rest hread
  have hsize : entrySize config = entrySize config' := by rw [entrySize, entrySize, hid]
  simp only [checkReadCount_of_le hle, checkReadCount_of_le hle', checkRemaining, hsize, hid]

end RecipientTable

/-! ## Headers -/

namespace Header

/-- The number of recipients that an envelope for several announces. -/
def announced? (envelope : Bytes) : Option Nat :=
  if envelope.head? = some Mode.multiple.tag then numberAt? envelope 66 2 else none

/-- The envelope announces no more recipients than the configuration allows. -/
def Within (config : Config) (envelope : Bytes) : Prop :=
  ∀ count, announced? envelope = some count → count ≤ config.maxRecipients

/-- What is announced is what is read behind the fields that all modes have. -/
theorem announced?_eq_some_iff {ephemeral : Octets 33} {iv tag : Octets 16} {input : Bytes}
    {count : Nat} :
    announced?
        (Mode.multiple.tag :: (ephemeral.bytes ++ (iv.bytes ++ (tag.bytes ++ input)))) = some count
      ↔ ∃ rest, Reader.nat 2 "recipient count" input = .ok (count, rest) := by
  let front : Bytes := Mode.multiple.tag :: (ephemeral.bytes ++ iv.bytes ++ tag.bytes)
  have hfront : front.length = 66 := by simp [front]
  have hfields : Mode.multiple.tag :: (ephemeral.bytes ++ (iv.bytes ++ (tag.bytes ++ input)))
      = front ++ input := by
    simp [front]
  rw [announced?, List.head?_cons, if_pos rfl, hfields]
  exact numberAt?_append_eq_some_iff hfront "recipient count"

/-- A header that is read lists as many recipients as are announced. -/
theorem announced?_of_split {envelope ciphertext : Bytes} {header : Header}
    {entries : List RecipientEntry} (hsplit : split config envelope = .ok (header, ciphertext))
    (hbody : header.body = .multiple entries) : announced? envelope = some entries.length := by
  obtain ⟨hvalid, rfl⟩ := split_eq_ok_iff.1 hsplit
  obtain ⟨ephemeral, iv, tag, body⟩ := header
  obtain rfl : body = .multiple entries := hbody
  have htable : RecipientTable.Valid config entries := hvalid
  have hread : Reader.nat 2 "recipient count" (RecipientTable.octets entries ++ ciphertext)
      = .ok (entries.length, entries.flatMap RecipientEntry.octets ++ ciphertext) :=
    Reader.nat_eq_ok_iff.2 ⟨htable.length_lt, by rw [RecipientTable.octets, List.append_assoc]⟩
  have hfields : octets ⟨ephemeral, iv, tag, .multiple entries⟩ ++ ciphertext
      = Mode.multiple.tag :: (ephemeral.bytes ++ (iv.bytes ++ (tag.bytes
        ++ (RecipientTable.octets entries ++ ciphertext)))) := by
    simp [octets, mode, HeaderBody.mode, HeaderBody.octets]
  rw [hfields]
  exact announced?_eq_some_iff.2 ⟨_, hread⟩

theorem readBody_congr (hid : config.idSize = config'.idSize) {mode : Mode} {input : Bytes}
    (hcount : mode = .multiple → ∀ count rest,
      Reader.nat 2 "recipient count" input = .ok (count, rest) →
        count ≤ config.maxRecipients ∧ count ≤ config'.maxRecipients) :
    readBody config mode input = readBody config' mode input := by
  cases mode with
  | multiple =>
    rw [readBody, readBody, state_bind_apply, state_bind_apply,
      RecipientTable.read_congr hid (hcount rfl)]
  | _ => rfl

theorem read_congr (hid : config.idSize = config'.idSize) {envelope : Bytes}
    (h : Within config envelope) (h' : Within config' envelope) :
    read config envelope = read config' envelope := by
  unfold read
  refine state_bind_congr_ok fun tag input htag => ?_
  refine state_bind_congr_ok fun mode input₁ hmode => ?_
  refine state_bind_congr_ok fun ephemeral input₂ hephemeral => ?_
  refine state_bind_congr_ok fun iv input₃ hiv => ?_
  refine state_bind_congr_ok fun authTag input₄ hauthTag => ?_
  obtain rfl := Reader.octet_eq_ok_iff.1 htag
  obtain ⟨hannounces, rfl⟩ := state_lift_eq_ok.1 hmode
  obtain rfl := Mode.ofTag_eq_ok_iff.1 hannounces
  obtain rfl := Reader.octets_eq_ok_iff.1 hephemeral
  obtain rfl := Reader.octets_eq_ok_iff.1 hiv
  obtain rfl := Reader.octets_eq_ok_iff.1 hauthTag
  rw [state_bind_apply, state_bind_apply, readBody_congr hid]
  rintro rfl count rest hread
  exact ⟨h count (announced?_eq_some_iff.2 ⟨rest, hread⟩),
    h' count (announced?_eq_some_iff.2 ⟨rest, hread⟩)⟩

theorem split_congr (hid : config.idSize = config'.idSize) {envelope : Bytes}
    (h : Within config envelope) (h' : Within config' envelope) :
    split config envelope = split config' envelope :=
  read_congr hid h h'

theorem decode_congr (hid : config.idSize = config'.idSize) {envelope : Bytes}
    (h : Within config envelope) (h' : Within config' envelope) :
    decode config envelope = decode config' envelope := by
  rw [decode, decode, split_congr hid h h']

/-- A header that two configurations read covers the same octets for both. -/
theorem valid_of_split (hid : config.idSize = config'.idSize) {envelope ciphertext : Bytes}
    {header : Header} (h : Within config envelope) (h' : Within config' envelope)
    (hsplit : split config envelope = .ok (header, ciphertext)) :
    header.Valid config ∧ header.Valid config' := by
  have hsplit' := hsplit
  rw [split_congr hid h h'] at hsplit'
  exact ⟨(split_eq_ok_iff.1 hsplit).1, (split_eq_ok_iff.1 hsplit').1⟩

/-! ## Too many recipients -/

/-- An envelope that announces a number has all fields in front of its table. -/
theorem exists_fields_of_announced {envelope : Bytes} {count : Nat}
    (h : announced? envelope = some count) :
    ∃ (ephemeral : Octets 33) (iv tag : Octets 16) (input : Bytes),
      envelope = Mode.multiple.tag :: (ephemeral.bytes ++ (iv.bytes ++ (tag.bytes ++ input))) := by
  unfold announced? numberAt? at h
  split_ifs at h with hhead hlong
  cases envelope with
  | nil => cases hhead
  | cons b rest =>
    obtain rfl := Option.some.inj hhead
    rw [List.length_cons] at hlong
    obtain ⟨ephemeral, rest₁, rfl⟩ := Octets.exists_append (by omega : 33 ≤ rest.length)
    rw [List.length_append, Octets.length_bytes] at hlong
    obtain ⟨iv, rest₂, rfl⟩ := Octets.exists_append (by omega : 16 ≤ rest₁.length)
    rw [List.length_append, Octets.length_bytes] at hlong
    obtain ⟨tag, input, rfl⟩ := Octets.exists_append (by omega : 16 ≤ rest₂.length)
    exact ⟨ephemeral, iv, tag, input, rfl⟩

/-- A configuration refuses an envelope that announces more recipients than it allows. -/
theorem split_of_announced {envelope : Bytes} {count : Nat}
    (h : announced? envelope = some count) (hlt : config.maxRecipients < count) :
    split config envelope = .error (RecipientTable.tooMany config count) := by
  obtain ⟨ephemeral, iv, tag, input, rfl⟩ := exists_fields_of_announced h
  obtain ⟨rest, hread⟩ := announced?_eq_some_iff.1 h
  have hmode : Mode.ofTag Mode.multiple.tag = .ok .multiple := rfl
  refine state_bind_eq_error.2 (Or.inr ⟨_, _, Reader.octet_eq_ok_iff.2 rfl, ?_⟩)
  refine state_bind_eq_error.2 (Or.inr ⟨_, _, state_lift_eq_ok.2 ⟨hmode, rfl⟩, ?_⟩)
  refine state_bind_eq_error.2 (Or.inr ⟨_, _, Reader.octets_eq_ok_iff.2 rfl, ?_⟩)
  refine state_bind_eq_error.2 (Or.inr ⟨_, _, Reader.octets_eq_ok_iff.2 rfl, ?_⟩)
  refine state_bind_eq_error.2 (Or.inr ⟨_, _, Reader.octets_eq_ok_iff.2 rfl, ?_⟩)
  refine state_bind_eq_error.2 (Or.inl (state_bind_eq_error.2 (Or.inl ?_)))
  exact RecipientTable.read_of_lt hread hlt

theorem decode_of_announced {envelope : Bytes} {count : Nat}
    (h : announced? envelope = some count) (hlt : config.maxRecipients < count) :
    decode config envelope = .error (RecipientTable.tooMany config count) :=
  bind_eq_error.2 (Or.inl (split_of_announced h hlt))

end Header

namespace Envelope

variable {envelope : Bytes}

theorem openWith_congr {header : Header} (hvalid : header.Valid config)
    (hvalid' : header.Valid config') (key : Octets 32) (ciphertext : Bytes) :
    openWith config key header ciphertext = openWith config' key header ciphertext := by
  rw [openWith_eq_decrypt hvalid, openWith_eq_decrypt hvalid']

theorem openForOne_congr (hid : config.idSize = config'.idSize)
    (h : Header.Within config envelope) (h' : Header.Within config' envelope) (key : PrivateKey) :
    openForOne config key envelope = openForOne config' key envelope := by
  unfold openForOne
  rw [← Header.split_congr hid h h']
  refine bind_congr_ok fun ⟨header, ciphertext⟩ hsplit => ?_
  obtain ⟨hvalid, hvalid'⟩ := Header.valid_of_split hid h h' hsplit
  simp only [openWith_congr hvalid hvalid', Config.sharedKey_eq]

theorem openForId_congr (hid : config.idSize = config'.idSize)
    (h : Header.Within config envelope) (h' : Header.Within config' envelope) (id : Bytes)
    (key : PrivateKey) : openForId config id key envelope = openForId config' id key envelope := by
  unfold openForId
  rw [← Header.split_congr hid h h']
  refine bind_congr_ok fun ⟨header, ciphertext⟩ hsplit => ?_
  obtain ⟨hvalid, hvalid'⟩ := Header.valid_of_split hid h h' hsplit
  simp only [openWith_congr hvalid hvalid', KeyWrap.unwrap_congr config config']

theorem decrypt_congr (hid : config.idSize = config'.idSize)
    (h : Header.Within config envelope) (h' : Header.Within config' envelope) (privateKey : Bytes)
    (id : Option Bytes) :
    decrypt config privateKey id envelope = decrypt config' privateKey id envelope := by
  unfold decrypt
  simp only [openForOne_congr hid h h', openForId_congr hid h h']

/-- With every private key an envelope that announces too many recipients is refused for that, if
    an identifier is given where one is needed. -/
theorem decrypt_of_announced {count : Nat} (h : Header.announced? envelope = some count)
    (hlt : config.maxRecipients < count) (key : PrivateKey) (id : Bytes) :
    decryptForOne config key.octets.bytes envelope = .error (RecipientTable.tooMany config count)
      ∧ decryptMultiple config id key.octets.bytes envelope
        = .error (RecipientTable.tooMany config count)
      ∧ decrypt config key.octets.bytes (some id) envelope
        = .error (RecipientTable.tooMany config count) := by
  have hsplit := Header.split_of_announced h hlt
  have hmany : openForId config id key envelope = .error (RecipientTable.tooMany config count) :=
    bind_eq_error.2 (Or.inl hsplit)
  rw [decryptForOne_octets, decryptMultiple_octets]
  refine ⟨bind_eq_error.2 (Or.inl hsplit), hmany, ?_⟩
  obtain ⟨ephemeral, iv, tag, input, rfl⟩ := Header.exists_fields_of_announced h
  rw [decrypt_cons]
  exact hmany

end Envelope

end SealedEnvelope
