import SealedEnvelope.Identifier
import SealedEnvelope.Proofs.Octets
import SealedEnvelope.Proofs.Sealing
import SealedEnvelope.Proofs.Sequence
import SealedEnvelope.Proofs.Text

set_option autoImplicit false

/-! # What a provider hands out

An identifier is issued when it is drawn, made by a running generator or read from a text. Every
issued identifier is valid (`IdProvider.Issued.isValid`), and every valid one has a text that reads
back (`IdProvider.exists_toText`). -/

namespace SealedEnvelope.IdProvider

variable {bytes id : Bytes} {p : IdProvider}

/-! ## Marks -/

theorem version4_of_masked : ∀ b : UInt8, (b &&& 0x0f ||| 0x40) >>> 4 = 4 :=
  forall_octet (by decide +kernel)

theorem standardVariant_of_masked : ∀ b : UInt8, (b &&& 0x3f ||| 0x80) &&& 0xc0 = 0x80 :=
  forall_octet (by decide +kernel)

@[simp] theorem length_markVersion4 (bytes : Bytes) :
    (markVersion4 bytes).length = bytes.length := by
  simp [markVersion4]

theorem hasVersion4_markVersion4 (h : 6 < bytes.length) : hasVersion4 (markVersion4 bytes) := by
  simp [hasVersion4, markVersion4, List.getD_eq_getElem?_getD, h, version4_of_masked]

theorem hasStandardVariant_markVersion4 (h : 8 < bytes.length) :
    hasStandardVariant (markVersion4 bytes) := by
  simp [hasStandardVariant, markVersion4, List.getD_eq_getElem?_getD, h, standardVariant_of_masked]

/-- The mark of the variant is not zero. -/
theorem exists_ne_zero_of_hasStandardVariant (h : hasStandardVariant id) : ∃ b ∈ id, b ≠ 0 := by
  have hmark : id.getD 8 0 &&& 0xc0 = 0x80 := of_decide_eq_true h
  rw [List.getD_eq_getElem?_getD] at hmark
  cases hget : id[8]? with
  | none =>
    rw [hget] at hmark
    exact absurd hmark (by decide)
  | some b =>
    rw [hget] at hmark
    refine ⟨b, List.mem_of_getElem? hget, ?_⟩
    rintro rfl
    exact absurd hmark (by decide)

/-! ## Validity -/

theorem length_of_isValid (h : p.isValid id) : id.length = p.byteLength :=
  of_decide_eq_true (Bool.and_eq_true_iff.1 h).1

/-- There are no valid identifiers of a length out of bounds. -/
theorem check_of_isValid (h : p.isValid id) : p.check = .ok () := by
  cases p with
  | custom length =>
    have hlength : CustomLength length.toNat := of_decide_eq_true (Bool.and_eq_true_iff.1 h).2
    exact if_pos hlength
  | _ => rfl

theorem check_eq_ok_iff :
    p.check = .ok () ↔ ∀ length, p = .custom length → CustomLength length.toNat := by
  cases p with
  | custom length =>
    simp only [check, checkCustomLength, custom.injEq, forall_eq']
    split <;> simp_all
  | _ => simp [check]

theorem isValid_objectId (id : Octets 12) : objectId.isValid id.bytes := by
  simp [isValid, byteLength, ObjectId.size]

/-! ## Drawing -/

/-- Octets of the tape that a fresh identifier takes. -/
def drawSize : IdProvider → Nat
  | objectId => 9
  | guid | uuid => uuidSize
  | custom length => max minCustomLength (min maxCustomLength length.toNat)

theorem takes_draw (p : IdProvider) (clock : Int) : Draw.Takes p.drawSize (p.draw clock) := by
  cases p with
  | objectId =>
    have hgenerator : Draw.Takes 9 ObjectId.Generator.draw :=
      (Draw.takes_octets 5).bind fun _ => (Draw.takes_octets 4).bind fun _ => Draw.takes_pure _
    exact hgenerator.bind fun _ => Draw.takes_pure _
  | custom length => exact (Draw.takes_octets _).map _
  | _ => exact ((Draw.takes_octets _).map _).bind fun _ => Draw.takes_pure _

theorem length_of_bytes {n : Nat} {tape rest : Tape} (h : Draw.bytes n tape = some (bytes, rest)) :
    bytes.length = n := by
  obtain ⟨octets, -, rfl⟩ := Draw.map_eq_some.1 h
  exact octets.length_bytes

/-- Sixteen marked octets are valid wherever marks are asked for. -/
theorem isValid_markVersion4 (h : bytes.length = uuidSize) :
    guid.isValid (markVersion4 bytes) ∧ uuid.isValid (markVersion4 bytes) := by
  have hlength : 8 < bytes.length := by rw [h]; decide
  have hversion := hasVersion4_markVersion4 (Nat.lt_trans (by decide : 6 < 8) hlength)
  have hvariant := hasStandardVariant_markVersion4 hlength
  have hany : (markVersion4 bytes).any (· ≠ 0) := by
    obtain ⟨b, hb, hne⟩ := exists_ne_zero_of_hasStandardVariant hvariant
    exact List.any_eq_true.2 ⟨b, hb, decide_eq_true hne⟩
  simp only [isValid, length_markVersion4, h, byteLength, decide_true, hversion, hvariant, hany,
    Bool.and_self, and_self]

theorem isValid_of_draw (hcheck : p.check = .ok ()) {clock : Int} {tape rest : Tape}
    (h : p.draw clock tape = some (id, rest)) : p.isValid id := by
  cases p with
  | objectId =>
    simp only [draw, Draw.bind_eq_some, Draw.pure_eq_some] at h
    obtain ⟨g, t, -, rfl, -⟩ := h
    exact isValid_objectId _
  | guid =>
    simp only [draw, Draw.bind_eq_some, Draw.pure_eq_some] at h
    obtain ⟨bytes, t, hbytes, rfl, -⟩ := h
    exact (isValid_markVersion4 (List.length_reverse.trans (length_of_bytes hbytes))).1
  | uuid =>
    simp only [draw, Draw.bind_eq_some, Draw.pure_eq_some] at h
    obtain ⟨bytes, t, hbytes, rfl, -⟩ := h
    exact (isValid_markVersion4 (List.length_reverse.trans (length_of_bytes hbytes))).2
  | custom length =>
    have hcustom := check_eq_ok_iff.1 hcheck length rfl
    have hlength := length_of_bytes h
    have hmin : minCustomLength ≤ length.toNat := hcustom.1
    have hmax : length.toNat ≤ maxCustomLength := hcustom.2
    rw [Nat.min_eq_right hmax, Nat.max_eq_right hmin] at hlength
    simp [isValid, byteLength, hlength, hcustom]

/-! ## Text -/

/-- The text of an identifier. -/
def spell (p : IdProvider) (id : Bytes) : String :=
  match p with
  | objectId | custom _ => Text.Hex.encode id
  | guid => Text.Base64.encode id
  | uuid => Text.DashedHex.encode id

theorem checkLength_eq_ok_iff : p.checkLength id = .ok () ↔ id.length = p.byteLength := by
  rw [checkLength]
  split <;> simp_all

theorem toText_eq_ok_iff {text : String} :
    p.toText id = .ok text ↔ p.check = .ok () ∧ id.length = p.byteLength ∧ p.spell id = text := by
  simp only [toText, check_bind_eq_ok, pure_eq_ok, checkLength_eq_ok_iff]
  rfl

theorem ofText_eq_ok_iff {text : String} :
    p.ofText text = .ok id
      ↔ p.check = .ok () ∧ (Text.utf8 text).length = p.textOctets
        ∧ p.decodeText (Text.utf8 text) = .ok id ∧ p.isValid id := by
  rw [ofText, check_bind_eq_ok]
  refine and_congr_right fun _ => ?_
  by_cases hlength : (Text.utf8 text).length = p.textOctets
  · simp only [hlength, ne_eq, not_true, if_false, true_and, bind_eq_ok]
    constructor
    · rintro ⟨id', hdecode, _, -, h⟩
      split at h
      · obtain ⟨_, ⟨⟩, -⟩ := h
      · next hvalid =>
        obtain rfl := pure_eq_ok.1 h
        exact ⟨hdecode, not_not.1 hvalid⟩
    · rintro ⟨hdecode, hvalid⟩
      refine ⟨id, hdecode, (), checkLength_eq_ok_iff.2 (length_of_isValid hvalid), ?_⟩
      rw [if_neg (not_not.2 hvalid)]
      rfl
  · simp [hlength, bind_eq_ok, throw_eq_ok]

theorem decodeText_spell (h : id.length = p.byteLength) :
    p.decodeText (Text.utf8 (p.spell id)) = .ok id := by
  cases p with
  | guid => simp only [decodeText, spell, Text.Base64.decode_encode]; rfl
  | uuid => simp only [decodeText, spell, Text.DashedHex.decode?_encode h]
  | _ => simp only [decodeText, spell, Text.Hex.decode_encode]; rfl

theorem length_spell (h : id.length = p.byteLength) :
    (Text.utf8 (p.spell id)).length = p.textOctets := by
  cases p with
  | guid => rw [spell, Text.Base64.length_utf8_encode, h]; rfl
  | uuid => exact Text.DashedHex.length_utf8_encode h
  | _ => rw [spell, Text.Hex.length_utf8_encode, h]; rfl

/-- Every valid identifier has a text, and this names it. -/
theorem exists_toText (h : p.isValid id) :
    ∃ text, p.toText id = .ok text ∧ p.ofText text = .ok id := by
  have hcheck := check_of_isValid h
  have hlength := length_of_isValid h
  exact ⟨p.spell id, toText_eq_ok_iff.2 ⟨hcheck, hlength, rfl⟩,
    ofText_eq_ok_iff.2 ⟨hcheck, length_spell hlength, decodeText_spell hlength, h⟩⟩

/-! ## Issued identifiers -/

/-- The identifiers that a provider hands out. -/
inductive Issued : IdProvider → Bytes → Prop
  /-- Drawn from a tape, at a clock reading. -/
  | drawn {p : IdProvider} {clock : Int} {tape rest : Tape} {id : Bytes}
      (h : p.draw clock tape = some (id, rest)) : Issued p id
  /-- Made by a generator that is already running. -/
  | made {g : ObjectId.Generator} {clocks : List Int} {id : Octets 12} (h : id ∈ g.run clocks) :
      Issued objectId id.bytes
  /-- Read from a text. -/
  | read {p : IdProvider} {text : String} {id : Bytes} (h : p.ofText text = .ok id) : Issued p id

/-- Every issued identifier is valid. -/
theorem Issued.isValid (h : p.Issued id) (hcheck : p.check = .ok ()) : p.isValid id := by
  cases h with
  | drawn h => exact isValid_of_draw hcheck h
  | made _ => exact isValid_objectId _
  | read h => exact (ofText_eq_ok_iff.1 h).2.2.2

end SealedEnvelope.IdProvider
