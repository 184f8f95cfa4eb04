import SealedEnvelope.Proofs.Stream.Intake

set_option autoImplicit false

/-! # A length in a source and in a buffer

A length is read in two ways: from a source, first the tag and then as many octets as the tag
announces (`Intake.length`), and from octets that are all there (`LengthPrefix.decode`).
`Intake.SameLength` pairs the answers that tell the same, and the two ways always give such a pair
(`Intake.sameLength_decode`). What is looked at is the length's field and nothing behind it
(`LengthPrefix.decode_take_fieldSize`), so a source that fails right behind the field does not
matter. `Intake.length_same_as_decode` puts this together. -/

namespace SealedEnvelope

namespace LengthPrefix

variable {b rest : Bytes} {tag : UInt8} {width : Width} {e : Error}

/-- The octets of the length at the front, as far as they are looked at: the tag, and the number
    behind it if the tag is known. -/
def fieldSize : Bytes → Nat
  | [] => 1
  | tag :: _ =>
    match Width.ofTag tag with
    | .ok width => 1 + width.size
    | .error _ => 1

theorem fieldSize_cons_of_ok (h : Width.ofTag tag = .ok width) (rest : Bytes) :
    fieldSize (tag :: rest) = 1 + width.size := by
  rw [fieldSize, h]

theorem fieldSize_cons_of_error (h : Width.ofTag tag = .error e) (rest : Bytes) :
    fieldSize (tag :: rest) = 1 := by
  rw [fieldSize, h]

theorem fieldSize_take (b : Bytes) : fieldSize (b.take (fieldSize b)) = fieldSize b := by
  cases b with
  | nil => rfl
  | cons tag rest =>
    cases htag : Width.ofTag tag with
    | error e =>
      rw [fieldSize_cons_of_error htag, List.take_succ_cons, fieldSize_cons_of_error htag]
    | ok width =>
      rw [fieldSize_cons_of_ok htag, Nat.add_comm, List.take_succ_cons, fieldSize_cons_of_ok htag,
        Nat.add_comm]

theorem Width.ofTag_eq_error (h : Width.ofTag tag = .error e) : e = .unknownWidthTag tag := by
  unfold Width.ofTag at h
  split_ifs at h
  exact (Except.error.inj h).symm

/-! ## The three cases behind a tag -/

theorem decode_cons_of_error (h : Width.ofTag tag = .error e) (rest : Bytes) :
    decode (tag :: rest) = .error e := by
  simp only [decode, h, bind, Except.bind]

theorem decode_cons_of_short (h : Width.ofTag tag = .ok width) (hshort : rest.length < width.size) :
    decode (tag :: rest) = .error (.lengthTooShort (1 + width.size) (1 + rest.length)) := by
  rw [decode, h, List.length_cons, Nat.add_comm rest.length]
  simp only [bind, Except.bind]
  rw [if_pos hshort]
  rfl

theorem decode_cons_of_long (h : Width.ofTag tag = .ok width) (hlong : width.size ≤ rest.length) :
    decode (tag :: rest) = do
      checkCeiling (ofBigEndian (rest.take width.size))
      return (ofBigEndian (rest.take width.size), 1 + width.size) := by
  rw [decode, h]
  simp only [bind, Except.bind]
  rw [if_neg (Nat.not_lt.2 hlong)]

/-- Octets behind the field are not looked at. -/
theorem decode_take_fieldSize (h : fieldSize b ≤ b.length) :
    decode (b.take (fieldSize b)) = decode b := by
  cases b with
  | nil => rfl
  | cons tag rest =>
    cases htag : Width.ofTag tag with
    | error e =>
      rw [fieldSize_cons_of_error htag, List.take_succ_cons, decode_cons_of_error htag,
        decode_cons_of_error htag]
    | ok width =>
      rw [fieldSize_cons_of_ok htag, List.length_cons] at h
      have hlong : width.size ≤ rest.length := by omega
      rw [fieldSize_cons_of_ok htag, Nat.add_comm 1, List.take_succ_cons,
        decode_cons_of_long htag hlong, decode_cons_of_long htag (by simp [hlong]), List.take_take,
        Nat.min_self]

end LengthPrefix

namespace Stream.Intake

open LengthPrefix (Width checkCeiling decode fieldSize)

variable {s : Source} {rest : Bytes} {tag : UInt8} {width : Width}

/-! ## Answers that tell the same -/

/-- What `decode` answers of the octets of a source, and what is answered of the source itself. -/
inductive SameLength (s : Source) : Except Error (Nat × Nat) → Except Error (Nat × Source) → Prop
  | read (n : Nat) {front : Bytes} {s' : Source} (h : s.Leaves front s') :
    SameLength s (.ok (n, front.length)) (.ok (n, s'))
  | unknownTag (tag : UInt8) :
    SameLength s (.error (.unknownWidthTag tag)) (.error (.unknownWidthTag tag))
  | tooLong (length max : Nat) :
    SameLength s (.error (.lengthTooLong length max)) (.error (.lengthTooLong length max))
  | tooShort (needed available : Nat) (reason : String)
    (h : s.bytes.length < fieldSize s.bytes) :
    SameLength s (.error (.lengthTooShort needed available)) (.error (.streamTruncated reason))

/-- Behind the tag, the rest of the field is read. -/
theorem length_of_cons (what : String) (h : s.bytes = tag :: rest) :
    Intake.length what s = (do
      let width ← Width.ofTag tag
      let field ← fill width.size
      if field.length < width.size then
        throw (.streamTruncated (what ++ " length cut short"))
      return (← decode (tag :: field)).1 : Intake Nat) (s.advance 1) := by
  have htag : fill 1 s = .ok ([tag], s.advance 1) := by
    rw [fill_eq (Or.inl (by simp [h])), h]
    rfl
  rw [Intake.length, state_bind_of_ok htag]

/-- Behind a tag that is known, the number is read if it is all there. -/
theorem length_of_known_tag (what : String) (hbytes : s.bytes = tag :: rest)
    (htag : Width.ofTag tag = .ok width) (h : s.ending = .finished ∨ width.size ≤ rest.length) :
    Intake.length what s
      = if rest.length < width.size then
          .error (.streamTruncated (what ++ " length cut short"))
        else (decode (tag :: rest.take width.size)).map
          fun p => (p.1, (s.advance 1).advance width.size) := by
  have hrest : (s.advance 1).bytes = rest := by
    rw [Source.bytes_advance, hbytes, List.drop_one, List.tail_cons]
  have hfield : fill width.size (s.advance 1)
      = .ok (rest.take width.size, (s.advance 1).advance width.size) := by
    rw [fill_eq, hrest]
    rw [hrest, Source.ending_advance]
    exact h.symm
  rw [length_of_cons what hbytes, htag, state_bind_of_ok (state_lift_eq_ok.2 ⟨rfl, rfl⟩),
    state_bind_of_ok hfield, List.length_take]
  by_cases hshort : rest.length < width.size
  · rw [if_pos hshort, if_pos (by omega)]
    rfl
  · rw [if_neg hshort, if_neg (by omega)]
    cases decode (tag :: rest.take width.size) <;> rfl

/-- A source and its octets give answers that tell the same, if the source ends behind them or has
    the whole field. -/
theorem sameLength_decode (what : String)
    (h : s.ending = .finished ∨ fieldSize s.bytes ≤ s.bytes.length) :
    SameLength s (decode s.bytes) (Intake.length what s) := by
  cases hbytes : s.bytes with
  | nil =>
    have hending : s.ending = .finished := by simpa [hbytes, fieldSize] using h
    have hnone : fill 1 s = .ok ([], s.advance 1) := by
      rw [fill_eq (Or.inr hending), hbytes]
      rfl
    rw [Intake.length, state_bind_of_ok hnone]
    exact .tooShort 1 0 ("missing " ++ what ++ " length") (by simp [hbytes, fieldSize])
  | cons tag rest =>
    cases htag : Width.ofTag tag with
    | error e =>
      obtain rfl := LengthPrefix.Width.ofTag_eq_error htag
      rw [length_of_cons what hbytes, htag, LengthPrefix.decode_cons_of_error htag]
      exact .unknownTag tag
    | ok width =>
      have hsize : fieldSize s.bytes = 1 + width.size := by
        rw [hbytes, LengthPrefix.fieldSize_cons_of_ok htag]
      rw [hsize, hbytes, List.length_cons] at h
      rw [length_of_known_tag what hbytes htag (h.imp_right (by omega))]
      split_ifs with hshort
      · rw [LengthPrefix.decode_cons_of_short htag hshort]
        refine .tooShort _ _ _ ?_
        rw [hsize, hbytes, List.length_cons]
        omega
      · have hlong : width.size ≤ rest.length := Nat.not_lt.1 hshort
        have hleaves := (s.leaves_advance 1).trans ((s.advance 1).leaves_advance width.size)
        rw [LengthPrefix.decode_cons_of_long htag hlong,
          LengthPrefix.decode_cons_of_long htag (by simp [hlong]), List.take_take, Nat.min_self,
          checkCeiling]
        split_ifs
        · exact .tooLong _ _
        · have hfront : (s.bytes.take 1 ++ (s.advance 1).bytes.take width.size).length
              = 1 + width.size := by
            simp [hbytes, hlong, Nat.add_comm]
          rw [← hfront]
          exact .read _ hleaves

namespace SameLength

variable {x : Except Error (Nat × Nat)} {y : Except Error (Nat × Source)}

theorem ok_iff (h : SameLength s x y) (n k : Nat) :
    (∃ s', y = .ok (n, s') ∧ s'.taken = s.taken + k ∧ s'.bytes = s.bytes.drop k)
      ↔ x = .ok (n, k) := by
  cases h with
  | @read m front rest hleaves =>
    constructor
    · rintro ⟨s', hy, htaken, -⟩
      obtain ⟨rfl, rfl⟩ := Prod.mk.inj (Except.ok.inj hy)
      rw [Nat.add_left_cancel (hleaves.taken.symm.trans htaken)]
    · intro hx
      obtain ⟨rfl, rfl⟩ := Prod.mk.inj (Except.ok.inj hx)
      exact ⟨rest, rfl, hleaves.taken, by rw [hleaves.bytes, List.drop_left]⟩
  | unknownTag | tooLong | tooShort => simp

theorem error_iff (h : SameLength s x y) {e : Error} (he : ∀ reason, e ≠ .streamTruncated reason)
    (he' : ∀ needed available, e ≠ .lengthTooShort needed available) :
    y = .error e ↔ x = .error e := by
  cases h with
  | read => simp
  | unknownTag | tooLong => simp
  | tooShort needed available reason =>
    simp only [Except.error.injEq]
    exact iff_of_false (he reason).symm (he' needed available).symm

theorem truncated_iff (h : SameLength s x y) :
    (∃ reason, y = .error (.streamTruncated reason))
      ↔ ∃ needed available, x = .error (.lengthTooShort needed available) := by
  cases h <;> simp

/-- If the field is there, the two answers differ in no more than in how they count. -/
theorem fst_eq (h : SameLength s x y) (hfield : fieldSize s.bytes ≤ s.bytes.length) :
    Prod.fst <$> y = Prod.fst <$> x := by
  cases h with
  | read | unknownTag | tooLong => rfl
  | tooShort _ _ _ hshort => omega

end SameLength

/-! ## All together -/

/-- **A length is the same from a source as from a buffer.** Of a source that hands out its octets
    in whatever pieces and ends behind them, a length is read exactly if it is decoded from the
    octets, the same one, and what is taken then is what decoding says it takes. A tag that is not
    known and a length over the ceiling are reported by both alike; the stream is truncated exactly
    if the octets are too few to decode. Nothing behind the field of the length is looked at: where
    the field is there, a source that has nothing behind it answers the same, also if it fails as
    soon as more is wanted. -/
theorem length_same_as_decode (what : String) (h : s.ending = .finished) :
    (∀ n k, (∃ s', Intake.length what s = .ok (n, s') ∧ s'.taken = s.taken + k
          ∧ s'.bytes = s.bytes.drop k)
        ↔ decode s.bytes = .ok (n, k))
      ∧ (∀ tag, Intake.length what s = .error (.unknownWidthTag tag)
        ↔ decode s.bytes = .error (.unknownWidthTag tag))
      ∧ (∀ length max, Intake.length what s = .error (.lengthTooLong length max)
        ↔ decode s.bytes = .error (.lengthTooLong length max))
      ∧ ((∃ reason, Intake.length what s = .error (.streamTruncated reason))
        ↔ ∃ needed available, decode s.bytes = .error (.lengthTooShort needed available))
      ∧ ∀ t : Source, fieldSize s.bytes ≤ s.bytes.length →
        t.bytes = s.bytes.take (fieldSize s.bytes) →
        Prod.fst <$> Intake.length what t = Prod.fst <$> Intake.length what s := by
  have hsame := sameLength_decode what (Or.inl h)
  refine ⟨hsame.ok_iff, fun tag => hsame.error_iff (by simp) (by simp),
    fun length max => hsame.error_iff (by simp) (by simp), hsame.truncated_iff,
    fun t hfield ht => ?_⟩
  have hsize : fieldSize t.bytes ≤ t.bytes.length := by
    rw [ht, LengthPrefix.fieldSize_take, List.length_take_of_le hfield]
  rw [hsame.fst_eq hfield, (sameLength_decode what (Or.inr hsize)).fst_eq hsize, ht,
    LengthPrefix.decode_take_fieldSize hfield]

/-- A length of two octets in two pieces with another octet behind it, and a source that fails right
    behind the same length. -/
theorem length_same_as_decode_two_pieces :
    let s : Source := ⟨[[1], [1, 2, 0xff]], .finished, 0, by decide⟩
    let t : Source := ⟨[[1, 1, 2]], .failed "reset", 0, by decide⟩
    s.ending = .finished ∧ fieldSize s.bytes ≤ s.bytes.length
      ∧ t.bytes = s.bytes.take (fieldSize s.bytes) ∧ decode s.bytes = .ok (258, 3)
      ∧ (∃ s', Intake.length "header" s = .ok (258, s') ∧ s'.taken = s.taken + 3
        ∧ s'.bytes = [0xff])
      ∧ Prod.fst <$> Intake.length "header" t = Prod.fst <$> Intake.length "header" s := by
  intro s t
  obtain ⟨hok, -, -, -, hfield⟩ := length_same_as_decode "header" (s := s) rfl
  have hdecode : decode s.bytes = .ok (258, 3) := by decide
  exact ⟨rfl, by decide, by decide, hdecode, (hok 258 3).2 hdecode,
    hfield t (by decide) (by decide)⟩

end Stream.Intake

end SealedEnvelope
