import SealedEnvelope.LengthPrefix.InPlace
import SealedEnvelope.Proofs.LengthPrefix

set_option autoImplicit false

/-! # The forms of a length

A length up to the ceiling has a form in every width that holds it, and all of them are read. The
one that is written is the only one of its size (`octetsIn_eq_octets_iff`), and none is shorter. A
payload is read behind any form of its length, and the form and the payload cut off anywhere are too
short (`decodePayload_of_cut`). `narrowest_form_canonical` puts this together. -/

namespace SealedEnvelope.LengthPrefix

variable {out input front payload : Bytes} {width : Width} {n taken : Nat}

/-! ## One form of each size -/

theorem Width.size_inj {width width' : Width} (h : width.size = width'.size) : width = width' := by
  revert h
  cases width <;> cases width' <;> decide

theorem octetsIn_eq_octets_iff : octetsIn width n = octets n ↔ 1 + width.size = size n := by
  constructor
  · intro h
    rw [← length_octetsIn width n, h, length_octets]
  · intro h
    have hwidth : width = Width.ofLength n := Width.size_inj (Nat.add_left_cancel h)
    rw [hwidth]
    rfl

/-! ## Writing -/

theorem append_of_le (h : n ≤ maxLength) (out : Bytes) : append out n = .ok (out ++ octets n) :=
  append_eq_ok_iff.2 ⟨h, rfl⟩

theorem append_of_lt (h : maxLength < n) (out : Bytes) :
    append out n = .error (.lengthTooLong n maxLength) := by
  rw [append, checkCeiling, if_pos h]
  rfl

/-- On a buffer the same is written as on octets, and a refused length leaves it alone. -/
theorem appendInPlace_on (n : Nat) (out : Bytes) :
    (appendInPlace n).on out
      = match append out n with
        | .ok bytes => (.ok (), bytes)
        | .error e => (.error e, out) := by
  rw [appendInPlace, append, InPlace.on_lift_bind]
  cases checkCeiling n with
  | error e => rfl
  | ok =>
    rw [InPlace.on_modify_bind, InPlace.on_modify, List.append_assoc]
    rfl

theorem encodePayload_of_le (h : payload.length ≤ maxLength) :
    encodePayload payload = .ok (octets payload.length ++ payload) := by
  rw [encodePayload, append_of_le h]
  rfl

/-! ## Reading a length -/

/-- What is taken is the tag of a width and the number in this width. -/
theorem decode_eq_ok_iff_take :
    decode input = .ok (n, taken)
      ↔ ∃ width : Width, width.Holds n ∧ taken = 1 + width.size ∧ taken ≤ input.length
        ∧ input.take taken = octetsIn width n := by
  rw [decode_eq_ok_iff]
  constructor
  · rintro ⟨width, hholds, rfl, rest, rfl⟩
    refine ⟨width, hholds, rfl, ?_, List.take_left' (length_octetsIn width n)⟩
    rw [← length_octetsIn width n]
    exact (List.prefix_append _ rest).length_le
  · rintro ⟨width, hholds, htaken, -, htake⟩
    refine ⟨width, hholds, htaken, ?_⟩
    rw [← htake]
    exact List.take_prefix taken input

/-- No form is shorter than the one that is written, and no other has its size. -/
theorem size_le_of_decode (h : decode input = .ok (n, taken)) :
    size n ≤ taken ∧ (append [] n = .ok (input.take taken) ↔ taken = size n) := by
  obtain ⟨width, hholds, rfl, -, htake⟩ := decode_eq_ok_iff_take.1 h
  refine ⟨Nat.add_le_add_left (Width.size_ofLength_le hholds) 1, ?_⟩
  rw [append_eq_ok_iff, htake, and_iff_right hholds.le_max, List.nil_append, octetsIn_eq_octets_iff]

/-! ## Reading a payload -/

/-- A payload is read behind any form of its length. -/
theorem decodePayload_eq_ok_iff :
    decodePayload input = .ok (payload, taken)
      ↔ ∃ width : Width, width.Holds payload.length ∧ taken = 1 + width.size + payload.length
        ∧ octetsIn width payload.length ++ payload <+: input := by
  rw [decodePayload, bind_eq_ok]
  constructor
  · rintro ⟨⟨n, offset⟩, hdecode, h⟩
    obtain ⟨width, hholds, rfl, rest, rfl⟩ := decode_eq_ok_iff.1 hdecode
    simp only [List.drop_left' (length_octetsIn width n)] at h
    split at h
    · exact (throw_eq_ok.1 h).elim
    · next hlong =>
      obtain ⟨rfl, rfl⟩ := Prod.mk.inj (pure_eq_ok.1 h)
      have hlength : (rest.take n).length = n := List.length_take_of_le (Nat.not_lt.1 hlong)
      rw [hlength]
      exact ⟨width, hholds, rfl, (List.prefix_append_right_inj _).2 (List.take_prefix n rest)⟩
  · rintro ⟨width, hholds, rfl, rest, rfl⟩
    have hdecode : decode (octetsIn width payload.length ++ payload ++ rest)
        = .ok (payload.length, 1 + width.size) := by
      rw [List.append_assoc]
      exact decode_eq_ok_iff.2 ⟨width, hholds, rfl, List.prefix_append _ _⟩
    refine ⟨_, hdecode, ?_⟩
    simp only [List.append_assoc, List.drop_left' (length_octetsIn width payload.length)]
    rw [if_neg (by simp), List.take_left' rfl]
    rfl

/-! ## What is cut off -/

/-- The form of a length is too short as soon as an octet is missing. -/
theorem decode_of_cut (h : front <+: octetsIn width n) (hne : front ≠ octetsIn width n) :
    ∃ needed available, decode front = .error (.lengthTooShort needed available)
      ∧ available < needed := by
  cases front with
  | nil => exact ⟨1, 0, rfl, Nat.zero_lt_one⟩
  | cons tag field =>
    obtain ⟨rfl, hfield⟩ := List.cons_prefix_cons.1 h
    have hshort : field.length < width.size := by
      refine Nat.lt_of_le_of_ne ?_ fun heq => hne ?_
      · simpa using hfield.length_le
      · rw [hfield.eq_of_length (by rw [heq, length_bigEndian])]
        rfl
    refine ⟨1 + width.size, (width.tag :: field).length, ?_, ?_⟩
    · rw [decode, Width.ofTag_eq_ok_iff.2 rfl]
      simp only [bind, Except.bind]
      rw [if_pos hshort]
      rfl
    · rw [List.length_cons, Nat.add_comm]
      exact Nat.add_lt_add_left hshort 1

/-- So is a payload behind its length. -/
theorem decodePayload_of_cut (hholds : width.Holds payload.length)
    (h : front <+: octetsIn width payload.length ++ payload)
    (hne : front ≠ octetsIn width payload.length ++ payload) :
    ∃ needed available, decodePayload front = .error (.lengthTooShort needed available)
      ∧ available < needed := by
  by_cases hcut : octetsIn width payload.length <+: front
  · obtain ⟨rest, rfl⟩ := hcut
    have hrest : rest <+: payload := (List.prefix_append_right_inj _).1 h
    have hshort : rest.length < payload.length :=
      Nat.lt_of_le_of_ne hrest.length_le fun heq => hne (by rw [hrest.eq_of_length heq])
    have hdecode : decode (octetsIn width payload.length ++ rest)
        = .ok (payload.length, 1 + width.size) :=
      decode_eq_ok_iff.2 ⟨width, hholds, rfl, List.prefix_append _ _⟩
    refine ⟨payload.length, rest.length, ?_, hshort⟩
    rw [decodePayload, hdecode]
    simp only [bind, Except.bind, List.drop_left' (length_octetsIn width payload.length)]
    rw [if_pos hshort]
    rfl
  · have hfront : front <+: octetsIn width payload.length :=
      (List.prefix_or_prefix_of_prefix h (List.prefix_append _ _)).resolve_right hcut
    have hproper : front ≠ octetsIn width payload.length := by
      rintro rfl
      exact hcut (List.prefix_refl _)
    obtain ⟨needed, available, hdecode, hlt⟩ := decode_of_cut hfront hproper
    refine ⟨needed, available, ?_, hlt⟩
    rw [decodePayload, hdecode]
    rfl

/-! ## All together -/

/-- What is taken is the payload's length and the form in front of it. -/
theorem take_of_decodePayload (h : decodePayload input = .ok (payload, taken)) :
    ∃ width : Width, width.Holds payload.length ∧ taken = 1 + width.size + payload.length
      ∧ taken ≤ input.length ∧ input.take taken = octetsIn width payload.length ++ payload := by
  obtain ⟨width, hholds, rfl, rest, rfl⟩ := decodePayload_eq_ok_iff.1 h
  have hlength : (octetsIn width payload.length ++ payload).length
      = 1 + width.size + payload.length := by
    rw [List.length_append, length_octetsIn]
  refine ⟨width, hholds, rfl, ?_, List.take_left' hlength⟩
  rw [← hlength]
  exact (List.prefix_append _ rest).length_le

/-- **The written form is the one shortest of all that are read.** A length up to 2^53 - 1 is put
    behind what is there in as many octets as are foretold; a larger one is refused, and a buffer
    stays as it is. A written length reads back whatever follows. What is read is the tag of a width
    and a number up to the ceiling in this width, no less; no such form is shorter than the written
    one, and another of its size there is not. A payload reads back behind its length and leaves
    what follows. Where a payload is read it is the last part of what is taken, which is no more
    than there is, and nothing of that can be missing at its end. -/
theorem narrowest_form_canonical :
    (∀ (n : Nat) (out : Bytes),
        (n ≤ 2 ^ 53 - 1 → ∃ form, form.length = size n ∧ append out n = .ok (out ++ form)
          ∧ (appendInPlace n).on out = (.ok (), out ++ form)
          ∧ ∀ tail, decode (form ++ tail) = .ok (n, size n))
        ∧ (2 ^ 53 - 1 < n → append out n = .error (.lengthTooLong n (2 ^ 53 - 1))
          ∧ (appendInPlace n).on out = (.error (.lengthTooLong n (2 ^ 53 - 1)), out)))
      ∧ (∀ (input : Bytes) (n taken : Nat),
        (decode input = .ok (n, taken)
          ↔ ∃ width : Width, n < 256 ^ width.size ∧ n ≤ 2 ^ 53 - 1 ∧ taken = 1 + width.size
            ∧ taken ≤ input.length
            ∧ input.take taken = width.tag :: bigEndian width.size n)
        ∧ (decode input = .ok (n, taken) →
          size n ≤ taken ∧ (append [] n = .ok (input.take taken) ↔ taken = size n)))
      ∧ (∀ payload : Bytes, payload.length < 2 ^ 53 →
        ∃ bytes, encodePayload payload = .ok bytes
          ∧ ∀ tail, decodePayload (bytes ++ tail) = .ok (payload, bytes.length)
            ∧ (bytes ++ tail).drop bytes.length = tail)
      ∧ ∀ (input payload : Bytes) (taken : Nat), decodePayload input = .ok (payload, taken) →
        taken ≤ input.length ∧ payload.length ≤ taken
          ∧ (input.take taken).drop (taken - payload.length) = payload
          ∧ ∀ front, front <+: input.take taken → front ≠ input.take taken →
            ∃ needed available, decodePayload front = .error (.lengthTooShort needed available)
              ∧ available < needed := by
  refine ⟨fun n out => ⟨fun h => ?_, fun h => ?_⟩, fun input n taken => ⟨?_, size_le_of_decode⟩, ?_,
    ?_⟩
  · refine ⟨octets n, length_octets n, append_of_le h out, ?_, decode_octets h⟩
    rw [appendInPlace_on, append_of_le h]
  · refine ⟨append_of_lt h out, ?_⟩
    rw [appendInPlace_on, append_of_lt h]
    rfl
  · rw [decode_eq_ok_iff_take]
    refine exists_congr fun width => ?_
    constructor
    · rintro ⟨hholds, htaken, hle, htake⟩
      exact ⟨hholds.lt_pow, hholds.le_max, htaken, hle, htake⟩
    · rintro ⟨hpow, hmax, htaken, hle, htake⟩
      exact ⟨⟨hpow, hmax⟩, htaken, hle, htake⟩
  · intro payload hpayload
    have hmax : payload.length ≤ maxLength := Nat.le_pred_of_lt hpayload
    refine ⟨_, encodePayload_of_le hmax, fun tail => ⟨?_, List.drop_left' rfl⟩⟩
    refine decodePayload_eq_ok_iff.2
      ⟨Width.ofLength payload.length, Width.holds_ofLength hmax, ?_, List.prefix_append _ tail⟩
    rw [List.length_append, length_octets]
    rfl
  · intro input payload taken h
    obtain ⟨width, hholds, htaken, hle, htake⟩ := take_of_decodePayload h
    refine ⟨hle, ?_, ?_, ?_⟩
    · rw [htaken]
      exact Nat.le_add_left _ _
    · rw [htake, htaken, Nat.add_sub_cancel, List.drop_left' (length_octetsIn width _)]
    · rw [htake]
      intro front
      exact decodePayload_of_cut hholds

/-- One octet behind its length in eight, with another octet behind it, and a length over the
    ceiling. -/
theorem narrowest_form_canonical_eight_octets :
    let input : Bytes := [3, 0, 0, 0, 0, 0, 0, 0, 1, 0xaa, 0xbb]
    decode input = .ok (1, 9) ∧ size 1 < 9 ∧ append [] 1 ≠ .ok (input.take 9)
      ∧ decodePayload input = .ok ([0xaa], 10) ∧ (input.take 10).drop 9 = [0xaa]
      ∧ (∃ needed available,
        decodePayload (input.take 9) = .error (.lengthTooShort needed available)
          ∧ available < needed)
      ∧ (appendInPlace (2 ^ 53)).on [7] = (.error (.lengthTooLong (2 ^ 53) (2 ^ 53 - 1)), [7]) := by
  intro input
  obtain ⟨hwrite, hread, -, hpayload⟩ := narrowest_form_canonical
  have hdecode : decode input = .ok (1, 9) := by decide
  have hprefixed : decodePayload input = .ok ([0xaa], 10) := by decide
  obtain ⟨-, hform⟩ := (hread input 1 9).2 hdecode
  obtain ⟨-, -, hlast, hcut⟩ := hpayload input [0xaa] 10 hprefixed
  refine ⟨hdecode, by decide, ?_, hprefixed, hlast, ?_, ((hwrite _ _).2 (by decide)).2⟩
  · rw [ne_eq, hform]
    decide
  · exact hcut _ (List.take_prefix_take_left (by decide)) (by decide)

end SealedEnvelope.LengthPrefix
