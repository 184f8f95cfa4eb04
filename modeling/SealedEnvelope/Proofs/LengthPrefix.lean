import SealedEnvelope.LengthPrefix
import SealedEnvelope.Proofs.Octets
import SealedEnvelope.Proofs.Sequence

set_option autoImplicit false

/-! # Length prefixes read back

`octetsIn width n` is a length written in a given width, and `Width.Holds` says when it may be read
so: `decode` accepts exactly these forms (`decode_eq_ok_iff`), in any of the four widths. The
narrowest width holds the length it is chosen for, so every length up to the ceiling can be written
(`append_eq_ok_iff`), and reading gives it back whatever follows (`decode_octets`). -/

namespace SealedEnvelope.LengthPrefix

/-! ## Widths -/

theorem Width.ofTag_eq_ok_iff {tag : UInt8} {width : Width} :
    Width.ofTag tag = .ok width ↔ tag = width.tag := by
  constructor
  · intro h
    unfold Width.ofTag at h
    split_ifs at h <;> cases h <;> assumption
  · rintro rfl
    cases width <;> rfl

theorem Width.tag_inj {width width' : Width} (h : width.tag = width'.tag) : width = width' := by
  have hread : Width.ofTag width.tag = .ok width := ofTag_eq_ok_iff.2 rfl
  rw [h, ofTag_eq_ok_iff.2 rfl] at hread
  exact (Except.ok.inj hread).symm

/-- The lengths that are read in a width. -/
structure Width.Holds (width : Width) (n : Nat) : Prop where
  lt_pow : n < 256 ^ width.size
  le_max : n ≤ maxLength

theorem lt_of_le_maxLength {n : Nat} (h : n ≤ maxLength) : n < 2 ^ 64 :=
  lt_of_le_of_lt h (by decide)

/-- The widest width holds whatever is held at all. -/
theorem Width.Holds.eight {width : Width} {n : Nat} (h : width.Holds n) : Width.eight.Holds n :=
  ⟨lt_of_le_maxLength h.le_max, h.le_max⟩

theorem Width.holds_ofLength {n : Nat} (h : n ≤ maxLength) : (Width.ofLength n).Holds n := by
  refine ⟨?_, h⟩
  unfold Width.ofLength
  split_ifs with hone htwo hfour
  · exact hone
  · exact htwo
  · exact hfour
  · exact lt_of_le_maxLength h

/-- No width that holds a length is narrower than the one that is chosen for it. -/
theorem Width.size_ofLength_le {width : Width} {n : Nat} (h : width.Holds n) :
    (Width.ofLength n).size ≤ width.size := by
  have hfits := h.lt_pow
  unfold Width.ofLength
  cases width <;> split_ifs <;> simp_all [Width.size]

/-! ## Writing -/

/-- A length in a width. -/
def octetsIn (width : Width) (n : Nat) : Bytes := width.tag :: bigEndian width.size n

@[simp] theorem length_octetsIn (width : Width) (n : Nat) :
    (octetsIn width n).length = 1 + width.size := by
  simp [octetsIn, Nat.add_comm]

@[simp] theorem length_octets (n : Nat) : (octets n).length = size n :=
  length_octetsIn _ n

theorem checkCeiling_eq_ok_iff {n : Nat} : checkCeiling n = .ok () ↔ n ≤ maxLength := by
  rw [checkCeiling]
  split_ifs <;> simp <;> omega

theorem append_eq_ok_iff {out bytes : Bytes} {n : Nat} :
    append out n = .ok bytes ↔ n ≤ maxLength ∧ bytes = out ++ octets n := by
  rw [append, check_bind_eq_ok, checkCeiling_eq_ok_iff, pure_eq_ok, eq_comm (a := out ++ octets n)]

/-! ## Reading -/

/-- A length is read in whatever width its tag announces. -/
theorem decode_eq_ok_iff {input : Bytes} {n taken : Nat} :
    decode input = .ok (n, taken)
      ↔ ∃ width : Width, width.Holds n ∧ taken = 1 + width.size
        ∧ octetsIn width n <+: input := by
  constructor
  · intro h
    cases input with
    | nil => cases h
    | cons tag rest =>
      obtain ⟨width, hwidth, h⟩ := bind_eq_ok.1 h
      obtain rfl := Width.ofTag_eq_ok_iff.1 hwidth
      split at h
      · exact (throw_eq_ok.1 h).elim
      · next hlong =>
        obtain ⟨hceiling, h⟩ := check_bind_eq_ok.1 h
        obtain ⟨rfl, rfl⟩ := Prod.mk.inj (pure_eq_ok.1 h)
        have hfield : (rest.take width.size).length = width.size := by
          rw [List.length_take]
          omega
        refine ⟨width, ⟨?_, checkCeiling_eq_ok_iff.1 hceiling⟩, rfl, ?_⟩
        · have hlt := ofBigEndian_lt (rest.take width.size)
          rwa [hfield] at hlt
        · have hback := bigEndian_ofBigEndian (rest.take width.size)
          rw [hfield] at hback
          rw [octetsIn, hback]
          exact List.prefix_cons_inj _ |>.2 (List.take_prefix _ _)
  · rintro ⟨width, hholds, rfl, rest, rfl⟩
    rw [octetsIn, List.cons_append, decode, Width.ofTag_eq_ok_iff.2 rfl]
    simp only [bind, Except.bind]
    rw [if_neg (by simp), List.take_left' (by simp), ofBigEndian_bigEndian hholds.lt_pow,
      checkCeiling_eq_ok_iff.2 hholds.le_max]
    rfl

/-- A written length reads back, whatever follows. -/
theorem decode_octets {n : Nat} (h : n ≤ maxLength) (rest : Bytes) :
    decode (octets n ++ rest) = .ok (n, size n) :=
  decode_eq_ok_iff.2 ⟨Width.ofLength n, Width.holds_ofLength h, rfl, List.prefix_append _ _⟩

end SealedEnvelope.LengthPrefix
