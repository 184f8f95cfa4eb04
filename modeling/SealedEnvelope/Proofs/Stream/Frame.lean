import SealedEnvelope.Proofs.Stream.Sealing

set_option autoImplicit false

/-! # Chunks as they stand in a stream

Between its flags and its content a chunk has a length, and the reader takes that in any width. A
`Frame` is a chunk together with the width of its length, so the octets of a stream are those of its
frames. `reads_readChunk` says which frames are read, `Frame.OpensAt` which of them open where a run
has come to. -/

namespace SealedEnvelope.Stream

open Intake (Reads reads_exactly reads_length)

variable {n index taken : Nat} {cancelled : Checkpoint → Bool} {s s' : Source} {ctx : Context}
  {c : Chunk} {piece : Bytes}

/-- A chunk and the width in which its length is written. -/
structure Frame where
  chunk : Chunk
  width : LengthPrefix.Width
deriving DecidableEq, Repr

namespace Frame

/-- The octets of a frame. -/
def octets (f : Frame) : Bytes :=
  bigEndian 4 f.chunk.index
    ++ f.chunk.flags :: (LengthPrefix.octetsIn f.width f.chunk.sealed.length ++ f.chunk.sealed)

/-- The frame that is written for a chunk. -/
def narrow (c : Chunk) : Frame := ⟨c, LengthPrefix.Width.ofLength c.sealed.length⟩

@[simp] theorem chunk_narrow (c : Chunk) : (narrow c).chunk = c := rfl

@[simp] theorem octets_narrow (c : Chunk) : (narrow c).octets = c.octets := rfl

theorem octets_ne_nil (f : Frame) : f.octets ≠ [] := by
  simp [octets]

/-- A frame that may stand at the place of number `index` in a stream with chunks of `n` octets. -/
structure Fits (f : Frame) (n index : Nat) : Prop where
  index_eq : f.chunk.index = index
  index_lt : index < 256 ^ 4
  flags : f.chunk.flags &&& ~~~finalFlag = 0
  length_le : f.chunk.ciphertext.length ≤ n
  holds : f.width.Holds f.chunk.sealed.length

end Frame

theorem flatMap_octets_narrow (chunks : List Chunk) :
    (chunks.map Frame.narrow).flatMap Frame.octets = chunks.flatMap Chunk.octets := by
  rw [List.flatMap_map]
  rfl

/-- Every frame takes up octets. -/
theorem length_le_flatMap_octets (frames : List Frame) :
    frames.length ≤ (frames.flatMap Frame.octets).length := by
  induction frames with
  | nil => exact Nat.le_refl _
  | cons f rest ih =>
    have hpos : 1 ≤ f.octets.length := List.length_pos_iff.2 f.octets_ne_nil
    rw [List.flatMap_cons, List.length_append, List.length_cons]
    omega

/-! ## Reading -/

theorem reads_readIndex (index : Nat) :
    Reads (readIndex index) fun front _ => front = bigEndian 4 index ∧ index < 256 ^ 4 := by
  have h : Reads (readIndex index) fun front _ => ∃ got next, got.length = 4
      ∧ (next = [] ∧ ofBigEndian got = index) ∧ front = got ++ next := by
    refine .fill_bind ?_ ?_
    · intro got s hshort
      cases got with
      | nil => exact ⟨_, rfl⟩
      | cons b rest =>
        simp only [List.isEmpty_cons, Bool.false_eq_true, if_false]
        rw [if_pos hshort]
        exact ⟨_, rfl⟩
    · intro got hlength
      have hempty : got.isEmpty = false := by
        rw [List.isEmpty_eq_false_iff, ← List.length_pos_iff, hlength]
        decide
      simp only [hempty, Bool.false_eq_true, if_false]
      rw [if_neg (by omega)]
      exact (Reads.pure ()).check.congr fun next _ => by simp [and_comm]
  refine h.congr fun front _ => ?_
  constructor
  · rintro ⟨got, _, hlength, ⟨rfl, hgot⟩, rfl⟩
    have hlt := ofBigEndian_lt got
    rw [hlength, hgot] at hlt
    rw [List.append_nil, ← hgot, ← hlength, bigEndian_ofBigEndian]
    exact ⟨rfl, by rwa [hgot, hlength]⟩
  · rintro ⟨rfl, hlt⟩
    exact ⟨_, [], length_bigEndian .., ⟨rfl, ofBigEndian_bigEndian hlt⟩, by simp⟩

theorem reads_readFlags (index : Nat) :
    Reads (readFlags index) fun front flags =>
      front = [flags] ∧ flags &&& ~~~finalFlag = 0 := by
  have h : Reads (readFlags index) fun front flags => ∃ b next,
      (¬(b &&& ~~~finalFlag ≠ 0) ∧ next = [] ∧ b = flags) ∧ front = b :: next :=
    .octet_bind _ fun b => .check (.pure b)
  refine h.congr fun front flags => ?_
  constructor
  · rintro ⟨_, _, ⟨hflags, rfl, rfl⟩, rfl⟩
    exact ⟨rfl, not_not.1 hflags⟩
  · rintro ⟨rfl, hflags⟩
    exact ⟨flags, [], ⟨not_not.2 hflags, rfl, rfl⟩, rfl⟩

theorem checkChunkLength_eq_ok_iff {length : Nat} :
    checkChunkLength n index length = .ok () ↔ 16 ≤ length ∧ length ≤ n + 16 := by
  rw [checkChunkLength, Aead.tagSize]
  split_ifs <;> simp <;> omega

/-- Announced octets are the content of a chunk: the ciphertext and its tag. -/
theorem reads_sealed (index : Nat) (flags : UInt8) (length : Nat) (what : String) :
    Reads (do
        let bytes ← Intake.exactly length what
        match Octets.ofBytes? 16 (bytes.drop (length - Aead.tagSize)) with
        | some tag =>
          return { index, flags, ciphertext := bytes.take (length - Aead.tagSize), tag }
        | none => throw .decryptionFailed : Intake Chunk)
      fun front c => c.index = index ∧ c.flags = flags ∧ c.sealed.length = length
        ∧ front = c.sealed := by
  have hchunk (bytes : Bytes) :
      Reads (match Octets.ofBytes? 16 (bytes.drop (length - Aead.tagSize)) with
        | some tag => pure ⟨index, flags, bytes.take (length - Aead.tagSize), tag⟩
        | none => throw .decryptionFailed : Intake Chunk)
        fun next c => next = [] ∧ ∃ tag : Octets 16, bytes.drop (length - Aead.tagSize) = tag.bytes
          ∧ ⟨index, flags, bytes.take (length - Aead.tagSize), tag⟩ = c := by
    cases htag : Octets.ofBytes? 16 (bytes.drop (length - Aead.tagSize)) with
    | some tag =>
      rw [Octets.ofBytes?_eq_some_iff.1 htag]
      exact (Reads.pure _).congr fun next c => by simp [← Octets.ext_iff]
    | none =>
      refine (Reads.fail fun _ => rfl).congr fun next c => ?_
      simp only [false_iff]
      rintro ⟨-, tag, hdrop, -⟩
      rw [Octets.ofBytes?_eq_some_iff.2 hdrop] at htag
      cases htag
  refine ((reads_exactly length what).bind hchunk).congr fun front c => ?_
  constructor
  · rintro ⟨_, bytes, _, ⟨hlength, rfl⟩, ⟨rfl, tag, hdrop, rfl⟩, rfl⟩
    have hsealed : bytes.take (length - Aead.tagSize) ++ tag.bytes = bytes := by
      rw [← hdrop, List.take_append_drop]
    rw [List.append_nil, Chunk.sealed]
    exact ⟨rfl, rfl, hsealed.symm ▸ hlength, hsealed.symm⟩
  · rintro ⟨rfl, rfl, rfl, rfl⟩
    have hsize : c.sealed.length - Aead.tagSize = c.ciphertext.length := by
      rw [Chunk.length_sealed, Aead.tagSize, Nat.add_sub_cancel]
    refine ⟨c.sealed, c.sealed, [], ⟨rfl, rfl⟩, ⟨rfl, c.tag, ?_, ?_⟩, (List.append_nil _).symm⟩
    · rw [hsize, Chunk.sealed, List.drop_left]
    · rw [hsize, Chunk.sealed, List.take_left]

/-- A chunk is read as the frame of it that stands there. -/
theorem reads_readChunk (n index : Nat) :
    Reads (readChunk n index) fun front c =>
      ∃ f : Frame, f.chunk = c ∧ f.Fits n index ∧ front = f.octets := by
  have h := (reads_readIndex index).bind fun _ => (reads_readFlags index).bind fun flags =>
    (reads_length "chunk").bind fun length =>
      Reads.lift_bind fun _ (_ : checkChunkLength n index length = .ok _) =>
        reads_sealed index flags length s!"chunk {index}"
  refine (h : Reads (readChunk n index) _).congr fun front c => ?_
  constructor
  · rintro ⟨_, _, _, ⟨rfl, hindex⟩, ⟨_, _, _, ⟨rfl, hflags⟩, ⟨_, _, _, ⟨width, hholds, rfl⟩,
      ⟨_, hcheck, rfl, rfl, rfl, rfl⟩, rfl⟩, rfl⟩, rfl⟩
    have hlength := (checkChunkLength_eq_ok_iff.1 hcheck).2
    rw [Chunk.length_sealed] at hlength
    exact ⟨⟨c, width⟩, rfl, ⟨rfl, hindex, hflags, by simpa using hlength, hholds⟩, rfl⟩
  · rintro ⟨f, rfl, hfits, rfl⟩
    have hlength := hfits.length_le
    have hcheck : checkChunkLength n index f.chunk.sealed.length = .ok () := by
      rw [checkChunkLength_eq_ok_iff, Chunk.length_sealed]
      omega
    exact ⟨_, (), _, ⟨by rw [hfits.index_eq], hfits.index_lt⟩,
      ⟨[_], _, _, ⟨rfl, hfits.flags⟩,
        ⟨_, _, _, ⟨f.width, hfits.holds, rfl⟩,
          ⟨(), hcheck, hfits.index_eq, rfl, rfl, rfl⟩, rfl⟩, rfl⟩, rfl⟩

/-! ## Opening -/

/-- Reads a chunk and verifies it, whether or not the caller has cancelled. -/
def verifyNext (ctx : Context) (n index : Nat) : Intake (Chunk × Bytes) := do
  let chunk ← readChunk n index
  match ctx.open? chunk with
  | some plaintext => return (chunk, plaintext)
  | none => throw .decryptionFailed

theorem openNext_apply :
    openNext ctx n cancelled index s
      = if cancelled ⟨index, s.taken⟩ then .error .cancelled else verifyNext ctx n index s := by
  rw [openNext, state_bind_apply, checkCancelled_apply]
  split_ifs <;> rfl

theorem reads_verifyNext (ctx : Context) (n index : Nat) :
    Reads (verifyNext ctx n index) fun front opened =>
      ∃ f : Frame, f.chunk = opened.1 ∧ f.Fits n index ∧ ctx.open? f.chunk = some opened.2
        ∧ front = f.octets := by
  have hverify (c : Chunk) :
      Reads (match ctx.open? c with
        | some plaintext => pure (c, plaintext)
        | none => throw .decryptionFailed : Intake (Chunk × Bytes))
        fun front opened => front = [] ∧ c = opened.1 ∧ ctx.open? c = some opened.2 := by
    cases hopen : ctx.open? c with
    | some piece => exact (Reads.pure (c, piece)).congr fun front opened => by simp [Prod.ext_iff]
    | none => exact (Reads.fail fun _ => rfl).congr fun front opened => by simp
  refine ((reads_readChunk n index).bind hverify).congr fun front opened => ?_
  constructor
  · rintro ⟨_, _, _, ⟨f, rfl, hfits, rfl⟩, ⟨rfl, hc, hopen⟩, rfl⟩
    exact ⟨f, hc, hfits, hopen, List.append_nil _⟩
  · rintro ⟨f, hc, hfits, hopen, rfl⟩
    exact ⟨_, _, [], ⟨f, rfl, hfits, rfl⟩, ⟨rfl, hc, hopen⟩, (List.append_nil _).symm⟩

/-- A frame that a run accepts with `taken` octets read so far, and the piece it opens to. -/
structure Frame.OpensAt (f : Frame) (ctx : Context) (n : Nat) (cancelled : Checkpoint → Bool)
    (index taken : Nat) (piece : Bytes) : Prop where
  not_cancelled : cancelled ⟨index, taken⟩ = false
  fits : f.Fits n index
  open?_eq : ctx.open? f.chunk = some piece

/-- What is accepted next is a frame at the front of the source. -/
theorem exists_frame_of_openNext (h : openNext ctx n cancelled index s = .ok ((c, piece), s')) :
    ∃ f : Frame, f.chunk = c ∧ f.OpensAt ctx n cancelled index s.taken piece
      ∧ s.Leaves f.octets s' := by
  rw [openNext_apply] at h
  split_ifs at h with hcancelled
  obtain ⟨_, ⟨f, hc, hfits, hopen, rfl⟩, hleaves⟩ := (reads_verifyNext ctx n index).sound h
  exact ⟨f, hc, ⟨Bool.not_eq_true _ ▸ hcancelled, hfits, hopen⟩, hleaves⟩

namespace Frame.OpensAt

variable {f : Frame}

/-- A frame that opens is accepted at the front of a source, whatever follows. -/
theorem exists_openNext {rest : Bytes} (h : f.OpensAt ctx n cancelled index s.taken piece)
    (hbytes : s.bytes = f.octets ++ rest) :
    ∃ s', openNext ctx n cancelled index s = .ok ((f.chunk, piece), s')
      ∧ s.Leaves f.octets s' := by
  rw [openNext_apply, h.not_cancelled]
  exact (reads_verifyNext ctx n index).complete ⟨f, rfl, h.fits, h.open?_eq, rfl⟩ hbytes

/-- A source that ends within a frame that opens is truncated. -/
theorem truncated {lost : Bytes} (h : f.OpensAt ctx n cancelled index s.taken piece)
    (hbytes : s.bytes ++ lost = f.octets) (hlost : lost ≠ []) (hending : s.ending = .finished) :
    Intake.Truncated (openNext ctx n cancelled index s) := by
  have hverify : Intake.Truncated (verifyNext ctx n index s) :=
    (reads_verifyNext ctx n index).cut (a := (f.chunk, piece)) ⟨f, rfl, h.fits, h.open?_eq, rfl⟩
      hbytes hlost hending
  rw [openNext_apply, h.not_cancelled]
  exact hverify

end Frame.OpensAt

end SealedEnvelope.Stream
