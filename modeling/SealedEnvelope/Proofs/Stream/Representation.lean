import SealedEnvelope.Proofs.Stream.Integrity

set_option autoImplicit false

/-! # How far its parts determine a stream

A header and chunks can be written in more than one way: the lengths between them are covered
neither by the hash of the header nor by the tag of a chunk, and are read in every width that holds
them. So an accepted stream is determined by its header, its chunks and the widths
(`decrypt_determined_by_widths`). What is written back in the narrowest widths is the stream itself
only if it came in those, and `wide_length_accepted` is a stream that did not. -/

namespace SealedEnvelope.Stream

variable {config : Config} {privateKey : Bytes} {key : PrivateKey} {id : Option Bytes}
  {input : Source} {sink : Sink} {options : Options} {summary : Summary}
  {n index taken fuel : Nat} {cancelled : Checkpoint → Bool} {s : Source} {ctx : Context}
  {f f' : Frame} {frames frames' : List Frame} {pieces : List Bytes} {rest rest' : Bytes}

/-! ## The parts of a layout -/

namespace Layout

/-- The chunks of a stream. -/
def chunks (l : Layout) : List Chunk := l.frames.map Frame.chunk

/-- The widths of all lengths in a stream, the header's first. -/
def widths (l : Layout) : List LengthPrefix.Width := l.width :: l.frames.map Frame.width

/-- Every length is in a width that holds it. -/
structure Holds (l : Layout) : Prop where
  header : l.width.Holds l.header.octets.length
  frames : ∀ f ∈ l.frames, f.width.Holds f.chunk.sealed.length

/-- Every length is in the narrowest width. -/
structure Narrow (l : Layout) : Prop where
  header : l.width = LengthPrefix.Width.ofLength l.header.octets.length
  frames : ∀ f ∈ l.frames, f.width = LengthPrefix.Width.ofLength f.chunk.sealed.length

@[simp] theorem chunks_narrow (header : Header) (chunks : List Chunk) :
    (narrow header chunks).chunks = chunks := by
  rw [Layout.chunks, narrow, List.map_map]
  exact List.map_id chunks

theorem Narrow.eq_narrow {l : Layout} (h : l.Narrow) : l = narrow l.header l.chunks := by
  obtain ⟨header, width, frames⟩ := l
  obtain ⟨hheader, hframes⟩ := h
  simp only at hheader hframes
  have hmap : (frames.map Frame.chunk).map Frame.narrow = frames := by
    rw [List.map_map]
    refine (List.map_congr_left fun f hf => ?_).trans (List.map_id frames)
    simp only [Function.comp_apply, Frame.narrow, ← hframes f hf, id]
  rw [narrow, chunks, hmap, hheader]

end Layout

/-! ## From octets to widths -/

/-- The octets of a chunk tell in which width its length is. -/
theorem Frame.octets_append_inj (hchunk : f.chunk = f'.chunk)
    (h : f.octets ++ rest = f'.octets ++ rest') : f = f' ∧ rest = rest' := by
  obtain ⟨c, width⟩ := f
  obtain ⟨c', width'⟩ := f'
  obtain rfl : c = c' := hchunk
  have hwidth : width = width' := by
    simp only [octets, List.append_assoc] at h
    have hbehind := List.append_cancel_left h
    simp only [List.cons_append, LengthPrefix.octetsIn, List.cons.injEq, true_and] at hbehind
    exact LengthPrefix.Width.tag_inj hbehind.1
  subst hwidth
  exact ⟨rfl, List.append_cancel_left h⟩

theorem frames_eq_of_octets_eq (hchunks : frames.map Frame.chunk = frames'.map Frame.chunk)
    (h : frames.flatMap Frame.octets = frames'.flatMap Frame.octets) : frames = frames' := by
  induction frames generalizing frames' with
  | nil => exact (List.map_eq_nil_iff.1 hchunks.symm).symm
  | cons f frames ih =>
    cases frames' with
    | nil => cases hchunks
    | cons f' frames' =>
      rw [List.map_cons, List.map_cons] at hchunks
      rw [List.flatMap_cons, List.flatMap_cons] at h
      obtain ⟨hchunk, hrest⟩ := List.cons.inj hchunks
      obtain ⟨rfl, hoctets⟩ := Frame.octets_append_inj hchunk h
      rw [ih hrest hoctets]

theorem zipWith_frames (frames : List Frame) :
    List.zipWith Frame.mk (frames.map Frame.chunk) (frames.map Frame.width) = frames := by
  simp [List.zipWith_map]

/-- Of one header and the same chunks, what is written differs exactly if a width does. -/
theorem Layout.octets_eq_iff {l l' : Layout} (hheader : l.header = l'.header)
    (hchunks : l.chunks = l'.chunks) : l.octets = l'.octets ↔ l.widths = l'.widths := by
  obtain ⟨header, width, frames⟩ := l
  obtain ⟨header', width', frames'⟩ := l'
  obtain rfl : header = header' := hheader
  constructor
  · intro h
    simp only [octets, opening, Header.openingIn, LengthPrefix.octetsIn, List.cons_append,
      List.cons.injEq] at h
    obtain rfl := LengthPrefix.Width.tag_inj h.1
    obtain rfl := frames_eq_of_octets_eq hchunks (List.append_cancel_left h.2)
    rfl
  · intro h
    obtain ⟨hwidth, hwidths⟩ := List.cons.inj h
    obtain rfl : width = width' := hwidth
    have hframes : frames = frames' := by
      rw [← zipWith_frames frames, ← zipWith_frames frames']
      exact congrArg₂ (List.zipWith Frame.mk) hchunks hwidths
    rw [hframes]

theorem Layout.octets_ne_of_width_ne (l : Layout) {width : LengthPrefix.Width}
    (h : width ≠ l.width) : Layout.octets { l with width } ≠ l.octets := by
  intro hoctets
  have hheader : Layout.header { l with width } = l.header := rfl
  have hchunks : Layout.chunks { l with width } = l.chunks := rfl
  exact h (List.cons.inj ((octets_eq_iff hheader hchunks).1 hoctets)).1

/-! ## Other widths -/

theorem OpensFrom.holds (h : OpensFrom ctx n cancelled index taken frames pieces) :
    ∀ f ∈ frames, f.width.Holds f.chunk.sealed.length := by
  induction h with
  | last hopens _ => exact List.forall_mem_singleton.2 hopens.fits.holds
  | next hopens _ _ _ ih => exact List.forall_mem_cons.2 ⟨hopens.fits.holds, ih⟩

theorem Frame.OpensAt.reframe {piece : Bytes} (h : f.OpensAt ctx n cancelled index taken piece)
    (hcancelled : ∀ c, cancelled c = false) (hchunk : f'.chunk = f.chunk)
    (hholds : f'.width.Holds f'.chunk.sealed.length) (taken' : Nat) :
    f'.OpensAt ctx n cancelled index taken' piece := by
  obtain ⟨c', width'⟩ := f'
  obtain rfl : c' = f.chunk := hchunk
  obtain ⟨-, hfits, hopen⟩ := h
  exact ⟨hcancelled _, { hfits with holds := hholds }, hopen⟩

/-- In other widths the chunks open to the same, unless the caller cancels. -/
theorem OpensFrom.reframe (h : OpensFrom ctx n cancelled index taken frames pieces)
    (hcancelled : ∀ c, cancelled c = false)
    (hchunks : frames'.map Frame.chunk = frames.map Frame.chunk)
    (hholds : ∀ f ∈ frames', f.width.Holds f.chunk.sealed.length) (taken' : Nat) :
    OpensFrom ctx n cancelled index taken' frames' pieces := by
  induction h generalizing frames' taken' with
  | last hopens hfinal =>
    obtain ⟨f', rest, rfl, hchunk, hrest⟩ := List.map_eq_cons_iff.1 hchunks
    obtain rfl := List.map_eq_nil_iff.1 hrest
    have hholds' := List.forall_mem_singleton.1 hholds
    exact .last (hopens.reframe hcancelled hchunk hholds' taken') (hchunk ▸ hfinal)
  | next hopens hfinal hnumber _ ih =>
    obtain ⟨f', rest, rfl, hchunk, hrest⟩ := List.map_eq_cons_iff.1 hchunks
    obtain ⟨hholds', hothers⟩ := List.forall_mem_cons.1 hholds
    exact .next (hopens.reframe hcancelled hchunk hholds' taken') (hchunk ▸ hfinal) hnumber
      (ih hrest hothers _)

/-- The chunks that a run verifies are those of the frames that open. -/
theorem OpensFrom.acceptedFrom_eq (h : OpensFrom ctx n cancelled index s.taken frames pieces)
    (hbytes : s.bytes = frames.flatMap Frame.octets ++ rest) (hfuel : frames.length ≤ fuel) :
    acceptedFrom ctx n cancelled fuel index s = frames.map Frame.chunk := by
  generalize htaken : s.taken = taken at h
  induction h generalizing s fuel with
  | @last index taken f piece hopens hfinal =>
    obtain ⟨fuel, rfl⟩ := Nat.exists_eq_add_of_le' hfuel
    subst htaken
    rw [List.flatMap_singleton] at hbytes
    obtain ⟨s', hnext, -⟩ := hopens.exists_openNext hbytes
    show acceptedFrom ctx n cancelled (fuel + 1) index s = [f.chunk]
    rw [acceptedFrom_of_ok hnext, if_pos (Or.inl hfinal)]
  | @next index taken f piece frames pieces hopens hfinal hnumber _ ih =>
    obtain ⟨fuel, rfl⟩ := Nat.exists_eq_add_of_le' (Nat.le_of_add_left_le hfuel)
    subst htaken
    rw [List.flatMap_cons, List.append_assoc] at hbytes
    obtain ⟨s', hnext, hleaves⟩ := hopens.exists_openNext hbytes
    have hrest :=
      ih (hleaves.bytes_eq hbytes) (Nat.le_of_succ_le_succ hfuel) hleaves.taken
    rw [acceptedFrom_of_ok hnext, if_neg (by simp [hfinal, hnumber]), hrest]
    rfl

namespace Layout.Opens

variable {layout other : Layout} {streamKey : Octets 32}

theorem holds (h : layout.Opens config key id cancelled taken streamKey pieces) : layout.Holds :=
  ⟨h.opening.holds, h.frames.holds⟩

/-- In other widths a layout opens to the same, unless the caller cancels. -/
theorem reframe (h : layout.Opens config key id cancelled taken streamKey pieces)
    (hcancelled : ∀ c, cancelled c = false) (hheader : other.header = layout.header)
    (hchunks : other.chunks = layout.chunks) (hholds : other.Holds) (taken' : Nat) :
    other.Opens config key id cancelled taken' streamKey pieces := by
  obtain ⟨header, width, frames⟩ := other
  obtain rfl : header = layout.header := hheader
  exact ⟨⟨h.opening.valid, hholds.header, h.opening.recoverKey_eq⟩,
    h.frames.reframe hcancelled hchunks hholds.frames _⟩

/-- What is opened of a layout at the front of an input, and verified of its chunks. -/
theorem exists_opened
    (h : layout.Opens config key id cancelled input.taken streamKey pieces)
    (hbytes : input.bytes = layout.octets) :
    ∃ opened, openHeader config key id input = .ok opened ∧ opened.header = layout.header
      ∧ opened.accepted cancelled = layout.chunks := by
  obtain ⟨opened, hopen, hheader, hleft, -, hframes⟩ := h.exists_openHeader hbytes
  refine ⟨opened, hopen, hheader, ?_⟩
  refine hframes.acceptedFrom_eq (hleft.trans (List.append_nil _).symm) ?_
  rw [hleft]
  exact (length_le_flatMap_octets layout.frames).trans (Nat.le_succ _)

/-- To a sink that takes everything, an input of just a layout that opens is decrypted well, and
    what is verified are its chunks. -/
theorem accepted
    (h : layout.Opens config key id options.cancelled input.taken streamKey pieces)
    (hbytes : input.bytes = layout.octets) (hending : input.ending = .finished) :
    (decrypt config key.octets.bytes id input .unlimited options).outcome
        = .ok ⟨layout.header.kind, pieces.length, pieces.flatten.length⟩
      ∧ ∃ opened, openHeader config key id input = .ok opened ∧ opened.header = layout.header
        ∧ opened.accepted options.cancelled = layout.chunks := by
  rw [decrypt_of_ofBytes (PrivateKey.ofBytes_octets key)]
  exact ⟨(h.decryptFor_unlimited hbytes hending).2, h.exists_opened hbytes⟩

end Layout.Opens

/-! ## Accepted streams -/

/-- **An accepted stream is determined up to the widths of its lengths.** It is its header and the
    chunks that are verified, the header and what is sealed in each chunk behind a length in a width
    that holds it, and so it is what is written back for them if all widths are the narrowest. Other
    widths give another stream, and unless the caller cancels that is decrypted to the same. -/
theorem decrypt_determined_by_widths
    (hok : (decrypt config privateKey id input sink options).outcome = .ok summary) :
    ∃ (key : PrivateKey) (opened : Opened) (layout : Layout),
      PrivateKey.ofBytes privateKey = .ok key ∧ openHeader config key id input = .ok opened
      ∧ layout.header = opened.header ∧ layout.chunks = opened.accepted options.cancelled
      ∧ layout.Holds ∧ input.bytes = layout.octets
      ∧ (layout.Narrow → input.bytes = opened.header.opening
        ++ (opened.accepted options.cancelled).flatMap Chunk.octets)
      ∧ ∀ other : Layout, other.header = opened.header →
        other.chunks = opened.accepted options.cancelled → other.Holds →
        (other.octets = input.bytes ↔ other.widths = layout.widths)
          ∧ ((∀ c, options.cancelled c = false) → ∀ input' : Source,
            input'.bytes = other.octets → input'.ending = .finished →
            decrypt config privateKey id input' sink options
              = decrypt config privateKey id input sink options) := by
  obtain ⟨key, layout, streamKey, pieces, hkey, hopens, hbytes, hending, -⟩ :=
    exists_layout_of_decrypt hok
  obtain ⟨opened, hopen, hheader, haccepted⟩ := hopens.exists_opened hbytes
  refine ⟨key, opened, layout, hkey, hopen, hheader.symm, haccepted.symm, hopens.holds, hbytes,
    ?_, ?_⟩
  · intro hnarrow
    rw [hbytes, hheader, haccepted, ← Layout.octets_narrow, ← hnarrow.eq_narrow]
  · intro other hheader' hchunks' hholds'
    rw [hheader] at hheader'
    rw [haccepted] at hchunks'
    refine ⟨?_, ?_⟩
    · rw [hbytes]
      exact Layout.octets_eq_iff hheader' hchunks'
    · intro hcancelled input' hbytes' hending'
      have hopens' := hopens.reframe hcancelled hheader' hchunks' hholds' input'.taken
      obtain ⟨t, ht, htending, hdecrypt⟩ :=
        hopens.decryptFor_eq sink (hbytes.trans (List.append_nil _).symm)
      obtain ⟨t', ht', htending', hdecrypt'⟩ :=
        hopens'.decryptFor_eq sink (hbytes'.trans (List.append_nil _).symm)
      rw [decrypt_of_ofBytes hkey, decrypt_of_ofBytes hkey, hdecrypt, hdecrypt', hheader',
        checkEnd_of_finished ht (htending.trans hending),
        checkEnd_of_finished ht' (htending'.trans hending')]

/-- A stream of two chunks, and the same with its header's length in eight octets. -/
theorem decrypt_determined_by_widths_eight_octets :
    let key : PrivateKey := ⟨2, by decide, by decide⟩
    ∃ (bytes other : Bytes) (summary : Summary), other ≠ bytes
      ∧ (decrypt .standard key.octets.bytes none (.ofBytes bytes) .unlimited .none).outcome
        = .ok summary
      ∧ decrypt .standard key.octets.bytes none (.ofBytes other) .unlimited .none
        = decrypt .standard key.octets.bytes none (.ofBytes bytes) .unlimited .none := by
  intro key
  let established : Established := .forOne key ⟨1, by decide, by decide⟩ (.zero 16) 2
  let layout := Layout.narrow established.header (established.chunks [1, 2, 3])
  have hopens : layout.Opens .standard key none Options.none.cancelled 0 established.key
      (cut 2 [1, 2, 3]) :=
    Established.opens_forOne _ _ _ _ none _ (fun _ => rfl) (by decide) (by decide) (by decide) 0
  have hnarrow : layout.width ≠ .eight := by
    show LengthPrefix.Width.ofLength established.header.octets.length ≠ .eight
    rw [Established.length_octets_forOne]
    decide
  obtain ⟨hok, opened, hopen, hheader, haccepted⟩ :=
    hopens.accepted (Source.bytes_ofBytes layout.octets) rfl
  obtain ⟨key', opened', found, hkey, hopen', -, -, -, -, -, hother⟩ :=
    decrypt_determined_by_widths hok
  obtain rfl : key = key' := Except.ok.inj ((PrivateKey.ofBytes_octets key).symm.trans hkey)
  obtain rfl : opened = opened' := Except.ok.inj (hopen.symm.trans hopen')
  let other : Layout := { layout with width := .eight }
  have hholds : other.Holds :=
    ⟨hopens.holds.header.eight, hopens.holds.frames⟩
  obtain ⟨-, hsame⟩ := hother other hheader.symm haccepted.symm hholds
  refine ⟨layout.octets, other.octets, _, layout.octets_ne_of_width_ne hnarrow.symm, hok, ?_⟩
  exact hsame (fun _ => rfl) (.ofBytes other.octets) (Source.bytes_ofBytes _) rfl

/-- A stream of two chunks whose header's length could have been written in fewer octets. It is
    accepted as the one in which it is so written, with the same header and the same chunks. -/
theorem wide_length_accepted :
    let key : PrivateKey := ⟨2, by decide, by decide⟩
    let established : Established := .forOne key ⟨1, by decide, by decide⟩ (.zero 16) 2
    let chunks := established.chunks [1, 2, 3]
    let narrow : Source := .ofBytes (established.header.opening ++ chunks.flatMap Chunk.octets)
    let wide : Source := .ofBytes (established.header.openingIn .two ++ chunks.flatMap Chunk.octets)
    (∀ input ∈ [narrow, wide],
      (decrypt .standard key.octets.bytes none input .unlimited .none).outcome
          = .ok ⟨.single, 2, 3⟩
        ∧ ∃ opened, openHeader .standard key none input = .ok opened
          ∧ opened.header = established.header ∧ opened.accepted Options.none.cancelled = chunks)
      ∧ wide.bytes ≠ narrow.bytes := by
  intro key established chunks narrow wide
  have hlength : established.header.octets.length = 54 := Established.length_octets_forOne ..
  let layout := Layout.narrow established.header chunks
  let wider : Layout := { layout with width := .two }
  have hcancelled : ∀ c, Options.none.cancelled c = false := fun _ => rfl
  have hopens : layout.Opens .standard key none Options.none.cancelled 0 established.key
      (cut 2 [1, 2, 3]) :=
    Established.opens_forOne _ _ _ _ none _ hcancelled (by decide) (by decide) (by decide) 0
  have hchunks : layout.chunks = chunks := Layout.chunks_narrow ..
  have hholds : wider.Holds := by
    refine ⟨?_, hopens.holds.frames⟩
    show LengthPrefix.Width.two.Holds established.header.octets.length
    rw [hlength]
    exact ⟨by decide, by decide⟩
  have hopens' := hopens.reframe hcancelled (rfl : wider.header = _) rfl hholds 0
  have hnarrow : narrow.bytes = layout.octets := by
    rw [Source.bytes_ofBytes, Layout.octets_narrow]
  have hwide : wide.bytes = wider.octets := by
    rw [Source.bytes_ofBytes, Layout.octets, ← flatMap_octets_narrow]
    rfl
  refine ⟨?_, ?_⟩
  · refine List.forall_mem_cons.2 ⟨?_, List.forall_mem_singleton.2 ?_⟩
    · rw [← hchunks]
      exact hopens.accepted hnarrow rfl
    · rw [← hchunks]
      exact hopens'.accepted hwide rfl
  · rw [hnarrow, hwide]
    refine layout.octets_ne_of_width_ne ?_
    show LengthPrefix.Width.two ≠ LengthPrefix.Width.ofLength established.header.octets.length
    rw [hlength]
    decide

end SealedEnvelope.Stream
