import Mathlib.Data.List.Infix
import SealedEnvelope.Proofs.Stream.RoundTrip

set_option autoImplicit false

/-! # Streams that are cut short or run on

An accepted stream tells where it ends. Wherever it is cut, in a length, in the header, within a
frame or between two of them, decryption reports truncation and has released what the frames before
the cut open to (`Layout.Opens.decryptFor_cut`); and whatever follows it is refused. So no accepted
stream starts another (`decrypt_prefix_free`). -/

namespace SealedEnvelope.Stream

variable {config : Config} {privateKey : Bytes} {key : PrivateKey} {id : Option Bytes}
  {input : Source} {sink : Sink} {options : Options} {summary : Summary} {n index fuel : Nat}
  {cancelled : Checkpoint → Bool} {s : Source} {ctx : Context} {frames : List Frame}
  {pieces : List Bytes} {lost : Bytes}

/-! ## The loop -/

/-- The number of frames that stand whole at the front of some octets. -/
structure Whole (frames : List Frame) (bytes : Bytes) (count : Nat) : Prop where
  lt : count < frames.length
  front : (frames.take count).flatMap Frame.octets <+: bytes
  cut : ¬(frames.take (count + 1)).flatMap Frame.octets <+: bytes

theorem Whole.zero {f : Frame} {bytes : Bytes} (hbytes : bytes ++ lost = f.octets)
    (hlost : lost ≠ []) : Whole (f :: frames) bytes 0 := by
  refine ⟨by simp, List.nil_prefix, ?_⟩
  intro hfront
  have hlength := hfront.length_le
  have hpos := List.length_pos_iff.2 hlost
  rw [List.take_succ_cons, List.flatMap_cons, List.length_append, ← hbytes, List.length_append]
    at hlength
  omega

theorem Whole.succ {f : Frame} {rest : Bytes} {count : Nat} (h : Whole frames rest count) :
    Whole (f :: frames) (f.octets ++ rest) (count + 1) := by
  refine ⟨by simpa using h.lt, ?_, ?_⟩
  · rw [List.take_succ_cons, List.flatMap_cons]
    exact (List.prefix_append_right_inj _).2 h.front
  · rw [List.take_succ_cons, List.flatMap_cons, List.prefix_append_right_inj]
    exact h.cut

theorem flatMap_take_mono (frames : List Frame) {i j : Nat} (h : i ≤ j) :
    (frames.take i).flatMap Frame.octets <+: (frames.take j).flatMap Frame.octets :=
  (List.take_prefix_take_left h).flatMap _

/-- The whole frames are those before the cut. -/
theorem Whole.prefix_iff {bytes : Bytes} {count i : Nat} (h : Whole frames bytes count) :
    (frames.take (i + 1)).flatMap Frame.octets <+: bytes ↔ i < count := by
  constructor
  · intro hfront
    by_contra hle
    exact h.cut ((flatMap_take_mono frames (by omega)).trans hfront)
  · intro hlt
    exact (flatMap_take_mono frames hlt).trans h.front

/-- A source that ends within frames that open is read up to the one that it cuts. -/
theorem OpensFrom.openFrom_cut (h : OpensFrom ctx n cancelled index s.taken frames pieces)
    (hbytes : s.bytes ++ lost = frames.flatMap Frame.octets) (hlost : lost ≠ [])
    (hending : s.ending = .finished) (hfuel : s.bytes.length < fuel) :
    ∃ count reason, Whole frames s.bytes count
      ∧ openFrom ctx n cancelled fuel index s
        = ⟨(pieces.take count).map openedPortion, .error (.streamTruncated reason)⟩ := by
  -- Induction on the frames: the cut is in the first, or the first is read and passed over.
  generalize htaken : s.taken = taken at h
  induction h generalizing s fuel with
  | @last index taken f piece hopens hfinal =>
    obtain ⟨fuel, rfl⟩ := Nat.exists_eq_add_of_lt hfuel
    subst htaken
    rw [List.flatMap_singleton] at hbytes
    obtain ⟨reason, hnext⟩ := hopens.truncated hbytes hlost hending
    exact ⟨0, reason, .zero hbytes hlost, openFrom_of_error hnext⟩
  | @next index taken f piece frames pieces hopens hfinal hnumber _ ih =>
    obtain ⟨fuel, rfl⟩ := Nat.exists_eq_add_of_lt hfuel
    subst htaken
    rw [List.flatMap_cons] at hbytes
    rcases Intake.cut_append hbytes with ⟨lost', hlost', hfirst⟩ | ⟨rest, hrest, hsecond⟩
    · obtain ⟨reason, hnext⟩ := hopens.truncated hfirst hlost' hending
      exact ⟨0, reason, .zero hfirst hlost', openFrom_of_error hnext⟩
    · obtain ⟨s', hnext, hleaves⟩ := hopens.exists_openNext hrest
      have hleft := hleaves.bytes_eq hrest
      rw [← hleft] at hsecond
      have hshorter : s'.bytes.length < s.bytes.length + fuel := by
        have hpos := List.length_pos_iff.2 f.octets_ne_nil
        rw [hrest, List.length_append, hleft]
        omega
      obtain ⟨count, reason, hwhole, hrun⟩ :=
        ih hsecond (hleaves.ending.trans hending) hshorter hleaves.taken
      refine ⟨count + 1, reason, ?_, ?_⟩
      · rw [hrest, ← hleft]
        exact hwhole.succ
      · rw [openFrom_of_next hnext hfinal, if_pos hnumber, hrun]
        rfl

/-! ## Whole streams -/

namespace Layout

/-- The octets of a stream up to a number of frames. -/
def upTo (l : Layout) (count : Nat) : Bytes :=
  l.opening ++ (l.frames.take count).flatMap Frame.octets

/-- An input that ends within a layout that opens is truncated, and what the whole frames open to is
    released, if the sink takes all that the layout opens to. -/
theorem Opens.decryptFor_cut {layout : Layout} {streamKey : Octets 32}
    (h : layout.Opens config key id options.cancelled input.taken streamKey pieces)
    (hreleased : ((Run.mk (pieces.map openedPortion) (.ok ())).release sink
      options.withhold).outcome = .ok ())
    (hbytes : input.bytes ++ lost = layout.octets) (hlost : lost ≠ [])
    (hending : input.ending = .finished) :
    ∃ count reason, (decryptFor config key id input sink options).outcome
        = .error (.streamTruncated reason)
      ∧ (∀ i < layout.frames.length, layout.upTo (i + 1) <+: input.bytes ↔ i < count)
      ∧ (options.withhold = false →
        (decryptFor config key id input sink options).written = (pieces.take count).flatten) := by
  rcases Intake.cut_append hbytes with ⟨lost', hlost', hfirst⟩ | ⟨rest, hrest, hsecond⟩
  · obtain ⟨reason, hopen⟩ := h.opening.truncated hfirst hlost' hending
    have hshort : input.bytes.length < layout.opening.length := by
      have hlength := congrArg List.length hfirst
      have hpos := List.length_pos_iff.2 hlost'
      rw [List.length_append] at hlength
      omega
    rw [decryptFor, hopen]
    refine ⟨0, reason, rfl, ?_, fun _ => rfl⟩
    intro i _
    simp only [Nat.not_lt_zero, iff_false]
    intro hfront
    have hle := hfront.length_le
    rw [upTo, List.length_append] at hle
    omega
  · obtain ⟨opened, hopen, -, hleft, hending', hframes⟩ := h.exists_openHeader hrest
    rw [← hleft] at hsecond
    obtain ⟨count, reason, hwhole, hrun⟩ := hframes.openFrom_cut hsecond hlost
      (hending'.trans hending) (Nat.lt_succ_self opened.source.bytes.length)
    rw [decryptFor_of_openHeader hopen, Opened.run, hrun]
    obtain ⟨houtcome, hwritten⟩ := report_of_first_pieces hreleased (List.take_prefix count pieces)
    refine ⟨count, reason, houtcome, ?_, hwritten⟩
    intro i _
    rw [hrest, ← hleft, upTo, List.prefix_append_right_inj]
    exact hwhole.prefix_iff

end Layout

/-- **No accepted stream starts another.** An accepted stream is a header and frames, and what is
    written is what they open to. If anything of it is missing at the end, decryption reports
    truncation, and unless the plaintext is withheld it has written what those frames open to that
    are there as a whole. If anything follows it, decryption reports that. -/
theorem decrypt_prefix_free
    (hok : (decrypt config privateKey id input sink options).outcome = .ok summary) :
    ∃ key layout streamKey pieces, PrivateKey.ofBytes privateKey = .ok key
      ∧ Layout.Opens layout config key id options.cancelled input.taken streamKey pieces
      ∧ input.bytes = layout.octets
      ∧ (decrypt config privateKey id input sink options).written = pieces.flatten
      ∧ (∀ (input' : Source) (lost : Bytes), input'.bytes ++ lost = input.bytes → lost ≠ [] →
        input'.ending = .finished → input'.taken = input.taken →
        ∃ count reason, (decrypt config privateKey id input' sink options).outcome
            = .error (.streamTruncated reason)
          ∧ (∀ i < layout.frames.length, layout.upTo (i + 1) <+: input'.bytes ↔ i < count)
          ∧ (options.withhold = false →
            (decrypt config privateKey id input' sink options).written
                = (pieces.take count).flatten
              ∧ (decrypt config privateKey id input' sink options).written
                <+: (decrypt config privateKey id input sink options).written))
      ∧ ∀ (input' : Source) (more : Bytes), input'.bytes = input.bytes ++ more → more ≠ [] →
        input'.taken = input.taken →
        (decrypt config privateKey id input' sink options).outcome = .error .trailingData := by
  obtain ⟨key, layout, streamKey, pieces, hkey, hopens, hbytes, hending, hreleased⟩ :=
    exists_layout_of_decrypt hok
  simp only [decrypt_of_ofBytes hkey]
  have hwritten : (decryptFor config key id input sink options).written = pieces.flatten := by
    obtain ⟨s', hs', hending', hdecrypt⟩ :=
      hopens.decryptFor_eq sink (hbytes.trans (List.append_nil _).symm)
    rw [hdecrypt, checkEnd_of_finished hs' (hending'.trans hending)]
    exact (report_of_pieces hreleased).1
  refine ⟨key, layout, streamKey, pieces, hkey, hopens, hbytes, hwritten, ?_, ?_⟩
  · intro input' lost hinput' hlost hfinished htaken
    rw [← htaken] at hopens
    obtain ⟨count, reason, houtcome, hwhole, hfirst⟩ :=
      hopens.decryptFor_cut hreleased (hinput'.trans hbytes) hlost hfinished
    refine ⟨count, reason, houtcome, hwhole, fun hwithhold => ⟨hfirst hwithhold, ?_⟩⟩
    rw [hfirst hwithhold, hwritten]
    exact (List.take_prefix count pieces).flatten
  · intro input' more hinput' hmore htaken
    rw [← htaken] at hopens
    rw [hbytes] at hinput'
    obtain ⟨s', hs', -, hdecrypt⟩ := hopens.decryptFor_eq sink hinput'
    rw [← hs'] at hmore
    rw [hdecrypt, checkEnd_of_ne_nil hmore]
    exact (report_of_first_pieces hreleased (List.prefix_refl pieces)).1

/-- A stream of two chunks, wherever it is cut and whatever follows it. -/
theorem decrypt_prefix_free_two_chunks :
    let key : PrivateKey := ⟨2, by decide, by decide⟩
    ∃ (bytes : Bytes) (summary : Summary), summary.chunks = 2
      ∧ (decrypt .standard key.octets.bytes none (.ofBytes bytes) .unlimited .none).outcome
        = .ok summary
      ∧ (∀ front lost, front ++ lost = bytes → lost ≠ [] → ∃ reason,
        (decrypt .standard key.octets.bytes none (.ofBytes front) .unlimited .none).outcome
          = .error (.streamTruncated reason))
      ∧ ∀ more, more ≠ [] →
        (decrypt .standard key.octets.bytes none (.ofBytes (bytes ++ more)) .unlimited
          .none).outcome = .error .trailingData := by
  intro key
  let established : Established := .forOne key ⟨1, by decide, by decide⟩ (.zero 16) 2
  let layout := Layout.narrow established.header (established.chunks [1, 2, 3])
  have hopens : layout.Opens .standard key none Options.none.cancelled 0 established.key
      (cut 2 [1, 2, 3]) :=
    Established.opens_forOne _ _ _ _ none _ (fun _ => rfl) (by decide) (by decide) (by decide) 0
  have hok : (decrypt .standard key.octets.bytes none (.ofBytes layout.octets) .unlimited
      .none).outcome = .ok ⟨.single, 2, 3⟩ := by
    rw [decrypt_of_ofBytes (PrivateKey.ofBytes_octets key)]
    exact (hopens.decryptFor_unlimited (Source.bytes_ofBytes _) rfl).2
  obtain ⟨_, _, _, pieces, -, -, -, -, hcut, hmore⟩ := decrypt_prefix_free hok
  refine ⟨layout.octets, _, rfl, hok, ?_, ?_⟩
  · intro front lost hfront hlost
    obtain ⟨_, reason, htruncated, -⟩ := hcut (.ofBytes front) lost (by simpa using hfront) hlost
      rfl (by simp)
    exact ⟨reason, htruncated⟩
  · intro more hne
    exact hmore (.ofBytes (layout.octets ++ more)) more (by simp) hne (by simp)

end SealedEnvelope.Stream
