import SealedEnvelope.Proofs.Stream.Frame

set_option autoImplicit false

/-! # What decryption reads

`OpensFrom` says which frames a run accepts one after the other, and what they open to. A run that
ends well has read just such frames (`exists_opensFrom`), and a source that starts with such frames
is read to the last of them whatever follows (`OpensFrom.openFrom_eq`). The chunks of a payload are
such frames, written in the narrowest widths, and open to its pieces (`opensFrom_closeChunks`). -/

namespace SealedEnvelope.Stream

variable {n index taken fuel : Nat} {cancelled : Checkpoint → Bool} {s s' : Source}
  {ctx : Context} {f : Frame} {c : Chunk} {piece rest : Bytes} {frames : List Frame}
  {pieces : List Bytes}

/-! ## The loop, step by step -/

/-- A piece of the payload as a portion of the output. -/
def openedPortion (piece : Bytes) : Portion := ⟨piece, piece.length⟩

theorem plainOf_openedPortion (pieces : List Bytes) :
    plainOf (pieces.map openedPortion) = pieces.flatten.length := by
  induction pieces with
  | nil => rfl
  | cons piece rest ih =>
    rw [List.map_cons, plainOf, ih, List.flatten_cons, List.length_append]
    rfl

theorem flatten_openedPortion (pieces : List Bytes) :
    ((pieces.map openedPortion).map (·.octets)).flatten = pieces.flatten := by
  rw [List.map_map]
  exact congrArg List.flatten (List.map_id' pieces)

/-- Nothing is behind the end of a source that is finished. -/
theorem checkEnd_of_finished (hbytes : s.bytes = []) (hending : s.ending = .finished) :
    Prod.fst <$> checkEnd s = .ok () := by
  have hread := Intake.fill_eq (n := 1) (Or.inr hending)
  rw [hbytes, List.take_nil] at hread
  rw [checkEnd, state_bind_apply, hread]
  rfl

/-- What is behind the end is refused, whether or not the source is finished. -/
theorem checkEnd_of_ne_nil (hbytes : s.bytes ≠ []) :
    Prod.fst <$> checkEnd s = .error .trailingData := by
  have hlong : 1 ≤ s.bytes.length := List.length_pos_iff.2 hbytes
  have hne : s.bytes.take 1 ≠ [] := by simpa using hbytes
  rw [checkEnd, state_bind_apply, Intake.fill_eq (Or.inl hlong)]
  simp only [bind, Except.bind, if_pos hne]
  rfl

/-- Where the end is reached, the source is exhausted and finished. -/
theorem exhausted_of_checkEnd (h : Prod.fst <$> checkEnd s = .ok ()) :
    s.bytes = [] ∧ s.ending = .finished := by
  have hbytes : s.bytes = [] := by
    by_contra hne
    rw [checkEnd_of_ne_nil hne] at h
    cases h
  refine ⟨hbytes, ?_⟩
  cases hread : Intake.fill 1 s with
  | error e =>
    rw [checkEnd, state_bind_apply, hread] at h
    cases h
  | ok result =>
    obtain ⟨hending, -⟩ := Intake.fill_eq_ok_iff.1 hread
    simpa [hbytes] using hending

/-- A last chunk ends the run, well if nothing is behind it. -/
theorem openFrom_of_final
    (h : openNext ctx n cancelled index s = .ok ((c, piece), s')) (hfinal : c.isFinal = true) :
    openFrom ctx n cancelled (fuel + 1) index s
      = .cons (openedPortion piece) (.ending (Prod.fst <$> checkEnd s')) := by
  rw [openFrom]
  simp only [h, hfinal, if_true, openedPortion]

/-- Behind any other chunk the next number is expected, if there is one. -/
theorem openFrom_of_next
    (h : openNext ctx n cancelled index s = .ok ((c, piece), s')) (hfinal : c.isFinal = false) :
    openFrom ctx n cancelled (fuel + 1) index s
      = .cons (openedPortion piece)
          (if index < lastIndex then openFrom ctx n cancelled fuel (index + 1) s'
          else .ending (.error (.lengthTooLong (lastIndex + 1) lastIndex))) := by
  rw [openFrom]
  simp only [h, hfinal, openedPortion, nextIndex, Bool.false_eq_true, if_false]
  split_ifs <;> rfl

theorem openFrom_of_error {e : Error} (h : openNext ctx n cancelled index s = .error e) :
    openFrom ctx n cancelled (fuel + 1) index s = .ending (.error e) := by
  rw [openFrom]
  simp only [h]

/-! ## The loop as a whole -/

/-- Frames that a run accepts from number `index` on, with `taken` octets read before them, up to
    the one that is marked as the last, and the pieces that they open to. -/
inductive OpensFrom (ctx : Context) (n : Nat) (cancelled : Checkpoint → Bool) :
    (index taken : Nat) → List Frame → List Bytes → Prop
  | last {index taken : Nat} {f : Frame} {piece : Bytes} :
    f.OpensAt ctx n cancelled index taken piece → f.chunk.isFinal = true →
    OpensFrom ctx n cancelled index taken [f] [piece]
  | next {index taken : Nat} {f : Frame} {piece : Bytes} {frames : List Frame}
      {pieces : List Bytes} :
    f.OpensAt ctx n cancelled index taken piece → f.chunk.isFinal = false → index < lastIndex →
    OpensFrom ctx n cancelled (index + 1) (taken + f.octets.length) frames pieces →
    OpensFrom ctx n cancelled index taken (f :: frames) (piece :: pieces)

/-- A run that ends well has accepted all that the source held. -/
theorem exists_opensFrom (hok : (openFrom ctx n cancelled fuel index s).outcome = .ok ()) :
    ∃ frames pieces, OpensFrom ctx n cancelled index s.taken frames pieces
      ∧ s.bytes = frames.flatMap Frame.octets ∧ s.ending = .finished
      ∧ openFrom ctx n cancelled fuel index s = ⟨pieces.map openedPortion, .ok ()⟩ := by
  -- Induction on the fuel, along the chunks that the run accepts.
  induction fuel generalizing index s with
  | zero => cases hok
  | succ fuel ih =>
    cases hnext : openNext ctx n cancelled index s with
    | error e =>
      rw [openFrom_of_error hnext] at hok
      cases hok
    | ok result =>
      obtain ⟨⟨c, piece⟩, s'⟩ := result
      obtain ⟨f, rfl, hopens, hleaves⟩ := exists_frame_of_openNext hnext
      cases hfinal : f.chunk.isFinal with
      | true =>
        rw [openFrom_of_final hnext hfinal] at hok ⊢
        have hcheck : Prod.fst <$> checkEnd s' = .ok () := hok
        obtain ⟨hbytes, hending⟩ := exhausted_of_checkEnd hcheck
        refine ⟨[f], [piece], .last hopens hfinal, ?_, hleaves.ending.symm.trans hending, ?_⟩
        · rw [hleaves.bytes, hbytes]
          simp
        · rw [hcheck]
          rfl
      | false =>
        rw [openFrom_of_next hnext hfinal] at hok ⊢
        split_ifs at hok ⊢ with hnumber
        · obtain ⟨frames, pieces, hrest, hbytes, hending, hrun⟩ := ih hok
          rw [hleaves.taken] at hrest
          refine ⟨f :: frames, piece :: pieces, .next hopens hfinal hnumber hrest, ?_,
            hleaves.ending.symm.trans hending, ?_⟩
          · rw [hleaves.bytes, hbytes, List.flatMap_cons]
          · rw [hrun]
            rfl
        · cases hok

/-- Frames that open are read to the last, whatever follows. -/
theorem OpensFrom.openFrom_eq (h : OpensFrom ctx n cancelled index s.taken frames pieces)
    (hbytes : s.bytes = frames.flatMap Frame.octets ++ rest) (hfuel : frames.length ≤ fuel) :
    ∃ s', s.Leaves (frames.flatMap Frame.octets) s'
      ∧ openFrom ctx n cancelled fuel index s
        = ⟨pieces.map openedPortion, Prod.fst <$> checkEnd s'⟩ := by
  generalize htaken : s.taken = taken at h
  induction h generalizing s fuel with
  | @last index taken f piece hopens hfinal =>
    obtain ⟨fuel, rfl⟩ := Nat.exists_eq_add_of_le' hfuel
    subst htaken
    rw [List.flatMap_singleton] at hbytes ⊢
    obtain ⟨s', hnext, hleaves⟩ := hopens.exists_openNext hbytes
    exact ⟨s', hleaves, openFrom_of_final hnext hfinal⟩
  | @next index taken f piece frames pieces hopens hfinal hnumber _ ih =>
    obtain ⟨fuel, rfl⟩ := Nat.exists_eq_add_of_le' (Nat.le_of_add_left_le hfuel)
    subst htaken
    rw [List.flatMap_cons, List.append_assoc] at hbytes
    obtain ⟨s', hnext, hleaves⟩ := hopens.exists_openNext hbytes
    obtain ⟨s'', hleaves', hrun⟩ :=
      ih (hleaves.bytes_eq hbytes) (Nat.le_of_succ_le_succ hfuel) hleaves.taken
    refine ⟨s'', hleaves.trans hleaves', ?_⟩
    rw [openFrom_of_next hnext hfinal, if_pos hnumber, hrun]
    rfl

/-! ## The chunks of a payload -/

/-- A chunk of the stream opens to the piece it was closed over. -/
theorem opensAt_close (hcancelled : ∀ c, cancelled c = false) (hindex : index ≤ lastIndex)
    (taken : Nat) (final : Bool) (hlength : piece.length ≤ n)
    (hceiling : n + 16 ≤ LengthPrefix.maxLength) :
    (Frame.narrow (ctx.close index final piece)).OpensAt ctx n cancelled index taken piece where
  not_cancelled := hcancelled _
  open?_eq := ctx.open?_close index final piece
  fits :=
    { index_eq := rfl
      index_lt := lt_of_le_of_lt hindex (by decide)
      flags := by
        rw [Frame.chunk_narrow, Context.flags_close]
        cases final <;> decide
      length_le := by rwa [Frame.chunk_narrow, Context.length_close]
      holds := by
        refine LengthPrefix.Width.holds_ofLength ?_
        rw [Chunk.length_sealed, Context.length_close]
        omega }

theorem takes_openNext (hcancelled : ∀ c, cancelled c = false) (hindex : index ≤ lastIndex)
    (final : Bool) {piece : Bytes} (hlength : piece.length ≤ n)
    (hceiling : n + 16 ≤ LengthPrefix.maxLength) :
    Intake.Takes (openNext ctx n cancelled index) (ctx.close index final piece).octets
      (ctx.close index final piece, piece) := by
  intro s rest hbytes
  obtain ⟨s', hnext, hleaves⟩ :=
    (opensAt_close hcancelled hindex s.taken final hlength hceiling).exists_openNext hbytes
  exact ⟨s', hnext, hleaves.bytes_eq hbytes, hleaves.ending⟩

/-- The chunks of pieces open to the pieces. -/
theorem opensFrom_closeChunks (hcancelled : ∀ c, cancelled c = false) (hpieces : pieces ≠ [])
    (hlength : ∀ p ∈ pieces, p.length ≤ n) (hceiling : n + 16 ≤ LengthPrefix.maxLength)
    (hcount : index + pieces.length ≤ lastIndex + 1) (taken : Nat) :
    OpensFrom ctx n cancelled index taken ((ctx.closeChunks index pieces).map Frame.narrow)
      pieces := by
  induction pieces generalizing index taken with
  | nil => exact absurd rfl hpieces
  | cons piece rest ih =>
    rw [List.length_cons] at hcount
    have hopens (final : Bool) :
        (Frame.narrow (ctx.close index final piece)).OpensAt ctx n cancelled index taken piece :=
      opensAt_close hcancelled (by omega) taken final (hlength piece (List.mem_cons_self ..))
        hceiling
    have hfinal := ctx.isFinal_close index rest.isEmpty piece
    cases rest with
    | nil => exact .last (hopens true) hfinal
    | cons second rest =>
      rw [List.length_cons] at hcount
      have hcount' : index + 1 + (second :: rest).length ≤ lastIndex + 1 := by
        rw [List.length_cons]
        omega
      have hrest := ih (List.cons_ne_nil _ _) (fun p hp => hlength p (List.mem_cons_of_mem _ hp))
        hcount'
      exact .next (hopens false) hfinal (by omega) (hrest _)

end SealedEnvelope.Stream
