import SealedEnvelope.Proofs.Stream.RoundTrip

set_option autoImplicit false

/-! # Nothing but the payload is released

Decryption writes a piece only once its chunk is verified. If everything that is verified under the
stream's key has been sealed by the encryption of one payload, then the chunk with the expected
number is the one that was sealed under it (`exists_piece_of_sealed`), and so a run releases the
pieces of that payload in order, all of them if it ends well (`openFrom_of_sealed`). The input may
be any octets at all. -/

namespace SealedEnvelope.Stream

variable {n index fuel : Nat} {cancelled : Checkpoint → Bool} {s s' : Source} {ctx ctx' : Context}
  {c : Chunk} {piece : Bytes} {pieces : List Bytes}

/-! ## What is verified -/

/-- What the cipher is given for a chunk besides the key: the initialisation vector, what is
    authenticated, the ciphertext and the tag. -/
def Context.input (ctx : Context) (c : Chunk) : Octets 16 × Bytes × Bytes × Octets 16 :=
  (chunkIv ctx.baseIv c.index, chunkAad ctx.headerHash c.index c.flags, c.ciphertext, c.tag)

/-- The chunks that a run of `openFrom` verifies. -/
def acceptedFrom (ctx : Context) (chunkSize : Nat) (cancelled : Checkpoint → Bool) :
    (fuel : Nat) → (expected : Nat) → Source → List Chunk
  | 0, _, _ => []
  | fuel + 1, expected, source =>
    match openNext ctx chunkSize cancelled expected source with
    | .error _ => []
    | .ok ((chunk, _), source) =>
      chunk ::
        if chunk.isFinal ∨ lastIndex ≤ expected then []
        else acceptedFrom ctx chunkSize cancelled fuel (expected + 1) source

/-- The chunks that are verified of a stream whose header is read. -/
def Opened.accepted (opened : Opened) (cancelled : Checkpoint → Bool) : List Chunk :=
  acceptedFrom opened.context opened.header.chunkSize.toNat cancelled
    (opened.source.bytes.length + 1) 0 opened.source

/-- A chunk that is verified has the expected number and opens to what is released. -/
theorem openNext_of_ok (h : openNext ctx n cancelled index s = .ok ((c, piece), s')) :
    c.index = index ∧ ctx.open? c = some piece := by
  obtain ⟨f, rfl, hopens, -⟩ := exists_frame_of_openNext h
  exact ⟨hopens.fits.index_eq, hopens.open?_eq⟩

theorem acceptedFrom_of_ok (h : openNext ctx n cancelled index s = .ok ((c, piece), s')) :
    acceptedFrom ctx n cancelled (fuel + 1) index s
      = c :: if c.isFinal ∨ lastIndex ≤ index then []
        else acceptedFrom ctx n cancelled fuel (index + 1) s' := by
  rw [acceptedFrom]
  simp only [h]

/-- Nothing is verified of a source that has no more octets. -/
theorem acceptedFrom_of_exhausted (hbytes : s.bytes = []) :
    acceptedFrom ctx n cancelled fuel index s = [] := by
  cases fuel with
  | zero => rfl
  | succ fuel =>
    rw [acceptedFrom]
    cases hnext : openNext ctx n cancelled index s with
    | error e => rfl
    | ok result =>
      obtain ⟨⟨c, piece⟩, s'⟩ := result
      obtain ⟨f, -, -, hleaves⟩ := exists_frame_of_openNext hnext
      have hfront := hleaves.bytes
      rw [hbytes] at hfront
      exact absurd (List.append_eq_nil_iff.1 hfront.symm).1 f.octets_ne_nil

/-! ## What has been sealed -/

theorem chunkAad_inj {headerHash headerHash' : Octets 32} {i j : Nat} {flags flags' : UInt8}
    (hi : i ≤ lastIndex) (hj : j ≤ lastIndex)
    (h : chunkAad headerHash i flags = chunkAad headerHash' j flags') : i = j ∧ flags = flags' := by
  have hwidth {k : Nat} (hk : k ≤ lastIndex) : k < 256 ^ 4 := lt_of_le_of_lt hk (by decide)
  simp only [chunkAad, List.append_assoc] at h
  obtain ⟨-, h⟩ := List.append_inj h (by simp)
  obtain ⟨hindex, hflags⟩ := List.append_inj h (by simp)
  exact ⟨bigEndian_inj (hwidth hi) (hwidth hj) hindex, by simpa using hflags⟩

/-- Under one key, chunks for which the cipher is given the same open to the same. -/
theorem open?_eq_of_input_eq {c' : Chunk} (hkey : ctx.key = ctx'.key)
    (h : ctx.input c = ctx'.input c') : ctx.open? c = ctx'.open? c' := by
  simp only [Context.input, Prod.mk.injEq] at h
  obtain ⟨hiv, haad, hciphertext, htag⟩ := h
  rw [Context.open?, Context.open?, hkey, hiv, haad, hciphertext, htag]

/-- A chunk that opens and was sealed is the one that was sealed under its number: it opens to the
    piece with this number, and is marked as the last if that is the last piece. -/
theorem exists_piece_of_sealed (hkey : ctx'.key = ctx.key) (hcount : pieces.length ≤ lastIndex + 1)
    (hindex : c.index ≤ lastIndex) (hopen : ctx'.open? c = some piece)
    (hsealed : ctx'.input c ∈ (ctx.closeChunks 0 pieces).map ctx.input) :
    ∃ h : c.index < pieces.length,
      piece = pieces[c.index] ∧ c.isFinal = decide (c.index + 1 = pieces.length) := by
  obtain ⟨c', hc', hinput⟩ := List.mem_map.1 hsealed
  obtain ⟨i, hi, rfl⟩ := ctx.exists_of_mem_closeChunks hc'
  have hopened := open?_eq_of_input_eq hkey.symm hinput
  rw [hopen, ctx.open?_close] at hopened
  simp only [Context.input, Prod.mk.injEq, Context.index_close, Context.flags_close,
    Nat.zero_add] at hinput
  obtain ⟨rfl, hflags⟩ := chunkAad_inj (by omega) hindex hinput.2.1
  exact ⟨hi, (Option.some.inj hopened).symm, Chunk.isFinal_iff hflags.symm⟩

/-- If all that is verified was sealed over the pieces of a payload, a run releases these in order,
    and all of them if it ends well. -/
theorem openFrom_of_sealed (hkey : ctx'.key = ctx.key) (hcount : pieces.length ≤ lastIndex + 1)
    (hindex : index ≤ lastIndex)
    (hsealed : ∀ c ∈ acceptedFrom ctx' n cancelled fuel index s,
      ctx'.input c ∈ (ctx.closeChunks 0 pieces).map ctx.input) :
    (openFrom ctx' n cancelled fuel index s).portions <+: (pieces.drop index).map openedPortion
      ∧ ((openFrom ctx' n cancelled fuel index s).outcome = .ok () →
        (openFrom ctx' n cancelled fuel index s).portions
          = (pieces.drop index).map openedPortion) := by
  -- Induction on the fuel: with `index` chunks verified, the first `index` pieces are released.
  induction fuel generalizing index s with
  | zero => exact ⟨List.nil_prefix, fun h => by cases h⟩
  | succ fuel ih =>
    cases hnext : openNext ctx' n cancelled index s with
    | error e =>
      rw [openFrom]
      simp only [hnext]
      exact ⟨List.nil_prefix, fun h => by cases h⟩
    | ok result =>
      obtain ⟨⟨c, piece⟩, s'⟩ := result
      obtain ⟨rfl, hopen⟩ := openNext_of_ok hnext
      rw [acceptedFrom_of_ok hnext, List.forall_mem_cons] at hsealed
      obtain ⟨hchunk, hrest⟩ := hsealed
      obtain ⟨hlt, rfl, hfinal⟩ := exists_piece_of_sealed hkey hcount hindex hopen hchunk
      rw [List.drop_eq_getElem_cons hlt, List.map_cons]
      by_cases hlast : c.index + 1 = pieces.length
      · -- The last piece is marked as such, so nothing is read behind it.
        have hdrop : pieces.drop (c.index + 1) = [] := List.drop_of_length_le (by omega)
        rw [openFrom_of_final hnext (by simp [hfinal, hlast]), hdrop]
        exact ⟨List.prefix_refl _, fun _ => rfl⟩
      · have hmore : c.isFinal = false := by simp [hfinal, hlast]
        rw [openFrom_of_next hnext hmore]
        have hnumber : c.index < lastIndex := by omega
        rw [hmore, if_neg (by simp [hnumber])] at hrest
        obtain ⟨hinitial, hall⟩ := ih hnumber hrest
        rw [if_pos hnumber]
        refine ⟨List.prefix_cons_inj _ |>.2 hinitial, fun hok => ?_⟩
        rw [Run.cons, hall hok]

/-! ## Whole streams -/

/-- **Only the payload is released, and all of it if decryption ends well.** An encryption that ends
    well has sealed the chunks of its payload under a key. Let any octets at all be decrypted, by
    anyone under any configuration, such that the same key is recovered from them, and let the
    cipher verify nothing that this encryption has not sealed (an ideal cipher never does; the run
    only has to come across no forgery). If decryption ends well, it has written the payload and
    counts what encryption counted; if it fails, it has written some first pieces of the payload and
    nothing else. -/
theorem decrypt_integrity {config config' : Config} {mode : Mode} {recipients : List Recipient}
    {source input : Source} {sink : Sink} {options options' : Options} {tape rest tape' : Tape}
    {established : Established} {report : Report} {summary : Summary} {key : PrivateKey}
    {id : Option Bytes} {opened : Opened}
    (hestablish : (establish config mode recipients options.chunkSize).run tape
      = some (.ok established, rest))
    (hrun : encrypt config mode recipients source sink options tape = some (report, tape'))
    (hok : report.outcome = .ok summary)
    (hopen : openHeader config' key id input = .ok opened)
    (hkey : opened.context.key = established.key)
    (hideal : ∀ c ∈ opened.accepted options'.cancelled, opened.context.input c
      ∈ (established.chunks source.bytes).map established.context.input)
    (hwithhold : options'.withhold = false) :
    report.written
        = established.header.opening ++ (established.chunks source.bytes).flatMap Chunk.octets
      ∧ (∀ summary',
        (decrypt config' key.octets.bytes id input .unlimited options').outcome = .ok summary' →
          (decrypt config' key.octets.bytes id input .unlimited options').written = source.bytes
            ∧ summary'.chunks = summary.chunks
            ∧ summary'.plaintextBytes = summary.plaintextBytes)
      ∧ ∀ e, (decrypt config' key.octets.bytes id input .unlimited options').outcome = .error e →
        ∃ k, (decrypt config' key.octets.bytes id input .unlimited options').written
          = ((cut established.header.chunkSize.toNat source.bytes).take k).flatten := by
  obtain ⟨hsize, -⟩ := chunkSize_of_establish hestablish
  obtain ⟨hcount, hwritten, rfl⟩ := written_of_encrypt hestablish hsize hrun hok
  let pieces := cut established.header.chunkSize.toNat source.bytes
  let run := opened.run options'.cancelled
  have hreport : decrypt config' key.octets.bytes id input .unlimited options'
      = (run.deliver .unlimited []).report options'.total opened.header.kind := by
    rw [decrypt, PrivateKey.ofBytes_octets]
    simp only [decryptFor, hopen, hwithhold, Bool.false_eq_true, if_false, run]
  obtain ⟨hinitial, hall⟩ : run.portions <+: pieces.map openedPortion
      ∧ (run.outcome = .ok () → run.portions = pieces.map openedPortion) :=
    openFrom_of_sealed hkey (established.length_chunks _ ▸ hcount) (Nat.zero_le _) hideal
  rw [hreport, Result.written_report, Run.deliver_unlimited]
  refine ⟨hwritten, fun summary' hok' => ?_, fun e _ => ?_⟩
  · obtain ⟨houtcome, rfl⟩ := Result.outcome_report_eq_ok_iff.1 hok'
    rw [hall houtcome, flatten_openedPortion, plainOf_openedPortion, flatten_cut hsize]
    exact ⟨rfl, (List.length_map _).trans (established.length_chunks _).symm, rfl⟩
  · -- Portions that start the pieces' portions come from the first pieces.
    have hportions : run.portions = (pieces.take run.portions.length).map openedPortion := by
      rw [List.map_take]
      exact List.prefix_iff_eq_take.1 hinitial
    refine ⟨run.portions.length, ?_⟩
    rw [hportions, flatten_openedPortion, ← hportions, List.nil_append]

/-- A stream that ends behind the first of its two chunks. -/
theorem decrypt_integrity_cut_short :
    let key : PrivateKey := ⟨2, by decide, by decide⟩
    let recipients : List Recipient := [⟨[], key.publicKey.compressed.bytes⟩]
    let options : Options := { Options.none with chunkSize := some 2 }
    let tape : Tape := List.replicate 31 0 ++ 1 :: List.replicate 16 0
    ∃ established rest report tape' summary input opened,
      (establish .standard .single recipients options.chunkSize).run tape
          = some (.ok established, rest)
        ∧ encrypt .standard .single recipients (.ofBytes [1, 2, 3]) .unlimited options tape
          = some (report, tape')
        ∧ report.outcome = .ok summary
        ∧ openHeader .standard key none input = .ok opened
        ∧ opened.context.key = established.key
        ∧ opened.accepted options.cancelled = [established.context.close 0 false [1, 2]]
        ∧ (∀ c ∈ opened.accepted options.cancelled, opened.context.input c
          ∈ (established.chunks [1, 2, 3]).map established.context.input)
        ∧ ∀ e, (decrypt .standard key.octets.bytes none input .unlimited options).outcome
            = .error e →
          ∃ k, (decrypt .standard key.octets.bytes none input .unlimited options).written
            = ((cut 2 [1, 2, 3]).take k).flatten := by
  intro key recipients options tape
  have hdraw : Draw.privateKey tape = some (⟨1, by decide, by decide⟩, List.replicate 16 0) := by
    decide +kernel
  have hforms : ∀ r ∈ recipients, key.publicKey.Form r.publicKey := by
    simp only [recipients, List.forall_mem_cons]
    exact ⟨.compressed, by simp⟩
  have hsize : ∀ size, options.chunkSize = some size →
      1 ≤ size ∧ size ≤ Config.standard.maxChunkSize := by
    rintro size ⟨⟩
    decide
  have haddressable : Addressable .standard recipients .single := rfl
  obtain ⟨established, rest, hestablish, hchunkSize, hopens⟩ :=
    exists_establish haddressable (fun r hr => ⟨key, hforms r hr⟩) hsize hdraw (by decide)
  have htwo : established.header.chunkSize.toNat = 2 := hchunkSize
  have hpieces : cut 2 [1, 2, 3] = [[1, 2], [3]] := by decide
  have hbytes : (Source.ofBytes [1, 2, 3]).bytes = [1, 2, 3] := by decide
  obtain ⟨report, summary, hrun, hok⟩ := exists_encrypt hestablish hopens.valid (fun _ => rfl)
    (rfl : (Source.ofBytes [1, 2, 3]).ending = .finished)
    (by rw [established.length_chunks, htwo, hbytes, hpieces]; decide)
  -- The stream ends behind its first chunk.
  let chunk := established.context.close 0 false [1, 2]
  let input : Source := .ofBytes (established.header.opening ++ chunk.octets)
  have hinput : input.bytes = established.header.opening ++ chunk.octets := by
    simp [input]
  have hrecover : recoverKey .standard key none established.header = .ok established.key :=
    hopens.recoverKey _ (List.mem_singleton_self _) key .compressed none trivial
  obtain ⟨s', hopen, hs', -⟩ := exists_openHeader hopens.valid hrecover hinput
  have hread : Intake.Takes (openNext established.context established.header.chunkSize.toNat
      options.cancelled 0) chunk.octets (chunk, [1, 2]) :=
    takes_openNext (fun _ => rfl) (Nat.zero_le _) false (by rw [htwo]; decide)
      (by rw [htwo]; decide)
  obtain ⟨s'', hnext, hs'', -⟩ := hread s' [] (by rw [hs', List.append_nil])
  have haccepted : Opened.accepted ⟨established.header, established.context, s'⟩ options.cancelled
      = [chunk] := by
    rw [Opened.accepted, acceptedFrom_of_ok hnext, acceptedFrom_of_exhausted hs'', ite_self]
  have hideal : ∀ c ∈ Opened.accepted ⟨established.header, established.context, s'⟩
      options.cancelled, established.context.input c
        ∈ (established.chunks (Source.ofBytes [1, 2, 3]).bytes).map established.context.input := by
    rw [haccepted, Established.chunks, htwo, hbytes, hpieces]
    intro c hc
    obtain rfl := List.mem_singleton.1 hc
    exact List.mem_map_of_mem (List.mem_cons_self ..)
  obtain ⟨-, -, hfail⟩ :=
    decrypt_integrity hestablish hrun hok hopen rfl hideal (rfl : options.withhold = false)
  rw [htwo, hbytes] at hfail
  rw [hbytes] at hideal
  exact ⟨established, rest, report, _, summary, input, _, hestablish, hrun, hok, hopen, rfl,
    haccepted, hideal, hfail⟩

end SealedEnvelope.Stream
