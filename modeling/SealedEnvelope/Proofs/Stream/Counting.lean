import SealedEnvelope.Proofs.Stream.Nonce
import SealedEnvelope.Proofs.Stream.Representation
import SealedEnvelope.Proofs.Stream.Verified

set_option autoImplicit false

/-! # What a stream counts

The snapshots of a report are those of the pieces of plaintext that were delivered, one for each of
them (`Report.Counts`). Encryption delivers the chunks that stand whole in what it has written, and
no others (`counts_of_encryptUnder`), decryption what it has verified, up to the first piece that
its sink does not take whole (`counts_of_openHeader`). -/

namespace SealedEnvelope.Stream

variable {n index fuel : Nat} {cancelled : Checkpoint → Bool} {s : Source} {ctx : Context}
  {current : Bytes} {sink : Sink} {total : Option Nat}

/-! ## Snapshots -/

/-- The snapshots of pieces of plaintext: behind each of them, the octets and pieces up to there. -/
def progress (total : Option Nat) (pieces : List Bytes) : List Snapshot :=
  (List.range pieces.length).map fun k => ⟨(pieces.take (k + 1)).flatten.length, total, k + 1⟩

/-- What a snapshot has counted. -/
def Snapshot.counted (s : Snapshot) : Nat × Nat := (s.bytes, s.chunks)

theorem snapshotsFrom_eq (total : Option Nat) (bytes chunks : Nat) {portions : List Portion}
    {pieces : List Bytes} (h : portions.map (·.plain) = pieces.map List.length) :
    snapshotsFrom total bytes chunks portions
      = (List.range pieces.length).map fun k =>
        ⟨bytes + (pieces.take (k + 1)).flatten.length, total, chunks + (k + 1)⟩ := by
  induction portions generalizing bytes chunks pieces with
  | nil =>
    obtain rfl := List.map_eq_nil_iff.1 h.symm
    rfl
  | cons p rest ih =>
    cases pieces with
    | nil => cases h
    | cons piece pieces =>
      rw [List.map_cons, List.map_cons, List.cons_eq_cons] at h
      obtain ⟨hp, hrest⟩ := h
      rw [snapshotsFrom, ih _ _ hrest, hp, List.length_cons, List.range_succ_eq_map, List.map_cons,
        List.map_map]
      refine List.cons_eq_cons.2 ⟨by simp, List.map_congr_left fun k _ => ?_⟩
      simp only [Function.comp, List.take_succ_cons, List.flatten_cons, List.length_append,
        Snapshot.mk.injEq, true_and]
      omega

/-- The snapshots of portions are those of the pieces that they account for. -/
theorem snapshots_eq_progress (total : Option Nat) {portions : List Portion} {pieces : List Bytes}
    (h : portions.map (·.plain) = pieces.map List.length) :
    snapshots total portions = progress total pieces := by
  rw [snapshots, snapshotsFrom_eq total 0 0 h, progress]
  simp only [Nat.zero_add]

theorem plainOf_eq {portions : List Portion} {pieces : List Bytes}
    (h : portions.map (·.plain) = pieces.map List.length) :
    plainOf portions = pieces.flatten.length := by
  rw [List.length_flatten, ← h]
  clear h
  induction portions with
  | nil => rfl
  | cons p rest ih => rw [plainOf, ih, List.map_cons, List.sum_cons]

/-- The last snapshot has counted everything. -/
theorem getLast?_progress (total : Option Nat) {pieces : List Bytes} (hpieces : pieces ≠ []) :
    (progress total pieces).getLast? = some ⟨pieces.flatten.length, total, pieces.length⟩ := by
  obtain ⟨k, hk⟩ := Nat.exists_eq_add_of_le' (List.length_pos_iff.2 hpieces)
  rw [progress, hk, List.range_succ, List.map_append, List.map_singleton,
    List.getLast?_concat, ← hk, List.take_length]

/-- Whatever total is expected, the same is counted. -/
theorem counted_progress_eq (total total' : Option Nat) (pieces : List Bytes) :
    (progress total pieces).map Snapshot.counted
      = (progress total' pieces).map Snapshot.counted := by
  rw [progress, progress, List.map_map, List.map_map]
  rfl

/-- The first pieces are counted alike, whatever comes behind them. -/
theorem prefix_counted_progress {pieces pieces' : List Bytes} (h : pieces' <+: pieces)
    (total total' : Option Nat) :
    (progress total' pieces').map Snapshot.counted
      <+: (progress total pieces).map Snapshot.counted := by
  obtain ⟨more, rfl⟩ := h
  rw [progress, progress, List.map_map, List.map_map, List.length_append, List.range_add,
    List.map_append]
  refine ⟨_, congrArg (· ++ _) (List.map_congr_left fun k hk => ?_)⟩
  rw [List.mem_range] at hk
  simp only [Function.comp, Snapshot.counted]
  rw [List.take_append_of_le_length hk]

/-! ## What stands whole -/

/-- Of some units behind an opening just the first `count` stand whole in what is written. -/
def StandWhole (opening : Bytes) (units : List Bytes) (written : Bytes) (count : Nat) : Prop :=
  ∀ i < units.length, opening ++ (units.take (i + 1)).flatten <+: written ↔ i < count

theorem Sink.standWhole_writeWithin (reason : String) (room : Nat) (writes : List Bytes) :
    StandWhole [] writes (writeWithin reason room writes).written
      (writeWithin reason room writes).whole := by
  induction writes generalizing room with
  | nil => exact fun i hi => absurd hi (Nat.not_lt_zero i)
  | cons w rest ih =>
    intro i hi
    rw [List.nil_append, List.take_succ_cons, List.flatten_cons]
    by_cases hroom : w.length ≤ room
    · rw [writeWithin, if_pos hroom, List.prefix_append_right_inj]
      cases i with
      | zero => simp
      | succ i => simpa using ih (room - w.length) i (Nat.lt_of_succ_lt_succ hi)
    · rw [writeWithin, if_neg hroom]
      simp only [Nat.not_lt_zero, iff_false]
      intro hwhole
      have hlength := hwhole.length_le
      rw [List.length_append, List.length_take] at hlength
      omega

/-- The writes that a sink has taken whole stand in what it has taken. -/
theorem Sink.standWhole_write (sink : Sink) (writes : List Bytes) :
    StandWhole [] writes (sink.write writes).written (sink.write writes).whole := by
  rw [write]
  split
  · next room reason _ => exact standWhole_writeWithin reason room writes
  · intro i hi
    rw [List.nil_append]
    exact iff_of_true (List.take_prefix _ _).flatten hi

theorem Sink.whole_writeWithin_le (reason : String) (room : Nat) (writes : List Bytes) :
    (writeWithin reason room writes).whole ≤ writes.length := by
  induction writes generalizing room with
  | nil => exact Nat.le_refl _
  | cons w rest ih =>
    rw [writeWithin]
    split
    · exact Nat.succ_le_succ (ih _)
    · exact Nat.zero_le _

theorem Sink.whole_write_le (sink : Sink) (writes : List Bytes) :
    (sink.write writes).whole ≤ writes.length := by
  rw [write]
  split
  · exact whole_writeWithin_le ..
  · exact Nat.le_refl _

/-- Units that are not written at all do not stand there either. -/
theorem StandWhole.append {opening written : Bytes} {units more : List Bytes} {count : Nat}
    (h : StandWhole opening units written count) (hle : count ≤ units.length)
    (hwritten : written <+: opening ++ units.flatten) (hmore : ∀ u ∈ more, u ≠ []) :
    StandWhole opening (units ++ more) written count := by
  intro i hi
  by_cases hunit : i < units.length
  · rw [List.take_append_of_le_length hunit]
    exact h i hunit
  · obtain ⟨k, rfl⟩ := Nat.exists_eq_add_of_le (Nat.not_lt.1 hunit)
    refine iff_of_false (fun hfront => ?_) (by omega)
    have hlength := (hfront.trans hwritten).length_le
    rw [Nat.add_assoc, List.take_length_add_append, List.flatten_append] at hlength
    cases more with
    | nil => simp at hi
    | cons u more =>
      have hpos := List.length_pos_iff.2 (hmore u (List.mem_cons_self ..))
      simp only [List.length_append, List.take_succ_cons, List.flatten_cons] at hlength
      omega

/-- The portions that are reported of a run are those that stand whole in what is written, and all
    of them if the sink does not fail. -/
theorem Run.exists_reported_deliver (run : Run) (sink : Sink) (opening : Bytes) :
    ∃ count ≤ run.portions.length,
      (run.deliver sink opening).reported = run.portions.take count
        ∧ StandWhole opening (run.portions.map (·.octets)) (run.deliver sink opening).written count
        ∧ ((sink.write (opening :: run.portions.map (·.octets))).failure = none →
          count = run.portions.length) := by
  have hle := sink.whole_write_le (opening :: run.portions.map (·.octets))
  have hwhole := sink.standWhole_write (opening :: run.portions.map (·.octets))
  rw [List.length_cons, List.length_map] at hle
  refine ⟨_, Nat.sub_le_of_le_add hle, rfl, ?_, ?_⟩
  · intro i hi
    have hnext := hwhole (i + 1) (Nat.succ_lt_succ hi)
    rw [List.nil_append, List.take_succ_cons, List.flatten_cons] at hnext
    exact hnext.trans (by omega)
  · intro hfailure
    rw [(Sink.write_of_failure_none hfailure).2]
    simp

/-! ## Reports -/

/-- A report that counts the first `count` of some pieces one by one, and all of them if it is
    good. -/
structure Report.Counts (report : Report) (total : Option Nat) (pieces : List Bytes)
    (count : Nat) : Prop where
  le : count ≤ pieces.length
  snapshots : report.snapshots = progress total (pieces.take count)
  summary : ∀ summary, report.outcome = .ok summary →
    count = pieces.length ∧ summary.chunks = pieces.length
      ∧ summary.plaintextBytes = pieces.flatten.length
      ∧ report.snapshots.getLast? = some ⟨summary.plaintextBytes, total, summary.chunks⟩

/-- A report counts the pieces that the reported portions account for. -/
theorem Result.counts_report {result : Result} {pieces : List Bytes} {count : Nat}
    (total : Option Nat) (kind : Kind) (hle : count ≤ pieces.length)
    (hreported : result.reported.map (·.plain) = (pieces.take count).map List.length)
    (hok : result.outcome = .ok () → count = pieces.length ∧ pieces ≠ []) :
    (result.report total kind).Counts total pieces count where
  le := hle
  snapshots := snapshots_eq_progress total hreported
  summary := by
    intro summary h
    obtain ⟨hresult, rfl⟩ := Result.outcome_report_eq_ok_iff.1 h
    obtain ⟨rfl, hpieces⟩ := hok hresult
    rw [List.take_length] at hreported
    have hlength : result.reported.length = pieces.length := by
      simpa using congrArg List.length hreported
    refine ⟨rfl, hlength, plainOf_eq hreported, ?_⟩
    rw [hlength, plainOf_eq hreported, ← getLast?_progress total hpieces]
    exact congrArg List.getLast? (snapshots_eq_progress total hreported)

/-! ## Encryption -/

theorem map_length_closeChunks (ctx : Context) (index : Nat) (pieces : List Bytes) :
    (ctx.closeChunks index pieces).map (fun c => c.ciphertext.length)
      = pieces.map List.length := by
  induction pieces generalizing index with
  | nil => rfl
  | cons piece rest ih =>
    rw [Context.closeChunks, List.map_cons, ih, Context.length_close, List.map_cons]

/-- A run seals the first chunks of what it has to encrypt. -/
theorem closedFrom_prefix_closeChunks (hn : 0 < n) (hahead : Ahead n current s) :
    closedFrom ctx n cancelled fuel index current s
      <+: ctx.closeChunks index (current :: blocks n s.bytes) := by
  induction fuel generalizing index current s with
  | zero => exact List.nil_prefix
  | succ fuel ih =>
    rcases closeFrom_cases ctx n cancelled fuel index current s with ⟨e, -, -, hclosed⟩
      | ⟨s', hstep, -, hclosed⟩ | ⟨following, s', hstep, hne, -, hclosed⟩
    · rw [hclosed]
      exact List.nil_prefix
    · obtain ⟨hfollowing, -⟩ := hahead.step hstep
      have hs : s.bytes = [] := by
        by_contra hs
        exact take_ne_nil hn hs hfollowing.symm
      rw [hclosed, hs, blocks_nil]
      exact List.prefix_refl _
    · obtain ⟨rfl, hbytes, -, hahead'⟩ := hahead.step hstep
      have hs : s.bytes ≠ [] := by
        intro hs
        rw [hs, List.take_nil] at hne
        exact hne rfl
      rw [hclosed, blocks_of_ne_nil hn hs, Context.closeChunks, List.isEmpty_cons, ← hbytes]
      refine (List.prefix_cons_inj _).2 ?_
      split_ifs
      · exact ih hahead'
      · exact List.nil_prefix

/-- Encryption seals the first chunks of its payload. -/
theorem closedAll_prefix_closeChunks (hn : 0 < n) :
    closedAll ctx n cancelled s <+: ctx.closeChunks 0 (cut n s.bytes) := by
  rw [closedAll]
  split
  · exact List.nil_prefix
  · next first s' hfirst =>
    obtain ⟨rfl, hbytes, -, hahead⟩ := ahead_of_fill hfirst
    rw [cut, ← hbytes]
    exact closedFrom_prefix_closeChunks hn hahead

/-- The chunks that an encryption has reported are those that it has sealed and that stand whole in
    what it has written. -/
theorem counts_of_encryptUnder {config : Config} {e : Established} {source : Source}
    {options : Options} {report : Report} (hpos : 0 < e.header.chunkSize.toNat)
    (h : encryptUnder config e source sink options = .ok report) :
    ∃ count ≤ (e.closed options.cancelled source).length,
      report.Counts options.total (cut e.header.chunkSize.toNat source.bytes) count
        ∧ StandWhole e.header.opening ((e.closed options.cancelled source).map Chunk.octets)
          report.written count := by
  obtain ⟨-, rfl⟩ := encryptUnder_eq_ok_iff.1 h
  obtain ⟨count, hle, hreported, hstand, hall⟩ := (closeAll e.context e.header.chunkSize.toNat
    options.cancelled source).exists_reported_deliver sink e.header.opening
  obtain ⟨more, hmore⟩ : e.closed options.cancelled source <+: e.chunks source.bytes :=
    closedAll_prefix_closeChunks hpos
  have hportions : (closeAll e.context e.header.chunkSize.toNat options.cancelled source).portions
      = (e.closed options.cancelled source).map Chunk.portion := portions_closeAll ..
  rw [hportions, List.map_map] at hstand
  rw [hportions, List.length_map] at hle
  refine ⟨count, hle, Result.counts_report _ _ ?_ ?_ ?_, hstand⟩
  · rw [← e.length_chunks, ← hmore, List.length_append]
    omega
  · have hchunks : (e.closed options.cancelled source).take count
        = (e.chunks source.bytes).take count := by
      rw [← hmore, List.take_append_of_le_length hle]
    rw [hreported, hportions, List.map_take, List.map_map, List.map_take,
      ← map_length_closeChunks e.context 0, ← List.map_take, ← List.map_take, hchunks]
    rfl
  · intro hok
    have hcount := hall (Run.failure_none_of_outcome_ok hok)
    obtain ⟨hclosed, -⟩ := Run.deliver_of_outcome_ok hok
    rw [(closeAll_of_outcome_ok hpos hclosed).2, List.length_map, Context.length_closeChunks]
      at hcount
    exact ⟨hcount, cut_ne_nil _ _⟩

/-- No other chunk of the payload stands whole there. -/
theorem standWhole_chunks {config : Config} {e : Established} {source : Source}
    {options : Options} {report : Report} {count : Nat} (hpos : 0 < e.header.chunkSize.toNat)
    (h : encryptUnder config e source sink options = .ok report)
    (hle : count ≤ (e.closed options.cancelled source).length)
    (hstand : StandWhole e.header.opening ((e.closed options.cancelled source).map Chunk.octets)
      report.written count) :
    StandWhole e.header.opening ((e.chunks source.bytes).map Chunk.octets) report.written
      count := by
  have hwritten := Established.written_prefix_of_encryptUnder h
  obtain ⟨more, hmore⟩ : e.closed options.cancelled source <+: e.chunks source.bytes :=
    closedAll_prefix_closeChunks hpos
  rw [← hmore, List.map_append]
  refine hstand.append (by rwa [List.length_map]) (by rwa [← List.flatMap_def]) ?_
  intro u hu
  obtain ⟨c, -, rfl⟩ := List.mem_map.1 hu
  exact (Frame.narrow c).octets_ne_nil

/-! ## Frames at the front of the same octets -/

section Front

variable {index taken taken' : Nat} {cancelled' : Checkpoint → Bool} {f f' : Frame}
  {piece piece' rest rest' : Bytes} {frames frames' : List Frame} {pieces pieces' : List Bytes}

/-- Only one frame opens at the front of some octets, and to one piece. -/
theorem Frame.OpensAt.unique (h : f.OpensAt ctx n cancelled index taken piece)
    (h' : f'.OpensAt ctx n cancelled' index taken' piece')
    (heq : f.octets ++ rest = f'.octets ++ rest') : f = f' ∧ piece = piece' := by
  have hform : ∃ g : Frame, g.chunk = (f.chunk, piece).1 ∧ g.Fits n index
      ∧ ctx.open? g.chunk = some (f.chunk, piece).2 ∧ f.octets = g.octets :=
    ⟨f, rfl, h.fits, h.open?_eq, rfl⟩
  have hform' : ∃ g : Frame, g.chunk = (f'.chunk, piece').1 ∧ g.Fits n index
      ∧ ctx.open? g.chunk = some (f'.chunk, piece').2 ∧ f'.octets = g.octets :=
    ⟨f', rfl, h'.fits, h'.open?_eq, rfl⟩
  obtain ⟨-, hopened⟩ := (reads_verifyNext ctx n index).unique hform hform' heq
  obtain ⟨hchunk, hpiece⟩ := Prod.mk.inj hopened
  exact ⟨(Frame.octets_append_inj hchunk heq).1, hpiece⟩

namespace VerifiesFrom

/-- Of frames that are verified at the front of the same octets, the fewer are the first of the
    others, whoever cancels. -/
theorem prefix_of_length_le (h : VerifiesFrom ctx n cancelled index taken frames pieces)
    (h' : VerifiesFrom ctx n cancelled' index taken' frames' pieces')
    (heq : frames.flatMap Frame.octets ++ rest = frames'.flatMap Frame.octets ++ rest')
    (hle : frames.length ≤ frames'.length) : frames <+: frames' ∧ pieces <+: pieces' := by
  induction h generalizing taken' frames' pieces' with
  | nil => exact ⟨List.nil_prefix, List.nil_prefix⟩
  | @cons index taken f piece frames pieces hopens _ _ ih =>
    cases h' with
    | nil => simp at hle
    | @cons _ _ f' piece' frames' pieces' hopens' _ hverifies' =>
      simp only [List.flatMap_cons, List.append_assoc] at heq
      obtain ⟨rfl, rfl⟩ := hopens.unique hopens' heq
      obtain ⟨hframes, hpieces⟩ :=
        ih hverifies' (List.append_cancel_left heq) (Nat.le_of_succ_le_succ hle)
      exact ⟨(List.prefix_cons_inj _).2 hframes, (List.prefix_cons_inj _).2 hpieces⟩

theorem take (h : VerifiesFrom ctx n cancelled index taken frames pieces) (k : Nat) :
    VerifiesFrom ctx n cancelled index taken (frames.take k) (pieces.take k) := by
  induction h generalizing k with
  | nil => simpa using VerifiesFrom.nil
  | @cons index taken f piece frames pieces hopens hmore _ ih =>
    cases k with
    | zero => exact .nil
    | succ k =>
      refine .cons hopens (fun hne => hmore ?_) (ih k)
      rintro rfl
      exact hne List.take_nil

end VerifiesFrom

/-- Frames that start others and take up no less are all of them. -/
theorem eq_of_prefix_of_octets (h : frames <+: frames')
    (hlength : (frames'.flatMap Frame.octets).length ≤ (frames.flatMap Frame.octets).length) :
    frames = frames' := by
  obtain ⟨more, rfl⟩ := h
  cases more with
  | nil => exact (List.append_nil _).symm
  | cons f more =>
    have hpos := List.length_pos_iff.2 f.octets_ne_nil
    rw [List.flatMap_append, List.flatMap_cons, List.length_append, List.length_append] at hlength
    omega

/-- A run that ends well has verified all that its source holds, which is not nothing. -/
theorem Verified.of_outcome_ok (h : Verified ctx n cancelled s frames pieces)
    (hrun : openFrom ctx n cancelled fuel 0 s = ⟨pieces.map openedPortion, .ok ()⟩) :
    pieces ≠ [] ∧ s.bytes = frames.flatMap Frame.octets := by
  have hok : (openFrom ctx n cancelled fuel 0 s).outcome = .ok () := by rw [hrun]
  obtain ⟨frames', pieces', hopens, hbytes, -, hrun'⟩ := exists_opensFrom hok
  rw [hrun'] at hrun
  have hportions : pieces'.map openedPortion = pieces.map openedPortion := (Run.mk.inj hrun).1
  have hlength : frames'.length = frames.length := by
    rw [hopens.verifiesFrom.length_eq, h.verifies.length_eq]
    simpa using congrArg List.length hportions
  obtain ⟨rest, hfront⟩ := h.front
  obtain ⟨hframes, -⟩ := h.verifies.prefix_of_length_le hopens.verifiesFrom
    (hfront.trans (hbytes.trans (List.append_nil _).symm)) hlength.symm.le
  refine ⟨?_, ?_⟩
  · rintro rfl
    cases hopens <;> cases hportions
  · rw [hbytes, hframes.eq_of_length hlength.symm]

end Front

/-! ## Decryption -/

theorem map_octets_openedPortion (pieces : List Bytes) :
    (pieces.map openedPortion).map (·.octets) = pieces := by
  rw [List.map_map]
  exact List.map_id' pieces

theorem map_plain_openedPortion (pieces : List Bytes) :
    (pieces.map openedPortion).map (·.plain) = pieces.map List.length := by
  rw [List.map_map]
  rfl

/-- What a decryption has reported is what it has verified, up to the first piece that the sink does
    not take whole. -/
theorem counts_of_openHeader {config : Config} {key : PrivateKey} {id : Option Bytes}
    {input : Source} {opened : Opened} (hopen : openHeader config key id input = .ok opened)
    (sink : Sink) (options : Options) :
    ∃ frames pieces count,
      Verified opened.context opened.header.chunkSize.toNat options.cancelled opened.source frames
          pieces
        ∧ (decryptFor config key id input sink options).Counts options.total pieces count
        ∧ (∀ summary, (decryptFor config key id input sink options).outcome = .ok summary →
          opened.source.bytes = frames.flatMap Frame.octets)
        ∧ (options.withhold = true ∨ sink.limit = none → count = pieces.length)
        ∧ (options.withhold = false →
          StandWhole [] pieces (decryptFor config key id input sink options).written count) := by
  obtain ⟨frames, pieces, outcome, hverified, hrun⟩ := opened.exists_verified options.cancelled
  have hrun := hrun options.cancelled fun _ _ => rfl
  rw [decryptFor_of_openHeader hopen, hrun]
  have hend {withhold : Bool}
      (hok : (Run.release ⟨pieces.map openedPortion, outcome⟩ sink withhold).outcome = .ok ()) :
      pieces ≠ [] ∧ opened.source.bytes = frames.flatMap Frame.octets := by
    obtain ⟨houtcome, -⟩ := Run.release_of_outcome_ok hok
    obtain rfl : outcome = .ok () := houtcome
    exact hverified.of_outcome_ok hrun
  have hall {withhold : Bool} {total : Option Nat} {kind : Kind} (summary : Summary)
      (hok : ((Run.release ⟨pieces.map openedPortion, outcome⟩ sink withhold).report total
        kind).outcome = .ok summary) : opened.source.bytes = frames.flatMap Frame.octets :=
    (hend (Result.outcome_report_eq_ok_iff.1 hok).1).2
  cases options.withhold with
  | true =>
    have hreported : (Run.release ⟨pieces.map openedPortion, outcome⟩ sink true).reported
        = pieces.map openedPortion := by
      rw [Run.release, if_pos rfl, Run.deliverWithheld]
      cases outcome <;> rfl
    refine ⟨frames, pieces, pieces.length, hverified, Result.counts_report _ _ (Nat.le_refl _) ?_
      fun hok => ⟨rfl, (hend hok).1⟩, hall, fun _ => rfl, fun h => by cases h⟩
    rw [hreported, map_plain_openedPortion, List.take_length]
  | false =>
    obtain ⟨count, hle, hreported, hstand, hdelivered⟩ :=
      Run.exists_reported_deliver ⟨pieces.map openedPortion, outcome⟩ sink []
    rw [List.length_map] at hle hdelivered
    refine ⟨frames, pieces, count, hverified, Result.counts_report _ _ hle ?_ ?_, hall, ?_,
      fun _ => ?_⟩
    · rw [Run.release, if_neg (by decide), hreported, List.map_take, map_plain_openedPortion,
        List.map_take]
    · intro hok
      exact ⟨hdelivered (Run.failure_none_of_outcome_ok hok), (hend hok).1⟩
    · rintro (h | hlimit)
      · cases h
      · refine hdelivered (Option.eq_none_iff_forall_ne_some.2 fun reason hfailure => ?_)
        obtain ⟨room, hroom⟩ := Sink.limit_of_failure hfailure
        rw [hlimit] at hroom
        cases hroom
    · rwa [map_octets_openedPortion] at hstand

end SealedEnvelope.Stream
