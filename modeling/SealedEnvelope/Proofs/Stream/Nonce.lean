import SealedEnvelope.Proofs.Stream.Arguments
import SealedEnvelope.Proofs.Stream.Batch
import SealedEnvelope.Proofs.Stream.Integrity
import Mathlib.Data.List.Nodup

set_option autoImplicit false

/-! # No initialisation vector twice

Under one base vector, different numbers give different initialisation vectors (`chunkIv_inj`).
`closedFrom` are the chunks that an encryption seals, written or not, and `presentedFrom` those that
a decryption gives to the cipher, verified or not. Whatever the caller, the source and the sink do,
either are numbered without a gap and up to the last number at most (`NumberedFrom`). So no pair of
a key and a vector is used twice (`Fresh`, `no_nonce_reuse`). -/

namespace SealedEnvelope.Stream

variable {n index fuel : Nat} {cancelled : Checkpoint → Bool} {s s' : Source} {ctx : Context}
  {c : Chunk} {current piece : Bytes}

/-! ## Initialisation vectors -/

/-- Under one base vector, different numbers give different vectors. -/
theorem chunkIv_inj {baseIv : Octets 16} {i j : Nat} (hi : i < 2 ^ 64) (hj : j < 2 ^ 64)
    (h : chunkIv baseIv i = chunkIv baseIv j) : i = j := by
  have hoctets := congrArg Octets.bytes h
  have hmasked := List.append_cancel_left hoctets
  exact bigEndian_inj hi hj (xorBytes_left_cancel (by simp) (by simp) hmasked)

/-- The key and the initialisation vector for the chunk of a number. -/
def Context.nonce (ctx : Context) (index : Nat) : Octets 32 × Octets 16 :=
  (ctx.key, chunkIv ctx.baseIv index)

/-- The chunks have the numbers from zero on, as far as four octets hold them, and no two of them
    the same key and vector. -/
structure Fresh (ctx : Context) (chunks : List Chunk) : Prop where
  indices : chunks.map Chunk.index = List.range chunks.length
  length_le : chunks.length ≤ 2 ^ 32
  nodup : (chunks.map fun c => ctx.nonce c.index).Nodup

/-- The chunks have the numbers from `index` on, none beyond the last number there is. -/
structure NumberedFrom (index : Nat) (chunks : List Chunk) : Prop where
  indices : chunks.map Chunk.index = List.range' index chunks.length
  le : index + chunks.length ≤ lastIndex + 1

namespace NumberedFrom

variable {chunks : List Chunk}

theorem nil (hindex : index ≤ lastIndex) : NumberedFrom index [] :=
  ⟨rfl, Nat.le_succ_of_le hindex⟩

theorem cons (hc : c.index = index) (h : NumberedFrom (index + 1) chunks) :
    NumberedFrom index (c :: chunks) where
  indices := by rw [List.map_cons, h.indices, hc, List.length_cons, List.range'_succ]
  le := by
    have hle := h.le
    rw [List.length_cons]
    omega

theorem single (hc : c.index = index) (hindex : index ≤ lastIndex) : NumberedFrom index [c] :=
  ⟨congrArg (fun i => [i]) hc, Nat.succ_le_succ hindex⟩

/-- Numbers that are not taken twice make vectors that are not. -/
theorem fresh (h : NumberedFrom 0 chunks) (ctx : Context) : Fresh ctx chunks where
  indices := h.indices.trans List.range_eq_range'.symm
  length_le := (Nat.zero_add _).symm.trans_le h.le
  nodup := by
    have hnonces : (chunks.map fun c => ctx.nonce c.index)
        = (List.range' 0 chunks.length).map ctx.nonce := by
      rw [← h.indices, List.map_map]
      rfl
    have hle : 0 + chunks.length ≤ 2 ^ 32 := h.le
    rw [hnonces]
    refine List.Nodup.map_on (fun i hi j hj hij => ?_) List.nodup_range'
    rw [List.mem_range'_1] at hi hj
    exact chunkIv_inj (by omega) (by omega) (Prod.ext_iff.1 hij).2

end NumberedFrom

/-- So the numbers fit the four octets that they are written in. -/
theorem Fresh.index_lt {chunks : List Chunk} (h : Fresh ctx chunks) (hc : c ∈ chunks) :
    c.index < 2 ^ 32 := by
  have hindex := List.mem_map_of_mem (f := Chunk.index) hc
  rw [h.indices, List.mem_range] at hindex
  exact hindex.trans_le h.length_le

theorem ofBigEndian_take_octets (h : c.index < 2 ^ 32) :
    ofBigEndian (c.octets.take 4) = c.index := by
  rw [Chunk.octets, List.take_left' (length_bigEndian ..), ofBigEndian_bigEndian h]

/-! ## Sealing -/

/-- The chunks that a run of `closeFrom` seals. -/
def closedFrom (ctx : Context) (chunkSize : Nat) (cancelled : Checkpoint → Bool) :
    (fuel : Nat) → (index : Nat) → (current : Bytes) → Source → List Chunk
  | 0, _, _, _ => []
  | fuel + 1, index, current, source =>
    match (checkCancelled cancelled index >>= fun _ => readAhead chunkSize current) source with
    | .error _ => []
    | .ok (following, source) =>
      ctx.close index following.isEmpty current ::
        if following ≠ [] ∧ index < lastIndex then
          closedFrom ctx chunkSize cancelled fuel (index + 1) following source
        else []

/-- The chunks that `closeAll` seals. -/
def closedAll (ctx : Context) (chunkSize : Nat) (cancelled : Checkpoint → Bool) (source : Source) :
    List Chunk :=
  match Intake.fill chunkSize source with
  | .error _ => []
  | .ok (first, source) =>
    closedFrom ctx chunkSize cancelled (source.bytes.length + 1) 0 first source

/-- A step of the loop fails and seals nothing, or it seals the last chunk, or one with more behind
    it, which is gone on with under the next number, if there is one. -/
theorem closeFrom_cases (ctx : Context) (n : Nat) (cancelled : Checkpoint → Bool)
    (fuel index : Nat) (current : Bytes) (s : Source) :
    (∃ e, (checkCancelled cancelled index >>= fun _ => readAhead n current) s = .error e
      ∧ closeFrom ctx n cancelled (fuel + 1) index current s = .ending (.error e)
      ∧ closedFrom ctx n cancelled (fuel + 1) index current s = [])
    ∨ (∃ s', (checkCancelled cancelled index >>= fun _ => readAhead n current) s = .ok ([], s')
      ∧ closeFrom ctx n cancelled (fuel + 1) index current s
        = .cons (ctx.close index true current).portion (.ending (.ok ()))
      ∧ closedFrom ctx n cancelled (fuel + 1) index current s = [ctx.close index true current])
    ∨ ∃ following s',
      (checkCancelled cancelled index >>= fun _ => readAhead n current) s = .ok (following, s')
      ∧ following ≠ []
      ∧ closeFrom ctx n cancelled (fuel + 1) index current s
        = .cons (ctx.close index false current).portion
          (if index < lastIndex then closeFrom ctx n cancelled fuel (index + 1) following s'
          else .ending (.error (.lengthTooLong (lastIndex + 1) lastIndex)))
      ∧ closedFrom ctx n cancelled (fuel + 1) index current s
        = ctx.close index false current
          :: if index < lastIndex then closedFrom ctx n cancelled fuel (index + 1) following s'
            else [] := by
  cases hstep : (checkCancelled cancelled index >>= fun _ => readAhead n current) s with
  | error e =>
    refine Or.inl ⟨e, rfl, ?_, ?_⟩
    · rw [closeFrom]
      simp only [hstep]
    · rw [closedFrom]
      simp only [hstep]
  | ok result =>
    obtain ⟨following, s'⟩ := result
    by_cases hlast : following = []
    · subst hlast
      refine Or.inr (Or.inl ⟨s', rfl, closeFrom_of_last hstep, ?_⟩)
      rw [closedFrom]
      simp only [hstep]
      rfl
    · refine Or.inr (Or.inr ⟨following, s', rfl, hlast, closeFrom_of_next hstep hlast, ?_⟩)
      rw [closedFrom]
      simp only [hstep, List.isEmpty_eq_false_iff.2 hlast, ne_eq, hlast, not_false_eq_true,
        true_and]

/-- What a run writes are the chunks that it seals. -/
theorem portions_closeFrom :
    (closeFrom ctx n cancelled fuel index current s).portions
      = (closedFrom ctx n cancelled fuel index current s).map Chunk.portion := by
  induction fuel generalizing index current s with
  | zero => rfl
  | succ fuel ih =>
    rcases closeFrom_cases ctx n cancelled fuel index current s with ⟨e, -, hrun, hclosed⟩
      | ⟨s', -, hrun, hclosed⟩ | ⟨following, s', -, -, hrun, hclosed⟩
    · rw [hrun, hclosed]
      rfl
    · rw [hrun, hclosed]
      rfl
    · rw [hrun, hclosed, Run.cons, List.map_cons]
      split_ifs
      · rw [ih]
      · rfl

/-- The chunks that a run seals are numbered on. -/
theorem numberedFrom_closedFrom (hindex : index ≤ lastIndex) :
    NumberedFrom index (closedFrom ctx n cancelled fuel index current s) := by
  induction fuel generalizing index current s with
  | zero => exact .nil hindex
  | succ fuel ih =>
    rcases closeFrom_cases ctx n cancelled fuel index current s with ⟨e, -, -, hclosed⟩
      | ⟨s', -, -, hclosed⟩ | ⟨following, s', -, -, -, hclosed⟩
    · rw [hclosed]
      exact .nil hindex
    · rw [hclosed]
      exact .single rfl hindex
    · rw [hclosed]
      split_ifs with hnumber
      · exact .cons rfl (ih hnumber)
      · exact .single rfl hindex

/-- Every chunk that a run seals is closed under its number. -/
theorem exists_close_of_mem_closedFrom
    (h : c ∈ closedFrom ctx n cancelled fuel index current s) :
    ∃ final piece, c = ctx.close c.index final piece := by
  induction fuel generalizing index current s with
  | zero => cases h
  | succ fuel ih =>
    rcases closeFrom_cases ctx n cancelled fuel index current s with ⟨e, -, -, hclosed⟩
      | ⟨s', -, -, hclosed⟩ | ⟨following, s', -, -, -, hclosed⟩
    · rw [hclosed] at h
      cases h
    · rw [hclosed] at h
      obtain rfl := List.mem_singleton.1 h
      exact ⟨true, current, rfl⟩
    · rw [hclosed] at h
      rcases List.mem_cons.1 h with rfl | h
      · exact ⟨false, current, rfl⟩
      · split_ifs at h
        · exact ih h
        · cases h

/-- A run that uses all `k` numbers left ends well if they hold what is left of the payload, and
    otherwise says that the stream is too long. -/
theorem outcome_closeFrom_of_full {k : Nat} (hn : 0 < n) (hcurrent : current.length ≤ n)
    (hahead : Ahead n current s) (hk : index + k = lastIndex + 1) (hpos : 0 < k)
    (hfull : (closedFrom ctx n cancelled fuel index current s).length = k) :
    (closeFrom ctx n cancelled fuel index current s).outcome
      = if k * n < current.length + s.bytes.length
        then .error (.lengthTooLong (lastIndex + 1) lastIndex) else .ok () := by
  -- Induction on the fuel: with every chunk there is one number and at most `n` octets less.
  induction fuel generalizing index k current s with
  | zero => exact absurd hfull (Nat.ne_of_lt hpos)
  | succ fuel ih =>
    obtain ⟨k, rfl⟩ := Nat.exists_eq_add_of_le' hpos
    rcases closeFrom_cases ctx n cancelled fuel index current s with ⟨e, -, -, hclosed⟩
      | ⟨s', hstep, hrun, hclosed⟩ | ⟨following, s', hstep, hne, hrun, hclosed⟩
    · rw [hclosed] at hfull
      cases hfull
    · obtain ⟨hfollowing, -⟩ := hahead.step hstep
      have hs : s.bytes = [] := by
        by_contra hs
        exact take_ne_nil hn hs hfollowing.symm
      have hroom : current.length + s.bytes.length ≤ (k + 1) * n := by
        rw [hs, List.length_nil, Nat.succ_mul]
        omega
      rw [if_neg (Nat.not_lt.2 hroom), hrun]
      rfl
    · obtain ⟨rfl, hbytes, -, hahead'⟩ := hahead.step hstep
      have hs : s.bytes ≠ [] := by
        intro hs
        rw [hs, List.take_nil] at hne
        exact hne rfl
      have hlength : current.length = n := hahead.resolve_right hs
      have hleft : (s.bytes.take n).length + s'.bytes.length = s.bytes.length := by
        rw [hbytes, ← List.length_append, List.take_append_drop]
      have hroom : (k + 1) * n < current.length + s.bytes.length
          ↔ k * n < (s.bytes.take n).length + s'.bytes.length := by
        rw [hleft, hlength, Nat.succ_mul]
        omega
      rw [hclosed, List.length_cons, Nat.add_left_inj] at hfull
      rw [hrun, Run.cons, if_congr hroom rfl rfl]
      by_cases hnumber : index < lastIndex
      · rw [if_pos hnumber] at hfull ⊢
        exact ih (List.length_take_le _ _) hahead' (by omega) (by omega) hfull
      · rw [if_neg hnumber] at hfull ⊢
        obtain rfl : 0 = k := hfull
        have hmore : 0 * n < (s.bytes.take n).length + s'.bytes.length := by
          rw [hleft, Nat.zero_mul]
          exact List.length_pos_iff.2 hs
        rw [if_pos hmore]
        rfl

/-! ## The encryption of a payload -/

theorem portions_closeAll (ctx : Context) (n : Nat) (cancelled : Checkpoint → Bool) (s : Source) :
    (closeAll ctx n cancelled s).portions = (closedAll ctx n cancelled s).map Chunk.portion := by
  rw [closeAll, closedAll]
  cases Intake.fill n s with
  | error e => rfl
  | ok result => exact portions_closeFrom

theorem fresh_closedAll (ctx : Context) (n : Nat) (cancelled : Checkpoint → Bool) (s : Source) :
    Fresh ctx (closedAll ctx n cancelled s) := by
  rw [closedAll]
  cases Intake.fill n s with
  | error e => exact (NumberedFrom.nil (Nat.zero_le _)).fresh ctx
  | ok result => exact (numberedFrom_closedFrom (Nat.zero_le _)).fresh ctx

theorem exists_close_of_mem_closedAll (h : c ∈ closedAll ctx n cancelled s) :
    ∃ final piece, c = ctx.close c.index final piece := by
  rw [closedAll] at h
  split at h
  · cases h
  · exact exists_close_of_mem_closedFrom h

/-- An encryption that uses all numbers ends well if the payload needs no more of them, and
    otherwise says that the stream is too long. -/
theorem outcome_closeAll_of_full (hn : 0 < n)
    (hfull : (closedAll ctx n cancelled s).length = lastIndex + 1) :
    (closeAll ctx n cancelled s).outcome
      = if lastIndex + 1 < chunkCount n s.bytes.length
        then .error (.lengthTooLong (lastIndex + 1) lastIndex) else .ok () := by
  rw [closedAll] at hfull
  split at hfull
  · cases hfull
  · next first s' hfirst =>
    obtain ⟨rfl, hbytes, -, hahead⟩ := ahead_of_fill hfirst
    have htotal : (s.bytes.take n).length + s'.bytes.length = s.bytes.length := by
      rw [hbytes, ← List.length_append, List.take_append_drop]
    rw [closeAll, hfirst]
    simp only
    rw [outcome_closeFrom_of_full hn (List.length_take_le _ _) hahead (Nat.zero_add _)
      (Nat.succ_pos _) hfull, htotal]
    exact if_congr (lt_chunkCount_iff hn (Nat.succ_pos _)).symm rfl rfl

/-- Undisturbed, the encryption of a payload seals as many chunks as it needs and as there are
    numbers. -/
theorem length_closedAll_undisturbed (ctx : Context) (hn : 0 < n)
    (hcancelled : ∀ c, cancelled c = false) (hending : s.ending = .finished) :
    (closedAll ctx n cancelled s).length
      = min (lastIndex + 1) (chunkCount n s.bytes.length) := by
  have hnever : (fun i => cancelled (checkpointBefore n s i)) = fun _ => false := by
    funext i
    exact hcancelled _
  have hportions := congrArg List.length (portions_closeAll ctx n cancelled s)
  rw [closeAll_eq_closePieces ctx hn cancelled hending, hnever,
    closePieces_undisturbed ctx (Nat.zero_le _) (cut_ne_nil n s.bytes)] at hportions
  simpa [length_cut hn] using hportions.symm

/-! ## Opening -/

/-- The chunks that a run of `openFrom` gives to the cipher, verified or not. -/
def presentedFrom (ctx : Context) (chunkSize : Nat) (cancelled : Checkpoint → Bool) :
    (fuel : Nat) → (expected : Nat) → Source → List Chunk
  | 0, _, _ => []
  | fuel + 1, expected, source =>
    match (checkCancelled cancelled expected >>= fun _ => readChunk chunkSize expected) source with
    | .error _ => []
    | .ok (chunk, source) =>
      chunk ::
        if (ctx.open? chunk).isSome ∧ chunk.isFinal = false ∧ expected < lastIndex then
          presentedFrom ctx chunkSize cancelled fuel (expected + 1) source
        else []

/-- The chunks that are given to the cipher of a stream whose header is read. -/
def Opened.presented (opened : Opened) (cancelled : Checkpoint → Bool) : List Chunk :=
  presentedFrom opened.context opened.header.chunkSize.toNat cancelled
    (opened.source.bytes.length + 1) 0 opened.source

theorem openNext_of_unread {e : Error}
    (h : (checkCancelled cancelled index >>= fun _ => readChunk n index) s = .error e) :
    openNext ctx n cancelled index s = .error e := by
  rw [openNext, state_bind_eq_error]
  rcases state_bind_eq_error.1 h with hcheck | ⟨_, t, hcheck, hread⟩
  · exact Or.inl hcheck
  · exact Or.inr ⟨_, t, hcheck, state_bind_eq_error.2 (Or.inl hread)⟩

/-- What becomes of a chunk that is read is for the cipher to say. -/
theorem openNext_of_read (ctx : Context)
    (h : (checkCancelled cancelled index >>= fun _ => readChunk n index) s = .ok (c, s')) :
    (∀ piece, ctx.open? c = some piece →
        openNext ctx n cancelled index s = .ok ((c, piece), s'))
      ∧ (ctx.open? c = none → openNext ctx n cancelled index s = .error .decryptionFailed) := by
  obtain ⟨_, t, hcheck, hread⟩ := state_bind_eq_ok.1 h
  refine ⟨fun piece hopen => ?_, fun hopen => ?_⟩
  · simp only [openNext, state_bind_eq_ok]
    exact ⟨_, t, hcheck, c, s', hread, by rw [hopen]; rfl⟩
  · simp only [openNext, state_bind_eq_error]
    exact Or.inr ⟨_, t, hcheck, Or.inr ⟨c, s', hread, by rw [hopen]; rfl⟩⟩

/-- A step of the loop gives nothing to the cipher, or a chunk that is not verified, or one that
    is. -/
theorem openNext_cases (ctx : Context) (n : Nat) (cancelled : Checkpoint → Bool)
    (fuel index : Nat) (s : Source) :
    (∃ e, openNext ctx n cancelled index s = .error e
      ∧ presentedFrom ctx n cancelled (fuel + 1) index s = [])
    ∨ (∃ c, c.index = index ∧ ctx.open? c = none
      ∧ openNext ctx n cancelled index s = .error .decryptionFailed
      ∧ presentedFrom ctx n cancelled (fuel + 1) index s = [c])
    ∨ ∃ c piece s', c.index = index ∧ ctx.open? c = some piece
      ∧ openNext ctx n cancelled index s = .ok ((c, piece), s')
      ∧ presentedFrom ctx n cancelled (fuel + 1) index s
        = c :: if c.isFinal = false ∧ index < lastIndex then
            presentedFrom ctx n cancelled fuel (index + 1) s'
          else [] := by
  rw [presentedFrom]
  cases hstep : (checkCancelled cancelled index >>= fun _ => readChunk n index) s with
  | error e => exact Or.inl ⟨e, openNext_of_unread hstep, rfl⟩
  | ok result =>
    obtain ⟨c, s'⟩ := result
    have hnext := openNext_of_read ctx hstep
    obtain ⟨_, t, -, hread⟩ := state_bind_eq_ok.1 hstep
    obtain ⟨-, ⟨f, rfl, hfits, -⟩, -⟩ := (reads_readChunk n index).sound hread
    cases hopen : ctx.open? f.chunk with
    | none =>
      refine Or.inr (Or.inl ⟨f.chunk, hfits.index_eq, hopen, hnext.2 hopen, ?_⟩)
      simp only [hopen, Option.isSome_none, Bool.false_eq_true, false_and, if_false]
    | some piece =>
      refine Or.inr (Or.inr ⟨f.chunk, piece, s', hfits.index_eq, hopen, hnext.1 piece hopen, ?_⟩)
      simp only [hopen, Option.isSome_some, true_and]

/-- The chunks that a run gives to the cipher are numbered on. -/
theorem numberedFrom_presentedFrom (hindex : index ≤ lastIndex) :
    NumberedFrom index (presentedFrom ctx n cancelled fuel index s) := by
  induction fuel generalizing index s with
  | zero => exact .nil hindex
  | succ fuel ih =>
    rcases openNext_cases ctx n cancelled fuel index s with ⟨e, -, hpresented⟩
      | ⟨c, hc, -, -, hpresented⟩ | ⟨c, piece, s', hc, -, -, hpresented⟩
    · rw [hpresented]
      exact .nil hindex
    · rw [hpresented]
      exact .single hc hindex
    · rw [hpresented]
      split_ifs with hmore
      · exact .cons hc (ih hmore.2)
      · exact .single hc hindex

/-- What is verified are the chunks up to the first that is not. -/
theorem acceptedFrom_eq_takeWhile :
    acceptedFrom ctx n cancelled fuel index s
      = (presentedFrom ctx n cancelled fuel index s).takeWhile fun c => (ctx.open? c).isSome := by
  induction fuel generalizing index s with
  | zero => rfl
  | succ fuel ih =>
    rcases openNext_cases ctx n cancelled fuel index s with ⟨e, hnext, hpresented⟩
      | ⟨c, -, hopen, hnext, hpresented⟩ | ⟨c, piece, s', -, hopen, hnext, hpresented⟩
    · rw [acceptedFrom, hpresented]
      simp only [hnext]
      rfl
    · rw [acceptedFrom, hpresented, List.takeWhile_cons_of_neg (by simp [hopen])]
      simp only [hnext]
    · rw [acceptedFrom_of_ok hnext, hpresented, List.takeWhile_cons_of_pos (by simp [hopen])]
      cases hfinal : c.isFinal with
      | true => simp
      | false =>
        by_cases hnumber : index < lastIndex
        · simp [hnumber, ih]
        · simp [hnumber, Nat.not_lt.1 hnumber]

/-- A run that ends well has verified every chunk that it gave to the cipher, and these are the
    units of the stream. -/
theorem exists_frames_of_outcome_ok
    (hok : (openFrom ctx n cancelled fuel index s).outcome = .ok ()) :
    ∃ frames : List Frame, frames.map Frame.chunk = presentedFrom ctx n cancelled fuel index s
      ∧ s.bytes = frames.flatMap Frame.octets
      ∧ (openFrom ctx n cancelled fuel index s).portions.length = frames.length := by
  induction fuel generalizing index s with
  | zero => cases hok
  | succ fuel ih =>
    rcases openNext_cases ctx n cancelled fuel index s with ⟨e, hnext, -⟩
      | ⟨c, -, -, hnext, -⟩ | ⟨c, piece, s', -, -, hnext, hpresented⟩
    · rw [openFrom_of_error hnext] at hok
      cases hok
    · rw [openFrom_of_error hnext] at hok
      cases hok
    · obtain ⟨f, rfl, -, hleaves⟩ := exists_frame_of_openNext hnext
      rw [hpresented]
      cases hfinal : f.chunk.isFinal with
      | true =>
        rw [openFrom_of_final hnext hfinal] at hok ⊢
        obtain ⟨hbytes, -⟩ := exhausted_of_checkEnd hok
        refine ⟨[f], by simp, ?_, rfl⟩
        rw [hleaves.bytes, hbytes, List.flatMap_singleton, List.append_nil]
      | false =>
        rw [openFrom_of_next hnext hfinal] at hok ⊢
        by_cases hnumber : index < lastIndex
        · rw [if_pos hnumber] at hok ⊢
          obtain ⟨frames, hchunks, hbytes, hlength⟩ := ih hok
          refine ⟨f :: frames, ?_, ?_, congrArg Nat.succ hlength⟩
          · rw [List.map_cons, hchunks, if_pos ⟨rfl, hnumber⟩]
          · rw [hleaves.bytes, hbytes, List.flatMap_cons]
        · rw [if_neg hnumber] at hok
          cases hok

theorem fresh_presented (opened : Opened) (cancelled : Checkpoint → Bool) :
    Fresh opened.context (opened.presented cancelled) :=
  (numberedFrom_presentedFrom (Nat.zero_le _)).fresh _

/-- An accepted stream consists of the chunks that were given to the cipher. -/
theorem exists_frames_of_decryptFor {config : Config} {key : PrivateKey} {id : Option Bytes}
    {input : Source} {sink : Sink} {options : Options} {opened : Opened} {summary : Summary}
    (hopen : openHeader config key id input = .ok opened)
    (hok : (decryptFor config key id input sink options).outcome = .ok summary) :
    ∃ frames : List Frame, frames.length = summary.chunks
      ∧ frames.map Frame.chunk = opened.presented options.cancelled
      ∧ opened.source.bytes = frames.flatMap Frame.octets := by
  rw [decryptFor_of_openHeader hopen, Result.outcome_report_eq_ok_iff] at hok
  obtain ⟨hreleased, rfl⟩ := hok
  obtain ⟨hrun, hresult⟩ := Run.release_of_outcome_ok hreleased
  obtain ⟨frames, hchunks, hbytes, hlength⟩ := exists_frames_of_outcome_ok hrun
  rw [hresult]
  exact ⟨frames, hlength.symm, hchunks, hbytes⟩

/-! ## Both -/

namespace Established

variable (e : Established)

/-- The chunks that an encryption seals under what has been established. -/
def closed (cancelled : Checkpoint → Bool) (source : Source) : List Chunk :=
  closedAll e.context e.header.chunkSize.toNat cancelled source

variable {e} {config : Config} {source : Source} {sink : Sink} {options : Options} {report : Report}

/-- What is written are the first octets of a header and of the chunks that are sealed. -/
theorem written_prefix_of_encryptUnder
    (h : encryptUnder config e source sink options = .ok report) :
    report.written
      <+: e.header.opening ++ (e.closed options.cancelled source).flatMap Chunk.octets := by
  obtain ⟨-, rfl⟩ := encryptUnder_eq_ok_iff.1 h
  rw [Result.written_report, ← flatten_portion, closed, ← portions_closeAll, ← List.flatten_cons]
  exact Sink.written_write_prefix ..

/-- Once all numbers are used, a payload that needs more is too long. -/
theorem outcome_of_encryptUnder_of_full (hpos : 0 < e.header.chunkSize.toNat)
    (h : encryptUnder config e source sink options = .ok report)
    (hlong : 2 ^ 32 < chunkCount e.header.chunkSize.toNat source.bytes.length)
    (hfull : (e.closed options.cancelled source).length = 2 ^ 32) :
    report.outcome = .error (.lengthTooLong (2 ^ 32) (2 ^ 32 - 1))
      ∨ ∃ room reason, sink.limit = some (room, reason)
        ∧ report.outcome = .error (.io reason) := by
  obtain ⟨-, rfl⟩ := encryptUnder_eq_ok_iff.1 h
  have hrun := (outcome_closeAll_of_full hpos hfull).trans (if_pos hlong)
  rcases Run.outcome_deliver_of_error hrun with hdelivered | ⟨room, reason, hlimit, hdelivered⟩
  · exact Or.inl (Result.outcome_report_of_error hdelivered)
  · exact Or.inr ⟨room, reason, hlimit, Result.outcome_report_of_error hdelivered⟩

end Established

/-- **No key and vector twice.** Take any encryption that comes to an end, whatever is encrypted for
    whom and however the caller, the source and the sink disturb it. It has written nothing, or what
    is written are the first octets of a header and of chunks with these properties: their numbers
    are zero, one, two and so on, written as they are; no two of them are sealed under the same key
    and vector; and once all `2³²` numbers are used, which an undisturbed payload of more chunks
    comes to, the encryption of such a payload fails as too long. Likewise the chunks that a
    decryption gives to the cipher have the numbers from zero on and no two the same key and vector,
    whether or not they are verified, so a stream that is accepted has `2³²` units at most. -/
theorem no_nonce_reuse (config : Config) :
    (∀ mode recipients source sink options tape report tape',
      encrypt config mode recipients source sink options tape = some (report, tape') →
        (∃ e, report = .failed e)
        ∨ ∃ established,
          (establish config mode recipients options.chunkSize).run tape
            = some (.ok established, tape')
          ∧ let closed := established.closed options.cancelled source
            let needed := chunkCount established.header.chunkSize.toNat source.bytes.length
            Fresh established.context closed
            ∧ (∀ c ∈ closed, ∃ final piece, c = established.context.close c.index final piece)
            ∧ report.written <+: established.header.opening ++ closed.flatMap Chunk.octets
            ∧ (closed.map fun c => ofBigEndian (c.octets.take 4)) = List.range closed.length
            ∧ (2 ^ 32 < needed → closed.length = 2 ^ 32 →
              report.outcome = .error (.lengthTooLong (2 ^ 32) (2 ^ 32 - 1))
              ∨ ∃ room reason, sink.limit = some (room, reason)
                ∧ report.outcome = .error (.io reason))
            ∧ ((∀ c, options.cancelled c = false) → source.ending = .finished →
              closed.length = min (2 ^ 32) needed))
    ∧ ∀ privateKey id input sink options,
      (∃ e, decrypt config privateKey id input sink options = .failed e)
      ∨ ∃ key opened, PrivateKey.ofBytes privateKey = .ok key
        ∧ openHeader config key id input = .ok opened
        ∧ let presented := opened.presented options.cancelled
          Fresh opened.context presented
          ∧ opened.accepted options.cancelled
            = presented.takeWhile (fun c => (opened.context.open? c).isSome)
          ∧ ∀ summary,
            (decrypt config privateKey id input sink options).outcome = .ok summary →
            summary.chunks ≤ 2 ^ 32
            ∧ ∃ frames : List Frame, frames.length = summary.chunks
              ∧ frames.map Frame.chunk = presented
              ∧ opened.source.bytes = frames.flatMap Frame.octets := by
  refine ⟨?_, ?_⟩
  · intro mode recipients source sink options tape report tape' hrun
    rcases encrypt_cases hrun with hfailed | ⟨established, hestablish, hunder⟩
    · exact Or.inl hfailed
    have hpos := (valid_of_establish hestablish).pos
    have hfresh : Fresh established.context (established.closed options.cancelled source) :=
      fresh_closedAll ..
    have hwritten : ((established.closed options.cancelled source).map fun c =>
        ofBigEndian (c.octets.take 4))
          = List.range (established.closed options.cancelled source).length := by
      rw [← hfresh.indices]
      exact List.map_congr_left fun c hc => ofBigEndian_take_octets (hfresh.index_lt hc)
    exact Or.inr ⟨established, hestablish, hfresh, fun c => exists_close_of_mem_closedAll,
      Established.written_prefix_of_encryptUnder hunder, hwritten,
      Established.outcome_of_encryptUnder_of_full hpos hunder,
      fun hcancelled hending => length_closedAll_undisturbed _ hpos hcancelled hending⟩
  · intro privateKey id input sink options
    cases hkey : PrivateKey.ofBytes privateKey with
    | error e => exact Or.inl ⟨e, by rw [decrypt, hkey]⟩
    | ok key =>
      rw [decrypt_of_ofBytes hkey]
      cases hopen : openHeader config key id input with
      | error e => exact Or.inl ⟨e, by rw [decryptFor, hopen]⟩
      | ok opened =>
        have hfresh := fresh_presented opened options.cancelled
        refine Or.inr ⟨key, opened, rfl, hopen, hfresh, acceptedFrom_eq_takeWhile, ?_⟩
        intro summary hok
        obtain ⟨frames, hlength, hchunks, hbytes⟩ := exists_frames_of_decryptFor hopen hok
        refine ⟨?_, frames, hlength, hchunks, hbytes⟩
        rw [← hlength, ← List.length_map Frame.chunk, hchunks]
        exact hfresh.length_le

/-- A payload of a full and a short chunk. -/
theorem no_nonce_reuse_two_chunks :
    let key : PrivateKey := ⟨2, by decide, by decide⟩
    let recipients : List Recipient := [⟨[], key.publicKey.compressed.bytes⟩]
    let source : Source := .ofBytes [1, 2, 3]
    let options : Options := { Options.none with chunkSize := some 2 }
    let tape : Tape := List.replicate 31 0 ++ 1 :: List.replicate 16 0
    ∃ (established : Established) (report : Report) (tape' : Tape) (summary : Summary),
      encrypt .standard .single recipients source .unlimited options tape = some (report, tape')
        ∧ report.outcome = .ok summary
        ∧ (established.closed options.cancelled source).length = 2
        ∧ Fresh established.context (established.closed options.cancelled source)
        ∧ report.written <+: established.header.opening
          ++ (established.closed options.cancelled source).flatMap Chunk.octets := by
  intro key recipients source options tape
  have hdraw : Draw.privateKey tape = some (⟨1, by decide, by decide⟩, List.replicate 16 0) := by
    decide +kernel
  have hreadable : ∀ r ∈ recipients, ∃ key : PrivateKey, key.publicKey.Form r.publicKey := by
    intro r hr
    obtain rfl := List.mem_singleton.1 hr
    exact ⟨key, .compressed⟩
  have hsize : ∀ size, options.chunkSize = some size →
      1 ≤ size ∧ size ≤ Config.standard.maxChunkSize := by
    rintro size ⟨⟩
    decide
  have haddressable : Addressable .standard recipients .single := rfl
  obtain ⟨established, rest, hestablish, hchunkSize, hopens⟩ :=
    exists_establish haddressable hreadable hsize hdraw (by decide)
  have htwo : established.header.chunkSize.toNat = 2 := hchunkSize
  obtain ⟨report, summary, hrun, hok⟩ := exists_encrypt hestablish hopens.valid (fun _ => rfl)
    (rfl : source.ending = .finished)
    (by rw [established.length_chunks, htwo]; decide)
  obtain ⟨hencrypt, -⟩ := no_nonce_reuse .standard
  rcases hencrypt _ _ _ _ _ _ _ _ hrun with ⟨e, rfl⟩
    | ⟨established', hestablish', hfresh, -, hwritten, -, -, hlength⟩
  · cases hok
  · rw [hestablish] at hestablish'
    obtain rfl := Except.ok.inj (Prod.mk.inj (Option.some.inj hestablish')).1
    have hcount := hlength (fun _ => rfl) rfl
    rw [htwo, show min (2 ^ 32) (chunkCount 2 source.bytes.length) = 2 by decide] at hcount
    exact ⟨established, report, rest, summary, hrun, hok, hcount, hfresh, hwritten⟩

end SealedEnvelope.Stream
