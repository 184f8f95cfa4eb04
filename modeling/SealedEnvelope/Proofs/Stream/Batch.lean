import SealedEnvelope.Proofs.Stream.RoundTrip

set_option autoImplicit false

/-! # Splitting a payload beforehand

Encryption reads a payload once, one chunk ahead. What it writes can also be told without any
reading: `chunkCount` chunks, each the `slice` of the payload that belongs to its number, the last
one marked (`Context.batch`). The two agree (`encrypt_eq_batch`) as the pieces that are read are the
slices (`cut_eq_map_slice`). -/

namespace SealedEnvelope.Stream

/-! ## Slices -/

/-- The number of chunks of a payload: as many as its octets need, and at least one. -/
def chunkCount (chunkSize length : Nat) : Nat := max 1 ((length + chunkSize - 1) / chunkSize)

/-- The octets of a payload from `i * chunkSize` up to `(i + 1) * chunkSize` or its end. -/
def slice (chunkSize : Nat) (payload : Bytes) (i : Nat) : Bytes :=
  payload.extract (i * chunkSize) (min ((i + 1) * chunkSize) payload.length)

section Slices

variable {n i length : Nat} {payload : Bytes}

theorem slice_eq_take_drop : slice n payload i = (payload.drop (i * n)).take n := by
  rw [slice, List.extract_eq_take_drop, List.take_eq_take_iff, List.length_drop, Nat.succ_mul]
  omega

theorem slice_zero : slice n payload 0 = payload.take n := by
  rw [slice_eq_take_drop, Nat.zero_mul, List.drop_zero]

theorem slice_succ : slice n payload (i + 1) = slice n (payload.drop n) i := by
  rw [slice_eq_take_drop, slice_eq_take_drop, List.drop_drop, Nat.succ_mul, Nat.add_comm]

theorem chunkCount_of_le (hn : 0 < n) (h : length ≤ n) : chunkCount n length = 1 := by
  have hone : (length + n - 1) / n ≤ 1 := by
    rw [Nat.div_le_iff_le_mul_add_pred hn]
    omega
  rw [chunkCount, Nat.max_eq_left hone]

theorem chunkCount_of_lt (hn : 0 < n) (h : n < length) :
    chunkCount n length = chunkCount n (length - n) + 1 := by
  have hstep : (length + n - 1) / n = (length - n + n - 1) / n + 1 := by
    rw [← Nat.add_div_right _ hn]
    congr 1
    omega
  have hpos : 1 ≤ (length - n + n - 1) / n := by
    rw [Nat.le_div_iff_mul_le hn]
    omega
  rw [chunkCount, chunkCount, hstep]
  omega

theorem cut_of_le (h : payload.length ≤ n) : cut n payload = [payload] := by
  rw [cut, List.take_of_length_le h, List.drop_of_length_le h, blocks_nil]

theorem cut_of_lt (hn : 0 < n) (h : n < payload.length) :
    cut n payload = payload.take n :: cut n (payload.drop n) := by
  have hdrop : payload.drop n ≠ [] := by rwa [ne_eq, List.drop_eq_nil_iff, Nat.not_le]
  rw [cut, blocks_of_ne_nil hn hdrop, ← cut]

/-- The pieces of a payload are its slices. -/
theorem cut_eq_map_slice (hn : 0 < n) (payload : Bytes) :
    cut n payload = (List.range (chunkCount n payload.length)).map (slice n payload) := by
  induction hlength : payload.length using Nat.strong_induction_on generalizing payload with
  | _ length ih =>
    subst hlength
    by_cases h : payload.length ≤ n
    · rw [cut_of_le h, chunkCount_of_le hn h, List.range_one, List.map_singleton, slice_zero,
        List.take_of_length_le h]
    · have hlt := Nat.not_le.1 h
      have hshorter : (payload.drop n).length < payload.length := by
        rw [List.length_drop]
        omega
      rw [cut_of_lt hn hlt, chunkCount_of_lt hn hlt, List.range_succ_eq_map, List.map_cons,
        List.map_map, slice_zero, ih _ hshorter _ rfl, List.length_drop]
      refine congrArg (List.cons _) (List.map_congr_left fun i _ => ?_)
      exact slice_succ.symm

theorem length_cut (hn : 0 < n) (payload : Bytes) :
    (cut n payload).length = chunkCount n payload.length := by
  rw [cut_eq_map_slice hn, List.length_map, List.length_range]

/-- Only a payload that is longer than `k` full chunks has more than `k`. -/
theorem lt_chunkCount_iff (hn : 0 < n) {k : Nat} (hk : 0 < k) :
    k < chunkCount n length ↔ k * n < length := by
  have hmax : k < chunkCount n length ↔ k + 1 ≤ (length + n - 1) / n := by
    rw [chunkCount]
    omega
  rw [hmax, Nat.le_div_iff_mul_le hn, Nat.succ_mul]
  omega

/-- All chunks but the last are full. -/
theorem length_slice_of_lt (hn : 0 < n) (h : i + 1 < chunkCount n payload.length) :
    (slice n payload i).length = n := by
  have hlt := (lt_chunkCount_iff hn (Nat.succ_pos i)).1 h
  rw [Nat.succ_mul] at hlt
  rw [slice_eq_take_drop, List.length_take, List.length_drop]
  omega

/-- The last chunk is empty for the empty payload only. -/
theorem slice_last_ne_nil (hn : 0 < n) (h : payload ≠ []) :
    slice n payload (chunkCount n payload.length - 1) ≠ [] := by
  have hlength := List.length_pos_iff.2 h
  have hlt : (chunkCount n payload.length - 1) * n < payload.length := by
    have hcount : 1 ≤ chunkCount n payload.length := Nat.le_max_left ..
    obtain ⟨k, hk⟩ := Nat.exists_eq_add_of_le' hcount
    rw [hk, Nat.add_sub_cancel]
    cases k with
    | zero => rwa [Nat.zero_mul]
    | succ k => exact (lt_chunkCount_iff hn (Nat.succ_pos k)).1 (by omega)
  rw [slice_eq_take_drop, ← List.length_pos_iff, List.length_take, List.length_drop]
  omega

end Slices

/-! ## Units -/

namespace Context

/-- A chunk as it is written: its number, its flags, and what the cipher gives behind the narrowest
    prefix for its length. -/
def unit (ctx : Context) (index : Nat) (final : Bool) (piece : Bytes) : Bytes :=
  let flags : UInt8 := if final then 1 else 0
  let (ciphertext, tag) :=
    Gcm.encrypt ctx.key (chunkIv ctx.baseIv index) (chunkAad ctx.headerHash index flags) piece
  let sealed := ciphertext ++ tag.bytes
  bigEndian 4 index ++ [flags] ++ LengthPrefix.octets sealed.length ++ sealed

/-- The chunks of a payload that is split beforehand. -/
def batch (ctx : Context) (chunkSize : Nat) (payload : Bytes) : Bytes :=
  let count := chunkCount chunkSize payload.length
  (List.range count).flatMap fun i =>
    ctx.unit i (decide (i + 1 = count)) (slice chunkSize payload i)

variable (ctx : Context)

theorem octets_close (index : Nat) (final : Bool) (piece : Bytes) :
    (ctx.close index final piece).octets = ctx.unit index final piece := by
  simp [unit, Chunk.octets, Chunk.sealed, close, flagsOf, finalFlag]

theorem closeChunks_cut {n : Nat} (hn : 0 < n) (payload : Bytes) :
    ctx.closeChunks 0 (cut n payload)
      = (List.range (chunkCount n payload.length)).map fun i =>
        ctx.close i (decide (i + 1 = chunkCount n payload.length)) (slice n payload i) := by
  apply List.ext_getElem?
  intro i
  rw [getElem?_closeChunks, length_cut hn, cut_eq_map_slice hn, List.getElem?_map,
    List.getElem?_map, Nat.zero_add, Option.map_map]
  by_cases hi : i < chunkCount n payload.length
  · simp [hi]
  · simp [Nat.not_lt.1 hi]

theorem flatMap_octets_closeChunks {n : Nat} (hn : 0 < n) (payload : Bytes) :
    (ctx.closeChunks 0 (cut n payload)).flatMap Chunk.octets = ctx.batch n payload := by
  rw [closeChunks_cut ctx hn, List.flatMap_map, batch]
  simp only [octets_close]

end Context

/-! ## Encryption -/

/-- **Reading one chunk ahead is splitting beforehand.** Take any stream key, any header whose chunk
    size is admitted, and a payload of at most `2³²` chunks. If nobody cancels and nothing fails,
    encryption ends well; and whenever it does, it has written the header behind its length, then
    the chunks of the payload as it is split beforehand, and counts these chunks and the octets of
    the payload. All chunks but the last are full, the last is empty for the empty payload only, and
    no other prefix for a length is shorter. -/
theorem encrypt_eq_batch {config : Config} {established : Established} {source : Source}
    (hvalid : established.header.Valid config)
    (hcount : chunkCount established.header.chunkSize.toNat source.bytes.length ≤ 2 ^ 32) :
    let header := established.header
    let n := header.chunkSize.toNat
    let payload := source.bytes
    let count := chunkCount n payload.length
    let written := LengthPrefix.octets header.octets.length ++ header.octets
      ++ established.context.batch n payload
    let summary : Summary := ⟨header.kind, count, payload.length⟩
    (∀ options : Options, (∀ c, options.cancelled c = false) → source.ending = .finished →
        ∃ report, encryptUnder config established source .unlimited options = .ok report
          ∧ report.outcome = .ok summary
          ∧ ∀ mode recipients tape rest,
            (establish config mode recipients options.chunkSize).run tape
              = some (.ok established, rest) →
            encrypt config mode recipients source .unlimited options tape = some (report, rest))
      ∧ (∀ sink options report summary',
        encryptUnder config established source sink options = .ok report →
          report.outcome = .ok summary' → report.written = written ∧ summary' = summary)
      ∧ (∀ i, i + 1 < count → (slice n payload i).length = n)
      ∧ (slice n payload (count - 1) = [] → payload = [])
      ∧ ∀ length width, LengthPrefix.Width.Holds width length →
        (LengthPrefix.octets length).length ≤ (LengthPrefix.octetsIn width length).length := by
  intro header n payload count written summary
  have hchunks : (established.chunks payload).length = count := by
    rw [established.length_chunks, length_cut hvalid.pos]
  have hmade : ∀ sink options report summary',
      encryptUnder config established source sink options = .ok report →
        report.outcome = .ok summary' → report.written = written ∧ summary' = summary := by
    intro sink options report summary' hunder hok
    obtain ⟨-, hwritten, hsummary⟩ := written_of_encryptUnder hvalid.pos hunder hok
    rw [hchunks] at hsummary
    rw [Established.chunks, established.context.flatMap_octets_closeChunks hvalid.pos] at hwritten
    exact ⟨hwritten, hsummary⟩
  refine ⟨fun options hcancelled hending => ?_, hmade, fun i => length_slice_of_lt hvalid.pos, ?_,
    fun length width hholds => ?_⟩
  · obtain ⟨report, summary', hunder, hok⟩ :=
      exists_encryptUnder hvalid hcancelled hending (hchunks.trans_le hcount)
    obtain ⟨-, rfl⟩ := hmade _ _ _ _ hunder hok
    exact ⟨report, hunder, hok, fun mode recipients tape rest hestablish =>
      encrypt_of_encryptUnder hestablish hunder⟩
  · intro hlast
    by_contra hne
    exact slice_last_ne_nil hvalid.pos hne hlast
  · rw [LengthPrefix.length_octets, LengthPrefix.length_octetsIn]
    exact Nat.add_le_add_left (LengthPrefix.Width.size_ofLength_le hholds) 1

/-- A payload of two full chunks. -/
theorem encrypt_eq_batch_two_full_chunks :
    let key : PrivateKey := ⟨2, by decide, by decide⟩
    let established := Established.forOne key ⟨1, by decide, by decide⟩ (.zero 16) 2
    let source : Source := .ofBytes [1, 2, 3, 4]
    established.header.Valid .standard
      ∧ chunkCount established.header.chunkSize.toNat source.bytes.length ≤ 2 ^ 32
      ∧ ∃ report, encryptUnder .standard established source .unlimited .none = .ok report
        ∧ report.outcome = .ok ⟨.single, 2, 4⟩
        ∧ report.written = established.header.opening
          ++ (established.context.unit 0 false [1, 2]
            ++ established.context.unit 1 true [3, 4]) := by
  intro key established source
  have hvalid : established.header.Valid .standard :=
    Established.valid_forOne key ⟨1, by decide, by decide⟩ (.zero 16) (by decide) (by decide)
  have hcount : chunkCount established.header.chunkSize.toNat source.bytes.length ≤ 2 ^ 32 := by
    decide
  obtain ⟨hends, hmade, -⟩ := encrypt_eq_batch hvalid hcount
  obtain ⟨report, hunder, hok, -⟩ := hends .none (fun _ => rfl) rfl
  obtain ⟨hwritten, -⟩ := hmade .unlimited .none report _ hunder hok
  have hbatch : established.context.batch 2 [1, 2, 3, 4]
      = established.context.unit 0 false [1, 2] ++ established.context.unit 1 true [3, 4] := by
    have hcount : chunkCount 2 4 = 2 := by decide
    rw [Context.batch, List.length_cons]
    simp [hcount, List.range_succ, slice]
  refine ⟨hvalid, hcount, report, hunder, hok.trans (congrArg Except.ok (by decide)), ?_⟩
  rw [← hbatch]
  exact hwritten

end SealedEnvelope.Stream
