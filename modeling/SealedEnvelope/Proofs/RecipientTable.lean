import SealedEnvelope.Proofs.Config.Accepted
import SealedEnvelope.Proofs.Reader
import Mathlib.Data.List.Nodup

set_option autoImplicit false

/-! # The recipient table's written form

`RecipientTable.octets` is what a table looks like and `RecipientTable.Valid` says which tables a
configuration admits. Writing succeeds exactly for the valid tables (`encode_eq_ok_iff`), reading
accepts exactly what writing produces (`read_eq_ok_iff`), and refuses anything else as malformed. -/

namespace SealedEnvelope

/-! ## Lines -/

theorem WrappedKey.read_eq_ok_iff {input rest : Bytes} {w : WrappedKey} :
    WrappedKey.read input = .ok (w, rest) ↔ input = w.octets ++ rest := by
  simp only [WrappedKey.read, state_bind_eq_ok, state_pure_eq_ok, Reader.octets_eq_ok_iff]
  constructor
  · rintro ⟨ephemeral, _, rfl, iv, _, rfl, tag, _, rfl, key, _, rfl, rfl, rfl⟩
    simp [WrappedKey.octets]
  · rintro rfl
    exact ⟨w.ephemeral, _, by simp [WrappedKey.octets], w.iv, _, rfl, w.tag, _, rfl,
      w.encryptedKey, _, rfl, rfl, rfl⟩

theorem WrappedKey.malformed_read (input : Bytes) : Reader.Malformed (WrappedKey.read input) :=
  Reader.malformed_bind Reader.malformed_octets fun _ _ =>
    Reader.malformed_bind Reader.malformed_octets fun _ _ =>
      Reader.malformed_bind Reader.malformed_octets fun _ _ =>
        Reader.malformed_bind Reader.malformed_octets fun _ _ => Reader.malformed_pure

namespace RecipientEntry

@[simp] theorem length_octets (e : RecipientEntry) :
    e.octets.length = e.id.length + WrappedKey.size := by
  simp [octets]

theorem read_eq_ok_iff {idSize : Nat} {input rest : Bytes} {e : RecipientEntry} :
    read idSize input = .ok (e, rest) ↔ e.id.length = idSize ∧ input = e.octets ++ rest := by
  simp only [read, state_bind_eq_ok, state_pure_eq_ok, Reader.octets_eq_ok_iff,
    WrappedKey.read_eq_ok_iff]
  constructor
  · rintro ⟨id, _, rfl, w, _, rfl, rfl, rfl⟩
    simp [octets]
  · rintro ⟨hid, rfl⟩
    exact ⟨⟨e.id, hid⟩, _, by simp [octets], e.wrappedKey, _, rfl, rfl, rfl⟩

theorem malformed_read (idSize : Nat) (input : Bytes) : Reader.Malformed (read idSize input) :=
  Reader.malformed_bind Reader.malformed_octets fun _ rest =>
    Reader.malformed_bind (WrappedKey.malformed_read rest) fun _ _ => Reader.malformed_pure

end RecipientEntry

/-! ## Limits -/

theorem firstRepeatAfter_eq_none_iff {seen ids : List Bytes} :
    firstRepeatAfter seen ids = none ↔ ids.Nodup ∧ ∀ id ∈ ids, id ∉ seen := by
  induction ids generalizing seen with
  | nil => simp [firstRepeatAfter]
  | cons id rest ih =>
    rw [firstRepeatAfter]
    by_cases hseen : id ∈ seen
    · simp [hseen]
    · rw [if_neg hseen, ih, List.nodup_cons]
      constructor
      · rintro ⟨hnodup, hrest⟩
        refine ⟨⟨fun hmem => hrest id hmem (List.mem_cons_self ..), hnodup⟩, fun a ha => ?_⟩
        rcases List.mem_cons.1 ha with rfl | ha
        · exact hseen
        · exact fun hmem => hrest a ha (List.mem_cons_of_mem _ hmem)
      · rintro ⟨⟨hid, hnodup⟩, hall⟩
        refine ⟨hnodup, fun a ha hmem => ?_⟩
        rcases List.mem_cons.1 hmem with rfl | hmem
        · exact hid ha
        · exact hall a (List.mem_cons_of_mem _ ha) hmem

theorem checkUnique_eq_ok_iff {ids : List Bytes} : checkUnique ids = .ok () ↔ ids.Nodup := by
  have h : firstRepeat ids = none ↔ ids.Nodup := by
    rw [firstRepeat, firstRepeatAfter_eq_none_iff]
    simp
  rw [← h, checkUnique]
  cases firstRepeat ids <;> simp

theorem Config.checkCount_eq_ok_iff {config : Config} {count : Nat} :
    config.checkCount count = .ok () ↔ 1 ≤ count ∧ count ≤ config.maxRecipients := by
  have hmin : min config.maxRecipients 65535 = config.maxRecipients :=
    Nat.min_eq_left config.maxRecipients_le
  rw [Config.checkCount, hmin]
  split
  · simp only [reduceCtorEq, false_iff]
    omega
  · split
    · simp only [reduceCtorEq, false_iff]
      omega
    · simp only [true_iff]
      omega

theorem Config.checkIdSize_eq_ok_iff {config : Config} {id : Bytes} :
    config.checkIdSize id = .ok () ↔ id.length = config.idSize := by
  rw [Config.checkIdSize]
  split <;> simp_all

namespace RecipientTable

variable {config : Config} {entries : List RecipientEntry}

/-- A table that a configuration admits. -/
structure Valid (config : Config) (entries : List RecipientEntry) : Prop where
  pos : 1 ≤ entries.length
  le_max : entries.length ≤ config.maxRecipients
  nodup : (entries.map (·.id)).Nodup
  idSize : ∀ e ∈ entries, e.id.length = config.idSize

/-- Where no identifier occurs twice, the entry that is found is the one that has it. -/
theorem find?_eq_some_iff_of_nodup (hnodup : (entries.map (·.id)).Nodup) {id : Bytes}
    {e : RecipientEntry} : entries.find? (·.id = id) = some e ↔ e ∈ entries ∧ e.id = id := by
  constructor
  · intro h
    exact ⟨List.mem_of_find?_eq_some h, by simpa using List.find?_some h⟩
  · rintro ⟨he, rfl⟩
    have hsome : (entries.find? (·.id = e.id)).isSome := by
      rw [List.find?_isSome]
      exact ⟨e, he, by simp⟩
    obtain ⟨e', hfind⟩ := Option.isSome_iff_exists.1 hsome
    have hid : e'.id = e.id := by simpa using List.find?_some hfind
    rw [hfind, List.inj_on_of_nodup_map hnodup (List.mem_of_find?_eq_some hfind) he hid]

/-- The octets of a table. -/
def octets (entries : List RecipientEntry) : Bytes :=
  bigEndian 2 entries.length ++ entries.flatMap RecipientEntry.octets

theorem length_flatMap_octets (h : ∀ e ∈ entries, e.id.length = config.idSize) :
    (entries.flatMap RecipientEntry.octets).length = entries.length * entrySize config := by
  induction entries with
  | nil => simp
  | cons e rest ih =>
    have hrest : ∀ e ∈ rest, e.id.length = config.idSize := fun e he => h e (by simp [he])
    have he : e.id.length = config.idSize := h e (by simp)
    rw [List.flatMap_cons, List.length_append, ih hrest, RecipientEntry.length_octets, he,
      List.length_cons, Nat.succ_mul, Nat.add_comm]
    rfl

theorem Valid.length_octets (h : Valid config entries) :
    (octets entries).length = 2 + entries.length * entrySize config := by
  rw [octets, List.length_append, length_bigEndian, length_flatMap_octets h.idSize]

/-- The count of a valid table fits its field. -/
theorem Valid.length_lt (h : Valid config entries) : entries.length < 256 ^ 2 :=
  Nat.lt_of_le_of_lt (Nat.le_trans h.le_max config.maxRecipients_le) (by decide)

/-! ## Writing -/

theorem encodeEntries_eq_ok_iff {bytes : Bytes} :
    encodeEntries config entries = .ok bytes
      ↔ (∀ e ∈ entries, e.id.length = config.idSize)
        ∧ bytes = entries.flatMap RecipientEntry.octets := by
  induction entries generalizing bytes with
  | nil => simp [encodeEntries, eq_comm]
  | cons e rest ih =>
    simp only [encodeEntries, bind_eq_ok, pure_eq_ok, ih, List.forall_mem_cons, List.flatMap_cons]
    constructor
    · rintro ⟨_, hid, _, ⟨hrest, rfl⟩, rfl⟩
      exact ⟨⟨Config.checkIdSize_eq_ok_iff.1 hid, hrest⟩, rfl⟩
    · rintro ⟨⟨hid, hrest⟩, rfl⟩
      exact ⟨(), Config.checkIdSize_eq_ok_iff.2 hid, _, ⟨hrest, rfl⟩, rfl⟩

theorem encode_eq_ok_iff {bytes : Bytes} :
    encode config entries = .ok bytes ↔ Valid config entries ∧ bytes = octets entries := by
  simp only [encode, bind_eq_ok, pure_eq_ok, encodeEntries_eq_ok_iff]
  constructor
  · rintro ⟨_, hcount, _, hunique, _, ⟨hids, rfl⟩, rfl⟩
    obtain ⟨hpos, hle⟩ := Config.checkCount_eq_ok_iff.1 hcount
    exact ⟨⟨hpos, hle, checkUnique_eq_ok_iff.1 hunique, hids⟩, rfl⟩
  · rintro ⟨⟨hpos, hle, hnodup, hids⟩, rfl⟩
    exact ⟨(), Config.checkCount_eq_ok_iff.2 ⟨hpos, hle⟩, (), checkUnique_eq_ok_iff.2 hnodup, _,
      ⟨hids, rfl⟩, rfl⟩

/-! ## Reading -/

theorem checkReadCount_eq_ok_iff {count : Nat} :
    checkReadCount config count = .ok () ↔ 1 ≤ count ∧ count ≤ config.maxRecipients := by
  rw [checkReadCount]
  split
  · simp only [reduceCtorEq, false_iff]
    omega
  · split
    · simp only [reduceCtorEq, false_iff]
      omega
    · simp only [true_iff]
      omega

theorem checkRemaining_eq_ok_iff {count remaining : Nat} :
    checkRemaining config count remaining = .ok () ↔ count * entrySize config ≤ remaining := by
  rw [checkRemaining]
  split <;> simp_all

theorem checkReadUnique_eq_ok_iff {ids : List Bytes} :
    checkReadUnique ids = .ok () ↔ ids.Nodup := by
  rw [checkReadUnique, mapError_eq_ok, checkUnique_eq_ok_iff]

theorem read_eq_ok_iff {input rest : Bytes} :
    read config input = .ok (entries, rest)
      ↔ Valid config entries ∧ input = octets entries ++ rest := by
  simp only [read, state_bind_eq_ok, state_pure_eq_ok, state_lift_eq_ok, Reader.nat_eq_ok_iff,
    Reader.remaining_eq_ok_iff, Reader.times_eq_ok_iff RecipientEntry.read_eq_ok_iff]
  constructor
  · rintro ⟨count, _, ⟨-, rfl⟩, _, _, ⟨hcount, rfl⟩, _, _, ⟨rfl, rfl⟩, _, _, ⟨-, rfl⟩, _, _,
      ⟨rfl, hids, rfl⟩, _, _, ⟨hunique, rfl⟩, rfl, rfl⟩
    obtain ⟨hpos, hle⟩ := checkReadCount_eq_ok_iff.1 hcount
    refine ⟨⟨hpos, hle, checkReadUnique_eq_ok_iff.1 hunique, hids⟩, ?_⟩
    rw [octets, List.append_assoc]
  · rintro ⟨h, rfl⟩
    -- The lines are all there, so the check of what remains passes.
    have hremaining : entries.length * entrySize config
        ≤ (entries.flatMap RecipientEntry.octets ++ rest).length := by
      rw [List.length_append, length_flatMap_octets h.idSize]
      exact Nat.le_add_right _ _
    refine ⟨entries.length, _, ⟨h.length_lt, by rw [octets, List.append_assoc]⟩, (), _,
      ⟨checkReadCount_eq_ok_iff.2 ⟨h.pos, h.le_max⟩, rfl⟩, _, _, ⟨rfl, rfl⟩, (), _,
      ⟨checkRemaining_eq_ok_iff.2 hremaining, rfl⟩, entries, rest, ⟨rfl, h.idSize, rfl⟩, (), _,
      ⟨checkReadUnique_eq_ok_iff.2 h.nodup, rfl⟩, rfl, rfl⟩

theorem malformed_checkReadCount (count : Nat) :
    Reader.Malformed (checkReadCount config count) := by
  intro e h
  rw [checkReadCount] at h
  split at h
  · exact ⟨_, (Except.error.inj h).symm⟩
  · split at h
    · exact ⟨_, (Except.error.inj h).symm⟩
    · cases h

theorem malformed_checkRemaining (count remaining : Nat) :
    Reader.Malformed (checkRemaining config count remaining) := by
  intro e h
  rw [checkRemaining] at h
  split at h
  · exact ⟨_, (Except.error.inj h).symm⟩
  · cases h

theorem malformed_checkReadUnique (ids : List Bytes) : Reader.Malformed (checkReadUnique ids) := by
  intro e h
  rw [checkReadUnique, mapError_eq_error] at h
  obtain ⟨e', -, rfl⟩ := h
  exact ⟨_, rfl⟩

theorem malformed_read (input : Bytes) : Reader.Malformed (read config input) :=
  Reader.malformed_bind Reader.malformed_nat fun count _ =>
    Reader.malformed_bind (Reader.malformed_lift (malformed_checkReadCount count)) fun _ _ =>
      Reader.malformed_bind Reader.malformed_remaining fun remaining _ =>
        Reader.malformed_bind (Reader.malformed_lift (malformed_checkRemaining count remaining))
          fun _ rest =>
          Reader.malformed_bind
            (Reader.malformed_times (RecipientEntry.malformed_read _) count rest)
            fun entries _ =>
            Reader.malformed_bind
              (Reader.malformed_lift (malformed_checkReadUnique (entries.map (·.id))))
              fun _ _ => Reader.malformed_pure

end RecipientTable

end SealedEnvelope
