import SealedEnvelope.Proofs.Envelope

set_option autoImplicit false

/-! # What recipients are refused for

`Config.Fault` says what is wrong with a list of recipients: the first thing that is, in the order
of their number, the widths of the identifiers, their being distinct and the public keys, and of the
last three the first place in the list. A list has at most one fault, and it has one exactly if it
is not admitted or a key cannot be read (`Config.exists_fault_iff`). Encryption for several
recipients fails with the fault and with nothing else (`Envelope.failsWith_encryptMultiple`,
`Envelope.fault_of_encryptMultiple`): the checks that the recipient table makes once more, in an
order of its own, pass for all lists that are admitted
(`RecipientTable.exists_encode_iff_admits`). -/

namespace SealedEnvelope

variable {config : Config} {recipients : List Recipient} {e : Error}

/-! ## Places in a list -/

/-- A list has an element of which `P` is true, given the elements before it. -/
def HasWith {α : Type} (P : List α → α → Prop) (l : List α) : Prop :=
  ∃ before a after, l = before ++ a :: after ∧ P before a

section HasWith

variable {α : Type} {P Q : List α → α → Prop} {x : α} {l : List α}

theorem not_hasWith_nil : ¬HasWith P [] := by
  intro h
  obtain ⟨before, a, after, h, -⟩ := h
  simp at h

/-- The element is the head, or it is behind the head. -/
theorem hasWith_cons :
    HasWith P (x :: l) ↔ P [] x ∨ HasWith (fun before a => P (x :: before) a) l := by
  constructor
  · intro h
    obtain ⟨before, a, after, hsplit, h⟩ := h
    cases before with
    | nil =>
      obtain ⟨rfl, rfl⟩ := List.cons.inj hsplit
      exact Or.inl h
    | cons b before =>
      obtain ⟨rfl, rfl⟩ := List.cons.inj hsplit
      exact Or.inr ⟨before, a, after, rfl, h⟩
  · intro h
    rcases h with h | ⟨before, a, after, rfl, h⟩
    · exact ⟨[], x, l, rfl, h⟩
    · exact ⟨x :: before, a, after, rfl, h⟩

theorem hasWith_congr (h : ∀ before a, P before a ↔ Q before a) : HasWith P l ↔ HasWith Q l := by
  simp only [HasWith, h]

theorem hasWith_and_left {p : Prop} :
    HasWith (fun before a => p ∧ P before a) l ↔ p ∧ HasWith P l := by
  constructor
  · intro h
    obtain ⟨before, a, after, hsplit, hp, h⟩ := h
    exact ⟨hp, before, a, after, hsplit, h⟩
  · intro h
    obtain ⟨hp, before, a, after, hsplit, h⟩ := h
    exact ⟨before, a, after, hsplit, hp, h⟩

end HasWith

/-! ## Where each check fails -/

theorem Config.checkCount_eq_error_iff {count : Nat} :
    config.checkCount count = .error e
      ↔ count = 0 ∧ e = .noRecipients
        ∨ config.maxRecipients < count ∧ e = .tooManyRecipients count config.maxRecipients := by
  have hmin : min config.maxRecipients 65535 = config.maxRecipients :=
    Nat.min_eq_left config.maxRecipients_le
  rw [checkCount, hmin]
  by_cases hzero : count = 0
  · simp [hzero, eq_comm]
  · by_cases hmany : config.maxRecipients < count
    · simp [hzero, hmany, eq_comm]
    · simp [hzero, hmany]

theorem Config.checkIdSize_eq_error_iff {id : Bytes} :
    config.checkIdSize id = .error e
      ↔ id.length ≠ config.idSize
        ∧ e = .invalidIdentifier
          s!"recipient id must be {config.idSize} bytes, got {id.length}" := by
  rw [checkIdSize]
  split_ifs with hsize
  · simp [hsize, eq_comm]
  · simp [hsize]

/-- Widths are refused for the first that is wrong. -/
theorem Config.checkIdSizes_eq_error_iff {ids : List Bytes} :
    config.checkIdSizes ids = .error e
      ↔ HasWith (fun before id => (∀ b ∈ before, b.length = config.idSize)
          ∧ config.checkIdSize id = .error e) ids := by
  induction ids with
  | nil => simp [checkIdSizes, not_hasWith_nil]
  | cons id rest ih =>
    simp only [checkIdSizes, bind_eq_error, hasWith_cons, List.forall_mem_cons, and_assoc,
      hasWith_and_left, ih, List.not_mem_nil, false_implies, implies_true, true_and]
    refine or_congr_right ⟨?_, ?_⟩
    · intro h
      obtain ⟨_, hid, h⟩ := h
      exact ⟨Config.checkIdSize_eq_ok_iff.1 hid, h⟩
    · intro h
      obtain ⟨hid, h⟩ := h
      exact ⟨(), Config.checkIdSize_eq_ok_iff.2 hid, h⟩

/-- An identifier is repeated if it is found before, and it is the first if none before it is. -/
theorem firstRepeatAfter_eq_some_iff {seen ids : List Bytes} {id : Bytes} :
    firstRepeatAfter seen ids = some id
      ↔ HasWith (fun before a => (before.Nodup ∧ ∀ b ∈ before, b ∉ seen)
          ∧ (a ∈ before ∨ a ∈ seen) ∧ a = id) ids := by
  induction ids generalizing seen with
  | nil => simp [firstRepeatAfter, not_hasWith_nil]
  | cons x rest ih =>
    rw [firstRepeatAfter, hasWith_cons]
    -- The head is a repetition itself, or it is one more that has been seen.
    by_cases hx : x ∈ seen
    · have hlater : ¬HasWith (fun before a => ((x :: before).Nodup ∧ ∀ b ∈ x :: before, b ∉ seen)
          ∧ (a ∈ x :: before ∨ a ∈ seen) ∧ a = id) rest := by
        intro h
        obtain ⟨before, a, after, -, ⟨-, hnew⟩, -⟩ := h
        exact hnew x (List.mem_cons_self ..) hx
      rw [if_pos hx, or_iff_left hlater]
      simp [hx]
    · have hlater (before : List Bytes) (a : Bytes) :
          (before.Nodup ∧ ∀ b ∈ before, b ∉ x :: seen) ∧ (a ∈ before ∨ a ∈ x :: seen) ∧ a = id
            ↔ ((x :: before).Nodup ∧ ∀ b ∈ x :: before, b ∉ seen)
              ∧ (a ∈ x :: before ∨ a ∈ seen) ∧ a = id := by
        simp only [List.nodup_cons, List.mem_cons, not_or]
        grind
      rw [if_neg hx, ih, hasWith_congr hlater]
      simp [hx]

/-- Repetition is refused for the first identifier that is found before. -/
theorem checkUnique_eq_error_iff {ids : List Bytes} :
    checkUnique ids = .error e
      ↔ HasWith (fun before id => before.Nodup ∧ id ∈ before
          ∧ e = .duplicateRecipient (Text.Hex.encode id)) ids := by
  have hrepeat (id : Bytes) : firstRepeat ids = some id
      ↔ HasWith (fun before a => before.Nodup ∧ a ∈ before ∧ a = id) ids := by
    rw [firstRepeat, firstRepeatAfter_eq_some_iff]
    simp
  have herror : checkUnique ids = .error e
      ↔ ∃ id, firstRepeat ids = some id ∧ e = .duplicateRecipient (Text.Hex.encode id) := by
    rw [checkUnique]
    cases firstRepeat ids <;> simp [eq_comm]
  rw [herror]
  constructor
  · intro h
    obtain ⟨id, hid, rfl⟩ := h
    obtain ⟨before, _, after, hsplit, hnodup, hmem, rfl⟩ := (hrepeat id).1 hid
    exact ⟨before, _, after, hsplit, hnodup, hmem, rfl⟩
  · intro h
    obtain ⟨before, id, after, hsplit, hnodup, hmem, rfl⟩ := h
    exact ⟨id, (hrepeat id).2 ⟨before, id, after, hsplit, hnodup, hmem, rfl⟩, rfl⟩

/-- The first public key that cannot be read, as the error that says so. -/
def Unreadable (recipients : List Recipient) (e : Error) : Prop :=
  HasWith (fun before r => Readable before ∧ parsePublicKey r.publicKey = .error e) recipients

theorem unreadable_cons {r : Recipient} :
    Unreadable (r :: recipients) e
      ↔ parsePublicKey r.publicKey = .error e
        ∨ (∃ key, parsePublicKey r.publicKey = .ok key) ∧ Unreadable recipients e := by
  simp only [Unreadable, hasWith_cons, Readable, List.forall_mem_cons, and_assoc,
    hasWith_and_left, List.not_mem_nil, false_implies, implies_true, true_and]

theorem exists_unreadable_iff : (∃ e, Unreadable recipients e) ↔ ¬Readable recipients := by
  induction recipients with
  | nil => simp [Unreadable, not_hasWith_nil, Readable]
  | cons r rest ih =>
    have hreadable : Readable (r :: rest)
        ↔ (∃ key, parsePublicKey r.publicKey = .ok key) ∧ Readable rest := List.forall_mem_cons
    simp only [unreadable_cons, exists_or, exists_and_left, ih, hreadable]
    cases parsePublicKey r.publicKey <;> simp

/-- Wrapping the message key fails at the first public key that cannot be read. -/
theorem KeyWrap.failsWith_wrapAll (ephemeral : PrivateKey) (messageKey : Octets 32)
    (h : Unreadable recipients e) :
    Sealing.FailsWith (wrapAll config ephemeral messageKey recipients) e := by
  induction recipients with
  | nil => exact (not_hasWith_nil h).elim
  | cons r rest ih =>
    rcases unreadable_cons.1 h with hr | ⟨hr, hrest⟩
    · exact (Sealing.failsWith_lift_bind hr _).bind _
    · exact Sealing.failsWith_bind (unfailing_wrapFor hr) fun _ _ _ _ => (ih hrest).bind _

/-! ## Faults -/

/-- The first thing that is wrong with a list of recipients, as the error that says so. -/
inductive Config.Fault (config : Config) (recipients : List Recipient) : Error → Prop
  | none (h : recipients = []) : Fault config recipients .noRecipients
  | tooMany (h : config.maxRecipients < recipients.length) :
      Fault config recipients (.tooManyRecipients recipients.length config.maxRecipients)
  /-- The first identifier of the wrong width, in a list of the right length. -/
  | width {before after : List Bytes} {id : Bytes}
      (hcount : 1 ≤ recipients.length ∧ recipients.length ≤ config.maxRecipients)
      (hids : recipients.map (·.id) = before ++ id :: after)
      (hbefore : ∀ b ∈ before, b.length = config.idSize) (hid : id.length ≠ config.idSize) :
      Fault config recipients
        (.invalidIdentifier s!"recipient id must be {config.idSize} bytes, got {id.length}")
  /-- The first identifier that equals an earlier one, where all have the right width. -/
  | duplicate {before after : List Bytes} {id : Bytes}
      (hcount : 1 ≤ recipients.length ∧ recipients.length ≤ config.maxRecipients)
      (hwidth : ∀ r ∈ recipients, r.id.length = config.idSize)
      (hids : recipients.map (·.id) = before ++ id :: after)
      (hbefore : before.Nodup) (hid : id ∈ before) :
      Fault config recipients (.duplicateRecipient (Text.Hex.encode id))
  /-- The first public key that cannot be read, where nothing else is wrong. -/
  | key {before after : List Recipient} {r : Recipient} {reason : String}
      (hadmits : config.Admits recipients) (hsplit : recipients = before ++ r :: after)
      (hbefore : Readable before)
      (hr : parsePublicKey r.publicKey = .error (.invalidKey "public" reason)) :
      Fault config recipients (.invalidKey "public" reason)

/-- No sink or source is at fault. -/
theorem Config.Fault.ne_io (h : config.Fault recipients e) (reason : String) : e ≠ .io reason := by
  cases h <;> simp

/-- A fault is what the checks of the list find, or behind these the first key that cannot be
    read. -/
theorem Config.fault_iff :
    config.Fault recipients e
      ↔ config.checkRecipients recipients = .error e
        ∨ config.checkRecipients recipients = .ok () ∧ Unreadable recipients e := by
  refine Iff.symm ⟨?_, ?_⟩
  · rintro (hcheck | ⟨hcheck, hkey⟩)
    · rcases bind_eq_error.1 hcheck with hcount | ⟨_, hcount, hcheck⟩
      · rcases Config.checkCount_eq_error_iff.1 hcount with ⟨hnil, rfl⟩ | ⟨hmany, rfl⟩
        · exact .none (List.length_eq_zero_iff.1 hnil)
        · exact .tooMany hmany
      · have hcount := Config.checkCount_eq_ok_iff.1 hcount
        rcases bind_eq_error.1 hcheck with hwidth | ⟨_, hwidth, hunique⟩
        · obtain ⟨before, id, after, hids, hbefore, hid⟩ :=
            Config.checkIdSizes_eq_error_iff.1 hwidth
          obtain ⟨hwrong, rfl⟩ := Config.checkIdSize_eq_error_iff.1 hid
          exact .width hcount hids hbefore hwrong
        · have hwidth := List.forall_mem_map.1 (Config.checkIdSizes_eq_ok_iff.1 hwidth)
          obtain ⟨before, id, after, hids, hbefore, hid, rfl⟩ := checkUnique_eq_error_iff.1 hunique
          exact .duplicate hcount hwidth hids hbefore hid
    · obtain ⟨before, r, after, hsplit, hbefore, hr⟩ := hkey
      obtain ⟨reason, rfl⟩ := parsePublicKey_eq_error hr
      exact .key (Config.checkRecipients_eq_ok_iff.1 hcheck) hsplit hbefore hr
  · intro h
    -- Each fault is found by its check, and the checks before that one pass.
    cases h with
    | none h =>
      refine Or.inl (bind_eq_error.2 (Or.inl ?_))
      exact Config.checkCount_eq_error_iff.2 (Or.inl ⟨List.length_eq_zero_iff.2 h, rfl⟩)
    | tooMany h =>
      refine Or.inl (bind_eq_error.2 (Or.inl ?_))
      exact Config.checkCount_eq_error_iff.2 (Or.inr ⟨h, rfl⟩)
    | width hcount hids hbefore hid =>
      refine Or.inl (bind_eq_error.2 (Or.inr ⟨(), ?_, ?_⟩))
      · exact Config.checkCount_eq_ok_iff.2 hcount
      · exact bind_eq_error.2 (Or.inl (Config.checkIdSizes_eq_error_iff.2
          ⟨_, _, _, hids, hbefore, Config.checkIdSize_eq_error_iff.2 ⟨hid, rfl⟩⟩))
    | duplicate hcount hwidth hids hbefore hid =>
      refine Or.inl (bind_eq_error.2 (Or.inr ⟨(), ?_, ?_⟩))
      · exact Config.checkCount_eq_ok_iff.2 hcount
      · exact bind_eq_error.2 (Or.inr ⟨(), Config.checkIdSizes_eq_ok_iff.2
          (List.forall_mem_map.2 hwidth), checkUnique_eq_error_iff.2
          ⟨_, _, _, hids, hbefore, hid, rfl⟩⟩)
    | key hadmits hsplit hbefore hr =>
      exact Or.inr ⟨Config.checkRecipients_eq_ok_iff.2 hadmits, _, _, _, hsplit, hbefore, hr⟩

/-- Recipients have a fault exactly if they are not admitted or a key cannot be read. -/
theorem Config.exists_fault_iff :
    (∃ e, config.Fault recipients e) ↔ ¬(config.Admits recipients ∧ Readable recipients) := by
  simp only [Config.fault_iff, exists_or, exists_and_left, exists_unreadable_iff,
    ← Config.checkRecipients_eq_ok_iff]
  -- The checks of the list end one way or the other.
  cases config.checkRecipients recipients <;> simp

/-! ## What is done behind the checks -/

/-- An operation that fails for every fault, and does not fail for lists that have none, fails for
    faults only. -/
theorem Config.fault_of_eq_error {α : Type} {x : Sealing α} {tape rest : Tape}
    (hfails : ∀ e, config.Fault recipients e → Sealing.FailsWith x e)
    (hunfailing : config.Admits recipients → Readable recipients → Sealing.Unfailing x)
    (h : x.run tape = some (.error e, rest)) : config.Fault recipients e := by
  by_cases hfault : ∃ e, config.Fault recipients e
  · obtain ⟨e', he'⟩ := hfault
    obtain rfl := Except.error.inj (hfails e' he' _ _ _ h)
    exact he'
  · obtain ⟨hadmits, hreadable⟩ := not_not.1 (Config.exists_fault_iff.not.1 hfault)
    exact (hunfailing hadmits hreadable _ _ _ h).elim

theorem Envelope.close_ne_error {key : Octets 32} {header : Header} {plaintext : Bytes}
    (hvalid : header.Valid config) : close config key header plaintext ≠ .error e := by
  obtain ⟨tag, ciphertext, hclose, -⟩ := exists_close key plaintext hvalid
  rw [hclose]
  exact fun h => by cases h

section

variable {plaintext : Bytes} {tape rest : Tape} {ephemeral : PrivateKey}

/-- Encryption for several recipients fails with what is wrong with these. -/
theorem Envelope.failsWith_encryptMultiple (plaintext : Bytes) (h : config.Fault recipients e) :
    Sealing.FailsWith (encryptMultiple config recipients plaintext) e := by
  rcases Config.fault_iff.1 h with hcheck | ⟨hcheck, hkey⟩
  · exact Sealing.failsWith_lift_bind hcheck _
  · refine Sealing.failsWith_lift_bind_of_ok hcheck ?_
    refine Sealing.failsWith_draw_bind fun ephemeral => ?_
    refine Sealing.failsWith_draw_bind fun messageKey => ?_
    exact (KeyWrap.failsWith_wrapAll ephemeral messageKey hkey).bind _

/-- And if nothing is, it does not fail. -/
theorem Envelope.unfailing_encryptMultiple (plaintext : Bytes)
    (hadmits : config.Admits recipients) (hreadable : Readable recipients) :
    Sealing.Unfailing (encryptMultiple config recipients plaintext) := by
  refine Sealing.unfailing_lift_bind (Config.checkRecipients_eq_ok_iff.2 hadmits) ?_
  -- Only draws follow, and the closing of a header whose table is valid.
  refine (Sealing.unfailing_draw _).bind fun ephemeral _ _ _ => ?_
  refine (Sealing.unfailing_draw _).bind fun messageKey _ _ _ => ?_
  refine (KeyWrap.unfailing_wrapAll hreadable).bind fun entries _ _ hentries => ?_
  refine (Sealing.unfailing_draw _).bind fun iv _ _ _ => ?_
  refine Sealing.unfailing_lift fun e => close_ne_error ?_
  exact KeyWrap.valid_of_wrappedFor hadmits (KeyWrap.wrappedFor_of_wrapAll hentries)

theorem Envelope.fault_of_encryptMultiple
    (h : (encryptMultiple config recipients plaintext).run tape = some (.error e, rest)) :
    config.Fault recipients e :=
  Config.fault_of_eq_error (fun _ => failsWith_encryptMultiple plaintext)
    (unfailing_encryptMultiple plaintext) h

/-- Where the tape has what is drawn, encryption for several recipients ends one way or the
    other. -/
theorem Envelope.exists_encryptMultiple_result (config : Config) (recipients : List Recipient)
    (plaintext : Bytes) (hdraw : Draw.privateKey tape = some (ephemeral, rest))
    (hrest : 48 + recipients.length * 16 ≤ rest.length) :
    ∃ result tape', (encryptMultiple config recipients plaintext).run tape
      = some (result, tape') := by
  refine Sealing.exists_lift_bind fun _ _ => ?_
  refine Sealing.exists_draw_bind (n := 32 + (recipients.length * 16 + (16 + 0))) hdraw ?_
    (by omega)
  refine (Sealing.within_draw (Draw.takes_octets 32)).bind fun messageKey => ?_
  refine (KeyWrap.within_wrapAll config ephemeral messageKey recipients).bind fun entries => ?_
  exact (Sealing.within_draw (Draw.takes_octets 16)).bind fun iv => Sealing.within_lift _

/-- So it fails there for every fault. -/
theorem Envelope.exists_encryptMultiple_failed (plaintext : Bytes)
    (h : config.Fault recipients e) (hdraw : Draw.privateKey tape = some (ephemeral, rest))
    (hrest : 48 + recipients.length * 16 ≤ rest.length) :
    ∃ tape', (encryptMultiple config recipients plaintext).run tape = some (.error e, tape') := by
  obtain ⟨result, tape', hrun⟩ := exists_encryptMultiple_result config recipients plaintext hdraw
    hrest
  obtain rfl := failsWith_encryptMultiple plaintext h _ _ _ hrun
  exact ⟨tape', hrun⟩

theorem Envelope.exists_encryptMultiple_iff
    (hdraw : Draw.privateKey tape = some (ephemeral, rest))
    (hrest : 48 + recipients.length * 16 ≤ rest.length) :
    (∃ envelope tape',
        (encryptMultiple config recipients plaintext).run tape = some (.ok envelope, tape'))
      ↔ config.Admits recipients ∧ Readable recipients := by
  constructor
  · intro h
    obtain ⟨envelope, tape', hrun⟩ := h
    simp only [encryptMultiple, Sealing.bind_eq_ok, Sealing.lift_eq_ok] at hrun
    obtain ⟨_, _, ⟨hcheck, -⟩, _, _, -, _, _, -, _, _, hentries, -⟩ := hrun
    exact ⟨Config.checkRecipients_eq_ok_iff.1 hcheck,
      KeyWrap.readable_of_wrappedFor (KeyWrap.wrappedFor_of_wrapAll hentries)⟩
  · intro h
    obtain ⟨hadmits, hreadable⟩ := h
    obtain ⟨header, ciphertext, _, _, tape', hrun, -⟩ :=
      exists_sealed_for_many hadmits hreadable hdraw hrest
    exact ⟨_, tape', hrun⟩

end

/-- A table that lists the recipients can be written exactly if these are admitted. -/
theorem RecipientTable.exists_encode_iff_admits {entries : List RecipientEntry}
    (hids : entries.map (·.id) = recipients.map (·.id)) :
    (∃ bytes, RecipientTable.encode config entries = .ok bytes) ↔ config.Admits recipients := by
  have hlength : entries.length = recipients.length := by simpa using congrArg List.length hids
  simp only [RecipientTable.encode_eq_ok_iff, exists_and_left, exists_eq, and_true]
  constructor
  · intro h
    refine ⟨h.pos.trans_eq hlength, hlength.symm.trans_le h.le_max, ?_, hids ▸ h.nodup⟩
    have hsize : ∀ id ∈ entries.map (·.id), id.length = config.idSize :=
      List.forall_mem_map.2 h.idSize
    rw [hids] at hsize
    exact List.forall_mem_map.1 hsize
  · intro h
    exact h.valid_table hids

end SealedEnvelope
