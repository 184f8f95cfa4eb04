import SealedEnvelope.Proofs.Cipher.Gcm
import SealedEnvelope.Proofs.Key
import SealedEnvelope.Proofs.RecipientTable
import SealedEnvelope.Proofs.Sealing
import Mathlib.Data.List.Forall2

set_option autoImplicit false

/-! # The message key and those it is wrapped for

`Config.Admits` says which lists of recipients a configuration takes. The message key is wrapped
for each of them in turn (`KeyWrap.wrappedFor_of_wrapAll`), the entries make up a valid table, and
the owner of the key that an entry is wrapped for finds the message key in it
(`KeyWrap.unwrap_wrap`). An entry unwraps to a key exactly if its two ephemeral keys agree and it
holds what the cipher produces for that key (`KeyWrap.unwrap_eq_ok_iff`). -/

namespace SealedEnvelope

variable {config config' : Config}

/-! ## Recipients -/

/-- Recipients that a configuration takes. -/
structure Config.Admits (config : Config) (recipients : List Recipient) : Prop where
  pos : 1 ≤ recipients.length
  le_max : recipients.length ≤ config.maxRecipients
  idSize : ∀ r ∈ recipients, r.id.length = config.idSize
  nodup : (recipients.map (·.id)).Nodup

theorem Config.checkIdSizes_eq_ok_iff {ids : List Bytes} :
    config.checkIdSizes ids = .ok () ↔ ∀ id ∈ ids, id.length = config.idSize := by
  induction ids with
  | nil => simp [checkIdSizes]
  | cons id rest ih =>
    simp only [checkIdSizes, check_bind_eq_ok, ih, List.forall_mem_cons,
      Config.checkIdSize_eq_ok_iff]

theorem Config.checkRecipients_eq_ok_iff {recipients : List Recipient} :
    config.checkRecipients recipients = .ok () ↔ config.Admits recipients := by
  simp only [checkRecipients, check_bind_eq_ok, Config.checkCount_eq_ok_iff,
    checkIdSizes_eq_ok_iff, checkUnique_eq_ok_iff, List.forall_mem_map]
  constructor
  · rintro ⟨⟨hpos, hle⟩, hsize, hnodup⟩
    exact ⟨hpos, hle, hsize, hnodup⟩
  · rintro ⟨hpos, hle, hsize, hnodup⟩
    exact ⟨⟨hpos, hle⟩, hsize, hnodup⟩

/-- A table that lists admitted recipients is valid. -/
theorem Config.Admits.valid_table {recipients : List Recipient} {entries : List RecipientEntry}
    (h : config.Admits recipients) (hids : entries.map (·.id) = recipients.map (·.id)) :
    RecipientTable.Valid config entries := by
  have hlen : entries.length = recipients.length := by simpa using congrArg List.length hids
  refine ⟨h.pos.trans_eq hlen.symm, hlen.trans_le h.le_max, hids ▸ h.nodup, fun e he => ?_⟩
  have hid : e.id ∈ recipients.map (·.id) := hids ▸ List.mem_map_of_mem he
  obtain ⟨r, hr, hid⟩ := List.mem_map.1 hid
  rw [← hid]
  exact h.idSize r hr

/-- The public keys of all recipients can be read. -/
def Readable (recipients : List Recipient) : Prop :=
  ∀ r ∈ recipients, ∃ key, parsePublicKey r.publicKey = .ok key

/-- The public keys of key pairs can be read in all their forms. -/
theorem readable_of_form {recipients : List Recipient}
    (h : ∀ r ∈ recipients, ∃ key : PrivateKey, key.publicKey.Form r.publicKey) :
    Readable recipients := by
  intro r hr
  obtain ⟨key, hkey⟩ := h r hr
  exact ⟨key.publicKey, parsePublicKey_publicKey hkey⟩

namespace KeyWrap

/-! ## One entry -/

/-- An entry gives the message key that is encrypted in it, if its ephemeral key is the header's. -/
theorem unwrap_eq_ok_iff {key : PrivateKey} {headerEphemeral : Octets 33} {entry : RecipientEntry}
    {messageKey : Octets 32} :
    unwrap config key headerEphemeral entry = .ok messageKey
      ↔ normalizePublicKey entry.wrappedKey.ephemeral.bytes = .ok headerEphemeral
        ∧ ∃ peer, parsePublicKey headerEphemeral.bytes = .ok peer
          ∧ Gcm.encrypt (key.sharedKey peer) entry.wrappedKey.iv entry.id messageKey.bytes
            = (entry.wrappedKey.encryptedKey.bytes, entry.wrappedKey.tag) := by
  simp only [← Gcm.decrypt?_eq_some_iff]
  cases hembedded : normalizePublicKey entry.wrappedKey.ephemeral.bytes with
  | error e => simp [unwrap, hembedded]
  | ok embedded =>
    cases hpeer : parsePublicKey headerEphemeral.bytes with
    | error e => simp [unwrap, hembedded, hpeer]
    | ok peer =>
      simp only [unwrap, hembedded, hpeer, Except.ok.injEq, exists_eq_left', Config.sharedKey_eq]
      by_cases hsame : embedded = headerEphemeral
      · rw [if_neg (not_not.2 hsame)]
        cases hopen : Gcm.decrypt? (key.sharedKey peer) entry.wrappedKey.iv entry.id
            entry.wrappedKey.encryptedKey.bytes entry.wrappedKey.tag with
        | none => simp
        | some plain =>
          -- Only a plaintext of another length than a key's could still be refused.
          have hlength : plain.length = 32 := by
            have hcipher := congrArg (fun r => r.1.length) (Gcm.decrypt?_eq_some_iff.1 hopen)
            simpa using hcipher
          rw [Option.bind_some, Octets.ofBytes?, dif_pos hlength]
          simp [hsame, Octets.ext_iff]
      · rw [if_pos hsame]
        simp [hsame]

/-- The owner of the key that an entry is wrapped for finds the message key in it. -/
theorem unwrap_wrap (config config' : Config) (ephemeral key : PrivateKey) (messageKey : Octets 32)
    (id : Bytes) (iv : Octets 16) :
    unwrap config' key ephemeral.publicKey.compressed
      (wrap config ephemeral messageKey id key.publicKey iv) = .ok messageKey := by
  have hembedded : normalizePublicKey ephemeral.publicKey.uncompressed.bytes
      = .ok ephemeral.publicKey.compressed :=
    normalizePublicKey_eq_ok_iff.2 ⟨_, ephemeral.onCurve_publicKey, .uncompressed, rfl⟩
  refine unwrap_eq_ok_iff.2 ⟨hembedded, _, parsePublicKey_publicKey .compressed, ?_⟩
  rw [key.sharedKey_comm ephemeral, ← config.sharedKey_eq]
  rfl

/-- No configuration has a size of keys of its own, so all find the same in an entry. -/
theorem unwrap_congr (config config' : Config) (key : PrivateKey) (headerEphemeral : Octets 33)
    (entry : RecipientEntry) :
    unwrap config key headerEphemeral entry = unwrap config' key headerEphemeral entry := by
  simp only [unwrap, Config.sharedKey_eq]

/-! ## All entries -/

section All

variable {ephemeral : PrivateKey} {messageKey : Octets 32} {recipients : List Recipient}
  {entries : List RecipientEntry} {tape rest : Tape}

/-- The entry of a recipient is the message key wrapped for the recipient's public key. -/
def WrappedFor (config : Config) (ephemeral : PrivateKey) (messageKey : Octets 32) (r : Recipient)
    (e : RecipientEntry) : Prop :=
  ∃ key iv, parsePublicKey r.publicKey = .ok key ∧ e = wrap config ephemeral messageKey r.id key iv

theorem wrapFor_eq_ok_iff {r : Recipient} {e : RecipientEntry} :
    (wrapFor config ephemeral messageKey r).run tape = some (.ok e, rest)
      ↔ ∃ key iv, parsePublicKey r.publicKey = .ok key ∧ Draw.iv tape = some (iv, rest)
        ∧ e = wrap config ephemeral messageKey r.id key iv := by
  simp only [wrapFor, Sealing.bind_eq_ok, Sealing.lift_eq_ok, Sealing.draw_eq_ok,
    Sealing.pure_eq_ok]
  constructor
  · rintro ⟨key, _, ⟨hkey, rfl⟩, iv, _, hiv, rfl, rfl⟩
    exact ⟨key, iv, hkey, hiv, rfl⟩
  · rintro ⟨key, iv, hkey, hiv, rfl⟩
    exact ⟨key, _, ⟨hkey, rfl⟩, iv, _, hiv, rfl, rfl⟩

/-- There is an entry for each recipient, in order. -/
theorem wrappedFor_of_wrapAll
    (h : (wrapAll config ephemeral messageKey recipients).run tape = some (.ok entries, rest)) :
    List.Forall₂ (WrappedFor config ephemeral messageKey) recipients entries := by
  induction recipients generalizing tape rest entries with
  | nil =>
    obtain ⟨rfl, -⟩ := Sealing.pure_eq_ok.1 h
    exact .nil
  | cons r recipients ih =>
    simp only [wrapAll, Sealing.bind_eq_ok, Sealing.pure_eq_ok, wrapFor_eq_ok_iff] at h
    obtain ⟨_, _, ⟨key, iv, hkey, -, rfl⟩, _, _, hentries, rfl, -⟩ := h
    exact .cons ⟨key, iv, hkey, rfl⟩ (ih hentries)

/-- Only recipients whose public keys can be read get entries. -/
theorem readable_of_wrappedFor
    (h : List.Forall₂ (WrappedFor config ephemeral messageKey) recipients entries) :
    Readable recipients := by
  induction h with
  | nil =>
    intro r hr
    cases hr
  | cons hfirst _ ih =>
    obtain ⟨key, -, hkey, -⟩ := hfirst
    intro r hr
    rcases List.mem_cons.1 hr with rfl | hr
    · exact ⟨key, hkey⟩
    · exact ih r hr

/-- Wrapping draws one initialisation vector for each recipient at most. -/
theorem within_wrapAll (config : Config) (ephemeral : PrivateKey) (messageKey : Octets 32)
    (recipients : List Recipient) :
    Sealing.Within (recipients.length * 16) (wrapAll config ephemeral messageKey recipients) := by
  induction recipients with
  | nil => exact Sealing.within_pure []
  | cons r recipients ih =>
    have hfirst : Sealing.Within (0 + (16 + 0)) (wrapFor config ephemeral messageKey r) :=
      (Sealing.within_lift _).bind fun _ =>
        (Sealing.within_draw (Draw.takes_octets 16)).bind fun _ => Sealing.within_pure _
    rw [List.length_cons, Nat.succ_mul, Nat.add_comm]
    exact hfirst.bind fun _ => ih.bind fun _ => Sealing.within_pure _

theorem unfailing_wrapFor {r : Recipient} (h : ∃ key, parsePublicKey r.publicKey = .ok key) :
    Sealing.Unfailing (wrapFor config ephemeral messageKey r) := by
  obtain ⟨key, hkey⟩ := h
  exact Sealing.unfailing_lift_bind hkey <|
    (Sealing.unfailing_draw _).bind fun _ _ _ _ => Sealing.unfailing_pure _

/-- Wrapping does not fail if all public keys can be read. -/
theorem unfailing_wrapAll (h : Readable recipients) :
    Sealing.Unfailing (wrapAll config ephemeral messageKey recipients) := by
  induction recipients with
  | nil => exact Sealing.unfailing_pure []
  | cons r recipients ih =>
    have hfirst : Sealing.Unfailing (wrapFor config ephemeral messageKey r) :=
      unfailing_wrapFor (h r (List.mem_cons_self ..))
    have hrest := ih fun r hr => h r (List.mem_cons_of_mem _ hr)
    exact hfirst.bind fun _ _ _ _ => hrest.bind fun _ _ _ _ => Sealing.unfailing_pure _

/-- What is drawn for several recipients once the ephemeral key is there: the message key, an
    initialisation vector for each entry and one more. -/
theorem exists_wrapped (config : Config) (ephemeral : PrivateKey) (hreadable : Readable recipients)
    (htape : 48 + recipients.length * 16 ≤ tape.length) :
    ∃ messageKey t entries t' iv t'', Draw.messageKey tape = some (messageKey, t)
      ∧ (wrapAll config ephemeral messageKey recipients).run t = some (.ok entries, t')
      ∧ Draw.iv t' = some (iv, t'')
      ∧ List.Forall₂ (WrappedFor config ephemeral messageKey) recipients entries := by
  obtain ⟨messageKey, hmessageKey⟩ := Draw.takes_octets 32 tape (by omega)
  obtain ⟨result, t', hentries, hleft⟩ := within_wrapAll config ephemeral messageKey recipients
    (tape.drop 32) (by rw [List.length_drop]; omega)
  obtain ⟨iv, hiv⟩ := Draw.takes_octets 16 t' (by rw [List.length_drop] at hleft; omega)
  cases result with
  | error e => exact (unfailing_wrapAll hreadable _ _ _ hentries).elim
  | ok entries =>
    exact ⟨messageKey, _, entries, _, iv, _, hmessageKey, hentries, hiv,
      wrappedFor_of_wrapAll hentries⟩

end All

/-! ## The table of entries -/

section Table

variable {ephemeral : PrivateKey} {messageKey : Octets 32} {recipients : List Recipient}
  {entries : List RecipientEntry}

theorem WrappedFor.id_eq {r : Recipient} {e : RecipientEntry}
    (h : WrappedFor config ephemeral messageKey r e) : e.id = r.id := by
  obtain ⟨key, iv, -, rfl⟩ := h
  rfl

/-- Whoever holds the private key of a recipient finds the message key in the entry. -/
theorem WrappedFor.unwrap_eq {r : Recipient} {e : RecipientEntry}
    (h : WrappedFor config ephemeral messageKey r e) {key : PrivateKey}
    (hkey : key.publicKey.Form r.publicKey) :
    unwrap config' key ephemeral.publicKey.compressed e = .ok messageKey := by
  obtain ⟨P, iv, hP, rfl⟩ := h
  rw [parsePublicKey_publicKey hkey] at hP
  obtain rfl := Except.ok.inj hP
  exact unwrap_wrap config config' ephemeral key messageKey r.id iv

theorem map_id_eq_of_wrappedFor
    (h : List.Forall₂ (WrappedFor config ephemeral messageKey) recipients entries) :
    entries.map (·.id) = recipients.map (·.id) := by
  induction h with
  | nil => rfl
  | cons hr _ ih => rw [List.map_cons, List.map_cons, hr.id_eq, ih]

/-- The entries of admitted recipients make up a valid table. -/
theorem valid_of_wrappedFor (hadmits : config.Admits recipients)
    (h : List.Forall₂ (WrappedFor config ephemeral messageKey) recipients entries) :
    RecipientTable.Valid config entries :=
  hadmits.valid_table (map_id_eq_of_wrappedFor h)

theorem exists_mem_of_wrappedFor
    (h : List.Forall₂ (WrappedFor config ephemeral messageKey) recipients entries) {r : Recipient}
    (hr : r ∈ recipients) : ∃ e ∈ entries, WrappedFor config ephemeral messageKey r e := by
  induction h with
  | nil => cases hr
  | cons hfirst _ ih =>
    rcases List.mem_cons.1 hr with rfl | hr
    · exact ⟨_, List.mem_cons_self .., hfirst⟩
    · obtain ⟨e, he, hwrapped⟩ := ih hr
      exact ⟨e, List.mem_cons_of_mem _ he, hwrapped⟩

/-- By its identifier a recipient finds the entry that is meant for it. -/
theorem find?_eq_some_of_wrappedFor (hnodup : (recipients.map (·.id)).Nodup)
    (h : List.Forall₂ (WrappedFor config ephemeral messageKey) recipients entries) {r : Recipient}
    (hr : r ∈ recipients) :
    ∃ e, entries.find? (·.id = r.id) = some e ∧ WrappedFor config ephemeral messageKey r e := by
  obtain ⟨e, he, hwrapped⟩ := exists_mem_of_wrappedFor h hr
  rw [← map_id_eq_of_wrappedFor h] at hnodup
  exact ⟨e, (RecipientTable.find?_eq_some_iff_of_nodup hnodup).2 ⟨he, hwrapped.id_eq⟩, hwrapped⟩

theorem find?_eq_none_of_wrappedFor
    (h : List.Forall₂ (WrappedFor config ephemeral messageKey) recipients entries) {id : Bytes}
    (hid : id ∉ recipients.map (·.id)) : entries.find? (·.id = id) = none := by
  rw [← map_id_eq_of_wrappedFor h] at hid
  rw [List.find?_eq_none]
  intro e he heq
  exact hid (List.mem_map.2 ⟨e, he, of_decide_eq_true heq⟩)

end Table

end KeyWrap

end SealedEnvelope
