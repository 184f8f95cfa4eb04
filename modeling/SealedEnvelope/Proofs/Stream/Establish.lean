import SealedEnvelope.Proofs.KeyWrap
import SealedEnvelope.Proofs.Stream.Header
import SealedEnvelope.Proofs.Stream.Intake
import SealedEnvelope.Stream

set_option autoImplicit false

/-! # Establishing a stream and finding its key

Establishing gives a valid header in which each recipient finds the key of the stream
(`exists_establish`). A header is read in whatever width its length is written
(`reads_readHeader`), so it reads back from the front of the stream (`exists_openHeader`) and both
sides share what the chunks depend on (`Established.context`). -/

namespace SealedEnvelope.Stream

open Intake (Reads reads_exactly reads_length)

variable {config : Config} {recipients : List Recipient} {requested : Option Nat}

/-! ## The opening of a stream -/

/-- A header behind its length, in a width. -/
def Header.openingIn (h : Header) (width : LengthPrefix.Width) : Bytes :=
  LengthPrefix.octetsIn width h.octets.length ++ h.octets

/-- The octets in front of the chunks. -/
def Header.opening (h : Header) : Bytes := LengthPrefix.octets h.octets.length ++ h.octets

/-- What the chunks of an established stream share. -/
def Established.context (e : Established) : Context :=
  ⟨e.key, e.header.baseIv, Header.hash e.header.octets⟩

/-- The length of every header can be written. -/
theorem Header.maxEncodedLength_le (config : Config) :
    maxEncodedLength config ≤ LengthPrefix.maxLength := by
  have hentries : config.maxRecipients * RecipientTable.entrySize config ≤ 65535 * (255 + 129) :=
    Nat.mul_le_mul config.maxRecipients_le (Nat.add_le_add_right config.idSize_bounds.2 _)
  have hceiling : 54 + 2 + 65535 * (255 + 129) ≤ LengthPrefix.maxLength := by decide
  rw [maxEncodedLength, fixedSize, config.countSize_eq]
  omega

theorem Header.Valid.holds_ofLength {h : Header} (hvalid : h.Valid config) :
    (LengthPrefix.Width.ofLength h.octets.length).Holds h.octets.length :=
  LengthPrefix.Width.holds_ofLength
    ((length_octets_le hvalid.table).trans (maxEncodedLength_le config))

theorem encryptUnder_eq_ok_iff {established : Established} {source : Source} {sink : Sink}
    {options : Options} {report : Report} :
    encryptUnder config established source sink options = .ok report
      ↔ Header.ValidTable config established.header.recipients
        ∧ report = ((closeAll established.context established.header.chunkSize.toNat
          options.cancelled source).deliver sink established.header.opening).report options.total
            established.header.kind := by
  simp only [encryptUnder, bind_eq_ok, pure_eq_ok, Header.encode_eq_ok_iff,
    LengthPrefix.append_eq_ok_iff]
  constructor
  · rintro ⟨_, ⟨hvalid, rfl⟩, _, ⟨-, rfl⟩, rfl⟩
    exact ⟨hvalid, rfl⟩
  · rintro ⟨hvalid, rfl⟩
    have hlength := (Header.length_octets_le hvalid).trans (Header.maxEncodedLength_le config)
    exact ⟨_, ⟨hvalid, rfl⟩, _, ⟨hlength, rfl⟩, rfl⟩

/-- A header is read behind its length in any width that holds it. -/
theorem reads_readHeader (config : Config) :
    Reads (readHeader config) fun front read =>
      ∃ (header : Header) (width : LengthPrefix.Width), read = (header, header.octets)
        ∧ header.Valid config ∧ width.Holds header.octets.length
        ∧ front = header.openingIn width := by
  have h := (reads_length "stream header").bind fun length =>
    (((reads_exactly length "stream header").bind fun bytes =>
      Reads.lift_bind fun header (_ : Header.decode config bytes = .ok header) =>
        Reads.pure (header, bytes)).check : Reads (if Header.maxEncodedLength config < length
          then throw (.lengthTooLong length (Header.maxEncodedLength config)) else _) _)
  refine (h : Reads (readHeader config) _).congr fun front read => ?_
  constructor
  · rintro ⟨_, _, _, ⟨width, hholds, rfl⟩, ⟨-, _, bytes, _, ⟨rfl, rfl⟩,
      ⟨header, hdecode, rfl, rfl⟩, rfl⟩, rfl⟩
    obtain ⟨hvalid, rfl⟩ := Header.decode_eq_ok_iff.1 hdecode
    exact ⟨header, width, rfl, hvalid, hholds, by simp [Header.openingIn]⟩
  · rintro ⟨header, width, rfl, hvalid, hholds, rfl⟩
    exact ⟨_, header.octets.length, _, ⟨width, hholds, rfl⟩,
      ⟨Nat.not_lt.2 (Header.length_octets_le hvalid.table), header.octets, header.octets, [],
        ⟨rfl, rfl⟩, ⟨header, Header.decode_eq_ok_iff.2 ⟨hvalid, rfl⟩, rfl, rfl⟩, by simp⟩, rfl⟩

/-- A header with its length in a width, and the key that is found in it. -/
structure Established.OpensIn (e : Established) (config : Config) (key : PrivateKey)
    (id : Option Bytes) (width : LengthPrefix.Width) : Prop where
  valid : e.header.Valid config
  holds : width.Holds e.header.octets.length
  recoverKey_eq : recoverKey config key id e.header = .ok e.key

section OpenHeader

variable {established : Established} {key : PrivateKey} {id : Option Bytes} {s : Source}
  {rest : Bytes}

/-- What is opened starts with a header and its length in some width. -/
theorem exists_opening_of_openHeader {opened : Opened}
    (h : openHeader config key id s = .ok opened) :
    ∃ (established : Established) (width : LengthPrefix.Width),
      established.OpensIn config key id width
        ∧ opened.header = established.header ∧ opened.context = established.context
        ∧ s.Leaves (established.header.openingIn width) opened.source := by
  simp only [openHeader, bind_eq_ok, pure_eq_ok] at h
  obtain ⟨⟨read, s'⟩, hread, streamKey, hkey, rfl⟩ := h
  obtain ⟨_, ⟨header, width, rfl, hvalid, hholds, rfl⟩, hleaves⟩ :=
    (reads_readHeader config).sound hread
  exact ⟨⟨header, streamKey⟩, width, ⟨hvalid, hholds, hkey⟩, rfl, rfl, hleaves⟩

namespace Established.OpensIn

variable {width : LengthPrefix.Width}

/-- A header that opens does so at the front of a source, whatever follows. -/
theorem exists_openHeader (h : established.OpensIn config key id width)
    (hbytes : s.bytes = established.header.openingIn width ++ rest) :
    ∃ s', openHeader config key id s = .ok ⟨established.header, established.context, s'⟩
      ∧ s.Leaves (established.header.openingIn width) s' := by
  obtain ⟨s', hread, hleaves⟩ :=
    (reads_readHeader config).complete ⟨_, width, rfl, h.valid, h.holds, rfl⟩ hbytes
  refine ⟨s', ?_, hleaves⟩
  simp only [openHeader, bind_eq_ok, pure_eq_ok]
  exact ⟨_, hread, _, h.recoverKey_eq, rfl⟩

/-- A source that ends within a header that opens is truncated. -/
theorem truncated {lost : Bytes} (h : established.OpensIn config key id width)
    (hbytes : s.bytes ++ lost = established.header.openingIn width) (hlost : lost ≠ [])
    (hending : s.ending = .finished) : Intake.Truncated (openHeader config key id s) := by
  obtain ⟨reason, hread⟩ :=
    (reads_readHeader config).cut ⟨_, width, rfl, h.valid, h.holds, rfl⟩ hbytes hlost hending
  exact ⟨reason, bind_eq_error.2 (Or.inl hread)⟩

end Established.OpensIn

/-- Who finds the key of an established stream in its header opens the stream under the same
    context. -/
theorem exists_openHeader (hvalid : established.header.Valid config)
    (hkey : recoverKey config key id established.header = .ok established.key)
    (hbytes : s.bytes = established.header.opening ++ rest) :
    ∃ s', openHeader config key id s = .ok ⟨established.header, established.context, s'⟩
      ∧ s'.bytes = rest ∧ s'.ending = s.ending := by
  have hopens : established.OpensIn config key id
      (LengthPrefix.Width.ofLength established.header.octets.length) :=
    ⟨hvalid, hvalid.holds_ofLength, hkey⟩
  obtain ⟨s', hopen, hleaves⟩ := hopens.exists_openHeader hbytes
  exact ⟨s', hopen, hleaves.bytes_eq hbytes, hleaves.ending⟩

end OpenHeader

/-! ## The chunk size -/

theorem resolveChunkSize_eq_ok_iff {size : Nat} :
    resolveChunkSize config requested = .ok size
      ↔ size = requested.getD config.chunkSize ∧ 1 ≤ size ∧ size ≤ config.maxChunkSize := by
  rw [resolveChunkSize]
  split_ifs with hzero hlarge
  · simp only [false_iff]
    rintro ⟨rfl, hpos, -⟩
    omega
  · simp only [false_iff]
    rintro ⟨rfl, -, hle⟩
    omega
  · rw [Except.ok.injEq]
    constructor
    · rintro rfl
      exact ⟨rfl, by omega, by omega⟩
    · rintro ⟨rfl, -, -⟩
      rfl

/-- A chunk size fits its field in the header. -/
theorem toNat_ofNat_chunkSize {size : Nat} (h : size ≤ config.maxChunkSize) :
    (UInt32.ofNat size).toNat = size :=
  UInt32.toNat_ofNat_of_lt' (lt_of_le_of_lt (h.trans config.maxChunkSize_le) (by decide))

/-! ## The key -/

/-- The recipients that a mode takes. -/
def Addressable (config : Config) (recipients : List Recipient) : Mode → Prop
  | .simple | .single => recipients.length = 1
  | .multiple => config.Admits recipients

/-- The octets that are drawn for a number of recipients once the ephemeral key is there. -/
def drawn (count : Nat) : Mode → Nat
  | .simple | .single => 16
  | .multiple => 48 + count * 16

/-- The identifier is the recipient's, where the mode asks for one. -/
def Identifies (r : Recipient) (id : Option Bytes) : Mode → Prop
  | .simple | .single => True
  | .multiple => id = some r.id

/-- In the header of an established stream each recipient finds the stream's key. -/
structure Established.OpensFor (e : Established) (config : Config) (recipients : List Recipient)
    (mode : Mode) : Prop where
  valid : e.header.Valid config
  recoverKey : ∀ r ∈ recipients, ∀ key : PrivateKey, key.publicKey.Form r.publicKey →
    ∀ id, Identifies r id mode → recoverKey config key id e.header = .ok e.key

/-- What is established for one recipient with an ephemeral key, as the recipient finds it. -/
def Established.forOne (key ephemeral : PrivateKey) (baseIv : Octets 16) (chunkSize : UInt32) :
    Established where
  header := { ephemeral := ephemeral.publicKey.compressed, baseIv, chunkSize, recipients := none }
  key := key.sharedKey ephemeral.publicKey

theorem Established.valid_forOne (key ephemeral : PrivateKey) (baseIv : Octets 16)
    {chunkSize : UInt32} (hpos : 1 ≤ chunkSize.toNat)
    (hle : chunkSize.toNat ≤ config.maxChunkSize) :
    (forOne key ephemeral baseIv chunkSize).header.Valid config :=
  ⟨hpos, hle, trivial⟩

@[simp] theorem Established.length_octets_forOne (key ephemeral : PrivateKey)
    (baseIv : Octets 16) (chunkSize : UInt32) :
    (forOne key ephemeral baseIv chunkSize).header.octets.length = 54 := by
  simp [forOne, Header.octets, Header.tableOctets]

theorem Established.recoverKey_forOne (config : Config) (key ephemeral : PrivateKey)
    (baseIv : Octets 16) (chunkSize : UInt32) (id : Option Bytes) :
    recoverKey config key id (forOne key ephemeral baseIv chunkSize).header
      = .ok (forOne key ephemeral baseIv chunkSize).key := by
  have hpeer : parsePublicKey ephemeral.publicKey.compressed.bytes = .ok ephemeral.publicKey :=
    parsePublicKey_publicKey .compressed
  simp only [recoverKey, forOne, hpeer, Config.sharedKey_eq]

section Establish

variable {tape rest : Tape} {ephemeral : PrivateKey} {size : Nat}

/-- For a public key that can be read a stream is established, if the tape has what is drawn. -/
theorem exists_established_for_one (config : Config) {publicKey : Bytes} {peer : Curve.Point}
    (size : Nat)
    (hpeer : parsePublicKey publicKey = .ok peer)
    (hdraw : Draw.privateKey tape = some (ephemeral, rest)) (hrest : 16 ≤ rest.length) :
    ∃ established baseIv tape',
      (establishForOne config size publicKey).run tape = some (.ok established, tape')
        ∧ established.header = ⟨ephemeral.publicKey.compressed, baseIv, UInt32.ofNat size, none⟩
        ∧ established.key = ephemeral.sharedKey peer := by
  obtain ⟨baseIv, hiv⟩ := Draw.takes_octets 16 rest hrest
  simp only [establishForOne, Sealing.bind_eq_ok, Sealing.lift_eq_ok, Sealing.draw_eq_ok,
    Sealing.pure_eq_ok]
  exact ⟨_, baseIv, _, ⟨_, _, hdraw, peer, _, ⟨hpeer, rfl⟩, _, _, hiv, rfl, rfl⟩, rfl,
    config.sharedKey_eq ephemeral peer⟩

/-- In whatever is established for one public key, its owner finds the key. -/
theorem recoverKey_of_establishForOne {publicKey : Bytes} {established : Established}
    (h : (establishForOne config size publicKey).run tape = some (.ok established, rest))
    {key : PrivateKey} (hkey : key.publicKey.Form publicKey) (id : Option Bytes) :
    recoverKey config key id established.header = .ok established.key := by
  simp only [establishForOne, Sealing.bind_eq_ok, Sealing.lift_eq_ok, Sealing.draw_eq_ok,
    Sealing.pure_eq_ok, parsePublicKey_publicKey hkey, Except.ok.injEq, Config.sharedKey_eq] at h
  obtain ⟨ephemeral, _, -, _, _, ⟨rfl, -⟩, baseIv, _, -, rfl, -⟩ := h
  rw [← key.sharedKey_comm]
  exact Established.recoverKey_forOne config key ephemeral baseIv _ id

theorem exists_establishForOne (mode : Mode) {r : Recipient}
    (hkey : ∃ key : PrivateKey, key.publicKey.Form r.publicKey) (hpos : 1 ≤ size)
    (hle : size ≤ config.maxChunkSize) (hdraw : Draw.privateKey tape = some (ephemeral, rest))
    (hrest : 16 ≤ rest.length) :
    ∃ established tape',
      (establishForOne config size r.publicKey).run tape = some (.ok established, tape')
        ∧ established.header.chunkSize.toNat = size
        ∧ established.OpensFor config [r] mode := by
  obtain ⟨key, hkey⟩ := hkey
  obtain ⟨⟨header, sharedKey⟩, baseIv, tape', hrun, rfl, rfl⟩ :=
    exists_established_for_one config size (parsePublicKey_publicKey hkey) hdraw hrest
  have hsize := toNat_ofNat_chunkSize hle
  refine ⟨_, tape', hrun, hsize, ?_, ?_⟩
  · exact ⟨hpos.trans_eq hsize.symm, hsize.trans_le hle, trivial⟩
  · intro r' hr' key' hkey' id _
    obtain rfl := List.mem_singleton.1 hr'
    exact recoverKey_of_establishForOne hrun hkey' id

/-- For admitted recipients whose public keys can be read a stream is established, with an entry for
    each of them in its header, if the tape has what is drawn. -/
theorem exists_established_for_many (size : Nat) (hadmits : config.Admits recipients)
    (hreadable : Readable recipients) (hdraw : Draw.privateKey tape = some (ephemeral, rest))
    (hrest : 48 + recipients.length * 16 ≤ rest.length) :
    ∃ established baseIv entries tape',
      (establishForMany config size recipients).run tape = some (.ok established, tape')
        ∧ established.header
          = ⟨ephemeral.publicKey.compressed, baseIv, UInt32.ofNat size, some entries⟩
        ∧ List.Forall₂ (KeyWrap.WrappedFor config ephemeral established.key) recipients
          entries := by
  obtain ⟨messageKey, t, entries, t', baseIv, t'', hmessageKey, hentries, hiv, hwrapped⟩ :=
    KeyWrap.exists_wrapped config ephemeral hreadable hrest
  simp only [establishForMany, Sealing.bind_eq_ok, Sealing.lift_eq_ok, Sealing.draw_eq_ok,
    Sealing.pure_eq_ok]
  exact ⟨_, baseIv, entries, _, ⟨_, _, hdraw, (), _,
    ⟨Config.checkRecipients_eq_ok_iff.2 hadmits, rfl⟩, _, _, hmessageKey, _, _, hentries, _, _, hiv,
    rfl, rfl⟩, rfl, hwrapped⟩

/-- In whatever is established for several recipients, each of them finds the key. -/
theorem recoverKey_of_establishForMany {established : Established}
    (h : (establishForMany config size recipients).run tape = some (.ok established, rest))
    {r : Recipient} (hr : r ∈ recipients) {key : PrivateKey}
    (hkey : key.publicKey.Form r.publicKey) :
    recoverKey config key (some r.id) established.header = .ok established.key := by
  simp only [establishForMany, Sealing.bind_eq_ok, Sealing.lift_eq_ok, Sealing.draw_eq_ok,
    Sealing.pure_eq_ok] at h
  obtain ⟨ephemeral, _, -, _, _, ⟨hcheck, -⟩, _, _, -, entries, _, hentries, _, _, -, rfl, -⟩ := h
  have hadmits := Config.checkRecipients_eq_ok_iff.1 hcheck
  have hwrapped := KeyWrap.wrappedFor_of_wrapAll hentries
  obtain ⟨e, hfind, he⟩ := KeyWrap.find?_eq_some_of_wrappedFor hadmits.nodup hwrapped hr
  simp only [recoverKey, hfind]
  exact he.unwrap_eq hkey

theorem exists_establishForMany (hadmits : config.Admits recipients)
    (hkeys : ∀ r ∈ recipients, ∃ key : PrivateKey, key.publicKey.Form r.publicKey)
    (hpos : 1 ≤ size) (hle : size ≤ config.maxChunkSize)
    (hdraw : Draw.privateKey tape = some (ephemeral, rest))
    (hrest : 48 + recipients.length * 16 ≤ rest.length) :
    ∃ established tape',
      (establishForMany config size recipients).run tape = some (.ok established, tape')
        ∧ established.header.chunkSize.toNat = size
        ∧ established.OpensFor config recipients .multiple := by
  obtain ⟨⟨header, messageKey⟩, baseIv, entries, tape', hrun, rfl, hwrapped⟩ :=
    exists_established_for_many size hadmits (readable_of_form hkeys) hdraw hrest
  have hsize := toNat_ofNat_chunkSize hle
  refine ⟨_, tape', hrun, hsize, ?_, ?_⟩
  · exact ⟨hpos.trans_eq hsize.symm, hsize.trans_le hle,
      KeyWrap.valid_of_wrappedFor hadmits hwrapped⟩
  · rintro r hr key hkey id rfl
    exact recoverKey_of_establishForMany hrun hr hkey

/-- A stream can be established in every mode for all recipients that the mode takes. -/
theorem exists_establish {mode : Mode} (haddressable : Addressable config recipients mode)
    (hkeys : ∀ r ∈ recipients, ∃ key : PrivateKey, key.publicKey.Form r.publicKey)
    (hsize : ∀ size, requested = some size → 1 ≤ size ∧ size ≤ config.maxChunkSize)
    (hdraw : Draw.privateKey tape = some (ephemeral, rest))
    (hrest : drawn recipients.length mode ≤ rest.length) :
    ∃ established tape',
      (establish config mode recipients requested).run tape = some (.ok established, tape')
        ∧ established.header.chunkSize.toNat = requested.getD config.chunkSize
        ∧ established.OpensFor config recipients mode := by
  have hbounds : 1 ≤ requested.getD config.chunkSize
      ∧ requested.getD config.chunkSize ≤ config.maxChunkSize := by
    cases requested with
    | none => exact ⟨config.chunkSize_pos, config.chunkSize_le_max⟩
    | some size => exact hsize size rfl
  have hresolve : resolveChunkSize config requested = .ok (requested.getD config.chunkSize) :=
    resolveChunkSize_eq_ok_iff.2 ⟨rfl, hbounds⟩
  have hone (mode : Mode) (hmode : mode ≠ .multiple) (hlength : recipients.length = 1)
      (hiv : 16 ≤ rest.length) :
      ∃ established tape',
        (establish config mode recipients requested).run tape = some (.ok established, tape')
          ∧ established.header.chunkSize.toNat = requested.getD config.chunkSize
          ∧ established.OpensFor config recipients mode := by
    obtain ⟨r, rfl⟩ := List.length_eq_one_iff.1 hlength
    obtain ⟨established, tape', hrun, hchunkSize, hopens⟩ :=
      exists_establishForOne mode (hkeys r (List.mem_singleton_self r)) hbounds.1 hbounds.2 hdraw
        hiv
    refine ⟨established, tape', ?_, hchunkSize, hopens⟩
    cases mode with
    | multiple => exact absurd rfl hmode
    | _ =>
      simp only [establish, Sealing.bind_eq_ok, Sealing.lift_eq_ok]
      exact ⟨r, tape, ⟨rfl, rfl⟩, _, tape, ⟨hresolve, rfl⟩, hrun⟩
  cases mode with
  | simple => exact hone .simple (by decide) haddressable hrest
  | single => exact hone .single (by decide) haddressable hrest
  | multiple =>
    obtain ⟨established, tape', hrun, hchunkSize, hopens⟩ :=
      exists_establishForMany haddressable hkeys hbounds.1 hbounds.2 hdraw hrest
    refine ⟨established, tape', ?_, hchunkSize, hopens⟩
    simp only [establish, Sealing.bind_eq_ok, Sealing.lift_eq_ok]
    exact ⟨_, tape, ⟨hresolve, rfl⟩, hrun⟩

theorem chunkSize_of_establishForOne {publicKey : Bytes} {established : Established}
    (h : (establishForOne config size publicKey).run tape = some (.ok established, rest)) :
    established.header.chunkSize = UInt32.ofNat size := by
  simp only [establishForOne, Sealing.bind_eq_ok, Sealing.pure_eq_ok] at h
  obtain ⟨_, _, -, _, _, -, _, _, -, rfl, -⟩ := h
  rfl

theorem chunkSize_of_establishForMany {established : Established}
    (h : (establishForMany config size recipients).run tape = some (.ok established, rest)) :
    established.header.chunkSize = UInt32.ofNat size := by
  simp only [establishForMany, Sealing.bind_eq_ok, Sealing.pure_eq_ok] at h
  obtain ⟨_, _, -, _, _, -, _, _, -, _, _, -, _, _, -, rfl, -⟩ := h
  rfl

/-- Every established stream has the chunk size that was asked for. -/
theorem chunkSize_of_establish {mode : Mode} {established : Established}
    (h : (establish config mode recipients requested).run tape = some (.ok established, rest)) :
    1 ≤ established.header.chunkSize.toNat
      ∧ established.header.chunkSize.toNat = requested.getD config.chunkSize := by
  have hresolved (hchunkSize : ∃ size, resolveChunkSize config requested = .ok size
      ∧ established.header.chunkSize = UInt32.ofNat size) :
      1 ≤ established.header.chunkSize.toNat
        ∧ established.header.chunkSize.toNat = requested.getD config.chunkSize := by
    obtain ⟨size, hresolve, hchunkSize⟩ := hchunkSize
    obtain ⟨rfl, hpos, hle⟩ := resolveChunkSize_eq_ok_iff.1 hresolve
    rw [hchunkSize, toNat_ofNat_chunkSize hle]
    exact ⟨hpos, rfl⟩
  apply hresolved
  cases mode with
  | multiple =>
    simp only [establish, Sealing.bind_eq_ok, Sealing.lift_eq_ok] at h
    obtain ⟨size, _, ⟨hresolve, rfl⟩, h⟩ := h
    exact ⟨size, hresolve, chunkSize_of_establishForMany h⟩
  | _ =>
    simp only [establish, Sealing.bind_eq_ok, Sealing.lift_eq_ok] at h
    obtain ⟨_, _, -, size, _, ⟨hresolve, rfl⟩, h⟩ := h
    exact ⟨size, hresolve, chunkSize_of_establishForOne h⟩

end Establish

end SealedEnvelope.Stream
