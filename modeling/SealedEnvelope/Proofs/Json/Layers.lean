import SealedEnvelope.Proofs.Json.ByName

set_option autoImplicit false

/-! # Layers of overrides

Overrides are laid over the document of a value, and the result is read as a new value. When a
second layer follows, it is laid over what was read from the first, written out again. For a codec
that is `Layered` the detour makes no difference: laying the second layer over the first and both
over the base gives the same. This is a property of codecs and not of merging, as writing and
reading in between may change the document. It holds of scalars (`Codec.layered_of_scalar`), and of
maps and records if it holds of what stands in them (`Codec.ByName.layered`), for layers that keep
to the shape in which the codec writes. -/

namespace SealedEnvelope.Json

/-- A document laid over another, if there is one. -/
def laid (base : Option Json) (overlay : Json) : Json :=
  match base with
  | none => overlay
  | some old => old.merge overlay

theorem mergeAt_some (base : Option Json) (overlay : Json) :
    mergeAt base (some overlay) = some (laid base overlay) := by
  cases base <;> rfl

theorem laid_of_not_object {overlay : Json} (h : overlay.isObject = false) (base : Option Json) :
    laid base overlay = overlay := by
  cases base with
  | none => rfl
  | some old => exact merge_of_not_object h old

/-- Nothing of a base that is no object is kept. -/
theorem merge_of_base_not_object {base : Json} (h : base.isObject = false) (overlay : Json) :
    base.merge overlay = overlay := by
  cases overlay with
  | object members => exact merge_object_of_not_object h members
  | _ => rfl

theorem isObject_merge {overlay : Json} (h : overlay.isObject = true) (base : Json) :
    (base.merge overlay).isObject = true := by
  obtain ⟨members, rfl⟩ := exists_of_isObject h
  cases base <;> rfl

theorem isObject_laid {overlay : Json} (h : overlay.isObject = true) (base : Option Json) :
    (laid base overlay).isObject = true := by
  cases base with
  | none => exact h
  | some old => exact isObject_merge h old

theorem Distinct.laid {overlay : Json} (h : overlay.Distinct) {base : Option Json}
    (hbase : ∀ old, base = some old → old.Distinct) : (laid base overlay).Distinct := by
  cases base with
  | none => exact h
  | some old => exact (hbase old rfl).merge h

theorem member?_laid {overlay : Json} (h : overlay.Distinct) (hobject : overlay.isObject = true)
    (base : Option Json) (name : String) :
    (laid base overlay).member? name
      = mergeAt (base.bind (member? name)) (overlay.member? name) := by
  cases base with
  | none => cases hmember : overlay.member? name <;> simp [laid, mergeAt, hmember]
  | some old => exact member?_merge h hobject old name

namespace Codec

variable {α β σ : Type} {codec : Codec α} {shape : Json → Prop}

/-- What is written reads back and lists no name twice, and layers of a shape can be laid over each
    other before or after reading. -/
structure Layered (codec : Codec α) (shape : Json → Prop) : Prop where
  lawful : codec.Lawful
  distinct : ∀ a, (codec.encode a).Distinct
  layered : ∀ (base : Option α) (first second : Json), shape first → shape second →
    first.Distinct → second.Distinct → ∀ a,
    codec.decode (laid (base.map codec.encode) first) = .ok a → ∀ b,
      codec.decode ((codec.encode a).merge second) = .ok b
        ↔ codec.decode (laid (base.map codec.encode) (first.merge second)) = .ok b

/-! ## Scalars -/

/-- Values that are neither written as objects nor read from objects are replaced as a whole. -/
theorem layered_of_scalar (hlawful : codec.Lawful) (hdistinct : ∀ a, (codec.encode a).Distinct)
    (hread : ∀ value a, codec.decode value = .ok a → value.isObject = false) :
    codec.Layered shape where
  lawful := hlawful
  distinct := hdistinct
  layered base first second _ _ _ _ a _ b := by
    cases hsecond : second.isObject with
    | false =>
      rw [merge_of_not_object hsecond, merge_of_not_object hsecond, laid_of_not_object hsecond]
    | true =>
      -- an object is laid over whatever there is, and objects are not read
      have hrefuse : ∀ value : Json, value.isObject = true → codec.decode value ≠ .ok b := by
        intro value hobject h
        rw [hread value b h] at hobject
        cases hobject
      exact iff_of_false (hrefuse _ (isObject_merge hsecond _))
        (hrefuse _ (isObject_laid (isObject_merge hsecond _) _))

theorem isObject_of_decodeNat {bound n : Nat} {wanted : String} {value : Json}
    (h : decodeNat bound wanted value = .ok n) : value.isObject = false := by
  cases value with
  | object members => cases h
  | _ => rfl

theorem layered_size : size.Layered shape :=
  layered_of_scalar lawful_size (fun _ => distinct_number _) fun _ _ h => by
    obtain ⟨n, hn, -⟩ := map_eq_ok.1 h
    exact isObject_of_decodeNat hn

theorem layered_count : count.Layered shape :=
  layered_of_scalar lawful_count (fun _ => distinct_number _) fun _ _ h => by
    obtain ⟨n, hn, -⟩ := map_eq_ok.1 h
    exact isObject_of_decodeNat hn

theorem layered_octet : octet.Layered shape :=
  layered_of_scalar lawful_octet (fun _ => distinct_number _) fun _ _ h => by
    obtain ⟨n, hn, -⟩ := map_eq_ok.1 h
    exact isObject_of_decodeNat hn

theorem isObject_of_decode_string {value : Json} {s : String} (h : string.decode value = .ok s) :
    value.isObject = false := by
  cases value with
  | string s => rfl
  | _ => cases h

theorem layered_string : string.Layered shape :=
  layered_of_scalar lawful_string (fun _ => distinct_string _) fun _ _ => isObject_of_decode_string

/-! ## One name -/

/-- What `Layered` asks of a codec, asked of one name of an object. -/
structure SlotLayered (slot : Slot β) (shape : Json → Prop) : Prop where
  self : ∀ a, slot.Reads (slot.write a) a
  unique : ∀ value a b, slot.Reads value a → (slot.Reads value b ↔ slot.write a = slot.write b)
  /-- What is written where there was nothing does not last under a layer. -/
  fresh : ∀ a, slot.Reads none a → ∀ second, laid (slot.write a) second = second
  layered : ∀ (base : Option β) (first second : Json), shape first → shape second →
    first.Distinct → second.Distinct → ∀ a,
    slot.Reads (some (laid (base.bind slot.write) first)) a → ∀ b,
      slot.Reads (some (laid (slot.write a) second)) b
        ↔ slot.Reads (some (laid (base.bind slot.write) (first.merge second))) b

variable {slot : Slot β}

/-- Either layer may also leave the name out. -/
theorem SlotLayered.reads_iff (h : SlotLayered slot shape) (base : Option β)
    {first second : Option Json} (hfirst : ∀ value, first = some value → shape value)
    (hsecond : ∀ value, second = some value → shape value)
    (hfirstDistinct : ∀ value, first = some value → value.Distinct)
    (hsecondDistinct : ∀ value, second = some value → value.Distinct) {a : β}
    (ha : slot.Reads (mergeAt (base.bind slot.write) first) a) (b : β) :
    slot.Reads (mergeAt (slot.write a) second) b
      ↔ slot.Reads (mergeAt (base.bind slot.write) (mergeAt first second)) b := by
  cases second with
  | none =>
    rw [mergeAt, h.unique _ _ _ (h.self a), ← h.unique _ _ _ ha]
    cases first <;> rfl
  | some second =>
    cases first with
    | some first =>
      rw [mergeAt_some] at ha
      have hmerged : mergeAt (some first) (some second) = some (first.merge second) := rfl
      rw [hmerged, mergeAt_some, mergeAt_some, h.layered base first second (hfirst _ rfl)
        (hsecond _ rfl) (hfirstDistinct _ rfl) (hsecondDistinct _ rfl) a ha]
    | none =>
      have hbase : mergeAt (base.bind slot.write) none = base.bind slot.write := by
        cases base.bind slot.write <;> rfl
      have hnone : mergeAt none (some second) = some second := rfl
      rw [hbase] at ha
      rw [hnone]
      cases base with
      | none => rw [mergeAt_some, h.fresh a ha, Option.bind_none, hnone]
      | some old =>
        -- the value has been taken over from the base
        rw [Option.bind_some] at ha ⊢
        rw [(h.unique _ _ _ (h.self old)).1 ha]

/-! ## Objects -/

/-- An object with what has a shape under each name. -/
def ObjectOf (shape : String → Json → Prop) (value : Json) : Prop :=
  value.isObject = true ∧ ∀ name next, value.member? name = some next → shape name next

theorem objectOf_of_forall_mem {shape : String → Json → Prop} {members : Members}
    (h : ∀ m ∈ members, shape m.1 m.2) : ObjectOf shape (.object members) :=
  ⟨rfl, fun _ _ hmember => h _ (Members.mem_of_find? hmember)⟩

/-- A codec that is read by name is layered if each name is. -/
theorem ByName.layered {codec : Codec β} {slot : String → Slot β} {shape : String → Json → Prop}
    (h : codec.ByName slot) (hlawful : codec.Lawful) (hdistinct : ∀ a, (codec.encode a).Distinct)
    (hslot : ∀ name, SlotLayered (slot name) (shape name)) :
    codec.Layered (ObjectOf shape) where
  lawful := hlawful
  distinct := hdistinct
  layered base first second hfirst hsecond hfirstDistinct hsecondDistinct a ha b := by
    obtain ⟨hfirstObject, hfirstShape⟩ := hfirst
    obtain ⟨hsecondObject, hsecondShape⟩ := hsecond
    have hbase : ∀ old, base.map codec.encode = some old → old.Distinct := by
      intro old hold
      obtain ⟨b, -, rfl⟩ := Option.map_eq_some_iff.1 hold
      exact hdistinct b
    have hmember : ∀ {overlay : Json}, overlay.Distinct → overlay.isObject = true → ∀ name,
        (laid (base.map codec.encode) overlay).member? name
          = mergeAt (base.bind (slot name).write) (overlay.member? name) := by
      intro overlay hoverlay hobject name
      rw [member?_laid hoverlay hobject]
      cases base with
      | none => rfl
      | some old => rw [Option.map_some, Option.bind_some, Option.bind_some, h.member?]
    have hbothObject := isObject_merge hsecondObject first
    have hbothDistinct := hfirstDistinct.merge hsecondDistinct
    rw [h.decode _ (isObject_laid hfirstObject _) (hfirstDistinct.laid hbase)] at ha
    rw [h.decode _ (isObject_merge hsecondObject _) ((hdistinct a).merge hsecondDistinct),
      h.decode _ (isObject_laid hbothObject _) (hbothDistinct.laid hbase)]
    refine forall_congr' fun name => ?_
    rw [member?_merge hsecondDistinct hsecondObject, h.member?, hmember hbothDistinct hbothObject,
      member?_merge hsecondDistinct hsecondObject]
    refine (hslot name).reads_iff base (hfirstShape name) (hsecondShape name)
      (fun _ => hfirstDistinct.of_member?) (fun _ => hsecondDistinct.of_member?) ?_ b
    rw [← hmember hfirstDistinct hfirstObject]
    exact ha name

/-! ## Maps -/

theorem rel_none_iff {a : Option α} :
    Option.Rel (fun value a => codec.decode value = .ok a) none a ↔ a = none := by
  constructor
  · rintro ⟨⟩
    rfl
  · rintro rfl
    exact .none

theorem rel_some_iff {value : Json} {a : Option α} :
    Option.Rel (fun value a => codec.decode value = .ok a) (some value) a
      ↔ ∃ x, a = some x ∧ codec.decode value = .ok x := by
  constructor
  · rintro (h | _)
    exact ⟨_, rfl, h⟩
  · rintro ⟨x, rfl, h⟩
    exact .some h

theorem Layered.mapSlot (h : codec.Layered shape) (name : String) :
    SlotLayered (Codec.mapSlot codec name) shape where
  self m := by
    simp only [Codec.mapSlot]
    cases m.get? name with
    | none => exact .none
    | some a => exact .some (h.lawful a)
  unique value m m' hm := by
    simp only [Codec.mapSlot] at hm ⊢
    cases value with
    | none =>
      rw [rel_none_iff] at hm ⊢
      rw [hm]
      cases m'.get? name <;> simp
    | some value =>
      obtain ⟨a, hget, ha⟩ := rel_some_iff.1 hm
      rw [rel_some_iff, hget, ha]
      cases m'.get? name <;> simp [h.lawful.encode_inj]
  fresh m hm second := by
    simp only [Codec.mapSlot] at hm ⊢
    rw [rel_none_iff.1 hm]
    rfl
  layered base first second hfirst hsecond hfirstDistinct hsecondDistinct m hm m' := by
    have hold : base.bind (Codec.mapSlot codec name).write
        = (base.bind fun m => m.get? name).map codec.encode := by
      cases base <;> rfl
    rw [hold] at hm ⊢
    obtain ⟨a, hget, ha⟩ := rel_some_iff.1 hm
    have hwrite : (Codec.mapSlot codec name).write m = some (codec.encode a) :=
      congrArg (Option.map codec.encode) hget
    rw [hwrite]
    refine rel_some_iff.trans (Iff.trans ?_ rel_some_iff.symm)
    exact exists_congr fun b => and_congr_right fun _ =>
      h.layered _ first second hfirst hsecond hfirstDistinct hsecondDistinct a ha b

theorem Layered.nameMap (h : codec.Layered shape) :
    (Codec.nameMap codec).Layered (ObjectOf fun _ => shape) := by
  refine (byName_nameMap codec).layered h.lawful.nameMap ?_ h.mapSlot
  intro m
  have hnames : Members.names (m.entries.map fun e => (e.1, codec.encode e.2)) = m.keys := by
    simp [Members.names, NameMap.keys]
  exact distinct_object_iff.2
    ⟨by rw [hnames]; exact m.nodup_keys, List.forall_mem_map.2 fun e _ => h.distinct e.2⟩

/-! ## Records -/

variable {fields : List (Field σ)} {blank : σ}

/-- What is asked of a field of a layered record. -/
structure Field.Layered (field : Field σ) (fields : List (Field σ)) (blank : σ)
    (shape : Json → Prop) : Prop where
  apart : field.Apart fields
  gives_write : ∀ s, field.Gives (field.write s) s
  distinct : ∀ s, (field.write s).Distinct
  /-- What an object may leave out is not written as an object while it is left out. -/
  blank : field.optional = true → (field.write blank).isObject = false
  layered : ∀ (base : Option σ) (first second : Json), shape first → shape second →
    first.Distinct → second.Distinct → ∀ a,
    field.Gives (laid (base.map field.write) first) a → ∀ b,
      field.Gives ((field.write a).merge second) b
        ↔ field.Gives (laid (base.map field.write) (first.merge second)) b

section Field

variable {name : String} {get : σ → α} {set : α → σ → σ}

theorem Lawful.gives_of_iff (h : codec.Lawful) (hget : ∀ a s, get (set a s) = a) {value : Json}
    {s : σ} : (Field.of name codec get set).Gives value s ↔ codec.decode value = .ok (get s) := by
  constructor
  · rintro ⟨before, behind, hread, hwrite⟩
    obtain ⟨a, ha, rfl⟩ := map_eq_ok.1 hread
    rw [Field.write_of, Field.write_of, hget, h.encode_inj] at hwrite
    rw [ha, hwrite]
  · intro hdecode
    refine ⟨s, set (get s) s, map_eq_ok.2 ⟨_, hdecode, rfl⟩, ?_⟩
    rw [Field.write_of, Field.write_of, hget]

/-- A field with values of a layered codec. -/
theorem Layered.field (h : codec.Layered shape) (hget : ∀ a s, get (set a s) = a)
    (hothers : ∀ g ∈ fields, g.name ≠ name → ∀ a s, g.write (set a s) = g.write s) :
    (Field.of name codec get set).Layered fields blank shape where
  apart := by
    intro document s t hread s'
    obtain ⟨a, ha, rfl⟩ := map_eq_ok.1 hread
    refine ⟨set a s', map_eq_ok.2 ⟨a, ha, rfl⟩, ?_, fun g hg hname => hothers g hg hname a s'⟩
    rw [Field.write_of, Field.write_of, hget, hget]
  gives_write s := (h.lawful.gives_of_iff hget).2 (h.lawful (get s))
  distinct s := h.distinct (get s)
  blank := nofun
  layered base first second hfirst hsecond hfirstDistinct hsecondDistinct a ha b := by
    have hbase :
        base.map (Field.of name codec get set).write = (base.map get).map codec.encode := by
      cases base <;> rfl
    rw [hbase] at ha ⊢
    rw [h.lawful.gives_of_iff hget] at ha ⊢
    rw [h.lawful.gives_of_iff hget]
    exact h.layered (base.map get) first second hfirst hsecond hfirstDistinct hsecondDistinct _ ha _

theorem Field.Layered.mayMiss {field : Field σ} (h : field.Layered fields blank shape)
    (hblank : (field.write blank).isObject = false) :
    field.mayMiss.Layered fields blank shape :=
  { h with blank := fun _ => hblank }

end Field

theorem find?_of_nodup (h : (fields.map (·.name)).Nodup) {field : Field σ}
    (hfield : field ∈ fields) : fields.find? (·.name = field.name) = some field := by
  induction fields with
  | nil => cases hfield
  | cons first rest ih =>
    obtain ⟨hfirst, hrest⟩ := List.nodup_cons.1 h
    rw [List.find?_cons]
    rcases List.mem_cons.1 hfield with rfl | hfield
    · simp
    · have hne : first.name ≠ field.name := fun heq =>
        hfirst (List.mem_map.2 ⟨field, hfield, heq.symm⟩)
      simpa [hne] using ih hrest hfield

/-- The fields of a layered record can be told apart, are all that there is in a record, and are
    layered themselves. -/
structure LayeredFields (fields : List (Field σ)) (blank : σ) (shape : String → Json → Prop) :
    Prop where
  nodup : (fields.map (·.name)).Nodup
  ext : ∀ s t, (∀ f ∈ fields, f.write s = f.write t) → s = t
  field : ∀ f ∈ fields, f.Layered fields blank (shape f.name)

namespace LayeredFields

variable {shape : String → Json → Prop}

theorem separate (h : LayeredFields fields blank shape) : Separate fields where
  find _ := find?_of_nodup h.nodup
  apart f hf := (h.field f hf).apart
  ext := h.ext

/-- What is put into a field can be told from what is then written of it. -/
theorem gives_iff (h : LayeredFields fields blank shape) {field : Field σ} (hfield : field ∈ fields)
    {value : Json} {s t : σ} (hs : field.Gives value s) :
    field.Gives value t ↔ field.write s = field.write t := by
  obtain ⟨before, behind, hread, hwrite⟩ := hs
  constructor
  · rintro ⟨before', behind', hread', hwrite'⟩
    obtain ⟨u, hu, hsame, -⟩ := (h.field field hfield).apart value before behind hread before'
    obtain rfl := Except.ok.inj (hu.symm.trans hread')
    rw [← hwrite, ← hsame, hwrite']
  · intro heq
    exact ⟨before, behind, hread, hwrite.trans heq⟩

theorem recordSlot (h : LayeredFields fields blank shape) (name : String) :
    SlotLayered (Codec.recordSlot fields blank name) (shape name) := by
  cases hfind : fields.find? (·.name = name) with
  | none =>
    exact {
      self := by simp [Codec.recordSlot, hfind]
      unique := by simp +contextual [Codec.recordSlot, hfind]
      fresh := by simp [Codec.recordSlot, hfind, laid]
      layered := by simp [Codec.recordSlot, hfind] }
  | some field =>
    obtain ⟨hfield, rfl⟩ := h.separate.find?_eq_some_iff.1 hfind
    have hlayered := h.field field hfield
    have hbase : ∀ base : Option σ, (base.bind fun s => some (field.write s))
        = base.map field.write := by
      intro base
      cases base <;> rfl
    refine { self := ?_, unique := ?_, fresh := ?_, layered := ?_ }
    · simpa [Codec.recordSlot, hfind] using hlayered.gives_write
    · intro value s t hs
      simp only [Codec.recordSlot, hfind] at hs ⊢
      cases value with
      | none => simp [hs.1, hs.2, eq_comm]
      | some value => simpa using h.gives_iff hfield hs
    · intro s hs second
      simp only [Codec.recordSlot, hfind] at hs ⊢
      rw [Option.map_some, hs.2]
      exact merge_of_base_not_object (hlayered.blank hs.1) second
    · intro base first second hfirst hsecond hfirstDistinct hsecondDistinct a ha b
      simp only [Codec.recordSlot, hfind, Option.map_some, hbase] at ha ⊢
      exact hlayered.layered base first second hfirst hsecond hfirstDistinct hsecondDistinct a ha b

/-- Records are layered if their fields are. -/
theorem record (h : LayeredFields fields blank shape) {title : String}
    (hlawful : (Codec.record title blank fields).Lawful) :
    (Codec.record title blank fields).Layered (ObjectOf shape) := by
  refine (h.separate.byName_record title blank).layered hlawful ?_ h.recordSlot
  intro s
  have hnames : Members.names (members fields s) = fields.map (·.name) := by
    simp [Members.names, members]
  exact distinct_object_iff.2
    ⟨hnames ▸ h.nodup, List.forall_mem_map.2 fun f hf => (h.field f hf).distinct s⟩

/-- A record with fields that may have any shape. -/
theorem plainRecord (h : LayeredFields fields blank fun _ _ => True) {title : String}
    (hlawful : (Codec.record title blank fields).Lawful) :
    (Codec.record title blank fields).Layered (·.isObject = true) :=
  { h.record hlawful with
    layered := fun base first second hfirst hsecond =>
      (h.record hlawful).layered base first second ⟨hfirst, fun _ _ _ => trivial⟩
        ⟨hsecond, fun _ _ _ => trivial⟩ }

end LayeredFields

end Codec

end SealedEnvelope.Json
